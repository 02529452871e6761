import Open98.Drv.Mouse

/-! The bytes of the mouse, cut into packets. Every packet is processed once and in order, but only when the
byte after it arrives. -/
namespace Open98.Drv
open NtUser

section Segmentation

/-- The packets of a stream, taken greedily, and the bytes of a packet that is not complete. -/
def segment : List UCHAR → List Packet × List UCHAR
  | [] => ([], [])
  | b₀ :: rest =>
    if b₀ &&& 0b00001000 = 0 then segment rest
    else match rest with
      | [] => ([], [b₀])
      | [b₁] => ([], [b₀, b₁])
      | b₁ :: b₂ :: rest => (⟨b₀, b₁, b₂⟩ :: (segment rest).1, (segment rest).2)

/-- One more byte: the packet it completes, and what is left. -/
def arrive : List UCHAR → UCHAR → List Packet × List UCHAR
  | [], b => if b &&& 0b00001000 = 0 then ([], []) else ([], [b])
  | [b₀], b => ([], [b₀, b])
  | b₀ :: b₁ :: _, b => ([⟨b₀, b₁, b⟩], [])

lemma segment_skip {b₀ : UCHAR} (h : b₀ &&& 0b00001000 = 0) (rest : List UCHAR) :
    segment (b₀ :: rest) = segment rest := by
  match rest with
  | [] | [_] | _ :: _ :: _ => simp only [segment, if_pos h]

lemma segment_packet {b₀ : UCHAR} (h : ¬ b₀ &&& 0b00001000 = 0) (b₁ b₂ : UCHAR) (rest : List UCHAR) :
    segment (b₀ :: b₁ :: b₂ :: rest) = (⟨b₀, b₁, b₂⟩ :: (segment rest).1, (segment rest).2) := by
  rw [segment, if_neg h]

/-- The last byte of a stream does not change how the others are cut. -/
lemma segment_snoc (bs : List UCHAR) (b : UCHAR) :
    segment (bs ++ [b]) =
      ((segment bs).1 ++ (arrive (segment bs).2 b).1, (arrive (segment bs).2 b).2) := by
  fun_induction segment bs with
  | case1 =>
    simp only [List.nil_append, segment, arrive]
  | case2 b₀ rest h ih => rw [List.cons_append, segment_skip h, ih]
  | case3 b₀ h => rw [List.singleton_append, segment, if_neg h]; rfl
  | case4 b₀ h b₁ => rw [List.cons_append, List.singleton_append, segment_packet h]; rfl
  | case5 b₀ h b₁ b₂ rest ih =>
    simp only [List.cons_append, segment_packet h, ih]

end Segmentation

section Runs
variable {s : Screen} {m m₀ : Mouse} {bs : List UCHAR} {p : Packet}

/-- What can be seen of the mouse: the pointer's position and the drags. -/
def Mouse.view (m : Mouse) : POINT × List POINT := (m.cursor.kiMousePosition, m.drags)

/-- The effect of `KiProcessMouse` for one packet. -/
def processed (s : Screen) (m : Mouse) (p : Packet) : Mouse :=
  kiProcessMouse s { m with kiMousePacket := p, bMousePacketReady := true }

lemma kiProcessMouse_view (hready : m.bMousePacketReady = true) :
    (kiProcessMouse s m).view = (m.kiMousePacket.position s m.view.1, m.view.2 ++ m.kiMousePacket.drag s m.view.1) := by
  refine Prod.ext (kiProcessMouse_position hready) ?_
  rw [kiProcessMouse, hready]
  rfl

lemma processed_view (m : Mouse) (p : Packet) :
    (processed s m p).view = (p.position s m.view.1, m.view.2 ++ p.drag s m.view.1) :=
  kiProcessMouse_view rfl

/-- The driver after some bytes: a packet that is complete waits, and nothing of the next one is stored. -/
structure Follows (s : Screen) (m₀ : Mouse) (bs : List UCHAR) (m : Mouse) : Prop where
  awake : m.bSkip = false
  cycle : m.kiMouseCycle = (segment bs).2.length
  stored : (segment bs).2 <+: [m.kiMousePacket.flags, m.kiMousePacket.x]
  waiting : ∃ done, (segment bs).1 = done ++ (if m.bMousePacketReady then [m.kiMousePacket] else []) ∧
    m.view = (done.foldl (processed s) m₀).view
  empty : m.bMousePacketReady = true → (segment bs).2 = []

/-- The call of `KiProcessMouse` at the next byte catches up. -/
lemma Follows.caughtUp (h : Follows s m₀ bs m) :
    Follows s m₀ bs (kiProcessMouse s m) ∧ (kiProcessMouse s m).bMousePacketReady = false ∧
      (kiProcessMouse s m).view = ((segment bs).1.foldl (processed s) m₀).view := by
  obtain ⟨done, hdone, hview⟩ := h.waiting
  cases hready : m.bMousePacketReady with
  | false =>
    have hsame : kiProcessMouse s m = m := by rw [kiProcessMouse, hready]; rfl
    rw [hready, if_neg Bool.false_ne_true, List.append_nil] at hdone
    rw [hsame, hdone]
    exact ⟨h, hready, hview⟩
  | true =>
    have hnext : (kiProcessMouse s m).bMousePacketReady = false := by rw [kiProcessMouse, hready]; rfl
    have hafter : (kiProcessMouse s m).view = ((segment bs).1.foldl (processed s) m₀).view := by
      rw [hdone, hready, if_pos rfl, List.foldl_append, List.foldl_cons, List.foldl_nil,
        kiProcessMouse_view hready, processed_view, hview]
    refine ⟨⟨?_, ?_, ?_, ⟨(segment bs).1, ?_, hafter⟩, fun _ => h.empty hready⟩, hnext, hafter⟩
    · rw [kiProcessMouse, hready]
      exact h.awake
    · rw [kiProcessMouse, hready]
      exact h.cycle
    · rw [h.empty hready]
      exact List.nil_prefix
    · rw [hnext, if_neg Bool.false_ne_true, List.append_nil]

/-- The state after one more byte, all earlier packets being processed. -/
lemma Follows.arrived {b : UCHAR} (hawake : m.bSkip = false)
    (hview : m.view = ((segment bs).1.foldl (processed s) m₀).view)
    (hcycle : m.kiMouseCycle = (arrive (segment bs).2 b).2.length)
    (hstored : (arrive (segment bs).2 b).2 <+: [m.kiMousePacket.flags, m.kiMousePacket.x])
    (hpacket : (arrive (segment bs).2 b).1 = if m.bMousePacketReady then [m.kiMousePacket] else [])
    (hempty : m.bMousePacketReady = true → (arrive (segment bs).2 b).2 = []) : Follows s m₀ (bs ++ [b]) m := by
  refine ⟨hawake, ?_, ?_, ⟨(segment bs).1, ?_, hview⟩, fun hready => ?_⟩ <;> rw [segment_snoc]
  · exact hcycle
  · exact hstored
  · rw [hpacket]
  · exact hempty hready

/-- The byte is stored, or skipped where no packet begins. -/
lemma Follows.byte (h : Follows s m₀ bs m) (b : UCHAR) :
    Follows s m₀ (bs ++ [b]) (kiHandlePS2Mouse s m b) ∧
      (kiHandlePS2Mouse s m b).view = ((segment bs).1.foldl (processed s) m₀).view := by
  obtain ⟨⟨hawake, hcycle, hstored, -, -⟩, hready, hview⟩ := h.caughtUp
  rw [kiHandlePS2Mouse]
  generalize kiProcessMouse s m = m at *
  have hnext (m' : Mouse) := @Follows.arrived s m' m₀ bs b
  generalize (segment bs).2 = left at *
  match left with
  | [] =>
    have hturn : m.kiMouseCycle = 0 := hcycle
    by_cases hbegin : b &&& 0b00001000 = 0
    · have harrive : arrive [] b = ([], []) := if_pos hbegin
      simp only [hawake, Bool.false_eq_true, if_false, hturn, hready, hbegin, if_true]
      refine ⟨hnext _ ?_ hview ?_ ?_ ?_ ?_, hview⟩ <;> simp [harrive, hawake, hturn, hready]
    · have harrive : arrive [] b = ([], [b]) := if_neg hbegin
      simp only [hawake, Bool.false_eq_true, if_false, hturn, hready, hbegin]
      refine ⟨hnext _ ?_ hview ?_ ?_ ?_ ?_, hview⟩ <;> simp [harrive]
  | [b₀] =>
    have hturn : m.kiMouseCycle = 1 := hcycle
    obtain ⟨rfl, -⟩ := List.cons_prefix_cons.mp hstored
    simp only [hawake, Bool.false_eq_true, if_false, hturn, hready]
    refine ⟨hnext _ ?_ hview ?_ ?_ ?_ ?_, hview⟩ <;> simp [arrive]
  | [b₀, b₁] =>
    have hturn : m.kiMouseCycle = 2 := hcycle
    obtain ⟨rfl, hx⟩ := List.cons_prefix_cons.mp hstored
    obtain ⟨rfl, -⟩ := List.cons_prefix_cons.mp hx
    simp only [hawake, Bool.false_eq_true, if_false, hturn, hready]
    refine ⟨hnext _ ?_ hview ?_ ?_ ?_ ?_, hview⟩ <;> simp [arrive]
  | b₀ :: b₁ :: b₂ :: left => exact absurd hstored.length_le (by simp)

/-- The driver before its first byte. -/
structure Mouse.Fresh (m : Mouse) : Prop where
  asleep : m.bSkip = true
  cycle : m.kiMouseCycle = 0
  noPacket : m.bMousePacketReady = false

/-- The driver after some bytes. -/
def delivered (s : Screen) (m : Mouse) (bytes : List UCHAR) : Mouse := bytes.foldl (kiHandlePS2Mouse s) m

/-- The first byte is discarded. -/
lemma Mouse.Fresh.first (h : m.Fresh) (ucData : UCHAR) : kiHandlePS2Mouse s m ucData = { m with bSkip := false } := by
  have hsame : kiProcessMouse s m = m := by rw [kiProcessMouse, h.noPacket]; rfl
  rw [kiHandlePS2Mouse, hsame]
  exact if_pos h.asleep

lemma Mouse.Fresh.follows (h : m.Fresh) (first : UCHAR) (bs : List UCHAR) :
    Follows s m bs (delivered s m (first :: bs)) := by
  induction bs using List.reverseRecOn with
  | nil =>
    rw [delivered, List.foldl_cons, List.foldl_nil, h.first]
    refine ⟨rfl, h.cycle, List.nil_prefix, ⟨[], ?_, rfl⟩, fun _ => rfl⟩
    simp [segment, h.noPacket]
  | append_singleton bs b ih =>
    rw [delivered, ← List.cons_append, List.foldl_append]
    exact (ih.byte b).1

/-- Every packet that was complete before the last byte has been processed once, in order. -/
lemma Mouse.Fresh.delivered_view (h : m.Fresh) (first : UCHAR) (bs : List UCHAR) (b : UCHAR) :
    (delivered s m (first :: (bs ++ [b]))).view = ((segment bs).1.foldl (processed s) m).view := by
  rw [delivered, ← List.cons_append, List.foldl_append]
  exact ((h.follows first bs).byte b).2

end Runs

section Delay
variable {s : Screen} {m : Mouse} {p : Packet} {position : POINT} {size n : ℤ}

/-- The packet moves nothing: the distance is zero, or the pointer is at the edge already. -/
structure Packet.Idle (s : Screen) (p : Packet) (position : POINT) : Prop where
  released : ¬ p.has ps2LeftButton
  x : (p.x = 0 ∧ ¬ p.has ps2XOverflow) ∨
    if p.has ps2XSign then position.X = 0
    else position.X = s.Width - 1 ∧ position.X + p.x.toNat + extension (p.has ps2XOverflow) < 2^31
  y : (p.y = 0 ∧ ¬ p.has ps2YOverflow) ∨
    if p.has ps2YSign then
      position.Y = s.Height - 1 ∧
        position.Y + ((256 - p.y.toNat) % 256 : ℕ) + extension (p.has ps2YOverflow) < 2^31
    else position.Y = 0

lemma extension_le (overflow : Bool) : extension overflow ≤ 255 := by
  rw [extension]
  split_ifs <;> decide

/-- A byte without an overflow moves nothing if it is zero. -/
lemma still_iff (overflow : Bool) (b : UCHAR) : (b = 0 ∧ ¬ overflow) ↔ b.toNat + extension overflow = 0 := by
  have hzero : b = 0 ↔ b.toNat = 0 := BitVec.toNat_eq
  rw [hzero, extension]
  cases overflow <;> simp

lemma clamped_moved_eq_self_iff (hn : 0 ≤ n) (hlt : n < size) (hsize : size < 2^31) (overflow : Bool) (b : UCHAR) :
    clamped size (moved false overflow b n) = n ↔
      (b = 0 ∧ ¬ overflow) ∨ n = size - 1 ∧ n + b.toNat + extension overflow < 2^31 := by
  have hb := b.isLt
  have hextension := extension_le overflow
  rw [clamped_moved hn hlt hsize, still_iff]
  split_ifs <;> omega

lemma clamped_moved_back_eq_self_iff (hn : 0 ≤ n) (hlt : n < size) (hsize : size < 2^31) (overflow : Bool)
    (b : UCHAR) : clamped size (moved true overflow b n) = n ↔ (b = 0 ∧ ¬ overflow) ∨ n = 0 := by
  rw [clamped_moved_back hn hlt hsize, still_iff]
  omega

lemma negated_eq_zero_iff (b : UCHAR) : negated true b = 0 ↔ b = 0 := by
  have hb := b.isLt
  have hzero (b : UCHAR) : b = 0 ↔ b.toNat = 0 := BitVec.toNat_eq
  rw [hzero, negated_toNat, hzero]
  omega

/-- A packet shows no effect exactly if it is idle. -/
lemma unchanged_iff (hs : s.Sized) (hp : OnScreen s position) (drags : List POINT) :
    (p.position s position, drags ++ p.drag s position) = (position, drags) ↔ p.Idle s position := by
  have hdrag : p.drag s position = [] ↔ ¬ p.has ps2LeftButton := by
    rw [Packet.drag]
    split_ifs with hleft <;> simp [hleft]
  have hx : (p.position s position).X = position.X ↔ (p.x = 0 ∧ ¬ p.has ps2XOverflow) ∨
      if p.has ps2XSign then position.X = 0
      else position.X = s.Width - 1 ∧ position.X + p.x.toNat + extension (p.has ps2XOverflow) < 2^31 := by
    cases hsign : p.has ps2XSign
    · simpa [Packet.position, Packet.written, hsign, negated] using
        clamped_moved_eq_self_iff hp.left hp.right hs.widthINT (p.has ps2XOverflow) p.x
    · have h := clamped_moved_back_eq_self_iff hp.left hp.right hs.widthINT (p.has ps2XOverflow) (negated true p.x)
      rw [negated_eq_zero_iff] at h
      simpa [Packet.position, Packet.written, hsign] using h
  have hy : (p.position s position).Y = position.Y ↔ (p.y = 0 ∧ ¬ p.has ps2YOverflow) ∨
      if p.has ps2YSign then position.Y = s.Height - 1 ∧
        position.Y + ((256 - p.y.toNat) % 256 : ℕ) + extension (p.has ps2YOverflow) < 2^31
      else position.Y = 0 := by
    cases hsign : p.has ps2YSign
    · simpa [Packet.position, Packet.written, hsign, negated] using
        clamped_moved_back_eq_self_iff hp.top hp.bottom hs.heightINT (p.has ps2YOverflow) p.y
    · have h := clamped_moved_eq_self_iff hp.top hp.bottom hs.heightINT (p.has ps2YOverflow) (negated true p.y)
      rw [negated_eq_zero_iff, negated_toNat] at h
      simpa [Packet.position, Packet.written, hsign] using h
  rw [Prod.mk.injEq, List.append_right_eq_self, hdrag]
  constructor
  · rintro ⟨hposition, hreleased⟩
    exact ⟨hreleased, hx.mp (congrArg POINT.X hposition), hy.mp (congrArg POINT.Y hposition)⟩
  · rintro ⟨hreleased, hidleX, hidleY⟩
    refine ⟨?_, hreleased⟩
    rw [← hx] at hidleX
    rw [← hy] at hidleY
    exact POINT.mk.injEq .. ▸ ⟨hidleX, hidleY⟩

/-- Idle packets leave the view alone. -/
lemma foldl_processed_view {packets : List Packet} (hs : s.Sized) (hp : OnScreen s m.cursor.kiMousePosition)
    (h : ∀ p ∈ packets, p.Idle s m.cursor.kiMousePosition) : (packets.foldl (processed s) m).view = m.view := by
  induction packets using List.reverseRecOn with
  | nil => rfl
  | append_singleton packets p ih =>
    have hbefore := ih fun q hq => h q (List.mem_append_left _ hq)
    rw [List.foldl_append, List.foldl_cons, List.foldl_nil, processed_view, hbefore]
    exact (unchanged_iff hs hp _).mpr (h p (by simp))

lemma arrive_cases (left : List UCHAR) (b : UCHAR) : (arrive left b).1 = [] ∨ ∃ p, (arrive left b).1 = [p] := by
  match left with
  | [] =>
    rw [arrive]
    split_ifs <;> exact Or.inl rfl
  | [_] => exact Or.inl rfl
  | b₀ :: b₁ :: _ => exact Or.inr ⟨⟨b₀, b₁, b⟩, rfl⟩

/-- After every byte the packets completed so far show their effects, exactly if none has any. -/
theorem undelayed_iff (hs : s.Sized) (hm : m.Fresh) (hp : OnScreen s m.cursor.kiMousePosition) (first : UCHAR)
    (bs : List UCHAR) :
    (∀ l, l <+: bs → (delivered s m (first :: l)).view = ((segment l).1.foldl (processed s) m).view) ↔
      ∀ p ∈ (segment bs).1, p.Idle s m.cursor.kiMousePosition := by
  induction bs using List.reverseRecOn with
  | nil =>
    simp only [List.prefix_nil, forall_eq, segment, List.foldl_nil, List.not_mem_nil, false_imp_iff, imp_true_iff,
      iff_true]
    rw [delivered, List.foldl_cons, List.foldl_nil, hm.first]
    rfl
  | append_singleton bs b ih =>
    simp only [List.prefix_concat_iff, forall_eq_or_imp, ih, hm.delivered_view, segment_snoc]
    rcases arrive_cases (segment bs).2 b with hnone | ⟨p, hone⟩
    · rw [hnone, List.append_nil]
      exact and_iff_right rfl
    · rw [hone, List.foldl_append, List.foldl_cons, List.foldl_nil, processed_view, List.forall_mem_append,
        List.forall_mem_singleton, and_comm]
      refine and_congr_right fun hidle => ?_
      rw [foldl_processed_view hs hp hidle, eq_comm]
      exact unchanged_iff hs hp _

/-- One to the right, and no further byte: the pointer does not move. -/
theorem last_packet_waits :
    let s : Screen := ⟨640, 480, 2560⟩
    let m := Mouse.initial fun _ => 0
    (delivered s m [0xFA, 0b00001000, 1, 0]).view ≠
      ((segment [0b00001000, 1, 0]).1.foldl (processed s) m).view := by
  intro s m
  have hview := processed_view (s := s) m ⟨0b00001000, 1, 0⟩
  rw [show (segment [0b00001000, 1, 0]).1 = [⟨0b00001000, 1, 0⟩] by decide, List.foldl_cons, List.foldl_nil, hview]
  have hwaits : (delivered s m [0xFA, 0b00001000, 1, 0]).view = (⟨0, 0⟩, []) := rfl
  rw [hwaits]
  decide

/-- A packet that moves nothing. -/
theorem undelayed_iff_idle :
    (delivered ⟨640, 480, 2560⟩ (Mouse.initial fun _ => 0) [0xFA, 0b00001000, 0, 0]).view =
      ((segment [0b00001000, 0, 0]).1.foldl (processed ⟨640, 480, 2560⟩) (Mouse.initial fun _ => 0)).view :=
  (undelayed_iff ⟨by decide, by decide, by decide, by decide⟩ ⟨rfl, rfl, rfl⟩
    ⟨by decide, by decide, by decide, by decide⟩ 0xFA [0b00001000, 0, 0]).mpr (by
      intro p hp
      obtain rfl : p = ⟨0b00001000, 0, 0⟩ := List.mem_singleton.mp hp
      exact ⟨by decide, by decide, by decide⟩) _ (List.prefix_refl _)

end Delay

end Open98.Drv
