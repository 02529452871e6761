import Open98.Mm.HeapInsert

/-! The major blocks that `allocate_new_page` makes, and the list of all of them. -/
namespace Open98.Mm
open Library

section Fresh
variable {g t : Heap} {m m' : ByteMemory} {p : PVOID} {size : UINT}

/-- Where the direct map of physical memory starts. -/
@[irreducible] def directMap : ℕ := physMemOffset.toNat

lemma toNat_physMemOffset : physMemOffset.toNat = directMap := by rw [directMap]

lemma directMap_pos : 0 < directMap := by
  rw [directMap]
  decide

lemma ptr_directMap (a : ℕ) : ptr a + physMemOffset = ptr (a + directMap) := by
  rw [directMap]
  exact ptr_add a physMemOffset.toNat

lemma ptr_sub_directMap (a : ℕ) : ptr (a + directMap) - physMemOffset = ptr a := by
  rw [← ptr_directMap, BitVec.add_sub_cancel]

lemma memset_holding {s n : ℕ} (h : s + n ≤ 2^64) (c : BitVec 8) : memset (ptr s) c n (g.holding m) =
    some ((), g.holding fun a => if s ≤ a ∧ a < s + n then c else m a) := by
  have hmem : (fun p : PVOID => if (p - ptr s).toNat < n then c else (g.holding m).mem p) =
      fun p => if s ≤ p.toNat ∧ p.toNat < s + n then c else m p.toNat := by
    funext p
    have hp := p.isLt
    have hdiff : (p - ptr s).toNat = (2^64 - s % 2^64 + p.toNat) % 2^64 := by
      rw [BitVec.toNat_sub, ptr, BitVec.toNat_ofNat]
    rw [hdiff]
    refine if_congr ?_ rfl rfl
    omega
  exact congrArg (fun f => some ((), { g.holding m with mem := f })) hmem

/-- The first free page is taken, and at most what was asked for is cleared. -/
lemma pcalloc_holding {pages : ULONG64} (hpos : 0 < pages.toNat) (hpages : pages.toNat ≤ 2^8)
    (hroom : ∀ i, FirstFree g.pmm i → i*4096 + directMap + pages.toNat * 4096 ≤ 2^64)
    (hrun : pcalloc pages (g.holding m) = some (p, t)) :
    ∃ i s m', FirstFree g.pmm i ∧ p = ptr (i*4096) ∧ t = Heap.holding { g with pmm := s } m' ∧
      ∀ a, a < i*4096 + directMap ∨ i*4096 + directMap + pages.toNat * 4096 ≤ a → m' a = m a := by
  have hget : (get : HeapM Heap) (g.holding m) = some (g.holding m, g.holding m) := rfl
  rw [pcalloc, run_bind hget] at hrun
  cases hp : pmalloc (g.holding m).pmm pages.toNat with
  | none =>
    rw [hp] at hrun
    cases hrun
  | some found =>
    obtain ⟨adr, s⟩ := found
    obtain ⟨i, hfirst, rfl, -⟩ := (pmalloc_eq_some g.pmm _ hpos adr s).mp hp
    have hend := hroom i hfirst
    have hset : (modify fun h => { h with pmm := s } : HeapM PUnit) (g.holding m) =
        some (⟨⟩, Heap.holding { g with pmm := s } m) := rfl
    have hcount : ((pages * 0x1000#64).truncate 32).toInt.toNat = pages.toNat * 4096 := by
      have hprod : (pages * 0x1000#64).toNat = pages.toNat * 4096 := by
        rw [BitVec.toNat_mul]
        change pages.toNat * 4096 % 2^64 = _
        omega
      have htrunc : ((pages * 0x1000#64).truncate 32).toNat = pages.toNat * 4096 := by
        rw [BitVec.truncate, BitVec.toNat_setWidth, hprod]
        omega
      rw [BitVec.toInt_eq_toNat_of_lt (by omega), htrunc]
      rfl
    rw [hp] at hrun
    dsimp only at hrun
    have hret : BitVec.ofNat 64 (i*pageSize) = ptr (i*4096) := rfl
    rw [run_bind hset, hret] at hrun
    by_cases hzero : ptr (i*4096) = 0
    · rw [if_pos hzero] at hrun
      obtain ⟨rfl, rfl⟩ := run_pure_eq_some.mp hrun
      exact ⟨i, s, m, hfirst, hzero.symm, rfl, fun _ _ => rfl⟩
    · rw [if_neg hzero] at hrun
      rw [hcount, ptr_directMap, run_bind (memset_holding hend 0)] at hrun
      obtain ⟨rfl, rfl⟩ := run_pure_eq_some.mp hrun
      refine ⟨i, s, _, hfirst, rfl, rfl, fun a ha => if_neg ?_⟩
      omega

lemma toNat_roundUp_signExtend {st : UINT} (h : st.toNat ≤ 2^20) :
    ((roundUp st 0x1000#32).signExtend 64).toNat = (st.toNat + 4095) / 4096 := by
  have hround := roundUp_toNat h
  have hmsb : (roundUp st 0x1000#32).msb = false := by
    rw [BitVec.msb_eq_false_iff_two_mul_lt, hround]
    omega
  rw [BitVec.signExtend_eq_setWidth_of_msb_false hmsb, BitVec.toNat_setWidth, hround]
  omega

/-- The fields of a new major block. -/
def newMajor (adr pages : ℕ) (m : ByteMemory) : ByteMemory :=
  storeBytes (storeBytes (storeBytes (storeBytes (storeBytes (storeBytes m adr 8 0) (adr+8) 8 0) (adr+16) 4 pages)
    (adr+20) 4 (pages*4096)) (adr+24) 4 40) (adr+32) 8 0

lemma fillMajor_holding {adr : ℕ} {st : UINT} (hadr : adr + 40 ≤ 2^64) (hst : st.toNat < 2^20) :
    fillMajor (ptr adr) st (g.holding m) = some ((), g.holding (newMajor adr st.toNat m)) := by
  have hnext : majNext (ptr adr) = ptr (adr+8) := ptr_add _ 8
  have hpages : majPages (ptr adr) = ptr (adr+16) := ptr_add _ 16
  have hsize : majSize (ptr adr) = ptr (adr+20) := ptr_add _ 20
  have husage : majUsage (ptr adr) = ptr (adr+24) := ptr_add _ 24
  have hfirst : majFirst (ptr adr) = ptr (adr+32) := ptr_add _ 32
  have hprod : (st * 0x1000#32).toNat = st.toNat * 4096 := by
    rw [BitVec.toNat_mul]
    change st.toNat * 4096 % 2^32 = _
    omega
  simp only [fillMajor, hnext, hpages, hsize, husage, hfirst, majPrev]
  refine (run_bind (store64_holding (by omega) _)).trans ?_
  refine (run_bind (store64_holding (by omega) _)).trans ?_
  refine (run_bind (store32_holding (by omega) _)).trans ?_
  refine (run_bind (store32_holding (by omega) _)).trans ?_
  refine (run_bind (store32_holding (by omega) _)).trans ?_
  rw [store64_holding (by omega), hprod]
  rfl

lemma newMajor_holds (F : MajorBlock) (hempty : F.minors = []) (m : ByteMemory) :
    F.Holds (newMajor F.adr F.pages m) ∧ prevAt (newMajor F.adr F.pages m) F.adr = 0 ∧
      nextAt (newMajor F.adr F.pages m) F.adr = 0 ∧
      ∀ a, a < F.adr ∨ F.adr + 40 ≤ a → newMajor F.adr F.pages m a = m a := by
  have hpages := F.pages_lt
  refine ⟨⟨?_, ?_, ?_, ?_, hempty ▸ trivial, fun b hb => ?_⟩, ?_, ?_, fun a ha => ?_⟩
  · simp (disch := omega) only [newMajor, loadBytes_storeBytes_apart, loadBytes_storeBytes]
    omega
  · simp (disch := omega) only [newMajor, loadBytes_storeBytes_apart, loadBytes_storeBytes]
    omega
  · simp (disch := omega) only [newMajor, loadBytes_storeBytes_apart, loadBytes_storeBytes, hempty]
    rfl
  · simp (disch := omega) only [newMajor, loadBytes_storeBytes, hempty]
    rfl
  · rw [hempty] at hb
    cases hb
  · simp (disch := omega) only [prevAt, newMajor, loadBytes_storeBytes_apart, loadBytes_storeBytes]
    rfl
  · simp (disch := omega) only [nextAt, newMajor, loadBytes_storeBytes_apart, loadBytes_storeBytes]
    rfl
  · simp (disch := omega) only [newMajor, storeBytes_outside]

/-- What the list of live blocks says about a block. -/
def MajorRecord.extent (r : MajorRecord) : ℕ × ℕ := (r.adr + directMap, (pagesFor r.request).toNat)

def MajorBlock.extent (M : MajorBlock) : ℕ × ℕ := (M.adr, M.pages)

/-- A new major block: what is written, and what the heap notes about it. -/
structure FreshMajor (g g' : Heap) (m m' : ByteMemory) (size : UINT) (F : MajorBlock) : Prop where
  place : ∃ i, FirstFree g.pmm i ∧ F.adr = i*4096 + directMap
  pages : F.pages = (pagesFor size).toNat
  empty : F.minors = []
  holds : F.Holds m'
  prev : prevAt m' F.adr = 0
  next : nextAt m' F.adr = 0
  frame : ∀ a, a < F.adr ∨ F.limit ≤ a → m' a = m a
  root : g'.memRoot = g.memRoot
  bet : g'.bestBet = g.bestBet
  live : g'.live.map MajorRecord.extent = F.extent :: g.live.map MajorRecord.extent

/-- The block that a request of this size would make ends below the end of the address space. -/
def EndsInside (g : Heap) (size : UINT) : Prop :=
  ∀ i, FirstFree g.pmm i → i*4096 + directMap + (pagesFor size).toNat * 4096 ≤ 2^64

lemma allocateNewPage_holding (hsize : size.toNat + 80 + 4096 ≤ 2^32) (hroom : EndsInside g size)
    (hrun : allocateNewPage size (g.holding m) = some (p, t)) :
    ∃ F g' m', p = ptr F.adr ∧ t = Heap.holding g' m' ∧ FreshMajor g g' m m' size F := by
  have hget : (get : HeapM Heap) (g.holding m) = some (g.holding m, g.holding m) := rfl
  obtain ⟨hlow, hhigh, -⟩ := pagesFor_bounds size
  have hlt : (pagesFor size).toNat < 2^20 := by
    have hsum : (size + 40 + 40).toNat = size.toNat + 80 := by
      rw [BitVec.toNat_add, BitVec.toNat_add]
      change ((size.toNat + 40) % 2^32 + 40) % 2^32 = _
      omega
    rw [pagesFor_toNat, hsum]
    omega
  have hcount : ∃ n : ULONG64, (roundUp (pagesFor size) 0x1000#32).signExtend 64 = n ∧ 0 < n.toNat ∧ n.toNat ≤ 2^8 ∧
      n.toNat ≤ (pagesFor size).toNat := by
    refine ⟨_, rfl, ?_⟩
    rw [toNat_roundUp_signExtend hhigh]
    omega
  obtain ⟨n, hn, hsome, hreserved, hcount⟩ := hcount
  rw [allocateNewPage] at hrun
  rw [run_bind hget] at hrun
  obtain ⟨maj, u, halloc, hrun⟩ := run_bind_eq_some.mp hrun
  obtain ⟨ret, u', hpages, hret⟩ := run_bind_eq_some.mp halloc
  obtain ⟨rfl, rfl⟩ := run_pure_eq_some.mp hret
  rw [hn] at hpages
  obtain ⟨i, s, m₁, hfirst, rfl, rfl, hframe⟩ := pcalloc_holding hsome hreserved
    (fun i hi => (Nat.add_le_add_left (Nat.mul_le_mul_right 4096 hcount) _).trans (hroom i hi)) hpages
  have hend := hroom i hfirst
  have hpos := directMap_pos
  have hi : i*4096 < 2^64 := (Nat.lt_add_of_pos_right hpos).trans_le ((Nat.le_add_right _ _).trans hend)
  rw [ptr_directMap] at hrun
  have hhead : i*4096 + directMap + 40 ≤ 2^64 := (Nat.add_le_add_left (by omega) _).trans hend
  have hne : ptr (i*4096 + directMap) ≠ 0 :=
    mt (ptr_eq_zero ((Nat.lt_add_of_pos_right (by omega)).trans_le hhead)).mp (Nat.add_pos_right _ hpos).ne'
  rw [if_neg hne, ptr_sub_directMap, toNat_ptr hi] at hrun
  have hmodify : (modify fun h => { h with live := ⟨i*4096, size, (g.holding m).pmm, h.pmm⟩ :: h.live } : HeapM PUnit)
      (Heap.holding { g with pmm := s } m₁) = some (⟨⟩, Heap.holding
        { g with pmm := s, live := ⟨i*4096, size, g.pmm, s⟩ :: g.live } m₁) := rfl
  rw [run_bind hmodify, run_bind (fillMajor_holding hhead hlt)] at hrun
  obtain ⟨rfl, rfl⟩ := run_pure_eq_some.mp hrun
  have hmap : physMemOffset.toNat ≤ i*4096 + directMap := by
    rw [toNat_physMemOffset]
    exact Nat.le_add_left _ _
  let F : MajorBlock := ⟨i*4096 + directMap, (pagesFor size).toNat, [], hmap, hend, by omega, hlt,
    ⟨.nil, by simp, by simp⟩⟩
  obtain ⟨hholds, hprev, hnext, hkeep⟩ := newMajor_holds F rfl m₁
  refine ⟨F, _, _, rfl, rfl, ⟨i, hfirst, rfl⟩, rfl, rfl, hholds, hprev, hnext, fun a ha => ?_, rfl, rfl, rfl⟩
  have hafter := Nat.add_le_add_left (Nat.mul_le_mul_right 4096 hcount) F.adr
  rw [hkeep a (by unfold MajorBlock.limit at ha; have := F.some_pages; omega)]
  exact hframe a (ha.imp_right fun hle => hafter.trans hle)

end Fresh

section Shape

/-- The heap consists of these major blocks. -/
structure Shaped (g : Heap) (m : ByteMemory) (Ms : List MajorBlock) : Prop where
  root : g.memRoot = ptr ((Ms.map MajorBlock.adr).headD 0)
  bet : g.bestBet = 0 ∨ ∃ M ∈ Ms, g.bestBet = ptr M.adr
  links : Linked (nextAt m) (prevAt m) 0 (Ms.map MajorBlock.adr) 0
  holds : ∀ M ∈ Ms, M.Holds m
  apart : Ms.Pairwise MajorBlock.Apart
  live : (g.live.map MajorRecord.extent).Perm (Ms.map MajorBlock.extent)

/-- Where a minor block starts for its user, and how many bytes the user asked for. -/
def MinorBlock.block (b : MinorBlock) : ℕ × ℕ := (b.user, b.reqSize)

def userBlocks (Ms : List MajorBlock) : List (ℕ × ℕ) := Ms.flatMap fun M => M.minors.map MinorBlock.block

/-- The bytes of these blocks keep their values. -/
def Kept (m m' : ByteMemory) (blocks : List (ℕ × ℕ)) : Prop :=
  ∀ b ∈ blocks, ∀ a, b.1 ≤ a → a < b.1 + b.2 → m' a = m a

lemma mem_userBlocks {Ms : List MajorBlock} {x : ℕ × ℕ} :
    x ∈ userBlocks Ms ↔ ∃ M ∈ Ms, ∃ b ∈ M.minors, b.block = x := by
  simp only [userBlocks, List.mem_flatMap, List.mem_map]

variable {g g' : Heap} {m m' m'' : ByteMemory} {Ms A B : List MajorBlock} {M N F : MajorBlock} {size : UINT}

/-- What a major block with one more minor block gives to users. -/
lemma userBlocks_perm {l₁ l₂ : List MinorBlock} {c : MinorBlock} (hM : M.minors = l₁ ++ c :: l₂) (hN : N.minors = l₁ ++ l₂) :
    (userBlocks (A ++ M :: B)).Perm (c.block :: userBlocks (A ++ N :: B)) := by
  simp only [userBlocks, List.flatMap_append, List.flatMap_cons, hM, hN, List.map_append, List.map_cons, List.append_assoc,
    List.cons_append]
  rw [← List.append_assoc, ← List.append_assoc (List.flatMap _ A)]
  exact List.perm_middle

lemma MajorBlock.limit_bounds (M : MajorBlock) : M.adr + 4096 ≤ M.limit ∧ M.limit ≤ 2^64 := by
  have hpages := M.some_pages
  have hhigh := M.high
  unfold MajorBlock.limit
  omega

lemma MajorBlock.Apart.symm (h : M.Apart N) : N.Apart M := Or.symm h

lemma apart_of_mem (h : (A ++ M :: B).Pairwise MajorBlock.Apart) (hN : N ∈ A ++ B) : N.Apart M := by
  obtain ⟨-, hcons, hacross⟩ := List.pairwise_append.mp h
  rcases List.mem_append.mp hN with hN | hN
  · exact hacross N hN M List.mem_cons_self
  · exact ((List.pairwise_cons.mp hcons).1 N hN).symm

lemma eq_or_apart (h : (A ++ M :: B).Pairwise MajorBlock.Apart) (hN : N ∈ A ++ M :: B) : N = M ∨ N.Apart M := by
  rcases List.mem_append.mp hN with hN | hN
  · exact .inr (apart_of_mem h (List.mem_append_left _ hN))
  · exact (List.mem_cons.mp hN).imp_right fun hN => apart_of_mem h (List.mem_append_right _ hN)

lemma Shaped.nodup (h : Shaped g m Ms) : (Ms.map MajorBlock.adr).Nodup := by
  refine List.pairwise_map.mpr (h.apart.imp fun {M N} hMN heq => ?_)
  have hM := M.limit_bounds
  have hN := N.limit_bounds
  unfold MajorBlock.Apart at hMN
  omega

lemma MinorBlock.user_stop {b : MinorBlock} (hb : b ∈ M.minors) :
    M.adr + 96 ≤ b.user ∧ b.user + b.reqSize + 1 ≤ b.stop ∧ b.stop ≤ M.limit ∧ b.adr + 56 ≤ b.user := by
  obtain ⟨hlow, hhigh⟩ := M.laid.inside b hb
  have hroom := M.laid.room b hb
  obtain ⟨hfrom, hto, -⟩ := b.user_bounds
  have hstop : b.stop = b.adr + 40 + b.size := rfl
  have hlimit : M.limit = M.adr + M.pages*4096 := rfl
  omega

/-- What users have is not touched when a minor block is put in or taken out. -/
lemma Rejoined.kept {l₁ l₂ : List MinorBlock} {c : MinorBlock} {down up usage : ℕ}
    (hr : Rejoined m m' M.adr l₁ c l₂ down up usage) (hlaid : Laid (M.adr+40) M.limit (l₁ ++ c :: l₂))
    (hM : M.minors = l₁ ++ l₂) (hapart : (A ++ M :: B).Pairwise MajorBlock.Apart) :
    Kept m m' (userBlocks (A ++ M :: B)) := by
  intro x hx a ha hlt
  obtain ⟨X, hX, b, hb, rfl⟩ := mem_userBlocks.mp hx
  obtain ⟨hlow, hhigh, hbstop, hbadr⟩ := MinorBlock.user_stop hb
  simp only [MinorBlock.block] at ha hlt
  rcases eq_or_apart hapart hX with rfl | hapart
  · exact hr.frame a (beside_of_mem hlaid (hM ▸ hb) (by omega) (by omega))
  · unfold MajorBlock.Apart at hapart
    exact hr.frame a (beside_outside hlaid (by omega))

/-- One of the blocks changes inside. -/
lemma Shaped.replace (h : Shaped g m (A ++ M :: B)) (hadr : N.adr = M.adr) (hpages : N.pages = M.pages) (hN : N.Holds m')
    (hframe : ∀ a, a < M.adr + 16 ∨ M.limit ≤ a → m' a = m a) : Shaped g m' (A ++ N :: B) := by
  have hadrs : (A ++ N :: B).map MajorBlock.adr = (A ++ M :: B).map MajorBlock.adr := by simp [hadr]
  have hlimit : N.limit = M.limit := by simp [MajorBlock.limit, hadr, hpages]
  have hcell : ∀ X ∈ A ++ M :: B, ∀ a, X.adr ≤ a → a < X.adr + 16 → m' a = m a := by
    intro X hX a ha hlt
    have hbounds := X.limit_bounds
    have hMbounds := M.limit_bounds
    rcases eq_or_apart h.apart hX with rfl | hapart
    · exact hframe a (.inl (by omega))
    · unfold MajorBlock.Apart at hapart
      exact hframe a (by omega)
  refine ⟨?_, ?_, ?_, ?_, ?_, ?_⟩
  · rw [hadrs]
    exact h.root
  · refine h.bet.imp_right fun hbet => ?_
    obtain ⟨X, hX, heq⟩ := hbet
    rcases List.mem_append.mp hX with hX | hX
    · exact ⟨X, List.mem_append_left _ hX, heq⟩
    · rcases List.mem_cons.mp hX with rfl | hX
      · exact ⟨N, by simp, by rw [hadr, heq]⟩
      · exact ⟨X, List.mem_append_right _ (List.mem_cons_of_mem _ hX), heq⟩
  · rw [hadrs]
    refine h.links.congr (fun x hx => ?_) fun x hx => ?_
    · obtain ⟨X, hX, rfl⟩ := List.mem_map.mp hx
      exact loadBytes_congr fun a ha hlt => hcell X hX a (by omega) (by omega)
    · obtain ⟨X, hX, rfl⟩ := List.mem_map.mp hx
      exact loadBytes_congr fun a ha hlt => hcell X hX a (by omega) (by omega)
  · intro X hX
    have hother : ∀ X ∈ A ++ B, X.Holds m' := by
      intro X hX
      have hmem : X ∈ A ++ M :: B := by
        simp only [List.mem_append, List.mem_cons] at hX ⊢
        tauto
      refine (h.holds X hmem).congr fun a ha => hframe a ?_
      have hbounds := ha.bounds
      have hapart := apart_of_mem h.apart hX
      unfold MajorBlock.Apart at hapart
      omega
    rcases List.mem_append.mp hX with hX | hX
    · exact hother X (List.mem_append_left _ hX)
    · rcases List.mem_cons.mp hX with rfl | hX
      · exact hN
      · exact hother X (List.mem_append_right _ hX)
  · have hapart := h.apart
    rw [List.pairwise_append, List.pairwise_cons] at hapart ⊢
    obtain ⟨hA, ⟨hM, hB⟩, hacross⟩ := hapart
    refine ⟨hA, ⟨fun X hX => ?_, hB⟩, fun X hX Y hY => ?_⟩
    · have := hM X hX
      unfold MajorBlock.Apart at this ⊢
      rwa [hadr, hlimit]
    · rcases List.mem_cons.mp hY with rfl | hY
      · have := hacross X hX M List.mem_cons_self
        unfold MajorBlock.Apart at this ⊢
        rwa [hadr, hlimit]
      · exact hacross X hX Y (List.mem_cons_of_mem _ hY)
  · have hextents : (A ++ N :: B).map MajorBlock.extent = (A ++ M :: B).map MajorBlock.extent := by
      simp [MajorBlock.extent, hadr, hpages]
    rw [hextents]
    exact h.live

/-- Memory that is kept outside another block, and outside the links of the blocks to each other. -/
lemma kept_outside (hMs : Ms.Pairwise MajorBlock.Apart) (hholds : ∀ M ∈ Ms, M.Holds m) (hF : ∀ M ∈ Ms, M.Apart F)
    (hframe : ∀ a, a < F.adr ∨ F.limit ≤ a → (∀ M ∈ Ms, a < M.adr ∨ M.adr + 16 ≤ a) → m' a = m a) :
    (∀ M ∈ Ms, M.Holds m') ∧ Kept m m' (userBlocks Ms) := by
  have hinside : ∀ M ∈ Ms, ∀ a, M.adr + 16 ≤ a → a < M.limit → m' a = m a := by
    intro M hM a ha hlt
    have hapart := hF M hM
    unfold MajorBlock.Apart at hapart
    refine hframe a (by omega) fun N hN => ?_
    obtain ⟨A, B, rfl⟩ := List.append_of_mem hM
    have hbounds := N.limit_bounds
    rcases eq_or_apart hMs hN with rfl | hNM
    · exact .inr ha
    · unfold MajorBlock.Apart at hNM
      omega
  refine ⟨fun M hM => (hholds M hM).congr fun a ha => ?_, fun x hx a ha hlt => ?_⟩
  · obtain ⟨hlow, hhigh⟩ := ha.bounds
    exact hinside M hM a hlow hhigh
  · obtain ⟨M, hM, b, hb, rfl⟩ := mem_userBlocks.mp hx
    obtain ⟨hlow, hhigh, hstop, -⟩ := MinorBlock.user_stop hb
    simp only [MinorBlock.block] at ha hlt
    exact hinside M hM a (by omega) (by omega)

/-- The first block. -/
lemma FreshMajor.first (h : Shaped g m []) (hF : FreshMajor g g' m m' size F) :
    Shaped { g' with memRoot := ptr F.adr } m' [F] := by
  refine ⟨rfl, ?_, ⟨hF.prev, hF.next, trivial⟩, ?_, List.pairwise_singleton _ _, ?_⟩
  · refine .inl ((show _ = g'.bestBet from rfl).trans (hF.bet.trans ?_))
    rcases h.bet with h0 | ⟨M, hM, -⟩
    · exact h0
    · cases hM
  · intro M hM
    obtain rfl := List.mem_singleton.mp hM
    exact hF.holds
  · have hlive := h.live
    rw [List.map_nil, List.perm_nil] at hlive
    change (g'.live.map _).Perm _
    rw [hF.live, hlive]
    exact List.Perm.refl _

/-- A block behind the others. -/
lemma FreshMajor.snoc (h : Shaped g m (A ++ [M])) (hF : FreshMajor g g' m m' size F) (hapart : ∀ N ∈ A ++ [M], N.Apart F) :
    Shaped g' (storeBytes (storeBytes m' (M.adr+8) 8 F.adr) F.adr 8 M.adr) (A ++ [M] ++ [F]) ∧
      Kept m (storeBytes (storeBytes m' (M.adr+8) 8 F.adr) F.adr 8 M.adr) (userBlocks (A ++ [M])) := by
  have hM := hapart M (by simp)
  have hMbounds := M.limit_bounds
  have hFbounds := F.limit_bounds
  have hframe : ∀ a, a < F.adr ∨ F.limit ≤ a → a < M.adr + 8 ∨ M.adr + 16 ≤ a →
      storeBytes (storeBytes m' (M.adr+8) 8 F.adr) F.adr 8 M.adr a = m a := by
    intro a ha hlink
    rw [storeBytes_outside (by omega), storeBytes_outside (by omega), hF.frame a ha]
  obtain ⟨hholds, hkept⟩ := kept_outside h.apart h.holds hapart fun a ha hlink => by
    have := hlink M (by simp)
    exact hframe a ha (by omega)
  unfold MajorBlock.Apart at hM
  refine ⟨⟨?_, ?_, ?_, ?_, ?_, ?_⟩, hkept⟩
  · rw [hF.root, h.root]
    cases A <;> rfl
  · rw [hF.bet]
    refine h.bet.imp_right fun hbet => ?_
    obtain ⟨N, hN, heq⟩ := hbet
    exact ⟨N, List.mem_append_left _ hN, heq⟩
  · have hlastOf : ((A ++ [M]).map MajorBlock.adr).getLast? = some M.adr := by simp
    have hnodup := h.nodup
    have hlinks := h.links
    rw [← List.append_nil ((A ++ [M]).map MajorBlock.adr)] at hnodup hlinks
    have hbehind : (A ++ [M] ++ [F]).map MajorBlock.adr = (A ++ [M]).map MajorBlock.adr ++ [F.adr] := List.map_append
    rw [hbehind]
    refine hlinks.insert hnodup (fun x hx hne => ?_) (fun x hx _ => ?_) (fun x hx => ?_) (fun x hx => ?_) ?_ ?_
    · rw [List.append_nil] at hx
      obtain ⟨N, hN, rfl⟩ := List.mem_map.mp hx
      have hNbounds := N.limit_bounds
      have hNF := hapart N hN
      unfold MajorBlock.Apart at hNF
      rcases eq_or_apart h.apart hN with rfl | hNM
      · exact absurd hlastOf hne
      · unfold MajorBlock.Apart at hNM
        exact loadBytes_congr fun a ha hlt => hframe a (by omega) (by omega)
    · rw [List.append_nil] at hx
      obtain ⟨N, hN, rfl⟩ := List.mem_map.mp hx
      have hNbounds := N.limit_bounds
      have hNF := hapart N hN
      unfold MajorBlock.Apart at hNF
      rcases eq_or_apart h.apart hN with rfl | hNM
      · exact loadBytes_congr fun a ha hlt => hframe a (by omega) (by omega)
      · unfold MajorBlock.Apart at hNM
        exact loadBytes_congr fun a ha hlt => hframe a (by omega) (by omega)
    · obtain rfl := Option.some.inj (hlastOf.symm.trans hx)
      simp (disch := omega) only [nextAt, loadBytes_storeBytes_apart, loadBytes_storeBytes]
      omega
    · cases hx
    · simp (disch := omega) only [prevAt, loadBytes_storeBytes]
      simp
      omega
    · simp (disch := omega) only [nextAt, loadBytes_storeBytes_apart]
      exact hF.next
  · intro N hN
    rcases List.mem_append.mp hN with hN | hN
    · exact hholds N hN
    · obtain rfl := List.mem_singleton.mp hN
      refine hF.holds.congr fun a ha => ?_
      obtain ⟨hlow, hhigh⟩ := ha.bounds
      rw [storeBytes_outside (by omega), storeBytes_outside (by omega)]
  · refine List.pairwise_append.mpr ⟨h.apart, List.pairwise_singleton _ _, fun N hN X hX => ?_⟩
    obtain rfl := List.mem_singleton.mp hX
    exact hapart N hN
  · rw [hF.live, List.map_append]
    exact (h.live.cons _).trans (List.perm_append_singleton _ _).symm

end Shape

end Open98.Mm
