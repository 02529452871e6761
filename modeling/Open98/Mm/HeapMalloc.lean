import Open98.Mm.HeapPages

/-! What `liballoc_malloc` does to the blocks of the heap. -/
namespace Open98.Mm
open Library

section Service
variable {g g' g'' : Heap} {m m' m'' : ByteMemory} {Ms Ms' Ms'' A B : List MajorBlock} {M : MajorBlock}
  {given given' : List (ℕ × ℕ)} {p : PVOID} {size reqSize : ℕ}

/-- The heap goes on with these blocks given to users in addition, and no other block of a user changes. -/
structure Served (g' : Heap) (m m' : ByteMemory) (Ms Ms' : List MajorBlock) (given : List (ℕ × ℕ)) : Prop where
  shaped : Shaped g' m' Ms'
  blocks : (userBlocks Ms').Perm (given ++ userBlocks Ms)
  kept : Kept m m' (userBlocks Ms)

lemma Served.refl (h : Shaped g m Ms) : Served g m m Ms Ms [] := ⟨h, List.Perm.refl _, fun _ _ _ _ _ => rfl⟩

lemma Served.trans (h : Served g' m m' Ms Ms' given) (h' : Served g'' m' m'' Ms' Ms'' given') :
    Served g'' m m'' Ms Ms'' (given' ++ given) := by
  refine ⟨h'.shaped, ?_, fun b hb a ha hlt => ?_⟩
  · rw [List.append_assoc]
    exact h'.blocks.trans (h.blocks.append_left given')
  · have hmem : b ∈ userBlocks Ms' := h.blocks.symm.subset (List.mem_append_right _ hb)
    rw [h'.kept b hmem a ha hlt, h.kept b hb a ha hlt]

/-- A request served inside one of the major blocks. -/
lemma ServedIn.served (h : ServedIn m m' M size reqSize p) (hs : Shaped g m (A ++ M :: B)) :
    ∃ N, Served g m m' (A ++ M :: B) (A ++ N :: B) [(p.toNat, reqSize)] := by
  obtain ⟨l₁, new, l₂, hM, hlaid, rfl, rfl, rfl, hplaced⟩ := h
  let N : MajorBlock := ⟨M.adr, M.pages, l₁ ++ new :: l₂, M.low, M.high, M.some_pages, M.pages_lt, hlaid⟩
  have hNholds : N.Holds m' :=
    (hs.holds M (by simp)).insert hM rfl rfl rfl hplaced.rejoined hplaced.tagged hplaced.prev hplaced.next
  have hframe : ∀ a, a < M.adr + 16 ∨ M.limit ≤ a → m' a = m a :=
    fun a ha => hplaced.rejoined.frame a (beside_outside hlaid ha)
  obtain ⟨-, huser, hstop, -⟩ := MinorBlock.user_stop (M := N) (b := new) (by simp [N])
  have hlimit := N.limit_bounds
  refine ⟨N, hs.replace rfl rfl hNholds hframe, ?_, hplaced.rejoined.kept hlaid hM hs.apart⟩
  have hnew : (ptr new.user).toNat = new.user := toNat_ptr (by omega)
  rw [hnew]
  exact userBlocks_perm (M := N) rfl hM

end Service

section Turns
variable {g t : Heap} {m : ByteMemory} {Ms A B : List MajorBlock} {M : MajorBlock} {p : PVOID} {size reqSize : ULONG64}
  {fuel : ℕ} {r : Turn} {startedBet : Bool} {bestSize : ULONG64}

/-- A block that is made for a request of this size lies inside the address space and meets no other. -/
def HasRoom (g : Heap) (Ms : List MajorBlock) (size : ULONG64) : Prop :=
  ∀ i, FirstFree g.pmm i → i*4096 + directMap + (pagesFor (size.truncate 32)).toNat * 4096 ≤ 2^64 ∧
    ∀ M ∈ Ms, M.limit ≤ i*4096 + directMap ∨ i*4096 + directMap + (pagesFor (size.truncate 32)).toNat * 4096 ≤ M.adr

/-- The block is empty and large enough. -/
def Waits (M : MajorBlock) (size : ULONG64) : Prop := M.minors = [] ∧ M.adr + 80 + size.toNat ≤ M.limit

lemma grow_holding (hsize : size.toNat + 80 + 4096 ≤ 2^32) (hroom : HasRoom g Ms size)
    (hrun : allocateNewPage (size.truncate 32) (g.holding m) = some (p, t)) :
    ∃ F g' m', p = ptr F.adr ∧ t = Heap.holding g' m' ∧ FreshMajor g g' m m' (size.truncate 32) F ∧
      (∀ M ∈ Ms, M.Apart F) ∧ Waits F size := by
  have htrunc : (size.truncate 32).toNat = size.toNat := by
    rw [BitVec.truncate, BitVec.toNat_setWidth]
    omega
  obtain ⟨F, g', m', rfl, rfl, hF⟩ := allocateNewPage_holding (by rw [htrunc]; exact hsize) (fun i hi => (hroom i hi).1) hrun
  obtain ⟨i, hfirst, hadr⟩ := hF.place
  have hlimit : F.limit = F.adr + (pagesFor (size.truncate 32)).toNat * 4096 := by rw [MajorBlock.limit, hF.pages]
  refine ⟨F, g', m', rfl, rfl, hF, fun M hM => ?_, hF.empty, ?_⟩
  · have := (hroom i hfirst).2 M hM
    unfold MajorBlock.Apart
    rw [hlimit, hadr]
    exact this
  · have hsum : (size.truncate 32 + 40 + 40).toNat = size.toNat + 80 := by
      rw [BitVec.toNat_add, BitVec.toNat_add, htrunc]
      change ((size.toNat + 40) % 2^32 + 40) % 2^32 = _
      omega
    have hpages := pagesFor_toNat (size.truncate 32)
    rw [hsum] at hpages
    rw [hlimit, hpages]
    omega

/-- How a turn of the loop over the major blocks can end: the request is served, or another block is next, which is
empty and large enough, or there is still room for such a one. -/
def TurnEnds (m : ByteMemory) (Ms : List MajorBlock) (size reqSize : ULONG64) (r : Turn) (t : Heap) : Prop :=
  ∃ g' m' Ms', t = Heap.holding g' m' ∧
    ((∃ p, r = .done p ∧ Served g' m m' Ms Ms' [(p.toNat, reqSize.toNat)]) ∨
      ∃ M ∈ Ms', ∃ startedBet bestSize, r = .again (ptr M.adr) startedBet bestSize ∧ Served g' m m' Ms Ms' [] ∧
        (Waits M size ∨ HasRoom g' Ms' size))

/-- The way to the next block, to the first one, or to a new one, from the last lines of cases 1 and 5. -/
lemma moveOn_holding {f : PVOID → HeapM Turn} (hs : Shaped g m (A ++ M :: B)) (hsize : size.toNat + 80 + 4096 ≤ 2^32)
    (hroom : HasRoom g (A ++ M :: B) size)
    (hf : ∀ F g' m' r t, Served g' m m' (A ++ M :: B) (A ++ M :: B ++ [F]) [] → Waits F size →
      f (ptr F.adr) (g'.holding m') = some (r, t) → TurnEnds m (A ++ M :: B) size reqSize r t)
    (hrun : (do
      let next ← load64 (majNext (ptr M.adr))
      if next ≠ 0 then return .again next startedBet bestSize
      if startedBet then return .again (← get).memRoot false bestSize
      let fresh ← allocateNewPage (size.truncate 32)
      store64 (majNext (ptr M.adr)) fresh
      if fresh = 0 then return .done 0
      store64 (majPrev fresh) (ptr M.adr)
      f fresh : HeapM Turn) (g.holding m) = some (r, t)) : TurnEnds m (A ++ M :: B) size reqSize r t := by
  have hM := M.limit_bounds
  have hfield : majNext (ptr M.adr) = ptr (M.adr+8) := ptr_add _ 8
  have hload : loadBytes m (M.adr+8) 8 = (B.map MajorBlock.adr).headD 0 := by
    have hlinks := hs.links
    rw [List.map_append, List.map_cons] at hlinks
    exact hlinks.links.2
  rw [hfield, run_bind (load64_holding (by omega)), hload] at hrun
  cases B with
  | cons N B =>
    have hN := N.low
    have hNlimit := N.limit_bounds
    have hpos := directMap_pos
    rw [toNat_physMemOffset] at hN
    have hne : ptr (((N :: B).map MajorBlock.adr).headD 0) ≠ 0 :=
      mt (ptr_eq_zero (show N.adr < 2^64 by omega)).mp (show N.adr ≠ 0 by omega)
    rw [if_pos hne] at hrun
    obtain ⟨rfl, rfl⟩ := run_pure_eq_some.mp hrun
    exact ⟨g, m, _, rfl, .inr ⟨N, by simp, _, _, rfl, Served.refl hs, .inr hroom⟩⟩
  | nil =>
    have hnull : ¬ ptr ((([] : List MajorBlock).map MajorBlock.adr).headD 0) ≠ 0 := not_not.mpr rfl
    rw [if_neg hnull] at hrun
    cases startedBet with
    | true =>
      have hget : (get : HeapM Heap) (g.holding m) = some (g.holding m, g.holding m) := rfl
      rw [if_pos rfl, run_bind hget] at hrun
      obtain ⟨rfl, rfl⟩ := run_pure_eq_some.mp hrun
      have hroot : ∃ N ∈ A ++ [M], g.memRoot = ptr N.adr := by
        rw [hs.root]
        cases A with
        | nil => exact ⟨M, by simp, rfl⟩
        | cons N A => exact ⟨N, by simp, rfl⟩
      obtain ⟨N, hN, hroot⟩ := hroot
      exact ⟨g, m, _, rfl, .inr ⟨N, hN, _, _, congrArg (Turn.again · _ _) hroot, Served.refl hs, .inr hroom⟩⟩
    | false =>
      rw [if_neg Bool.false_ne_true] at hrun
      obtain ⟨fresh, u, halloc, hrun⟩ := run_bind_eq_some.mp hrun
      obtain ⟨F, g', m', rfl, rfl, hF, hapart, hwaits⟩ := grow_holding hsize hroom halloc
      have hFlow := F.low
      have hFlimit := F.limit_bounds
      have hpos := directMap_pos
      rw [toNat_physMemOffset] at hFlow
      have hprev : majPrev (ptr F.adr) = ptr F.adr := rfl
      rw [run_bind (store64_holding (by omega) _), if_neg (mt (ptr_eq_zero (by omega)).mp (by omega)), hprev,
        run_bind (store64_holding (by omega) _), toNat_ptr (by omega), toNat_ptr (by omega)] at hrun
      obtain ⟨hshaped, hkept⟩ := hF.snoc hs hapart
      refine hf F g' _ r t ⟨hshaped, ?_, hkept⟩ hwaits hrun
      rw [userBlocks, List.flatMap_append, List.flatMap_singleton, hF.empty]
      simp [userBlocks]

/-- Cases 2 to 5. -/
lemma mallocIn_holding (hs : Shaped g m (A ++ M :: B)) (hsize : size.toNat + 80 + 4096 ≤ 2^32)
    (hreq : reqSize.toNat + 32 ≤ size.toNat) (hempty : M.minors = [] → M.adr + 80 + size.toNat ≤ M.limit)
    (hroom : M.minors ≠ [] → HasRoom g (A ++ M :: B) size)
    (hrun : mallocIn fuel size reqSize (ptr M.adr) startedBet bestSize (g.holding m) = some (r, t)) :
    TurnEnds m (A ++ M :: B) size reqSize r t := by
  have hM := M.limit_bounds
  have hholds := hs.holds M (by simp)
  have hfield : majFirst (ptr M.adr) = ptr (M.adr+32) := ptr_add _ 32
  have hlimit : M.limit = M.adr + M.pages*4096 := rfl
  have hdone : ∀ {p : PVOID} {m' : ByteMemory}, r = .done p → t = g.holding m' →
      ServedIn m m' M size.toNat reqSize.toNat p → TurnEnds m (A ++ M :: B) size reqSize r t := by
    intro p m' hr ht hin
    obtain ⟨N, hserved⟩ := hin.served hs
    exact ⟨g, m', _, ht, .inl ⟨p, hr, hserved⟩⟩
  rw [mallocIn, hfield, run_bind (load64_holding (by omega)), hholds.first] at hrun
  cases hminors : M.minors with
  | nil =>
    let new : MinorBlock := ⟨M.adr+40, size.toNat, reqSize.toNat⟩
    have hlaid : Laid (M.adr+40) M.limit [new] := by
      have hnone : Laid (M.adr+40) M.limit [] := hminors ▸ M.laid
      have hfits := hempty hminors
      exact hnone.fill_front rfl (show M.adr + 40 + 40 + size.toNat ≤ M.limit by omega) hreq
    rw [hminors] at hrun
    have hnull : ptr ((([] : List MinorBlock).map MinorBlock.adr).headD 0) = 0 := rfl
    rw [if_pos hnull, run_bind (mallocFirst_holding hlaid rfl rfl rfl)] at hrun
    obtain ⟨rfl, rfl⟩ := run_pure_eq_some.mp hrun
    exact hdone rfl rfl ⟨[], new, [], hminors, hlaid, rfl, rfl, rfl, placed_first hholds hminors hlaid rfl⟩
  | cons b l =>
    have hroom := hroom (by simp [hminors])
    have hlaid : Laid (M.adr+40) M.limit (b :: l) := hminors ▸ M.laid
    obtain ⟨hlow, hhigh⟩ := hlaid.inside b (by simp)
    have hstop : b.stop = b.adr + 40 + b.size := rfl
    have hb : ptr (((b :: l).map MinorBlock.adr).headD 0) = ptr b.adr := rfl
    have hdiff : ptr b.adr - ptr M.adr - 40 = ptr (b.adr - M.adr - 40) := by
      have h40 : ptr (b.adr - M.adr) - 40 = ptr (b.adr - M.adr - 40) := ptr_sub (b := 40) (by omega)
      rw [ptr_sub (by omega), h40]
    have hcompare : ptr (b.adr - M.adr - 40) ≥ size + 40 ↔ size.toNat + 40 ≤ b.adr - M.adr - 40 := by
      have hsum : (size + 40).toNat = size.toNat + 40 := by
        rw [BitVec.toNat_add]
        change (size.toNat + 40) % 2^64 = _
        omega
      rw [ge_iff_le, BitVec.le_def, hsum, toNat_ptr (by omega)]
    rw [hminors, hb, if_neg (mt (ptr_eq_zero (by omega)).mp (by omega)), hdiff] at hrun
    by_cases hfront : size.toNat + 40 ≤ b.adr - M.adr - 40
    · let new : MinorBlock := ⟨M.adr+40, size.toNat, reqSize.toNat⟩
      have hnew : Laid (M.adr+40) M.limit (new :: b :: l) :=
        hlaid.fill_front rfl (show M.adr + 40 + 40 + size.toNat ≤ b.adr by omega) hreq
      rw [if_pos (hcompare.mpr hfront), run_bind (mallocFront_holding hnew rfl rfl rfl)] at hrun
      obtain ⟨rfl, rfl⟩ := run_pure_eq_some.mp hrun
      exact hdone rfl rfl ⟨[], new, b :: l, hminors, hnew, rfl, rfl, rfl, placed_front hholds hminors hnew rfl⟩
    · rw [if_neg (mt hcompare.mp hfront)] at hrun
      obtain ⟨found, u, hwalk, hrun⟩ := run_bind_eq_some.mp hrun
      have hwhole : M.minors = [] ++ b :: l := hminors
      rcases mallocBetween_holding hholds hwhole (by omega) hreq hwalk with ⟨rfl, rfl⟩ | ⟨p, m', rfl, rfl, hin⟩
      · refine moveOn_holding hs hsize hroom (fun F g' m' r t hserved hwaits hf => ?_) hrun
        obtain ⟨rfl, rfl⟩ := run_pure_eq_some.mp hf
        exact ⟨g', m', _, rfl, .inr ⟨F, by simp, _, _, rfl, hserved, .inl hwaits⟩⟩
      · obtain ⟨rfl, rfl⟩ := run_pure_eq_some.mp hrun
        exact hdone rfl rfl hin

lemma MajorBlock.usage_le (M : MajorBlock) : usageOf M.minors ≤ M.pages*4096 := by
  have hbounds := M.limit_bounds
  have hlimit : M.limit = M.adr + M.pages*4096 := rfl
  have hlaid : Laid (M.adr+40) M.limit M.minors := M.laid
  have hsum := hlaid.usageOf_le (by omega)
  omega

/-- `maj->size - maj->usage`. -/
lemma freeBytes_eq (M : MajorBlock) :
    (BitVec.ofNat 32 (M.pages*4096) - BitVec.ofNat 32 (usageOf M.minors)).zeroExtend 64 =
      ptr (M.pages*4096 - usageOf M.minors) := by
  have husage := M.usage_le
  have hpages := M.pages_lt
  apply BitVec.eq_of_toNat_eq
  rw [BitVec.zeroExtend, BitVec.toNat_setWidth, BitVec.toNat_sub, BitVec.toNat_ofNat, BitVec.toNat_ofNat,
    toNat_ptr (by omega)]
  omega

lemma Shaped.changeBet (hs : Shaped g m Ms) (hM : M ∈ Ms) (c : Prop) [Decidable c] :
    Shaped { g with bestBet := if c then ptr M.adr else g.bestBet } m Ms := by
  refine ⟨hs.root, ?_, hs.links, hs.holds, hs.apart, hs.live⟩
  by_cases hc : c
  · exact .inr ⟨M, hM, if_pos hc⟩
  · have hkeep : (if c then ptr M.adr else g.bestBet) = g.bestBet := if_neg hc
    rcases hs.bet with h0 | ⟨N, hN, heq⟩
    · exact .inl (hkeep.trans h0)
    · exact .inr ⟨N, hN, hkeep.trans heq⟩

lemma when_bestBet (c : Prop) [Decidable c] (maj : PVOID) :
    when c (modify fun h => { h with bestBet := maj }) (g.holding m) =
      some ((), Heap.holding { g with bestBet := if c then maj else g.bestBet } m) := by
  by_cases hc : c
  · rw [when, if_pos hc, if_pos hc]
    rfl
  · rw [when, if_neg hc, if_neg hc]
    rfl

/-- A whole turn. -/
lemma mallocTurn_holding (hs : Shaped g m (A ++ M :: B)) (hsize : size.toNat + 80 + 4096 ≤ 2^32)
    (hreq : reqSize.toNat + 32 ≤ size.toNat) (hroom : Waits M size ∨ HasRoom g (A ++ M :: B) size)
    (hrun : mallocTurn fuel size reqSize (ptr M.adr) startedBet bestSize (g.holding m) = some (r, t)) :
    TurnEnds m (A ++ M :: B) size reqSize r t := by
  have hM := M.limit_bounds
  have hlimit : M.limit = M.adr + M.pages*4096 := rfl
  have hholds := hs.holds M (by simp)
  have hsizeField : majSize (ptr M.adr) = ptr (M.adr+20) := ptr_add _ 20
  have husageField : majUsage (ptr M.adr) = ptr (M.adr+24) := ptr_add _ 24
  have hpages := M.pages_lt
  have husage := M.usage_le
  have hcompare : ptr (M.pages*4096 - usageOf M.minors) < size + 40 ↔ M.pages*4096 - usageOf M.minors < size.toNat + 40 := by
    have hsum : (size + 40).toNat = size.toNat + 40 := by
      rw [BitVec.toNat_add]
      change (size.toNat + 40) % 2^64 = _
      omega
    rw [BitVec.lt_def, hsum, toNat_ptr (by omega)]
  rw [mallocTurn, hsizeField, husageField, run_bind (load32_holding (by omega)), run_bind (load32_holding (by omega)),
    hholds.size, hholds.usage] at hrun
  dsimp only at hrun
  rw [freeBytes_eq, run_bind (when_bestBet _ _)] at hrun
  have hbet := hs.changeBet (M := M) (by simp) (bestSize < ptr (M.pages*4096 - usageOf M.minors))
  have hroomEmpty : Waits M size → M.pages*4096 - usageOf M.minors = M.pages*4096 - 40 := by
    intro hwaits
    rw [hwaits.1]
    rfl
  by_cases hsmall : M.pages*4096 - usageOf M.minors < size.toNat + 40
  · have hgrow : HasRoom g (A ++ M :: B) size := by
      rcases hroom with hwaits | hroom
      · have := hroomEmpty hwaits
        have := hwaits.2
        omega
      · exact hroom
    rw [if_pos (hcompare.mpr hsmall)] at hrun
    refine moveOn_holding hbet hsize hgrow (fun F g' m' r t hserved hwaits hf => ?_) hrun
    obtain ⟨g'', m'', Ms', rfl, hends⟩ :=
      mallocIn_holding (B := []) hserved.shaped hsize hreq (fun _ => hwaits.2) (fun hne => absurd hwaits.1 hne) hf
    refine ⟨g'', m'', Ms', rfl, hends.imp (fun hdone => ?_) fun hagain => ?_⟩
    · obtain ⟨p, hr, h⟩ := hdone
      exact ⟨p, hr, hserved.trans h⟩
    · obtain ⟨N, hN, sb, bs, hr, h, hnext⟩ := hagain
      exact ⟨N, hN, sb, bs, hr, hserved.trans h, hnext⟩
  · rw [if_neg (mt hcompare.mp hsmall)] at hrun
    refine mallocIn_holding hbet hsize hreq (fun hempty => ?_) (fun hne => ?_) hrun
    · have hused : usageOf M.minors = 40 := by rw [hempty]; rfl
      omega
    · rcases hroom with hwaits | hroom
      · exact absurd hwaits.1 hne
      · exact hroom

/-- The whole search. -/
lemma mallocLoop_holding (hs : Shaped g m Ms) (hM : M ∈ Ms) (hsize : size.toNat + 80 + 4096 ≤ 2^32)
    (hreq : reqSize.toNat + 32 ≤ size.toNat) (hroom : Waits M size ∨ HasRoom g Ms size)
    (hrun : mallocLoop size reqSize fuel (ptr M.adr) startedBet bestSize (g.holding m) = some (p, t)) :
    ∃ g' m' Ms', t = Heap.holding g' m' ∧ Served g' m m' Ms Ms' [(p.toNat, reqSize.toNat)] := by
  induction fuel generalizing g m Ms M startedBet bestSize with
  | zero => cases hrun
  | succ fuel ih =>
    have hbounds := M.limit_bounds
    have hlow := M.low
    have hpos := directMap_pos
    rw [toNat_physMemOffset] at hlow
    rw [mallocLoop, if_neg (mt (ptr_eq_zero (by omega)).mp (by omega))] at hrun
    obtain ⟨r, u, hturn, hrun⟩ := run_bind_eq_some.mp hrun
    obtain ⟨A, B, rfl⟩ := List.append_of_mem hM
    obtain ⟨g', m', Ms', rfl, ⟨q, rfl, hserved⟩ | ⟨N, hN, sb, bs, rfl, hserved, hnext⟩⟩ :=
      mallocTurn_holding hs hsize hreq hroom hturn
    · obtain ⟨rfl, rfl⟩ := run_pure_eq_some.mp hrun
      exact ⟨g', m', Ms', rfl, hserved⟩
    · obtain ⟨g'', m'', Ms'', rfl, hrest⟩ := ih hserved.shaped hN hnext hrun
      exact ⟨g'', m'', Ms'', rfl, hserved.trans hrest⟩

lemma mallocSearch_holding (hs : Shaped g m Ms) (hne : Ms ≠ []) (hsize : size.toNat + 80 + 4096 ≤ 2^32)
    (hreq : reqSize.toNat + 32 ≤ size.toNat) (hroom : (∀ M ∈ Ms, Waits M size) ∨ HasRoom g Ms size)
    (hrun : mallocSearch fuel size reqSize (g.holding m) = some (p, t)) :
    ∃ g' m' Ms', t = Heap.holding g' m' ∧ Served g' m m' Ms Ms' [(p.toNat, reqSize.toNat)] := by
  have hget : (get : HeapM Heap) (g.holding m) = some (g.holding m, g.holding m) := rfl
  have hbetOf : (g.holding m).bestBet = g.bestBet := rfl
  have hrootOf : (g.holding m).memRoot = g.memRoot := rfl
  have hroot : ∃ M ∈ Ms, g.memRoot = ptr M.adr := by
    rw [hs.root]
    cases Ms with
    | nil => exact absurd rfl hne
    | cons M Ms => exact ⟨M, by simp, rfl⟩
  obtain ⟨R, hR, hroot⟩ := hroot
  have hready : ∀ M ∈ Ms, Waits M size ∨ HasRoom g Ms size := fun M hM => hroom.imp_left fun h => h M hM
  rw [mallocSearch, run_bind hget, hbetOf, hrootOf, hroot] at hrun
  rcases hs.bet with hnone | ⟨M, hM, hbet⟩
  · rw [if_pos hnone] at hrun
    exact mallocLoop_holding hs hR hsize hreq (hready R hR) hrun
  · have hbounds := M.limit_bounds
    have hlow := M.low
    have hpos := directMap_pos
    rw [toNat_physMemOffset] at hlow
    have hsizeField : majSize (ptr M.adr) = ptr (M.adr+20) := ptr_add _ 20
    have husageField : majUsage (ptr M.adr) = ptr (M.adr+24) := ptr_add _ 24
    rw [hbet, if_neg (mt (ptr_eq_zero (by omega)).mp (by omega)), hsizeField, husageField,
      run_bind (load32_holding (by omega)), run_bind (load32_holding (by omega))] at hrun
    split_ifs at hrun
    · exact mallocLoop_holding hs hM hsize hreq (hready M hM) hrun
    · exact mallocLoop_holding hs hR hsize hreq (hready R hR) hrun

/-- `malloc` gives its caller a block of its own. -/
theorem liballocMalloc_holding (hs : Shaped g m Ms) (hsize : reqSize.toNat + 112 + 4096 ≤ 2^32)
    (hroom : HasRoom g Ms (reqSize + 32)) (hrun : liballocMalloc fuel reqSize (g.holding m) = some (p, t)) :
    ∃ g' m' Ms', t = Heap.holding g' m' ∧ Served g' m m' Ms Ms' [(p.toNat, reqSize.toNat)] := by
  have hget : (get : HeapM Heap) (g.holding m) = some (g.holding m, g.holding m) := rfl
  have hrootOf : (g.holding m).memRoot = g.memRoot := rfl
  have hsum : (reqSize + 32).toNat = reqSize.toNat + 32 := by
    rw [BitVec.toNat_add]
    change (reqSize.toNat + 32) % 2^64 = _
    omega
  have hwraps : ¬ reqSize + 32 = 0 := by
    intro h0
    have := congrArg BitVec.toNat h0
    rw [hsum] at this
    change _ = 0 at this
    omega
  rw [liballocMalloc, if_neg hwraps, run_bind hget, hrootOf] at hrun
  cases Ms with
  | nil =>
    have hroot : g.memRoot = 0 := hs.root
    rw [if_pos hroot] at hrun
    obtain ⟨root, u, halloc, hrun⟩ := run_bind_eq_some.mp hrun
    obtain ⟨F, g', m', rfl, rfl, hF, -, hwaits⟩ := grow_holding (by omega) hroom halloc
    have hFlow := F.low
    have hFlimit := F.limit_bounds
    have hpos := directMap_pos
    rw [toNat_physMemOffset] at hFlow
    have hmodify : (modify fun h => { h with memRoot := ptr F.adr } : HeapM PUnit) (g'.holding m') =
        some (⟨⟩, Heap.holding { g' with memRoot := ptr F.adr } m') := rfl
    rw [run_bind hmodify, if_neg (mt (ptr_eq_zero (by omega)).mp (by omega))] at hrun
    obtain ⟨g'', m'', Ms', rfl, hserved⟩ := mallocSearch_holding (hF.first hs) (by simp) (by omega) (by omega)
      (.inl fun M hM => (List.mem_singleton.mp hM) ▸ hwaits) hrun
    refine ⟨g'', m'', Ms', rfl, hserved.shaped, ?_, fun b hb => by cases hb⟩
    have hnone : userBlocks [F] = userBlocks [] := by
      rw [userBlocks, List.flatMap_singleton, hF.empty]
      rfl
    rw [← hnone]
    exact hserved.blocks
  | cons M Ms =>
    have hlow := M.low
    have hbounds := M.limit_bounds
    have hpos := directMap_pos
    rw [toNat_physMemOffset] at hlow
    have hroot : g.memRoot = ptr M.adr := hs.root
    rw [hroot, if_neg (mt (ptr_eq_zero (by omega)).mp (by omega))] at hrun
    exact mallocSearch_holding hs (by simp) (by omega) (by omega) (.inr hroom) hrun

end Turns

end Open98.Mm
