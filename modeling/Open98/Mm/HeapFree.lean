import Open98.Mm.HeapMalloc

/-! What `liballoc_free` does to the blocks of the heap. -/
namespace Open98.Mm
open Library

section Unlinking
variable {g : Heap} {m : ByteMemory} {M : MajorBlock} {l₁ l₂ : List MinorBlock} {c : MinorBlock} {prev next : ℕ}

/-- The links around a minor block that is taken out. -/
def unlinked (maj prev next : ℕ) (m : ByteMemory) : ByteMemory :=
  storeBytes (relinked next prev m) (if prev = 0 then maj + 32 else prev + 8) 8 next

lemma unlinkMinor_holding {maj min : ℕ} (hmaj : maj + 40 ≤ 2^64) (hmin : min + 40 ≤ 2^64) (hprev : prev + 16 ≤ 2^64)
    (hnext : next + 8 ≤ 2^64) (hprevLoad : prevAt m min = prev) (hnextLoad : nextAt m min = next)
    (hapart : next = 0 ∨ next + 8 ≤ min ∨ min + 16 ≤ next) (hapart' : prev = 0 ∨ prev + 16 ≤ min ∨ min + 16 ≤ prev + 8) :
    unlinkMinor (ptr min) (ptr maj) (g.holding m) = some ((), g.holding (unlinked maj prev next m)) := by
  have hnextField : minNext (ptr min) = ptr (min+8) := ptr_add _ 8
  have hprevField : minPrev (ptr min) = ptr min := rfl
  have hdown : minNext (ptr prev) = ptr (prev+8) := ptr_add _ 8
  have hup : minPrev (ptr next) = ptr next := rfl
  have hfirst : majFirst (ptr maj) = ptr (maj+32) := ptr_add _ 32
  have hprevAgain : loadBytes (relinked next prev m) min 8 = prev := by
    rw [loadBytes_relinked (by omega)]
    exact hprevLoad
  have hnextAgain : loadBytes (relinked next prev m) (min+8) 8 = next := by
    rw [loadBytes_relinked (by omega)]
    exact hnextLoad
  unfold prevAt at hprevLoad
  unfold nextAt at hnextLoad
  simp only [unlinkMinor, hnextField, hprevField]
  refine (run_bind (load64_holding (by omega))).trans ?_
  refine (run_bind (load64_holding (by omega))).trans ?_
  rw [hnextLoad, hprevLoad, hup]
  refine (run_bind (when_store64_holding hnext _)).trans ?_
  rw [toNat_ptr (by omega)]
  refine (run_bind (load64_holding (by omega))).trans ?_
  refine (run_bind (load64_holding (by omega))).trans ?_
  rw [hnextAgain, hprevAgain, hdown, hfirst, unlinked]
  by_cases h0 : prev = 0
  · have hnull : ptr prev = 0 := (ptr_eq_zero (by omega)).mpr h0
    have hskip : ∀ x, when (ptr prev ≠ 0) x (g.holding (relinked next prev m)) =
        some ((), g.holding (relinked next prev m)) := fun x => by
      rw [when, if_neg (not_not.mpr hnull)]
      rfl
    refine (run_bind (hskip _)).trans ?_
    refine (run_bind (load64_holding (by omega))).trans ?_
    refine (run_bind (load64_holding (by omega))).trans ?_
    rw [hnextAgain, hprevAgain, when, if_pos hnull, if_pos h0, store64_holding (by omega), toNat_ptr (by omega)]
  · have hsome : ptr prev ≠ 0 := mt (ptr_eq_zero (by omega)).mp h0
    have hgo : ∀ x, when (ptr prev ≠ 0) x (g.holding (relinked next prev m)) = x (g.holding (relinked next prev m)) :=
      fun x => by rw [when, if_pos hsome]
    have hprevThird : loadBytes (storeBytes (relinked next prev m) (prev+8) 8 next) min 8 = prev := by
      rw [loadBytes_storeBytes_apart (by omega), hprevAgain]
    have hnextThird : loadBytes (storeBytes (relinked next prev m) (prev+8) 8 next) (min+8) 8 = next := by
      rw [loadBytes_storeBytes_apart (by omega), hnextAgain]
    refine (run_bind ((hgo _).trans (store64_holding (by omega) _))).trans ?_
    rw [toNat_ptr (by omega)]
    refine (run_bind (load64_holding (by omega))).trans ?_
    refine (run_bind (load64_holding (by omega))).trans ?_
    rw [hprevThird, when, if_neg hsome, if_neg h0]
    rfl

/-- The end of `liballoc_free`. -/
def settle (maj : PVOID) (empty : Prop) [Decidable empty] : HeapM Unit :=
  if empty then releaseMajor maj else reconsiderBet maj

/-- The blocks beside a block lie inside the major block, and do not meet it. -/
lemma Laid.neighbours {lo hi : ℕ} (h : Laid lo hi (l₁ ++ c :: l₂)) :
    ((l₁.map MinorBlock.adr).getLastD 0 = 0 ∨ lo ≤ (l₁.map MinorBlock.adr).getLastD 0 ∧
      (l₁.map MinorBlock.adr).getLastD 0 + 40 ≤ c.adr) ∧
    ((l₂.map MinorBlock.adr).headD 0 = 0 ∨ c.stop ≤ (l₂.map MinorBlock.adr).headD 0 ∧
      (l₂.map MinorBlock.adr).headD 0 + 40 ≤ hi) := by
  have hrest := h.remove
  obtain ⟨hbefore, hbehind⟩ := h.around
  refine ⟨(getLastD_cases MinorBlock.adr l₁ 0).imp And.left fun hlast => ?_,
    (headD_cases MinorBlock.adr l₂ 0).imp And.left fun hhead => ?_⟩
  · obtain ⟨b, -, hb, heq⟩ := hlast
    have hbstop : b.stop = b.adr + 40 + b.size := rfl
    have hlow := (hrest.inside b (List.mem_append_left _ hb)).1
    have hle := hbefore b hb
    omega
  · obtain ⟨b, -, hb, heq⟩ := hhead
    have hbstop : b.stop = b.adr + 40 + b.size := rfl
    have hhigh := (hrest.inside b (List.mem_append_right _ hb)).2
    have hle := hbehind b hb
    omega

/-- Memory after the block is taken out of its list: the usage of the major block, the magic number, and the links. -/
def takenOut (maj : ℕ) (l₁ : List MinorBlock) (c : MinorBlock) (l₂ : List MinorBlock) (m : ByteMemory) : ByteMemory :=
  unlinked maj ((l₁.map MinorBlock.adr).getLastD 0) ((l₂.map MinorBlock.adr).headD 0)
    (storeBytes (storeBytes m (maj+24) 4 (usageOf (l₁ ++ l₂))) (c.adr+24) 4 liballocDead.toNat)

lemma takenOut_rejoined (hM : M.minors = l₁ ++ c :: l₂) : Rejoined m (takenOut M.adr l₁ c l₂ m) M.adr l₁ c l₂
    ((l₂.map MinorBlock.adr).headD 0) ((l₁.map MinorBlock.adr).getLastD 0) (usageOf (l₁ ++ l₂)) := by
  have hlaid : Laid (M.adr+40) M.limit (l₁ ++ c :: l₂) := hM ▸ M.laid
  have hrest := hlaid.remove
  have hbounds := M.limit_bounds
  obtain ⟨hcfrom, hcstop⟩ := hlaid.inside c (by simp)
  have hstop : c.stop = c.adr + 40 + c.size := rfl
  have husage := usageOf_lt M hlaid
  have hsum := usageOf_insert l₁ l₂ c
  have hprevCases := getLastD_cases MinorBlock.adr l₁ 0
  have hnextCases := headD_cases MinorBlock.adr l₂ 0
  obtain ⟨hprevPlace, hnextPlace⟩ := hlaid.neighbours
  rw [takenOut]
  generalize (l₁.map MinorBlock.adr).getLastD 0 = prev at *
  generalize (l₂.map MinorBlock.adr).headD 0 = next at *
  refine ⟨fun b hb => ?_, fun hnil => ?_, fun b hb => ?_, ?_, fun a ha => ?_⟩
  · rcases hprevCases with ⟨-, rfl⟩ | ⟨b', hb', hmem, rfl⟩
    · cases hb
    · obtain rfl := Option.some.inj (hb'.symm.trans hb)
      have hlow := (hrest.inside b' (List.mem_append_left _ hmem)).1
      rw [nextAt, unlinked, if_neg (by omega), loadBytes_storeBytes]
      omega
  · rcases hprevCases with ⟨rfl, -⟩ | ⟨b', hb', -⟩
    · rw [unlinked, if_pos rfl, loadBytes_storeBytes]
      omega
    · rw [hnil] at hb'
      cases hb'
  · rcases hnextCases with ⟨-, rfl⟩ | ⟨b', hb', hmem, rfl⟩
    · cases hb
    · obtain rfl := Option.some.inj (hb'.symm.trans hb)
      have hle := hlaid.around.2 b' hmem
      clear hprevCases
      rw [prevAt, unlinked, loadBytes_storeBytes_apart (by split_ifs <;> omega), loadBytes_relinked_self (by omega)]
      omega
  · clear hprevCases hnextCases
    rw [unlinked, loadBytes_storeBytes_apart (by split_ifs <;> omega), loadBytes_relinked (by omega)]
    simp (disch := omega) only [loadBytes_storeBytes_apart, loadBytes_storeBytes]
    omega
  · obtain ⟨husg, hfst, hblk, hbeh, hbef⟩ := ha
    have houter : a < (if prev = 0 then M.adr + 32 else prev + 8) ∨ (if prev = 0 then M.adr + 32 else prev + 8) + 8 ≤ a := by
      rcases hprevCases with ⟨rfl, hnil⟩ | ⟨b, hb, hmem, rfl⟩
      · exact hfst hnil
      · have hlow := (hrest.inside b (List.mem_append_left _ hmem)).1
        have := hbeh b hb
        rw [if_neg (by omega)]
        omega
    have hinner : next = 0 ∨ a < next ∨ next + 8 ≤ a := by
      refine hnextCases.imp And.left fun h => ?_
      obtain ⟨b, hb, -, rfl⟩ := h
      exact hbef b hb
    rw [unlinked, storeBytes_outside houter, relinked_outside hinner]
    simp (disch := omega) only [storeBytes_outside]

/-- `maj->usage -= min->size + sizeof( struct liballoc_minor )`. -/
lemma usage_without {u n : ℕ} (hu : u + (n + 40) < 2^32) : (((BitVec.ofNat 32 (u + (n + 40))).zeroExtend 64 -
    ((BitVec.ofNat 32 n).zeroExtend 64 + 40)).truncate 32).toNat = u := by
  have hbody : BitVec.ofNat 64 n + 40 = ptr (n + 40) := ptr_add n 40
  have hdiff : ptr (u + (n + 40)) - ptr (n + 40) = ptr u := by
    rw [ptr_sub (by omega), Nat.add_sub_cancel]
  rw [zeroExtend_ofNat hu, zeroExtend_ofNat (by omega), hbody]
  change ((ptr (u + (n + 40)) - ptr (n + 40)).truncate 32).toNat = _
  rw [hdiff, BitVec.truncate, BitVec.toNat_setWidth, toNat_ptr (by omega)]
  omega

/-- The minor block is taken out of its list. -/
lemma liballocFree_takeOut (h : M.Holds m) (hM : M.minors = l₁ ++ c :: l₂) :
    liballocFree (ptr c.user) (g.holding m) =
      settle (ptr M.adr) (loadBytes (takenOut M.adr l₁ c l₂ m) (M.adr+32) 8 = 0) (g.holding (takenOut M.adr l₁ c l₂ m)) := by
  have hlaid : Laid (M.adr+40) M.limit (l₁ ++ c :: l₂) := hM ▸ M.laid
  have hbounds := M.limit_bounds
  have hc := h.tagged c (by simp [hM])
  obtain ⟨hcfrom, hcstop⟩ := hlaid.inside c (by simp)
  have hcuser := c.user_bounds
  have hcroom := hlaid.room c (by simp)
  have hstop : c.stop = c.adr + 40 + c.size := rfl
  obtain ⟨hsize, -⟩ := fields_fit hlaid
  have husage := usageOf_lt M hlaid
  have hsum := usageOf_insert l₁ l₂ c
  have hu := h.usage
  rw [hM, hsum] at hu
  rw [hsum] at husage
  have hlinks := h.links
  rw [hM, List.map_append, List.map_cons] at hlinks
  obtain ⟨hprev, hnext⟩ := hlinks.links
  obtain ⟨hprevPlace, hnextPlace⟩ := hlaid.neighbours
  rw [takenOut]
  generalize (l₁.map MinorBlock.adr).getLastD 0 = prev at *
  generalize (l₂.map MinorBlock.adr).headD 0 = next at *
  have hprev₂ : prevAt (storeBytes (storeBytes m (M.adr+24) 4 (usageOf (l₁ ++ l₂))) (c.adr+24) 4 liballocDead.toNat)
      c.adr = prev := by
    simp (disch := omega) only [prevAt, loadBytes_storeBytes_apart]
    exact hprev
  have hnext₂ : nextAt (storeBytes (storeBytes m (M.adr+24) 4 (usageOf (l₁ ++ l₂))) (c.adr+24) 4 liballocDead.toNat)
      c.adr = next := by
    simp (disch := omega) only [nextAt, loadBytes_storeBytes_apart]
    exact hnext
  have hne : ptr c.user ≠ 0 := mt (ptr_eq_zero (by omega)).mp (by omega)
  have hback : ptr (c.adr+40) - 40 = ptr c.adr := ptr_sub (b := 40) (by omega)
  have hmagicField : minMagic (ptr c.adr) = ptr (c.adr+24) := ptr_add _ 24
  have hblockField : minBlock (ptr c.adr) = ptr (c.adr+16) := ptr_add _ 16
  have hsizeField : minSize (ptr c.adr) = ptr (c.adr+28) := ptr_add _ 28
  have husageField : majUsage (ptr M.adr) = ptr (M.adr+24) := ptr_add _ 24
  have hfirstField : majFirst (ptr M.adr) = ptr (M.adr+32) := ptr_add _ 32
  have hmagic : ¬ BitVec.ofNat 32 liballocMagic.toNat ≠ liballocMagic := not_not.mpr (by simp)
  rw [liballocFree, if_neg hne, MinorBlock.user, run_bind (unalign_holding (by omega) hc.shift)]
  dsimp only
  rw [hback, hmagicField, hblockField, hsizeField, run_bind (load32_holding (by omega)), hc.magic, if_neg hmagic,
    run_bind (load64_holding (by omega)), hc.block, run_bind (load32_holding (by omega)), hc.size, husageField,
    run_bind (load32_holding (by omega)), hu]
  refine (run_bind (store32_holding (by omega) _)).trans ?_
  rw [usage_without (by omega)]
  refine (run_bind (store32_holding (by omega) _)).trans ?_
  refine (run_bind (unlinkMinor_holding (by omega) (by omega) (by omega) (by omega) hprev₂ hnext₂ (by omega)
    (by omega))).trans ?_
  rw [hfirstField]
  refine (run_bind (load64_holding (by omega))).trans ?_
  generalize hafter : unlinked M.adr prev next _ = m'
  have hload : loadBytes m' (M.adr+32) 8 < 2^64 := loadBytes_lt _ _ 8
  unfold settle
  by_cases h0 : loadBytes m' (M.adr+32) 8 = 0
  · rw [if_pos h0, if_pos ((ptr_eq_zero hload).mpr h0)]
  · rw [if_neg h0, if_neg (mt (ptr_eq_zero hload).mp h0)]

end Unlinking

section Releasing
variable {g : Heap} {m : ByteMemory} {Ms A B : List MajorBlock} {M : MajorBlock}

/-- Where the frames of a block are. -/
lemma MajorBlock.toNat_sub_physMemOffset (M : MajorBlock) : (ptr M.adr - physMemOffset).toNat = M.adr - directMap := by
  have hlow := M.low
  have hbounds := M.limit_bounds
  rw [toNat_physMemOffset] at hlow
  have hsplit : ptr M.adr = ptr (M.adr - directMap + directMap) := by rw [Nat.sub_add_cancel hlow]
  rw [hsplit, ptr_sub_directMap]
  exact toNat_ptr ((Nat.sub_le _ _).trans_lt (by omega))

/-- The record of the block is dropped. -/
lemma Shaped.forget (hs : Shaped g m (A ++ M :: B)) :
    ((g.live.eraseP fun r => r.adr = (ptr M.adr - physMemOffset).toNat).map MajorRecord.extent).Perm
      ((A ++ B).map MajorBlock.extent) := by
  have hlow := M.low
  rw [toNat_physMemOffset] at hlow
  have hphys := M.toNat_sub_physMemOffset
  have hpred : (fun r : MajorRecord => decide (r.adr = (ptr M.adr - physMemOffset).toNat)) =
      (fun x : ℕ × ℕ => decide (x.1 = M.adr)) ∘ MajorRecord.extent := by
    funext r
    rw [Function.comp_apply, decide_eq_decide, hphys, MajorRecord.extent]
    exact eq_tsub_iff_add_eq_of_le hlow
  have hadrs : ((A ++ M :: B).map MajorBlock.extent).Pairwise fun x y => x.1 ≠ y.1 :=
    List.pairwise_map.mpr (List.pairwise_map.mp hs.nodup)
  have hlive : (g.live.map MajorRecord.extent).Pairwise fun x y => x.1 ≠ y.1 :=
    hadrs.perm hs.live.symm fun h => h.symm
  have hothers : ∀ x ∈ A.map MajorBlock.extent, ¬ decide (x.1 = M.adr) = true := by
    intro x hx h
    obtain ⟨N, hN, rfl⟩ := List.mem_map.mp hx
    rw [List.map_append, List.map_cons, List.pairwise_append] at hadrs
    exact hadrs.2.2 _ (List.mem_map_of_mem hN) _ List.mem_cons_self (of_decide_eq_true h)
  have hself : decide (M.extent.1 = M.adr) = true := decide_eq_true rfl
  have herase : ((A ++ M :: B).map MajorBlock.extent).eraseP (fun x => decide (x.1 = M.adr)) =
      (A ++ B).map MajorBlock.extent := by
    rw [List.map_append, List.map_cons, List.eraseP_append_right _ hothers,
      List.eraseP_cons_of_pos (p := fun x : ℕ × ℕ => decide (x.1 = M.adr)) hself,
      List.map_append]
  rw [hpred, ← List.eraseP_map, ← herase]
  refine hs.live.eraseP _ (hlive.imp fun {x y} hne hx hy => hne ?_)
  exact (of_decide_eq_true hx).trans (of_decide_eq_true hy).symm
/-- The links around a major block that is taken out. -/
def detached (prev next : ℕ) (m : ByteMemory) : ByteMemory :=
  relinked next prev (if prev = 0 then m else storeBytes m (prev+8) 8 next)

lemma detached_outside {prev next a : ℕ} (hprev : prev = 0 ∨ a < prev + 8 ∨ prev + 16 ≤ a)
    (hnext : next = 0 ∨ a < next ∨ next + 8 ≤ a) : detached prev next m a = m a := by
  rw [detached, relinked_outside hnext]
  split_ifs with h0
  · rfl
  · exact storeBytes_outside (by omega)

lemma forgetMajor_run (maj : PVOID) : forgetMajor maj (g.holding m) = some ((), Heap.holding { g with
    live := g.live.eraseP fun r => r.adr = (maj - physMemOffset).toNat } m) := rfl

lemma pageHook_run (maj : PVOID) (pages : UINT) : liballocFree_ maj pages (g.holding m) = some ((), Heap.holding { g with
    pmm := pmmFreePages g.pmm (maj - physMemOffset).toNat ((pages + 1).signExtend 64).toNat } m) := rfl

lemma move_run (root bet : Heap → PVOID) :
    (modify fun h => { h with memRoot := root h, bestBet := bet h } : HeapM Unit) (g.holding m) =
      some ((), Heap.holding { g with memRoot := root (g.holding m), bestBet := bet (g.holding m) } m) := rfl

lemma releaseMajor_run {maj prev next : ℕ} (hmaj : maj + 40 ≤ 2^64) (hprev : prev + 16 ≤ 2^64) (hnext : next + 8 ≤ 2^64)
    (hprevLoad : prevAt m maj = prev) (hnextLoad : nextAt m maj = next)
    (hapart : prev = 0 ∨ prev + 16 ≤ maj ∨ maj + 24 ≤ prev + 8) :
    ∃ s, releaseMajor (ptr maj) (g.holding m) = some ((), Heap.holding { g with
      pmm := s
      memRoot := if g.memRoot = ptr maj then ptr next else g.memRoot
      bestBet := if g.bestBet = ptr maj then 0 else g.bestBet
      live := g.live.eraseP fun r => r.adr = (ptr maj - physMemOffset).toNat } (detached prev next m)) := by
  have hprevField : majPrev (ptr maj) = ptr maj := rfl
  have hnextField : majNext (ptr maj) = ptr (maj+8) := ptr_add _ 8
  have hpagesField : majPages (ptr maj) = ptr (maj+16) := ptr_add _ 16
  have hdown : majNext (ptr prev) = ptr (prev+8) := ptr_add _ 8
  have hup : majPrev (ptr next) = ptr next := rfl
  have hstored : ∀ g : Heap, when (ptr prev ≠ 0) (store64 (ptr (prev+8)) (ptr next)) (g.holding m) =
      some ((), g.holding (if prev = 0 then m else storeBytes m (prev+8) 8 next)) := by
    intro g
    by_cases h0 : prev = 0
    · rw [when, if_neg (not_not.mpr ((ptr_eq_zero (by omega)).mpr h0)), if_pos h0]
      rfl
    · rw [when, if_pos (mt (ptr_eq_zero (by omega)).mp h0), if_neg h0, store64_holding (by omega), toNat_ptr (by omega)]
  have hagain : ∀ k, k + 8 ≤ 24 → loadBytes (if prev = 0 then m else storeBytes m (prev+8) 8 next) (maj+k) 8 =
      loadBytes m (maj+k) 8 := by
    intro k hk
    split_ifs with h0
    · rfl
    · exact loadBytes_storeBytes_apart (by omega)
  have hnextAgain : nextAt (if prev = 0 then m else storeBytes m (prev+8) 8 next) maj = next :=
    (hagain 8 (by omega)).trans hnextLoad
  have hprevAgain : prevAt (if prev = 0 then m else storeBytes m (prev+8) 8 next) maj = prev :=
    (hagain 0 (by omega)).trans hprevLoad
  unfold nextAt at hnextAgain
  unfold prevAt at hprevAgain
  unfold prevAt at hprevLoad
  unfold nextAt at hnextLoad
  refine ⟨pmmFreePages g.pmm (ptr maj - physMemOffset).toNat
    ((BitVec.ofNat 32 (loadBytes (detached prev next m) (maj+16) 4) + 1).signExtend 64).toNat, ?_⟩
  simp only [releaseMajor, hprevField, hnextField, hpagesField]
  refine (run_bind (load64_holding (by omega))).trans ?_
  refine (run_bind (load64_holding (by omega))).trans ?_
  rw [hnextLoad, hprevLoad, hdown]
  refine (run_bind (move_run (fun h => if h.memRoot = ptr maj then ptr next else h.memRoot)
    fun h => if h.bestBet = ptr maj then 0 else h.bestBet)).trans ?_
  refine (run_bind (hstored _)).trans ?_
  refine (run_bind (load64_holding (by omega))).trans ?_
  refine (run_bind (load64_holding (by omega))).trans ?_
  rw [hnextAgain, hprevAgain, hup]
  refine (run_bind (when_store64_holding hnext _)).trans ?_
  rw [toNat_ptr (by omega)]
  refine (run_bind (forgetMajor_run _)).trans ?_
  exact (run_bind (load32_holding (by omega))).trans (pageHook_run _ _)

/-- Different blocks of the list do not meet. -/
lemma eq_or_apart_of_mem {N X : MajorBlock} (h : Ms.Pairwise MajorBlock.Apart) (hN : N ∈ Ms) (hX : X ∈ Ms) :
    N = X ∨ N.Apart X := by
  obtain ⟨C, D, rfl⟩ := List.append_of_mem hX
  exact eq_or_apart h hN

lemma MajorBlock.adr_ne_zero (M : MajorBlock) : M.adr ≠ 0 :=
  (directMap_pos.trans_le (toNat_physMemOffset ▸ M.low)).ne'

lemma sublist_without (A B : List MajorBlock) (M : MajorBlock) : (A ++ B).Sublist (A ++ M :: B) :=
  (List.Sublist.refl A).append (List.sublist_cons_self M B)

section Detached
variable {prev next : ℕ} (hprev : (A.map MajorBlock.adr).getLastD 0 = prev) (hnext : (B.map MajorBlock.adr).headD 0 = next)
include hprev hnext

/-- Only links are written. -/
lemma detached_frame {a : ℕ} (ha : ∀ N ∈ A ++ B, a < N.adr ∨ N.adr + 16 ≤ a) : detached prev next m a = m a := by
  refine detached_outside ?_ ?_
  · rcases getLastD_cases MajorBlock.adr A 0 with ⟨h0, -⟩ | ⟨P, -, hP, heq⟩
    · exact .inl (hprev.symm.trans h0)
    · have := ha P (List.mem_append_left _ hP)
      omega
  · rcases headD_cases MajorBlock.adr B 0 with ⟨h0, -⟩ | ⟨X, -, hX, heq⟩
    · exact .inl (hnext.symm.trans h0)
    · have := ha X (List.mem_append_right _ hX)
      omega

/-- A byte of a link that stays. -/
lemma detached_cell (hapart : (A ++ B).Pairwise MajorBlock.Apart) {N : MajorBlock} {a : ℕ} (hN : N ∈ A ++ B)
    (hcell : N.adr ≤ a ∧ a < N.adr + 16) (hlast : A.getLast? = some N → a < N.adr + 8)
    (hhead : B.head? = some N → N.adr + 8 ≤ a) : detached prev next m a = m a := by
  have hNbounds := N.limit_bounds
  refine detached_outside ?_ ?_
  · rcases getLastD_cases MajorBlock.adr A 0 with ⟨h0, -⟩ | ⟨P, hP, hmem, heq⟩
    · exact .inl (hprev.symm.trans h0)
    · have hPbounds := P.limit_bounds
      rcases eq_or_apart_of_mem hapart hN (List.mem_append_left _ hmem) with rfl | hNP
      · have := hlast hP
        omega
      · unfold MajorBlock.Apart at hNP
        omega
  · rcases headD_cases MajorBlock.adr B 0 with ⟨h0, -⟩ | ⟨X, hX, hmem, heq⟩
    · exact .inl (hnext.symm.trans h0)
    · have hXbounds := X.limit_bounds
      rcases eq_or_apart_of_mem hapart hN (List.mem_append_right _ hmem) with rfl | hNX
      · have := hhead hX
        omega
      · unfold MajorBlock.Apart at hNX
        omega

lemma nextAt_detached (hapart : (A ++ B).Pairwise MajorBlock.Apart) {N : MajorBlock} (hN : N ∈ A ++ B)
    (hlast : A.getLast? ≠ some N) : nextAt (detached prev next m) N.adr = nextAt m N.adr :=
  loadBytes_congr fun _ ha hlt =>
    detached_cell hprev hnext hapart hN (by omega) (fun h => absurd h hlast) fun _ => ha

lemma prevAt_detached (hapart : (A ++ B).Pairwise MajorBlock.Apart) {N : MajorBlock} (hN : N ∈ A ++ B)
    (hhead : B.head? ≠ some N) : prevAt (detached prev next m) N.adr = prevAt m N.adr :=
  loadBytes_congr fun _ ha hlt =>
    detached_cell hprev hnext hapart hN (by omega) (fun _ => hlt) fun h => absurd h hhead

/-- The blocks beside the one that is taken out name each other. -/
lemma detached_links (hapart : (A ++ B).Pairwise MajorBlock.Apart) :
    (∀ P, A.getLast? = some P → nextAt (detached prev next m) P.adr = next) ∧
      ∀ X, B.head? = some X → prevAt (detached prev next m) X.adr = prev := by
  have hprevCases := getLastD_cases MajorBlock.adr A 0
  have hnextCases := headD_cases MajorBlock.adr B 0
  rw [hprev] at hprevCases
  rw [hnext] at hnextCases
  refine ⟨fun P hP => ?_, fun X hX => ?_⟩
  · have hmem := List.mem_of_getLast? hP
    have hPbounds := P.limit_bounds
    have happly : next < 2^64 ∧ (next = 0 ∨ next + 8 ≤ P.adr + 8 ∨ P.adr + 16 ≤ next) := by
      rcases hnextCases with ⟨rfl, -⟩ | ⟨X, -, hX, rfl⟩
      · exact ⟨by decide, .inl rfl⟩
      · have hXbounds := X.limit_bounds
        rcases eq_or_apart_of_mem hapart (List.mem_append_left _ hmem) (List.mem_append_right _ hX) with rfl | hPX
        · omega
        · unfold MajorBlock.Apart at hPX
          omega
    rcases hprevCases with ⟨-, rfl⟩ | ⟨P', hP', -, rfl⟩
    · cases hP
    · obtain rfl := Option.some.inj (hP'.symm.trans hP)
      rw [nextAt, detached, loadBytes_relinked happly.2, if_neg P'.adr_ne_zero, loadBytes_storeBytes]
      omega
  · have hprevLt : prev < 2^64 := by
      rcases hprevCases with ⟨rfl, -⟩ | ⟨P, -, -, rfl⟩
      · decide
      · have := P.limit_bounds
        omega
    rcases hnextCases with ⟨-, rfl⟩ | ⟨X', hX', -, rfl⟩
    · cases hX
    · obtain rfl := Option.some.inj (hX'.symm.trans hX)
      rw [prevAt, detached, loadBytes_relinked_self X'.adr_ne_zero]
      omega

end Detached

/-- The block is taken out of the list of the major blocks. -/
lemma Shaped.detach {s : Pmm} {prev next : ℕ} (hs : Shaped g m (A ++ M :: B))
    (hprev : (A.map MajorBlock.adr).getLastD 0 = prev) (hnext : (B.map MajorBlock.adr).headD 0 = next) :
    Shaped { g with
      pmm := s
      memRoot := if g.memRoot = ptr M.adr then ptr next else g.memRoot
      bestBet := if g.bestBet = ptr M.adr then 0 else g.bestBet
      live := g.live.eraseP fun r => r.adr = (ptr M.adr - physMemOffset).toNat } (detached prev next m) (A ++ B) ∧
      Kept m (detached prev next m) (userBlocks (A ++ B)) := by
  have hsub := sublist_without A B M
  have hapart := hs.apart.sublist hsub
  obtain ⟨hholds, hkept⟩ := kept_outside hapart (fun N hN => hs.holds N (hsub.subset hN))
    (fun N hN => apart_of_mem hs.apart hN) fun a _ ha => detached_frame hprev hnext ha
  refine ⟨⟨?_, ?_, ?_, hholds, hapart, hs.forget⟩, hkept⟩
  · have hroot := hs.root
    change (if g.memRoot = ptr M.adr then ptr next else g.memRoot) = _
    cases A with
    | nil =>
      have hfirst : g.memRoot = ptr M.adr := hroot
      rw [if_pos hfirst, List.nil_append, hnext]
    | cons N A =>
      have hfirst : g.memRoot = ptr N.adr := hroot
      have hNM := apart_of_mem hs.apart (N := N) (by simp)
      have hN := N.limit_bounds
      have hM := M.limit_bounds
      unfold MajorBlock.Apart at hNM
      have hne : g.memRoot ≠ ptr M.adr := by
        rw [hfirst, Ne, ptr_inj (by omega) (by omega)]
        omega
      rw [if_neg hne, hfirst]
      rfl
  · change (if g.bestBet = ptr M.adr then 0 else g.bestBet) = 0 ∨
      ∃ N ∈ A ++ B, (if g.bestBet = ptr M.adr then 0 else g.bestBet) = ptr N.adr
    by_cases hbet : g.bestBet = ptr M.adr
    · exact .inl (if_pos hbet)
    · rw [if_neg hbet]
      refine hs.bet.imp_right fun h => ?_
      obtain ⟨N, hN, heq⟩ := h
      refine ⟨N, ?_, heq⟩
      rw [List.mem_append, List.mem_cons] at hN
      rcases hN with hN | rfl | hN
      · exact List.mem_append_left _ hN
      · exact absurd heq hbet
      · exact List.mem_append_right _ hN
  · have hlinks := hs.links
    have hnodup := hs.nodup.sublist (hsub.map MajorBlock.adr)
    obtain ⟨hlast, hhead⟩ := detached_links (m := m) hprev hnext hapart
    rw [List.map_append, List.map_cons] at hlinks
    rw [List.map_append] at hnodup ⊢
    refine hlinks.remove hnodup (fun x hx hne => ?_) (fun x hx hne => ?_) (fun x hx => ?_) fun x hx => ?_
    · rw [← List.map_append] at hx
      obtain ⟨N, hN, rfl⟩ := List.mem_map.mp hx
      refine nextAt_detached hprev hnext hapart hN fun heq => hne ?_
      rw [List.getLast?_map, heq]
      rfl
    · rw [← List.map_append] at hx
      obtain ⟨N, hN, rfl⟩ := List.mem_map.mp hx
      refine prevAt_detached hprev hnext hapart hN fun heq => hne ?_
      rw [List.head?_map, heq]
      rfl
    · rw [List.getLast?_map] at hx
      obtain ⟨P, hP, rfl⟩ := Option.map_eq_some_iff.mp hx
      rw [hnext]
      exact hlast P hP
    · rw [List.head?_map] at hx
      obtain ⟨X, hX, rfl⟩ := Option.map_eq_some_iff.mp hx
      rw [hprev]
      exact hhead X hX

/-- The block goes back to the page allocator. -/
lemma releaseMajor_holding (hs : Shaped g m (A ++ M :: B)) : ∃ g' m',
    releaseMajor (ptr M.adr) (g.holding m) = some ((), g'.holding m') ∧ Shaped g' m' (A ++ B) ∧
      Kept m m' (userBlocks (A ++ B)) := by
  have hM := M.limit_bounds
  have hlinks := hs.links
  rw [List.map_append, List.map_cons] at hlinks
  obtain ⟨hprevLoad, hnextLoad⟩ := hlinks.links
  have hprev : (A.map MajorBlock.adr).getLastD 0 + 16 ≤ 2^64 ∧ ((A.map MajorBlock.adr).getLastD 0 = 0 ∨
      (A.map MajorBlock.adr).getLastD 0 + 16 ≤ M.adr ∨ M.adr + 24 ≤ (A.map MajorBlock.adr).getLastD 0 + 8) := by
    rcases getLastD_cases MajorBlock.adr A 0 with ⟨h0, -⟩ | ⟨P, -, hP, heq⟩
    · omega
    · have hPM := apart_of_mem hs.apart (List.mem_append_left B hP)
      have hPbounds := P.limit_bounds
      unfold MajorBlock.Apart at hPM
      omega
  have hnext : (B.map MajorBlock.adr).headD 0 + 8 ≤ 2^64 := by
    rcases headD_cases MajorBlock.adr B 0 with ⟨h0, -⟩ | ⟨X, -, -, heq⟩
    · omega
    · have hXbounds := X.limit_bounds
      omega
  obtain ⟨s, hrun⟩ := releaseMajor_run (by omega) hprev.1 hnext hprevLoad hnextLoad hprev.2
  obtain ⟨hshaped, hkept⟩ := hs.detach rfl rfl
  exact ⟨_, _, hrun, hshaped, hkept⟩

/-- A block that is still in use may become the best bet. -/
lemma reconsiderBet_holding (hs : Shaped g m Ms) (hM : M ∈ Ms) : ∃ g',
    reconsiderBet (ptr M.adr) (g.holding m) = some ((), g'.holding m) ∧ Shaped g' m Ms := by
  have hbounds := M.limit_bounds
  have hget : (get : HeapM Heap) (g.holding m) = some (g.holding m, g.holding m) := rfl
  have hsizeField : majSize (ptr M.adr) = ptr (M.adr+20) := ptr_add _ 20
  have husageField : majUsage (ptr M.adr) = ptr (M.adr+24) := ptr_add _ 24
  have hbet : ∃ b, b + 40 ≤ 2^64 ∧ g.bestBet = ptr b := by
    rcases hs.bet with h0 | ⟨N, -, heq⟩
    · exact ⟨0, by omega, h0⟩
    · have := N.limit_bounds
      exact ⟨N.adr, by omega, heq⟩
  obtain ⟨b, hb, hbet⟩ := hbet
  have hbetOf : (g.holding m).bestBet = ptr b := hbet
  have hbetSize : majSize (ptr b) = ptr (b+20) := ptr_add _ 20
  have hbetUsage : majUsage (ptr b) = ptr (b+24) := ptr_add _ 24
  refine ⟨_, ?_, hs.changeBet hM (ptr b ≠ 0 ∧ (BitVec.ofNat 32 (loadBytes m (b+20) 4) -
    BitVec.ofNat 32 (loadBytes m (b+24) 4)).slt (BitVec.ofNat 32 (loadBytes m (M.adr+20) 4) -
    BitVec.ofNat 32 (loadBytes m (M.adr+24) 4)))⟩
  rw [reconsiderBet, run_bind hget, hbetOf, hbetSize, hbetUsage, hsizeField, husageField,
    run_bind (load32_holding (by omega)), run_bind (load32_holding (by omega)), run_bind (load32_holding (by omega)),
    run_bind (load32_holding (by omega)), when_bestBet]

/-- `free` takes the block from its user. -/
theorem liballocFree_holding {c : MinorBlock} (hs : Shaped g m Ms) (hM : M ∈ Ms) (hc : c ∈ M.minors) : ∃ g' m' Ms',
    liballocFree (ptr c.user) (g.holding m) = some ((), g'.holding m') ∧ Shaped g' m' Ms' ∧
      (userBlocks Ms).Perm (c.block :: userBlocks Ms') ∧ Kept m m' (userBlocks Ms') := by
  obtain ⟨A, B, rfl⟩ := List.append_of_mem hM
  obtain ⟨l₁, l₂, hl⟩ := List.append_of_mem hc
  have hlaid : Laid (M.adr+40) M.limit (l₁ ++ c :: l₂) := hl ▸ M.laid
  have hr := takenOut_rejoined (m := m) hl
  have hrun := liballocFree_takeOut (g := g) (hs.holds M hM) hl
  generalize takenOut M.adr l₁ c l₂ m = m₁ at hr hrun
  let N : MajorBlock := ⟨M.adr, M.pages, l₁ ++ l₂, M.low, M.high, M.some_pages, M.pages_lt, hlaid.remove⟩
  have hN : N.Holds m₁ := (hs.holds M hM).remove hl rfl rfl rfl hr
  have hs₁ : Shaped g m₁ (A ++ N :: B) :=
    hs.replace rfl rfl hN fun a ha => hr.frame a (beside_outside hlaid ha)
  have hkept₁ : Kept m m₁ (userBlocks (A ++ N :: B)) := hr.kept (M := N) hlaid rfl hs₁.apart
  have hperm : (userBlocks (A ++ M :: B)).Perm (c.block :: userBlocks (A ++ N :: B)) := userBlocks_perm hl rfl
  have hfirst : loadBytes m₁ (M.adr+32) 8 = ((l₁ ++ l₂).map MinorBlock.adr).headD 0 := hN.first
  by_cases h0 : loadBytes m₁ (M.adr+32) 8 = 0
  · have hempty : N.minors = [] := by
      rcases headD_cases MinorBlock.adr (l₁ ++ l₂) 0 with ⟨-, hnil⟩ | ⟨b, -, hb, heq⟩
      · exact hnil
      · have := (hlaid.remove.inside b hb).1
        omega
    obtain ⟨g', m', hrelease, hs', hkept'⟩ := releaseMajor_holding hs₁
    have hsame : userBlocks (A ++ N :: B) = userBlocks (A ++ B) := by
      simp only [userBlocks, List.flatMap_append, List.flatMap_cons, hempty, List.map_nil, List.nil_append]
    rw [hsame] at hperm hkept₁
    refine ⟨g', m', A ++ B, ?_, hs', hperm, fun b hb a ha hlt => ?_⟩
    · rw [hrun, settle, if_pos h0]
      exact hrelease
    · rw [hkept' b hb a ha hlt, hkept₁ b hb a ha hlt]
  · obtain ⟨g', hreconsider, hs'⟩ := reconsiderBet_holding (M := N) hs₁ (by simp)
    refine ⟨g', m₁, A ++ N :: B, ?_, hs', hperm, hkept₁⟩
    rw [hrun, settle, if_neg h0]
    exact hreconsider

end Releasing

end Open98.Mm
