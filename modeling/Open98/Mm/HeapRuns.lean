import Open98.Mm.HeapRealloc

/-! Runs of the heap with the blocks that its users have: what the kernel's allocator promises them. -/
namespace Open98.Mm
open Library

/-- The heap, and what users have from it: where each block starts and how many bytes were asked for. -/
structure Users where
  heap : Heap
  blocks : List (ℕ × ℕ)

namespace Users

/-- The blocks after the one at this pointer is given back. -/
def without (s : Users) (p : PVOID) : List (ℕ × ℕ) := s.blocks.eraseP fun b => b.1 = p.toNat

/-- One operation of the kernel, and what users have behind it. -/
def step (fuel : ℕ) (s : Users) : HeapOp → Option Users
  | .malloc size => (liballocMalloc fuel size s.heap).map fun r => ⟨r.2, (r.1.toNat, size.toNat) :: s.blocks⟩
  | .free p => (liballocFree p s.heap).map fun r => ⟨r.2, s.without p⟩
  | .krealloc p size => (liballocRealloc fuel p size s.heap).map fun r =>
    ⟨r.2, if size = 0 then s.without p else (r.1.toNat, size.toNat) :: s.without p⟩
  | o => (s.heap.step fuel o).map fun h => ⟨h, s.blocks⟩

def start (s : Pmm) (mem : Memory) : Users := ⟨.start s mem, []⟩

/-- The request fits into 32 bits, and a block that is made for it at the first free page ends inside the address space
and meets none of the blocks that exist. -/
def Suits (s : Users) (size : ULONG64) : Prop :=
  size.toNat + 112 + 4096 ≤ 2^32 ∧ ∀ i, FirstFree s.heap.pmm i →
    i*4096 + directMap + (pagesFor ((size + 32).truncate 32)).toNat * 4096 ≤ 2^64 ∧
      ∀ r ∈ s.heap.live, r.extent.1 + r.extent.2 * 4096 ≤ i*4096 + directMap ∨
        i*4096 + directMap + (pagesFor ((size + 32).truncate 32)).toNat * 4096 ≤ r.extent.1

/-- Users give back what they have, and write what they have; other code writes no part of the heap. -/
def Fair (s : Users) : HeapOp → Prop
  | .malloc size => s.Suits size
  | .free p => p = 0 ∨ ∃ n, (p.toNat, n) ∈ s.blocks
  | .krealloc p size => (p = 0 ∧ (size = 0 ∨ s.Suits size)) ∨ ∃ n, (p.toNat, n) ∈ s.blocks ∧ (n < size.toNat → s.Suits size)
  | .pmalloc pages => 0 < pages
  | .pmmFreePages r => r ∈ s.heap.ranges
  | .write p _ => (∃ b ∈ s.blocks, b.1 ≤ p.toNat ∧ p.toNat < b.1 + b.2) ∨
    ∀ r ∈ s.heap.live, p.toNat < r.extent.1 ∨ r.extent.1 + r.extent.2 * 4096 ≤ p.toNat

/-- The operation gives the block back, or writes into it. -/
def Touches (b : ℕ × ℕ) : HeapOp → Prop
  | .free p => p.toNat = b.1
  | .krealloc p _ => p.toNat = b.1
  | .write p _ => b.1 ≤ p.toNat ∧ p.toNat < b.1 + b.2
  | _ => False

/-- The structures of liballoc describe the blocks that users have. -/
def Sound (s : Users) : Prop :=
  ∃ g m Ms, s.heap = Heap.holding g m ∧ Shaped g m Ms ∧ s.blocks.Perm (userBlocks Ms)

/-- The block has the bytes that it had before. -/
def SameBytes (h k : Heap) (b : ℕ × ℕ) : Prop := ∀ a, b.1 ≤ a → a < b.1 + b.2 → k.view a = h.view a

end Users

section Steps
variable {g g' : Heap} {m m' : ByteMemory} {Ms Ms' : List MajorBlock} {s t : Users} {fuel : ℕ} {o : HeapOp} {b x : ℕ × ℕ}
  {p : PVOID} {size : ULONG64}

/-- Where a block of a user lies. -/
lemma userBlock_bounds (hb : b ∈ userBlocks Ms) : ∃ M ∈ Ms, M.adr + 96 ≤ b.1 ∧ b.1 + b.2 < M.limit ∧ M.limit ≤ 2^64 ∧
    b.1 % 16 = 0 := by
  obtain ⟨M, hM, c, hc, rfl⟩ := mem_userBlocks.mp hb
  have huser := MinorBlock.user_stop hc
  have hbounds := M.limit_bounds
  have hmod := c.user_bounds
  refine ⟨M, hM, ?_⟩
  simp only [MinorBlock.block]
  omega

lemma Kept.sameBytes (h : Kept m m' (userBlocks Ms')) (hb : b ∈ userBlocks Ms') :
    Users.SameBytes (g.holding m) (g'.holding m') b := by
  intro a ha hlt
  obtain ⟨M, -, -, hstop, hlimit, -⟩ := userBlock_bounds hb
  rw [view_holding (by omega), view_holding (by omega)]
  exact h b hb a ha hlt

lemma hasRoom_of_suits (hs : Shaped g m Ms) (hheap : s.heap = g.holding m) (h : s.Suits size) :
    HasRoom g Ms (size + 32) := by
  obtain ⟨-, hroom⟩ := h
  rw [hheap] at hroom
  intro i hi
  obtain ⟨hend, hlive⟩ := hroom i hi
  refine ⟨hend, fun M hM => ?_⟩
  have hmem : M.extent ∈ g.live.map MajorRecord.extent := hs.live.symm.subset (List.mem_map_of_mem hM)
  obtain ⟨r, hr, heq⟩ := List.mem_map.mp hmem
  have hrecord := hlive r hr
  rw [heq] at hrecord
  exact hrecord

/-- What is left of the blocks when one of them is given back. -/
lemma without_perm (hs : Shaped g m Ms) (hperm : s.blocks.Perm (userBlocks Ms)) {rest : List (ℕ × ℕ)}
    (hrest : (userBlocks Ms).Perm (x :: rest)) (hx : x.1 = p.toNat) : (s.without p).Perm rest := by
  have hboth := hperm.trans hrest
  have hapart := (userBlocks_apart hs.apart).perm hperm.symm fun h => h.symm
  have herase : (x :: rest).eraseP (fun b => b.1 = p.toNat) = rest :=
    List.eraseP_cons_of_pos (p := fun b : ℕ × ℕ => decide (b.1 = p.toNat)) (decide_eq_true hx)
  rw [← herase]
  refine hboth.eraseP _ (hapart.imp fun {y z} hyz hy hz => ?_)
  have hy := of_decide_eq_true hy
  have hz := of_decide_eq_true hz
  unfold BlocksApart at hyz
  omega

/-- Nothing starts at the null pointer. -/
lemma without_zero (hperm : s.blocks.Perm (userBlocks Ms)) : s.without 0 = s.blocks := by
  refine List.eraseP_of_forall_not fun b hb hzero => ?_
  obtain ⟨M, -, hlow, -⟩ := userBlock_bounds (hperm.subset hb)
  have hzero : b.1 = 0 := of_decide_eq_true hzero
  omega

/-- What an operation promises: the heap stays sound, and blocks that it does not touch stay as they are. -/
def Users.Goes (s t : Users) (o : HeapOp) : Prop :=
  t.Sound ∧ ∀ b ∈ s.blocks, ¬ Users.Touches b o → b ∈ t.blocks ∧ Users.SameBytes s.heap t.heap b

lemma goes_malloc (hs : s.Sound) (hsuits : s.Suits size) {h : Heap} (hrun : liballocMalloc fuel size s.heap = some (p, h)) :
    Users.Goes s ⟨h, (p.toNat, size.toNat) :: s.blocks⟩ (.malloc size) := by
  obtain ⟨g, m, Ms, hheap, hshaped, hperm⟩ := hs
  have hroom := hasRoom_of_suits hshaped hheap hsuits
  rw [hheap] at hrun
  obtain ⟨g', m', Ms', rfl, hserved⟩ := liballocMalloc_holding hshaped hsuits.1 hroom hrun
  refine ⟨⟨g', m', Ms', rfl, hserved.shaped, (hperm.cons _).trans hserved.blocks.symm⟩, fun b hb _ => ?_⟩
  refine ⟨List.mem_cons_of_mem _ hb, ?_⟩
  change Users.SameBytes s.heap (g'.holding m') b
  rw [hheap]
  exact hserved.kept.sameBytes (hperm.subset hb)

lemma goes_free (hs : s.Sound) {n : ℕ} (hx : (p.toNat, n) ∈ s.blocks) : ∃ h, liballocFree p s.heap = some ((), h) ∧
    Users.Goes s ⟨h, s.without p⟩ (.free p) := by
  obtain ⟨g, m, Ms, hheap, hshaped, hperm⟩ := hs
  obtain ⟨M, hM, c, hc, heq⟩ := mem_userBlocks.mp (hperm.subset hx)
  obtain ⟨huser, -⟩ := Prod.mk.inj heq
  obtain ⟨g', m', Ms', hfree, hshaped', hrest, hkept⟩ := liballocFree_holding (g := g) hshaped hM hc
  rw [huser, ptr_toNat] at hfree
  rw [hheap]
  have hleft := without_perm hshaped hperm hrest huser
  refine ⟨_, hfree, ⟨g', m', Ms', rfl, hshaped', hleft⟩, fun b hb htouch => ?_⟩
  have hmem : b ∈ userBlocks Ms' := by
    rcases List.mem_cons.mp (hrest.subset (hperm.subset hb)) with rfl | hmem
    · exact absurd huser.symm htouch
    · exact hmem
  refine ⟨hleft.symm.subset hmem, ?_⟩
  change Users.SameBytes s.heap (g'.holding m') b
  rw [hheap]
  exact hkept.sameBytes hmem

lemma free_null (h : Heap) : liballocFree 0 h = some ((), h) := rfl

/-- What `krealloc` does with the block of its caller. -/
lemma krealloc_exchanges (hs : s.Sound) {n : ℕ} (hx : (p.toNat, n) ∈ s.blocks) (hpos : size ≠ 0)
    (hgrow : n < size.toNat → s.Suits size) {q : PVOID} {h : Heap}
    (hrun : liballocRealloc fuel p size s.heap = some (q, h)) : ∃ g m Ms g' m' Ms', s.heap = Heap.holding g m ∧
      Shaped g m Ms ∧ s.blocks.Perm (userBlocks Ms) ∧ h = Heap.holding g' m' ∧
      Exchanged g' m m' Ms Ms' (p.toNat, n) (q.toNat, size.toNat) := by
  obtain ⟨g, m, Ms, hheap, hshaped, hperm⟩ := hs
  have hptr : ptr (p.toNat, n).1 = p := ptr_toNat p
  rw [hheap, ← hptr] at hrun
  obtain ⟨g', m', Ms', rfl, hexchanged⟩ := liballocRealloc_holding hshaped (hperm.subset hx) hpos
    (fun hlt => ⟨(hgrow hlt).1, hasRoom_of_suits hshaped hheap (hgrow hlt)⟩) hrun
  exact ⟨g, m, Ms, g', m', Ms', hheap, hshaped, hperm, rfl, hexchanged⟩

lemma goes_krealloc (hs : s.Sound) {n : ℕ} (hx : (p.toNat, n) ∈ s.blocks) (hpos : size ≠ 0)
    (hgrow : n < size.toNat → s.Suits size) {q : PVOID} {h : Heap}
    (hrun : liballocRealloc fuel p size s.heap = some (q, h)) :
    Users.Goes s ⟨h, (q.toNat, size.toNat) :: s.without p⟩ (.krealloc p size) := by
  obtain ⟨g, m, Ms, g', m', Ms', hheap, hshaped, hperm, rfl, hexchanged⟩ := krealloc_exchanges hs hx hpos hgrow hrun
  obtain ⟨rest, hold, hnew, hkept⟩ := hexchanged.blocks
  have hleft := without_perm hshaped hperm hold rfl
  refine ⟨⟨g', m', Ms', rfl, hexchanged.shaped, (hleft.cons _).trans hnew.symm⟩, fun b hb htouch => ?_⟩
  have hmem : b ∈ rest := by
    rcases List.mem_cons.mp (hold.subset (hperm.subset hb)) with rfl | hmem
    · exact absurd rfl htouch
    · exact hmem
  refine ⟨List.mem_cons_of_mem _ (hleft.symm.subset hmem), ?_⟩
  change Users.SameBytes s.heap (g'.holding m') b
  intro a ha hlt
  obtain ⟨M, -, -, hstop, hlimit, -⟩ := userBlock_bounds (hperm.subset hb)
  rw [hheap, view_holding (by omega), view_holding (by omega)]
  exact hkept b hmem a ha hlt

lemma goes_write (hs : s.Sound) {v : BitVec 8} (hfair : s.Fair (.write p v)) :
    Users.Goes s ⟨{ s.heap with mem := Function.update s.heap.mem p v }, s.blocks⟩ (.write p v) := by
  obtain ⟨g, m, Ms, hheap, hshaped, hperm⟩ := hs
  have hwritten : { s.heap with mem := Function.update s.heap.mem p v } = g.holding (storeBytes m p.toNat 1 v.toNat) := by
    have hstore := store8_holding (h := g) (m := m) (a := p.toNat) p.isLt v
    rw [ptr_toNat, ← hheap] at hstore
    exact (Prod.mk.inj (Option.some.inj hstore)).2
  rw [hwritten]
  have hframe : ∀ a, storeBytes m p.toNat 1 v.toNat a ≠ m a → a = p.toNat := by
    intro a ha
    by_contra hne
    exact ha (storeBytes_outside (by omega))
  refine ⟨⟨g, _, Ms, rfl, hshaped.write fun a ha => ?_, hperm⟩, fun b hb htouch => ⟨hb, fun a ha hlt => ?_⟩⟩
  · obtain rfl := hframe a ha
    refine hfair.imp (fun h => ?_) fun h M hM => ?_
    · obtain ⟨b, hb, hin⟩ := h
      exact ⟨b, hperm.subset hb, hin⟩
    · have hmem : M.extent ∈ g.live.map MajorRecord.extent := hshaped.live.symm.subset (List.mem_map_of_mem hM)
      obtain ⟨r, hr, heq⟩ := List.mem_map.mp hmem
      rw [hheap] at h
      have hout := h r hr
      rw [heq] at hout
      exact hout
  · obtain ⟨M, -, -, hstop, hlimit, -⟩ := userBlock_bounds (hperm.subset hb)
    rw [hheap, view_holding (by omega), view_holding (by omega)]
    refine storeBytes_outside ?_
    simp only [Users.Touches] at htouch
    omega

/-- Other code takes and gives back pages. -/
lemma goes_pages (hs : s.Sound) (pmm : Pmm) (ranges : List PageRange) :
    Users.Goes s ⟨{ s.heap with pmm := pmm, ranges := ranges }, s.blocks⟩ o := by
  obtain ⟨g, m, Ms, hheap, hshaped, hperm⟩ := hs
  refine ⟨⟨{ g with pmm := pmm, ranges := ranges }, m, Ms, ?_, ?_, hperm⟩, fun b hb _ => ⟨hb, fun _ _ _ => rfl⟩⟩
  · rw [hheap]
    rfl
  · exact ⟨hshaped.root, hshaped.bet, hshaped.links, hshaped.holds, hshaped.apart, hshaped.live⟩

lemma Users.Sound.without_null (hs : s.Sound) : s.without 0 = s.blocks := by
  obtain ⟨g, m, Ms, -, -, hperm⟩ := hs
  exact without_zero hperm

/-- One step. -/
lemma Users.step_goes (hs : s.Sound) (hfair : s.Fair o) (hstep : s.step fuel o = some t) : Users.Goes s t o := by
  have hsame : Users.Goes s s o := ⟨hs, fun b hb _ => ⟨hb, fun _ _ _ => rfl⟩⟩
  cases o with
  | malloc size =>
    obtain ⟨r, hrun, rfl⟩ := Option.map_eq_some_iff.mp hstep
    exact goes_malloc hs hfair hrun
  | free p =>
    obtain ⟨r, hrun, rfl⟩ := Option.map_eq_some_iff.mp hstep
    rcases hfair with rfl | hfair
    · obtain rfl := Option.some.inj ((free_null s.heap).symm.trans hrun)
      rw [hs.without_null]
      exact hsame
    · obtain ⟨n, hx⟩ := hfair
      obtain ⟨h, hfree, hgoes⟩ := goes_free hs hx
      obtain rfl := Option.some.inj (hfree.symm.trans hrun)
      exact hgoes
  | krealloc p size =>
    obtain ⟨⟨q, k⟩, hrun, rfl⟩ := Option.map_eq_some_iff.mp hstep
    by_cases hsize : size = 0
    · rw [liballocRealloc, if_pos hsize] at hrun
      obtain ⟨u, h, hfree, hrun⟩ := run_bind_eq_some.mp hrun
      obtain ⟨-, rfl⟩ := run_pure_eq_some.mp hrun
      rw [if_pos hsize]
      rcases hfair with ⟨rfl, -⟩ | ⟨n, hx, -⟩
      · obtain ⟨-, rfl⟩ := Prod.mk.inj (Option.some.inj ((free_null s.heap).symm.trans hfree))
        rw [hs.without_null]
        exact hsame
      · obtain ⟨k', hrun, hgoes⟩ := goes_free hs hx
        obtain ⟨-, rfl⟩ := Prod.mk.inj (Option.some.inj (hrun.symm.trans hfree))
        exact hgoes
    · rw [if_neg hsize]
      rcases hfair with ⟨rfl, hsuits⟩ | ⟨n, hx, hgrow⟩
      · rw [liballocRealloc, if_neg hsize, if_pos rfl] at hrun
        rw [hs.without_null]
        obtain ⟨hsound, hkept⟩ := goes_malloc hs (hsuits.resolve_left hsize) hrun
        exact ⟨hsound, fun b hb _ => hkept b hb id⟩
      · exact goes_krealloc hs hx hsize hgrow hrun
  | pmalloc pages =>
    obtain ⟨h, hrun, rfl⟩ := Option.map_eq_some_iff.mp hstep
    obtain ⟨r, -, rfl⟩ := Option.map_eq_some_iff.mp hrun
    exact goes_pages hs _ _
  | pmmFreePages r =>
    obtain rfl := Option.some.inj hstep
    exact goes_pages hs _ _
  | write p v =>
    obtain rfl := Option.some.inj hstep
    exact goes_write hs hfair

end Steps

section Runs
variable {fuel : ℕ} {pmm : Pmm} {mem : Memory} {ops more : List HeapOp} {s t : Users}

lemma sound_start (pmm : Pmm) (mem : Memory) : (Users.start pmm mem).Sound :=
  ⟨.start pmm mem, (Heap.start pmm mem).view, [], (holding_view _).symm,
    ⟨rfl, .inl rfl, trivial, fun _ h => absurd h List.not_mem_nil, List.Pairwise.nil, List.Perm.refl _⟩, List.Perm.refl _⟩

lemma sound_run (run : GuardedRun Users.Fair (Users.step fuel) s ops t) (hs : s.Sound) : t.Sound :=
  run.invariant (fun _ _ _ hs hfair hstep => (Users.step_goes hs hfair hstep).1) hs

/-- The heap before its first use, in the memory of thirty-two pages. -/
def smallStart : Users := .start smallMemory fun _ => 0#8

lemma smallStart_suits : smallStart.Suits 1 := by
  refine ⟨by decide, fun i hi => ⟨?_, fun r hr => absurd hr List.not_mem_nil⟩⟩
  have hone : FirstFree smallMemory 1 := ⟨by decide, by decide, by decide⟩
  obtain rfl := hi.unique hone
  rw [directMap]
  decide

/-- A first request and the request for as many bytes again are answered. -/
lemma smallStart_answers : ∃ p h q k, liballocMalloc 2 1 smallStart.heap = some (p, h) ∧
    liballocRealloc 2 p 1 h = some (q, k) := by
  have hanswers : ((liballocMalloc 2 1 smallStart.heap).bind fun r => liballocRealloc 2 r.1 1 r.2).isSome = true := by decide
  obtain ⟨r, hr⟩ := Option.isSome_iff_exists.mp hanswers
  obtain ⟨x, hx, hr⟩ := Option.bind_eq_some_iff.mp hr
  exact ⟨x.1, x.2, r.1, r.2, hx, hr⟩

lemma smallStart_run {p : PVOID} {h : Heap} (hrun : liballocMalloc 2 1 smallStart.heap = some (p, h)) :
    GuardedRun Users.Fair (Users.step 2) smallStart [.malloc 1] ⟨h, [(p.toNat, 1)]⟩ := by
  have hstep : Users.step 2 smallStart (.malloc 1) = some ⟨h, [(p.toNat, 1)]⟩ := by
    rw [Users.step, hrun]
    rfl
  exact .cons smallStart_suits hstep (.nil _)

end Runs

end Open98.Mm
