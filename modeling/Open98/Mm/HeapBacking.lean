import Open98.Library.Run
import Open98.Mm.Liballoc

/-! Which pages stand behind the blocks of the heap. `allocate_new_page` asks `liballoc_alloc`
for a number of pages, `liballoc_alloc` takes it for a number of bytes, and this module follows
what comes of it through every run of the heap and of the other users of pages. -/
namespace Open98.Mm
open Open98.Library

section Ledger
variable {I : Heap → Prop} (hI : ∀ h k : Heap, k.live = h.live → I h → I k)
include hI

/-! Everything but making and releasing a block leaves the list of blocks alone. -/

lemma keeps_modify {f : Heap → Heap} (hf : ∀ h, (f h).live = h.live) :
    Keeps I (modify f : HeapM Unit) :=
  .ofModify fun h => hI h (f h) (hf h)

omit hI in
lemma keeps_when {c : Prop} [Decidable c] {x : HeapM Unit} (hx : Keeps I x) :
    Keeps I (when c x) :=
  .ofIte hx (.ofPure _)

omit hI in
lemma keeps_load32 (p : PVOID) : Keeps I (load32 p) :=
  .ofBind .ofGet fun _ => .ofPure _

omit hI in
lemma keeps_load64 (p : PVOID) : Keeps I (load64 p) :=
  .ofBind (keeps_load32 _) fun _ => .ofBind (keeps_load32 _) fun _ => .ofPure _

lemma keeps_store8 (p : PVOID) (v : BitVec 8) : Keeps I (store8 p v) :=
  keeps_modify hI fun _ => rfl

lemma keeps_store32 (p : PVOID) (v : UINT) : Keeps I (store32 p v) :=
  .ofBind (keeps_store8 hI _ _) fun _ => .ofBind (keeps_store8 hI _ _) fun _ =>
    .ofBind (keeps_store8 hI _ _) fun _ => keeps_store8 hI _ _

lemma keeps_store64 (p v : PVOID) : Keeps I (store64 p v) :=
  .ofBind (keeps_store32 hI _ _) fun _ => keeps_store32 hI _ _

lemma keeps_memcpyUnits (s1 s2 : PVOID) (i n : ℕ) : Keeps I (memcpyUnits s1 s2 i n) := by
  induction n generalizing i with
  | zero => exact .ofPure _
  | succ n ih =>
    exact .ofBind (keeps_load32 _) fun _ => .ofBind (keeps_store32 hI _ _) fun _ => ih (i+1)

lemma keeps_memcpyBytes (s1 s2 : PVOID) (i n : ℕ) : Keeps I (memcpyBytes s1 s2 i n) := by
  induction n generalizing i with
  | zero => exact .ofPure _
  | succ n ih =>
    exact .ofBind .ofGet fun _ => .ofBind (keeps_store8 hI _ _) fun _ => ih (i+1)

lemma keeps_liballocMemcpy (s1 s2 : PVOID) (n : ℕ) : Keeps I (liballocMemcpy s1 s2 n) :=
  .ofBind (keeps_memcpyUnits hI _ _ _ _) fun _ => keeps_memcpyBytes hI _ _ _ _

lemma keeps_align (ptr : PVOID) : Keeps I (align ptr) :=
  .ofBind (keeps_store8 hI _ _) fun _ => .ofPure _

omit hI in
lemma keeps_unalign (ptr : PVOID) : Keeps I (unalign ptr) :=
  .ofBind .ofGet fun _ => .ofPure _

lemma keeps_addUsage (maj : PVOID) (size : ULONG64) : Keeps I (addUsage maj size) :=
  .ofBind (keeps_load32 _) fun _ => keeps_store32 hI _ _

lemma keeps_fillMinor (min maj : PVOID) (size reqSize : ULONG64) :
    Keeps I (fillMinor min maj size reqSize) :=
  .ofBind (keeps_store32 hI _ _) fun _ => .ofBind (keeps_store64 hI _ _) fun _ =>
    .ofBind (keeps_store32 hI _ _) fun _ => keeps_store32 hI _ _

lemma keeps_fillMajor (maj : PVOID) (st : UINT) : Keeps I (fillMajor maj st) :=
  .ofBind (keeps_store64 hI _ _) fun _ => .ofBind (keeps_store64 hI _ _) fun _ =>
    .ofBind (keeps_store32 hI _ _) fun _ => .ofBind (keeps_store32 hI _ _) fun _ =>
      .ofBind (keeps_store32 hI _ _) fun _ => keeps_store64 hI _ _

lemma keeps_mallocFirst (maj : PVOID) (size reqSize : ULONG64) :
    Keeps I (mallocFirst maj size reqSize) :=
  .ofBind (keeps_store64 hI _ _) fun _ => .ofBind (keeps_store64 hI _ _) fun _ =>
    .ofBind (keeps_store64 hI _ _) fun _ => .ofBind (keeps_fillMinor hI _ _ _ _) fun _ =>
      .ofBind (keeps_addUsage hI _ _) fun _ => keeps_align hI _

lemma keeps_mallocFront (maj first : PVOID) (size reqSize : ULONG64) :
    Keeps I (mallocFront maj first size reqSize) :=
  .ofBind (keeps_store64 hI _ _) fun _ => .ofBind (keeps_store64 hI _ _) fun _ =>
    .ofBind (keeps_store64 hI _ _) fun _ => .ofBind (keeps_store64 hI _ _) fun _ =>
      .ofBind (keeps_fillMinor hI _ _ _ _) fun _ => .ofBind (keeps_addUsage hI _ _) fun _ =>
        keeps_align hI _

lemma keeps_mallocBehind (maj min next : PVOID) (size reqSize : ULONG64) :
    Keeps I (mallocBehind maj min next size reqSize) :=
  .ofBind (keeps_load32 _) fun _ => .ofBind (keeps_store64 hI _ _) fun _ =>
    .ofBind (keeps_store64 hI _ _) fun _ => .ofBind (keeps_fillMinor hI _ _ _ _) fun _ =>
      .ofBind (keeps_when (keeps_store64 hI _ _)) fun _ =>
        .ofBind (keeps_store64 hI _ _) fun _ => .ofBind (keeps_addUsage hI _ _) fun _ =>
          keeps_align hI _

lemma keeps_mallocBetween (maj : PVOID) (size reqSize : ULONG64) (fuel : ℕ) (min : PVOID) :
    Keeps I (mallocBetween maj size reqSize fuel min) := by
  induction fuel generalizing min with
  | zero => exact .ofNone
  | succ fuel ih =>
    refine .ofIte (.ofPure _) ?_
    refine .ofBind (keeps_load64 _) fun next => ?_
    refine .ofBind (keeps_load32 _) fun _ => .ofBind (keeps_load32 _) fun _ => ?_
    exact .ofIte (.ofBind (keeps_mallocBehind hI _ _ _ _ _) fun _ => .ofPure _) (ih next)

lemma keeps_unlinkMinor (min maj : PVOID) : Keeps I (unlinkMinor min maj) :=
  .ofBind (keeps_load64 _) fun _ => .ofBind (keeps_load64 _) fun _ =>
    .ofBind (keeps_when (keeps_store64 hI _ _)) fun _ =>
      .ofBind (keeps_load64 _) fun _ => .ofBind (keeps_load64 _) fun _ =>
        .ofBind (keeps_when (keeps_store64 hI _ _)) fun _ =>
          .ofBind (keeps_load64 _) fun _ => .ofBind (keeps_load64 _) fun _ =>
            keeps_when (keeps_store64 hI _ _)

lemma keeps_reconsiderBet (maj : PVOID) : Keeps I (reconsiderBet maj) :=
  .ofBind .ofGet fun _ => .ofBind (keeps_load32 _) fun _ => .ofBind (keeps_load32 _) fun _ =>
    .ofBind (keeps_load32 _) fun _ => .ofBind (keeps_load32 _) fun _ =>
      keeps_when (keeps_modify hI fun _ => rfl)

lemma keeps_liballocFree_ (ptr : PVOID) (pages : UINT) : Keeps I (liballocFree_ ptr pages) :=
  keeps_modify hI fun _ => rfl

/-! Making and releasing blocks, for a property that survives both. -/

section Blocks
variable (hnew : ∀ size, Keeps I (allocateNewPage size))
include hnew

lemma keeps_mallocIn (fuel : ℕ) (size reqSize : ULONG64) (maj : PVOID) (startedBet : Bool)
    (bestSize : ULONG64) : Keeps I (mallocIn fuel size reqSize maj startedBet bestSize) := by
  refine .ofBind (keeps_load64 _) fun first => ?_
  refine .ofIte (.ofBind (keeps_mallocFirst hI _ _ _) fun _ => .ofPure _) ?_
  refine .ofIte (.ofBind (keeps_mallocFront hI _ _ _ _) fun _ => .ofPure _) ?_
  refine .ofBind (keeps_mallocBetween hI _ _ _ _ _) fun found => ?_
  cases found with
  | some p => exact .ofPure _
  | none =>
    refine .ofBind (keeps_load64 _) fun next => .ofIte (.ofPure _) ?_
    refine .ofIte (.ofBind .ofGet fun _ => .ofPure _) ?_
    refine .ofBind (hnew _) fun fresh => .ofBind (keeps_store64 hI _ _) fun _ => ?_
    exact .ofIte (.ofPure _) (.ofBind (keeps_store64 hI _ _) fun _ => .ofPure _)

lemma keeps_mallocTurn (fuel : ℕ) (size reqSize : ULONG64) (maj : PVOID) (startedBet : Bool)
    (bestSize : ULONG64) : Keeps I (mallocTurn fuel size reqSize maj startedBet bestSize) := by
  refine .ofBind (keeps_load32 _) fun _ => .ofBind (keeps_load32 _) fun _ => ?_
  refine .ofBind (keeps_when (keeps_modify hI fun _ => rfl)) fun _ => ?_
  refine .ofIte ?_ (keeps_mallocIn hI hnew _ _ _ _ _ _)
  refine .ofBind (keeps_load64 _) fun next => .ofIte (.ofPure _) ?_
  refine .ofIte (.ofBind .ofGet fun _ => .ofPure _) ?_
  refine .ofBind (hnew _) fun fresh => .ofBind (keeps_store64 hI _ _) fun _ => ?_
  refine .ofIte (.ofPure _) (.ofBind (keeps_store64 hI _ _) fun _ => ?_)
  exact keeps_mallocIn hI hnew _ _ _ _ _ _

lemma keeps_mallocLoop (size reqSize : ULONG64) (fuel : ℕ) (maj : PVOID) (startedBet : Bool)
    (bestSize : ULONG64) : Keeps I (mallocLoop size reqSize fuel maj startedBet bestSize) := by
  induction fuel generalizing maj startedBet bestSize with
  | zero => exact .ofNone
  | succ fuel ih =>
    refine .ofIte (.ofPure _) (.ofBind (keeps_mallocTurn hI hnew _ _ _ _ _ _) fun turn => ?_)
    cases turn with
    | done p => exact .ofPure _
    | again maj startedBet bestSize => exact ih maj startedBet bestSize

lemma keeps_mallocSearch (fuel : ℕ) (size reqSize : ULONG64) :
    Keeps I (mallocSearch fuel size reqSize) := by
  refine .ofBind .ofGet fun h => .ofIte (keeps_mallocLoop hI hnew _ _ _ _ _ _) ?_
  refine .ofBind (keeps_load32 _) fun _ => .ofBind (keeps_load32 _) fun _ => ?_
  exact .ofIte (keeps_mallocLoop hI hnew _ _ _ _ _ _) (keeps_mallocLoop hI hnew _ _ _ _ _ _)

lemma keeps_liballocMalloc (fuel : ℕ) (reqSize : ULONG64) :
    Keeps I (liballocMalloc fuel reqSize) := by
  refine .ofBind .ofGet fun h => .ofIte ?_ (keeps_mallocSearch hI hnew _ _ _)
  refine .ofBind (hnew _) fun root => .ofBind (keeps_modify hI fun _ => rfl) fun _ => ?_
  exact .ofIte (.ofPure _) (keeps_mallocSearch hI hnew _ _ _)

end Blocks

section Release
variable (hforget : ∀ maj, Keeps I (forgetMajor maj))
include hforget

lemma keeps_releaseMajor (maj : PVOID) : Keeps I (releaseMajor maj) :=
  .ofBind (keeps_load64 _) fun _ => .ofBind (keeps_load64 _) fun _ =>
    .ofBind (keeps_modify hI fun _ => rfl) fun _ =>
      .ofBind (keeps_when (keeps_store64 hI _ _)) fun _ =>
        .ofBind (keeps_load64 _) fun _ => .ofBind (keeps_load64 _) fun _ =>
          .ofBind (keeps_when (keeps_store64 hI _ _)) fun _ => .ofBind (hforget _) fun _ =>
            .ofBind (keeps_load32 _) fun _ => keeps_liballocFree_ hI _ _

lemma keeps_liballocFree (ptr : PVOID) : Keeps I (liballocFree ptr) := by
  refine .ofIte (.ofPure _) (.ofBind (keeps_unalign _) fun _ => ?_)
  refine .ofBind (keeps_load32 _) fun _ => .ofIte (.ofPure _) ?_
  refine .ofBind (keeps_load64 _) fun maj => .ofBind (keeps_load32 _) fun _ => ?_
  refine .ofBind (keeps_load32 _) fun _ => .ofBind (keeps_store32 hI _ _) fun _ => ?_
  refine .ofBind (keeps_store32 hI _ _) fun _ => .ofBind (keeps_unlinkMinor hI _ _) fun _ => ?_
  refine .ofBind (keeps_load64 _) fun _ => ?_
  exact .ofIte (keeps_releaseMajor hI hforget _) (keeps_reconsiderBet hI _)

lemma keeps_liballocRealloc (hnew : ∀ size, Keeps I (allocateNewPage size)) (fuel : ℕ)
    (p : PVOID) (size : ULONG64) : Keeps I (liballocRealloc fuel p size) := by
  refine .ofIte (.ofBind (keeps_liballocFree hI hforget _) fun _ => .ofPure _) ?_
  refine .ofIte (keeps_liballocMalloc hI hnew _ _) (.ofBind (keeps_unalign _) fun _ => ?_)
  refine .ofBind (keeps_load32 _) fun _ => ?_
  refine .ofIte (.ofBind (keeps_store32 hI _ _) fun _ => .ofPure _) ?_
  refine .ofBind (keeps_liballocMalloc hI hnew _ _) fun _ => ?_
  exact .ofBind (keeps_liballocMemcpy hI _ _ _) fun _ =>
    .ofBind (keeps_liballocFree hI hforget _) fun _ => .ofPure _

end Release
end Ledger

section Pages

lemma pcalloc_run {pages : ULONG64} (hpages : 0 < pages.toNat) {h t : Heap} {ret : ULONG64}
    (hrun : pcalloc pages h = some (ret, t)) :
    ∃ i, FirstFree h.pmm i ∧ ret = BitVec.ofNat 64 (i*pageSize) ∧
      t.pmm = pmmAllocPages h.pmm (i*pageSize) pages.toNat ∧ t.live = h.live := by
  obtain ⟨g, u, hget, hrun⟩ := run_bind_eq_some.mp hrun
  obtain ⟨rfl, rfl⟩ := run_get_eq_some.mp hget
  cases hp : pmalloc h.pmm pages.toNat with
  | none => simp [hp] at hrun
  | some found =>
    obtain ⟨adr, pmm⟩ := found
    obtain ⟨i, hfirst, rfl, rfl⟩ := (pmalloc_eq_some h.pmm _ hpages adr pmm).mp hp
    simp only [hp] at hrun
    obtain ⟨_, u, hmod, hrun⟩ := run_bind_eq_some.mp hrun
    obtain rfl := run_modify_eq_some.mp hmod
    refine ⟨i, hfirst, ?_⟩
    split at hrun
    · rename_i hzero
      obtain ⟨rfl, rfl⟩ := run_pure_eq_some.mp hrun
      exact ⟨hzero.symm, rfl, rfl⟩
    · obtain ⟨_, v, hset, hrun⟩ := run_bind_eq_some.mp hrun
      obtain rfl := run_modify_eq_some.mp hset
      obtain ⟨rfl, rfl⟩ := run_pure_eq_some.mp hrun
      exact ⟨rfl, rfl, rfl⟩

lemma roundUp_toNat {st : UINT} (h : st.toNat ≤ 2^20) :
    (roundUp st 0x1000#32).toNat = (st.toNat + 4095) / 4096 := by
  have hsum : (st + (0x1000#32 - 1)).toNat = st.toNat + 4095 := by
    rw [BitVec.toNat_add, show (0x1000#32 - 1 : UINT).toNat = 4095 from rfl]
    exact Nat.mod_eq_of_lt (by omega)
  have hmsb : (st + (0x1000#32 - 1)).msb = false := by
    rw [BitVec.msb_eq_false_iff_two_mul_lt, hsum]
    omega
  rw [roundUp, BitVec.sdiv_eq, hmsb, show (0x1000#32 : UINT).msb = false from rfl]
  simp only [BitVec.udiv_eq, BitVec.toNat_udiv, hsum]
  rfl

lemma pagesFor_toNat (size : UINT) :
    (pagesFor size).toNat = max 16 (((size + 40 + 40).toNat + 4095) / 4096) := by
  have hx := (size + 40 + 40).isLt
  unfold pagesFor
  generalize size + 40 + 40 = x at hx ⊢
  have hmod : x % 0x1000#32 = 0 ↔ x.toNat % 4096 = 0 := by
    rw [← BitVec.toNat_inj, BitVec.toNat_umod]
    rfl
  have hdiv : (x / 0x1000#32).toNat = x.toNat / 4096 := BitVec.toNat_udiv
  have hone : (1 : UINT).toNat = 1 := rfl
  simp only [hmod]
  split_ifs with h0 h16 h16 <;>
    simp only [BitVec.lt_def, BitVec.toNat_add, hdiv, hone, BitVec.toNat_ofNat] at * <;> omega

/-- A request of `size` pages takes the first free page and marks as many pages as `size` bytes
need. -/
lemma liballocAlloc_run {size : UINT} (hpos : 0 < size.toNat) (hsize : size.toNat ≤ 2^20)
    {h t : Heap} {p : PVOID} (hrun : liballocAlloc size h = some (p, t)) :
    ∃ i, FirstFree h.pmm i ∧ p = BitVec.ofNat 64 (i*pageSize) + physMemOffset ∧
      t.pmm = pmmAllocPages h.pmm (i*pageSize) ((size.toNat + 4095) / 4096) ∧
      t.live = h.live := by
  have hcount : ((roundUp size 0x1000#32).signExtend 64).toNat = (size.toNat + 4095) / 4096 := by
    have hround := roundUp_toNat hsize
    have hmsb : (roundUp size 0x1000#32).msb = false := by
      rw [BitVec.msb_eq_false_iff_two_mul_lt, hround]
      omega
    rw [BitVec.toNat_signExtend, hmsb, BitVec.toNat_setWidth, hround]
    simp only [Bool.false_eq_true, if_false]
    omega
  obtain ⟨ret, u, hp, hrun⟩ := run_bind_eq_some.mp hrun
  obtain ⟨rfl, rfl⟩ := run_pure_eq_some.mp hrun
  obtain ⟨i, hfirst, rfl, hpmm, hlive⟩ := pcalloc_run (by rw [hcount]; omega) hp
  rw [hcount] at hpmm
  exact ⟨i, hfirst, rfl, hpmm, hlive⟩

end Pages

/-! ### The blocks and their pages -/

/-- `maj->size`. -/
def MajorRecord.size (r : MajorRecord) : UINT := pagesFor r.request * 0x1000#32

/-- Page number `k` lies behind `[maj, maj + maj->size)`. -/
def MajorRecord.Covers (r : MajorRecord) (k : ℕ) : Prop :=
  ∃ i < r.size.toNat / pageSize, touchedPage r.adr i = k

/-- What liballoc relies on for one of its blocks. -/
structure MajorRecord.Backed (r : MajorRecord) (h : Heap) : Prop where
  reserved : ∀ k, r.Covers k → r.before.used k = false ∧ r.after.used k = true
  marked : ∀ k, r.Covers k → h.pmm.used k = true
  unshared : ∀ k, r.Covers k → (∀ q ∈ h.ranges, ¬ q.Covers k) ∧
    ∀ l₁ l₂, h.live = l₁ ++ r :: l₂ → ∀ q ∈ l₁ ++ l₂, ¬ q.Covers k

/-- The call of `liballoc_alloc` marked fewer pages than the block is used for. -/
def MajorRecord.UnderReserved (r : MajorRecord) : Prop :=
  r.after = pmmAllocPages r.before r.adr (((pagesFor r.request).toNat + 4095) / 4096)

/-- The requests whose number of pages is 2^20, so that the 32-bit size of the block is 0. -/
def WrapsToEmpty (request : UINT) : Prop := 0xfffff000 < (request + 40 + 40).toNat

lemma pagesFor_bounds (size : UINT) :
    16 ≤ (pagesFor size).toNat ∧ (pagesFor size).toNat ≤ 2^20 ∧
      (WrapsToEmpty size ↔ (pagesFor size).toNat = 2^20) := by
  have hx := (size + 40 + 40).isLt
  rw [pagesFor_toNat, WrapsToEmpty]
  omega

lemma MajorRecord.size_toNat (r : MajorRecord) :
    r.size.toNat / pageSize = (pagesFor r.request).toNat % 2^20 := by
  have h : r.size.toNat = (pagesFor r.request).toNat * 4096 % 2^32 := BitVec.toNat_mul ..
  rw [h, show pageSize = 4096 from rfl]
  omega

lemma touchedPage_eq (adr i : ℕ) : touchedPage adr i = (adr / pageSize + i) % 2^52 := by
  unfold touchedPage addressSpace pageSize
  omega

/-- The page behind the last one that was marked belongs to the block as well. -/
lemma MajorRecord.UnderReserved.not_backed {r : MajorRecord} (hr : r.UnderReserved) {h : Heap}
    (hb : r.Backed h) : WrapsToEmpty r.request := by
  by_contra hwrap
  obtain ⟨hlow, hhigh, hiff⟩ := pagesFor_bounds r.request
  have hlt : (pagesFor r.request).toNat < 2^20 := lt_of_le_of_ne hhigh (hwrap ∘ hiff.mpr)
  generalize hn : ((pagesFor r.request).toNat + 4095) / 4096 = n at hr
  have hcov : r.Covers (touchedPage r.adr n) :=
    ⟨n, by rw [r.size_toNat, Nat.mod_eq_of_lt hlt]; omega, rfl⟩
  obtain ⟨hbefore, hafter⟩ := hb.reserved _ hcov
  rw [hr, used_pmmAllocPages] at hafter
  rcases hafter with ⟨i, hi, hsame⟩ | hused
  · simp only [touchedPage_eq] at hsame
    omega
  · simp [hbefore] at hused

lemma MajorRecord.backed_of_wraps {r : MajorRecord} (hw : WrapsToEmpty r.request) (h : Heap) :
    r.Backed h := by
  have hcov : ∀ k, ¬ r.Covers k := by
    rintro k ⟨i, hi, -⟩
    rw [r.size_toNat, (pagesFor_bounds r.request).2.2.mp hw] at hi
    omega
  exact ⟨fun k hk => absurd hk (hcov k), fun k hk => absurd hk (hcov k),
    fun k hk => absurd hk (hcov k)⟩

/-- Every block of the heap is under-reserved. -/
def UnderReservedBlocks (h : Heap) : Prop := ∀ r ∈ h.live, r.UnderReserved

lemma underReservedBlocks_live (h k : Heap) (hlive : k.live = h.live)
    (hh : UnderReservedBlocks h) : UnderReservedBlocks k := by
  unfold UnderReservedBlocks
  rwa [hlive]

lemma underReservedBlocks_new (size : UINT) :
    Keeps UnderReservedBlocks (allocateNewPage size) := by
  intro h p t hh hrun
  obtain ⟨hlow, hhigh, -⟩ := pagesFor_bounds size
  obtain ⟨g, u, hget, hrun⟩ := run_bind_eq_some.mp hrun
  obtain ⟨rfl, rfl⟩ := run_get_eq_some.mp hget
  obtain ⟨maj, u, halloc, hrun⟩ := run_bind_eq_some.mp hrun
  obtain ⟨i, hfirst, rfl, hpmm, hlive⟩ := liballocAlloc_run (by omega) hhigh halloc
  split at hrun
  · obtain ⟨-, rfl⟩ := run_pure_eq_some.mp hrun
    exact underReservedBlocks_live h u hlive hh
  · obtain ⟨_, v, hmod, hrun⟩ := run_bind_eq_some.mp hrun
    obtain rfl := run_modify_eq_some.mp hmod
    have hadr : (BitVec.ofNat 64 (i*pageSize) + physMemOffset - physMemOffset).toNat =
        i*pageSize := by
      have hbelow := Nat.mul_le_mul_right pageSize hfirst.inside.le
      have hspace := h.pmm.pageCount_lt
      rw [BitVec.add_sub_cancel, BitVec.toNat_ofNat]
      exact Nat.mod_eq_of_lt (hbelow.trans_lt hspace)
    have hfields := keeps_fillMajor underReservedBlocks_live
      (BitVec.ofNat 64 (i*pageSize) + physMemOffset) (pagesFor size)
    refine hfields.ofBind (fun _ => .ofPure _) _ p t ?_ hrun
    intro r hr
    rcases List.mem_cons.mp hr with rfl | hr
    · simp only [MajorRecord.UnderReserved, hadr, hpmm]
    · exact hh r (hlive ▸ hr)

lemma underReservedBlocks_forget (maj : PVOID) : Keeps UnderReservedBlocks (forgetMajor maj) :=
  .ofModify fun _ hh r hr => hh r (List.mem_of_mem_eraseP hr)

/-! ### Runs of the heap -/

/-- What the kernel does with memory: the heap's own entry points, the other users of pages, and
stores into memory. -/
inductive HeapOp
  | malloc (size : ULONG64)
  | free (ptr : PVOID)
  | krealloc (ptr : PVOID) (size : ULONG64)
  | pmalloc (pages : ℕ)
  | pmmFreePages (r : PageRange)
  | write (p : PVOID) (v : BitVec 8)
  deriving DecidableEq

/-- Other users ask for at least one page and give back what they own. -/
def HeapOp.Allowed (h : Heap) : HeapOp → Prop
  | pmalloc pages => 0 < pages
  | pmmFreePages r => r ∈ h.ranges
  | _ => True

instance (h : Heap) : (o : HeapOp) → Decidable (o.Allowed h)
  | .pmalloc pages => inferInstanceAs (Decidable (0 < pages))
  | .pmmFreePages r => inferInstanceAs (Decidable (r ∈ h.ranges))
  | .malloc _ | .free _ | .krealloc _ _ | .write _ _ => inferInstanceAs (Decidable True)

/-- One operation; the loops of liballoc may take `fuel` turns. -/
def Heap.step (fuel : ℕ) (h : Heap) : HeapOp → Option Heap
  | .malloc size => (liballocMalloc fuel size h).map Prod.snd
  | .free ptr => (liballocFree ptr h).map Prod.snd
  | .krealloc ptr size => (liballocRealloc fuel ptr size h).map Prod.snd
  | .pmalloc pages => (Mm.pmalloc h.pmm pages).map fun (adr, s) =>
    { h with pmm := s, ranges := ⟨adr, pages⟩ :: h.ranges }
  | .pmmFreePages r => some { h with
    pmm := Mm.pmmFreePages h.pmm r.adr r.pages, ranges := h.ranges.erase r }
  | .write p v => some { h with mem := Function.update h.mem p v }

/-- The heap before its first use. -/
def Heap.start (s : Pmm) (mem : Memory) : Heap := ⟨mem, s, 0, 0, [], []⟩

lemma underReservedBlocks_step (fuel : ℕ) {h t : Heap} {o : HeapOp}
    (hh : UnderReservedBlocks h) (hstep : h.step fuel o = some t) : UnderReservedBlocks t := by
  have hI := underReservedBlocks_live
  have hnew := underReservedBlocks_new
  have hforget := underReservedBlocks_forget
  cases o with
  | malloc size => exact (keeps_liballocMalloc hI hnew fuel size).final hh hstep
  | free ptr => exact (keeps_liballocFree hI hforget ptr).final hh hstep
  | krealloc ptr size =>
    exact (keeps_liballocRealloc hI hforget hnew fuel ptr size).final hh hstep
  | pmalloc pages =>
    obtain ⟨⟨adr, s⟩, -, rfl⟩ := Option.map_eq_some_iff.mp hstep
    exact hI h _ rfl hh
  | pmmFreePages r =>
    obtain rfl := Option.some.inj hstep
    exact hI h _ rfl hh
  | write p v =>
    obtain rfl := Option.some.inj hstep
    exact hI h _ rfl hh

/-- Thirty-two pages of which the first is in use. -/
lemma highestPage_small : 32*pageSize < addressSpace := by decide

def smallMemory : Pmm := ⟨fun i => if i = 0 then 1#8 else 0#8, 32*pageSize, highestPage_small⟩

/-- The heap after its first request. -/
def oneBlock : Option Heap := Heap.step 2 (.start smallMemory fun _ => 0#8) (.malloc 1)

lemma oneBlock_live :
    (oneBlock.map fun h => h.live.map fun r => (r.adr, r.request)) = some [(4096, 33)] := by
  decide

end Open98.Mm
