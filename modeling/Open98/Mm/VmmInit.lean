import Open98.Library.Loop
import Open98.Mm.Family
import Open98.Mm.Liballoc

/-! `MmInitializeVmm`: the page tables of the kernel. Loading the CR3 register is left out. -/
namespace Open98.Mm
open Open98.Library

/-- The words of memory from the physical address on are set to zero, for as many pages. -/
def zeroPages (mem : ℕ → ULONG64) (adr pages : ℕ) (k : ℕ) : ULONG64 :=
  if adr ≤ k ∧ k < adr + pages*pageSize then 0#64 else mem k

/-- `pcalloc`. The page at address 0 is handed out as it is, because its address is `NULL`. -/
def Paging.pcalloc (s : Paging) (pages : ℕ) : Option (ULONG64 × Paging) :=
  (pmalloc s.pmm pages).map fun (ret, pmm) =>
    (BitVec.ofNat 64 ret,
      if ret = 0 then { s with pmm := pmm } else { s with pmm := pmm, mem := zeroPages s.mem ret pages })

/-- `for ( i = start; i < limit; i += step )`, for limits that the counter does not wrap around
before. -/
def forLoop (start limit step : ℕ) (body : Paging → ULONG64 → Option Paging) (s : Paging) :
    Option Paging :=
  loopFrom (fun s i => body s (BitVec.ofNat 64 i)) step (rounds start limit step) start s

def kernelMemOffset : ULONG64 := 0xffffffff80000000#64

/-- `MmInitializeVmm`, with `MiKernelPage.top_level`. -/
def mmInitializeVmm (s : Paging) : Option (ULONG64 × Paging) :=
  (s.pcalloc 1).bind fun (topLevel, s) =>
    (forLoop 256 512 1 (fun s i => (vmmGetNextLevel s topLevel i 0b111#64).map Prod.snd) s).bind fun s =>
      (forLoop pageSize 0x100000000 pageSize (fun s i =>
        (vmmMapPage s topLevel i i 0b11#64).bind fun s =>
          vmmMapPage s topLevel i (i + physMemOffset) 0b11#64) s).bind fun s =>
        (forLoop 0 0x80000000 pageSize (fun s i =>
          vmmMapPage s topLevel i (i + kernelMemOffset) 0b111#64) s).map fun s => (topLevel, s)

/-- The path of a page number. -/
def pagePath (p : ℕ) : List TableIndex :=
  [⟨p / 2^27 % 512, Nat.mod_lt _ (by decide)⟩, ⟨p / 2^18 % 512, Nat.mod_lt _ (by decide)⟩,
    ⟨p / 2^9 % 512, Nat.mod_lt _ (by decide)⟩]

lemma pathOf_eq (v : ULONG64) : pathOf v = pagePath (pageOf v) := by
  simp only [pathOf, pagePath, levelIndex, pageOf, pageSize, List.cons.injEq, Fin.ext_iff, and_true]
  norm_num
  omega

section Addresses

lemma pageOf_identity {k : ℕ} (hk : k < 2^20) : pageOf (BitVec.ofNat 64 (k*pageSize)) = k := by
  simp only [pageOf, pageSize, BitVec.toNat_ofNat]
  omega

/-- An address that a page has at an offset of whole pages. -/
lemma pageOf_offset {k c : ℕ} {offset : ULONG64} (hc : offset.toNat = c*pageSize)
    (hsum : k + c < 2^52) : pageOf (BitVec.ofNat 64 (k*pageSize) + offset) = (k + c) % 2^36 := by
  have hsum' : k*pageSize + c*pageSize < 2^64 := by
    simp only [pageSize]
    omega
  have hk : k*pageSize < 2^64 := by omega
  rw [pageOf, BitVec.toNat_add, BitVec.toNat_ofNat, hc, Nat.mod_eq_of_lt hk, Nat.mod_eq_of_lt hsum',
    ← Nat.add_mul, Nat.mul_div_cancel _ (by decide)]

lemma pageOf_direct {k : ℕ} (hk : k < 2^20) :
    pageOf (BitVec.ofNat 64 (k*pageSize) + physMemOffset) = 2^35 + k := by
  rw [pageOf_offset (c := 2^52-2^35) (by decide) (by omega)]
  omega

lemma pageOf_kernel {k : ℕ} (hk : k < 2^19) :
    pageOf (BitVec.ofNat 64 (k*pageSize) + kernelMemOffset) = 2^36 - 2^19 + k := by
  rw [pageOf_offset (c := 2^52-2^19) (by decide) (by omega)]
  omega

end Addresses

/-- The pages `[first, first+n)` have one among them that lies in the same block of `2^shift`
pages as `p`. -/
def Covers (first n shift p : ℕ) : Prop :=
  0 < n ∧ first / 2^shift ≤ p / 2^shift ∧ p / 2^shift ≤ (first + n - 1) / 2^shift

/-- The blocks of pages that have a table after `k` rounds of the identity mapping, `l` of the
direct mapping and `m` of the kernel mapping. -/
def HasTable (k l m shift p : ℕ) : Prop :=
  (shift = 27 ∧ 256 ≤ p / 2^27) ∨ Covers 1 k shift p ∨ Covers (2^35+1) l shift p ∨
    Covers (2^36-2^19) m shift p

/-- The last-level entries at that time. -/
def initialEntry (k l m p : ℕ) : ULONG64 :=
  if 1 ≤ p ∧ p < 1+k then BitVec.ofNat 64 (p*pageSize) ||| 0b11#64
  else if 2^35+1 ≤ p ∧ p < 2^35+1+l then BitVec.ofNat 64 ((p-2^35)*pageSize) ||| 0b11#64
  else if 2^36-2^19 ≤ p ∧ p < 2^36-2^19+m then BitVec.ofNat 64 ((p-(2^36-2^19))*pageSize) ||| 0b111#64
  else 0#64

/-- The tables made for the first pages of a mapping: one at the first page, and one more at each
first page of a block. -/
def tablesFor (top n : ℕ) : ℕ := if n = 0 then 0 else top + n / 2^18 + n / 2^9

/-- The pages taken at that time. -/
def pagesTaken (k l m : ℕ) : ℕ :=
  257 + tablesFor 3 k + tablesFor 2 l + (if m = 0 then 0 else 2 + (m-1) / 2^18 + (m-1) / 2^9)

instance (k l m shift p : ℕ) : Decidable (HasTable k l m shift p) := by
  unfold HasTable Covers
  infer_instance

section Blocks
variable {k l m shift p : ℕ}

/-- One page more reaches the block of that page, which is the last block so far or the one behind it. -/
lemma covers_succ {first n : ℕ} :
    Covers first (n+1) shift p ↔ Covers first n shift p ∨ p / 2^shift = (first+n) / 2^shift := by
  rw [Covers, Covers, ← Nat.add_assoc, Nat.add_sub_cancel]
  obtain rfl | hn := Nat.eq_zero_or_pos n
  · simp only [Nat.add_zero]
    omega
  · have hlast : first + n - 1 + 1 = first + n := by omega
    have hlow : first / 2^shift ≤ (first+n-1) / 2^shift := Nat.div_le_div_right (by omega)
    have hnext : (first+n-1+1) / 2^shift = _ := Nat.succ_div
    rw [hlast] at hnext
    split_ifs at hnext <;> omega

lemma hasTable_identity :
    HasTable (k+1) l m shift p ↔ HasTable k l m shift p ∨ p / 2^shift = (k+1) / 2^shift := by
  rw [HasTable, HasTable, covers_succ, Nat.add_comm 1 k]
  tauto

lemma hasTable_direct :
    HasTable k (l+1) m shift p ↔ HasTable k l m shift p ∨ p / 2^shift = (2^35 + (l+1)) / 2^shift := by
  rw [HasTable, HasTable, covers_succ, Nat.add_assoc, Nat.add_comm 1 l]
  tauto

lemma hasTable_kernel :
    HasTable k l (m+1) shift p ↔ HasTable k l m shift p ∨ p / 2^shift = (2^36 - 2^19 + m) / 2^shift := by
  rw [HasTable, HasTable, covers_succ]
  tauto

end Blocks

/-- The kernel's tables between two rounds of the loops; `free` are the pages that were free
before. -/
structure Mapping (s : Paging) (top k l m : ℕ) (free : List ℕ) : Prop where
  ok : FamilyOk s {top} ∅
  pml3 : ∀ p < 2^36, (tableWalk s top ((pagePath p).take 1)).isSome ↔ HasTable k l m 27 p
  pml2 : ∀ p < 2^36, (tableWalk s top ((pagePath p).take 2)).isSome ↔ HasTable k l m 18 p
  pml1 : ∀ p < 2^36, (tableWalk s top (pagePath p)).isSome ↔ HasTable k l m 9 p
  entry : ∀ w, leafEntry s top w = initialEntry k l m (pageOf w)
  writable : ∀ b j, b.length < 3 → permission (leafAt s top b j) = 0#64 ∨
    permission (leafAt s top b j) &&& 0b11#64 = 0b11#64
  free : s.pmm.freeList = free.drop (pagesTaken k l m)

section Prefixes
variable {p q : ℕ}

lemma take_one_prefix (hp : p < 2^36) (hq : q < 2^36) :
    (pagePath p).take 1 <+: pagePath q ↔ p / 2^27 = q / 2^27 := by
  simp only [pagePath, List.take, List.cons_prefix_cons, List.nil_prefix, and_true, Fin.ext_iff]
  omega

lemma take_two_prefix (hp : p < 2^36) (hq : q < 2^36) :
    (pagePath p).take 2 <+: pagePath q ↔ p / 2^18 = q / 2^18 := by
  simp only [pagePath, List.take, List.cons_prefix_cons, List.nil_prefix, and_true, Fin.ext_iff]
  omega

lemma path_prefix (hp : p < 2^36) (hq : q < 2^36) :
    pagePath p <+: pagePath q ↔ p / 2^9 = q / 2^9 := by
  simp only [pagePath, List.cons_prefix_cons, List.nil_prefix, and_true, Fin.ext_iff]
  omega

lemma pageOf_lt (v : ULONG64) : pageOf v < 2^36 := Nat.mod_lt _ (by decide)

end Prefixes

section Rounds
variable {s t : Paging} {top k l m k' l' m' : ℕ} {free : List ℕ} {v e flags : ULONG64}

lemma Mapping.missing (h : Mapping s top k l m free) (v : ULONG64) :
    missing s top [] (pathOf v) = (if HasTable k l m 27 (pageOf v) then 0 else 1) +
      ((if HasTable k l m 18 (pageOf v) then 0 else 1) +
        (if HasTable k l m 9 (pageOf v) then 0 else 1)) := by
  have hv := pageOf_lt v
  simp only [← h.pml3 _ hv, ← h.pml2 _ hv, ← h.pml1 _ hv, pathOf_eq]
  rfl

/-- Setting one more entry. -/
lemma Mapping.step (h : Mapping s top k l m free) (he : EntrySet s t {top} ∅ top v e flags)
    (hflags : permission flags &&& 0b11#64 = 0b11#64)
    (hblocks : ∀ shift p, HasTable k' l' m' shift p ↔ HasTable k l m shift p ∨ p / 2^shift = pageOf v / 2^shift)
    (hentry : ∀ p < 2^36, initialEntry k' l' m' p = if p = pageOf v then e else initialEntry k l m p)
    (hcount : pagesTaken k' l' m' = pagesTaken k l m +
      ((if HasTable k l m 27 (pageOf v) then 0 else 1) + ((if HasTable k l m 18 (pageOf v) then 0 else 1) +
        (if HasTable k l m 9 (pageOf v) then 0 else 1)))) : Mapping t top k' l' m' free := by
  have hv := pageOf_lt v
  refine ⟨he.ok, fun p hp => ?_, fun p hp => ?_, fun p hp => ?_, fun w => ?_, fun b j hb => ?_, ?_⟩
  · rw [he.walks _ (by simp [pagePath]), h.pml3 p hp, pathOf_eq, take_one_prefix hp hv, hblocks]
  · rw [he.walks _ (by simp [pagePath]), h.pml2 p hp, pathOf_eq, take_two_prefix hp hv, hblocks]
  · rw [he.walks _ (by simp [pagePath]), h.pml1 p hp, pathOf_eq, path_prefix hp hv, hblocks]
  · rw [hentry _ (pageOf_lt w)]
    by_cases hw : pageOf w = pageOf v
    · rw [if_pos hw, he.set top rfl (.inl rfl) w hw]
    · rw [if_neg hw, he.kept top rfl w hw, h.entry]
  · rcases he.made b j hb with hsame | hnew
    · rw [hsame]
      exact h.writable b j hb
    · rw [hnew]
      exact .inr hflags
  · rw [he.free, h.free, List.drop_drop, h.missing, hcount]

/-- The next page of the identity mapping. -/
lemma Mapping.identity (h : Mapping s top k k 0 free) (hk : k+1 < 2^20)
    (he : EntrySet s t {top} ∅ top (BitVec.ofNat 64 ((k+1)*pageSize))
      (BitVec.ofNat 64 ((k+1)*pageSize) ||| 0b11#64) 0b11#64) : Mapping t top (k+1) k 0 free := by
  refine h.step he (by decide) (fun _ _ => ?_) ?_ ?_
  all_goals rw [pageOf_identity hk]
  · exact hasTable_identity
  · intro p hp
    by_cases hpk : p = k+1
    · subst hpk
      rw [if_pos rfl, initialEntry, if_pos (by omega)]
    · have hsame : (1 ≤ p ∧ p < 1 + (k+1)) ↔ (1 ≤ p ∧ p < 1+k) := by omega
      rw [if_neg hpk, initialEntry, initialEntry]
      simp only [hsame]
  · have h27 : HasTable k k 0 27 (k+1) ↔ 0 < k := by
      simp only [HasTable, Covers, true_and]
      omega
    have h18 : HasTable k k 0 18 (k+1) ↔ 0 < k ∧ (k+1) / 2^18 = k / 2^18 := by
      simp only [HasTable, Covers]
      omega
    have h9 : HasTable k k 0 9 (k+1) ↔ 0 < k ∧ (k+1) / 2^9 = k / 2^9 := by
      simp only [HasTable, Covers]
      omega
    simp only [h27, h18, h9, pagesTaken, tablesFor, Nat.add_one_ne_zero, if_false]
    split_ifs <;> omega

/-- The next page of the direct mapping. -/
lemma Mapping.direct (h : Mapping s top (k+1) k 0 free) (hk : k+1 < 2^20)
    (he : EntrySet s t {top} ∅ top (BitVec.ofNat 64 ((k+1)*pageSize) + physMemOffset)
      (BitVec.ofNat 64 ((k+1)*pageSize) ||| 0b11#64) 0b11#64) : Mapping t top (k+1) (k+1) 0 free := by
  refine h.step he (by decide) (fun _ _ => ?_) ?_ ?_
  all_goals rw [pageOf_direct hk]
  · exact hasTable_direct
  · intro p hp
    by_cases hpk : p = 2^35 + (k+1)
    · subst hpk
      rw [if_pos rfl, initialEntry, if_neg (by omega), if_pos (by omega), Nat.add_sub_cancel_left]
    · have hsame : (2^35+1 ≤ p ∧ p < 2^35+1 + (k+1)) ↔ (2^35+1 ≤ p ∧ p < 2^35+1+k) := by omega
      rw [if_neg hpk, initialEntry, initialEntry]
      simp only [hsame]
  · have h27 : HasTable (k+1) k 0 27 (2^35 + (k+1)) := by
      simp only [HasTable, Covers, true_and]
      omega
    have h18 : HasTable (k+1) k 0 18 (2^35 + (k+1)) ↔ 0 < k ∧ (k+1) / 2^18 = k / 2^18 := by
      simp only [HasTable, Covers]
      omega
    have h9 : HasTable (k+1) k 0 9 (2^35 + (k+1)) ↔ 0 < k ∧ (k+1) / 2^9 = k / 2^9 := by
      simp only [HasTable, Covers]
      omega
    simp only [h27, h18, h9, pagesTaken, tablesFor, Nat.add_one_ne_zero, if_false, if_true]
    split_ifs <;> omega

/-- The next page of the kernel mapping. -/
lemma Mapping.kernel (h : Mapping s top k k m free) (hk : k < 2^20) (hm : m < 2^19)
    (he : EntrySet s t {top} ∅ top (BitVec.ofNat 64 (m*pageSize) + kernelMemOffset)
      (BitVec.ofNat 64 (m*pageSize) ||| 0b111#64) 0b111#64) : Mapping t top k k (m+1) free := by
  refine h.step he (by decide) (fun _ _ => ?_) ?_ ?_
  all_goals rw [pageOf_kernel hm]
  · exact hasTable_kernel
  · intro p hp
    by_cases hpk : p = 2^36 - 2^19 + m
    · subst hpk
      rw [if_pos rfl, initialEntry, if_neg (by omega), if_neg (by omega), if_pos (by omega),
        Nat.add_sub_cancel_left]
    · have hsame : (2^36-2^19 ≤ p ∧ p < 2^36-2^19 + (m+1)) ↔ (2^36-2^19 ≤ p ∧ p < 2^36-2^19+m) := by
        omega
      rw [if_neg hpk, initialEntry, initialEntry]
      simp only [hsame]
  · have h27 : HasTable k k m 27 (2^36 - 2^19 + m) := by
      simp only [HasTable, Covers, true_and]
      omega
    have h18 : HasTable k k m 18 (2^36 - 2^19 + m) ↔ 0 < m ∧ m / 2^18 = (m-1) / 2^18 := by
      simp only [HasTable, Covers]
      omega
    have h9 : HasTable k k m 9 (2^36 - 2^19 + m) ↔ 0 < m ∧ m / 2^9 = (m-1) / 2^9 := by
      simp only [HasTable, Covers]
      omega
    simp only [h27, h18, h9, pagesTaken, Nat.add_one_ne_zero, if_false, if_true, Nat.add_sub_cancel]
    split_ifs <;> omega

end Rounds

section Start
variable {s t : Paging} {topLevel : ULONG64} {pages : ℕ}

/-- One page from `pcalloc`: it is blank afterwards if it was before. -/
lemma pcalloc_one (h : s.pcalloc 1 = some (topLevel, t)) :
    ∃ q, PointsTo topLevel q ∧ s.pmm.freeList = q :: t.pmm.freeList ∧
      (∀ k, t.pmm.used k = (decide (k = q) || s.pmm.used k)) ∧
      (∀ f, f ≠ q → tables t.mem f = tables s.mem f) ∧ (Blank s.mem q → Blank t.mem q) := by
  simp only [Paging.pcalloc, Option.map_eq_some_iff] at h
  obtain ⟨⟨adr, pmm⟩, hpm, heq⟩ := h
  obtain ⟨q, hfree, rfl, hlt, _, hused⟩ := pmalloc_one hpm
  simp only [Prod.mk.injEq] at heq
  obtain ⟨rfl, rfl⟩ := heq
  have hpoint : PointsTo (BitVec.ofNat 64 (q*pageSize)) q := by
    rw [PointsTo, BitVec.toNat_ofNat]
    exact Nat.mod_eq_of_lt hlt
  by_cases hzero : q*pageSize = 0
  · rw [if_pos hzero]
    exact ⟨q, hpoint, hfree, hused, fun _ _ => rfl, id⟩
  · rw [if_neg hzero]
    refine ⟨q, hpoint, hfree, hused, fun f hf => ?_, fun _ i => ?_⟩
    · funext i
      have hi := i.isLt
      refine if_neg fun hc => hf ?_
      simp only [pageSize] at hc
      omega
    · have hi := i.isLt
      refine if_pos ?_
      simp only [pageSize]
      omega

/-- The top table between two rounds of the loop that fills its upper half. -/
structure TopFilled (s : Paging) (top j : ℕ) (free : List ℕ) : Prop where
  ok : FamilyOk s {top} ∅
  walks : ∀ b, b.length ≤ 3 →
    ((tableWalk s top b).isSome ↔ b = [] ∨ ∃ i : TableIndex, b = [i] ∧ 256 ≤ i.val ∧ i.val < 256+j)
  leaves : ∀ b i, b.length = 3 → leafAt s top b i = 0#64
  writable : ∀ b j, b.length < 3 → permission (leafAt s top b j) = 0#64 ∨
    permission (leafAt s top b j) &&& 0b11#64 = 0b11#64
  free : s.pmm.freeList = free.drop (1+j)

/-- A blank top table. -/
lemma TopFilled.start {top : ℕ} {free : List ℕ} (hblank : Blank s.mem top) (hused : s.pmm.used top = true)
    (hfree : free = top :: s.pmm.freeList) : TopFilled s top 0 free := by
  have hwalk : ∀ i b, tableWalk s top (i :: b) = none := fun i b => by
    rw [tableWalk, Radix.walk_cons, hblank i, child_zero, Option.bind_none]
  have hnil : ∀ b f, tableWalk s top b = some f → b = [] ∧ f = top := by
    intro b f hw
    cases b with
    | nil => exact ⟨rfl, (Option.some.inj hw).symm⟩
    | cons i b => simp [hwalk] at hw
  refine ⟨⟨Radix.Separate.forest (fun a b f _ _ ha hb => ?_) fun i hi => hi.elim, ?_⟩, fun b _ => ?_,
    fun b i hb => ?_, fun b j _ => .inl ?_, ?_⟩
  · rw [(hnil a f ha).1, (hnil b f hb).1]
  · rintro _ rfl a f _ hw
    rw [(hnil a f hw).2, hused]
  · cases b with
    | nil => simp
    | cons i b =>
      rw [hwalk]
      simp only [Option.isSome_none, Bool.false_eq_true, false_iff]
      rintro (h | ⟨k, _, hlow, hhigh⟩)
      · cases h
      · omega
  · cases b with
    | nil => simp at hb
    | cons k b =>
      have hnone : Radix.walk child (tables s.mem) top (k :: b) = none := hwalk k b
      rw [leafAt, Radix.lookup, hnone]
      rfl
  · cases b with
    | nil =>
      rw [show leafAt s top [] j = 0#64 from hblank j, permission_zero]
    | cons k b =>
      have hnone : Radix.walk child (tables s.mem) top (k :: b) = none := hwalk k b
      rw [leafAt, Radix.lookup, hnone]
      exact permission_zero
  · rw [hfree]
    rfl

/-- One more entry of the upper half. -/
lemma TopFilled.step {top j : ℕ} {free : List ℕ} (h : TopFilled s top j free) (hj : j < 256)
    (htop : PointsTo topLevel top) {ret : ULONG64} (hsup : Supplied s t)
    (hnext : vmmGetNextLevel s topLevel (BitVec.ofNat 64 (256 + j*1)) 0b111#64 = some (ret, t)) :
    TopFilled t top (j+1) free ∧ ∀ q ∈ t.pmm.freeList, tables t.mem q = tables s.mem q := by
  have hindex : (BitVec.ofNat 64 (256 + j*1)).toNat = (⟨256+j, by omega⟩ : TableIndex).val := by
    simp only [BitVec.toNat_ofNat]
    omega
  obtain ⟨g, _, _, hgrown⟩ := vmmGetNextLevel_family (a := []) h.ok rfl rfl (by decide) htop hindex
    (by decide) (by decide) hsup hnext
  refine ⟨⟨hgrown.ok, fun b hb => ?_, fun b i hb => ?_, fun b i hb => ?_, ?_⟩, hgrown.untouched⟩
  · rw [hgrown.walks b hb, h.walks b hb]
    constructor
    · rintro ((rfl | ⟨i, rfl, hlow, hhigh⟩) | ⟨_, hpre⟩)
      · exact .inl rfl
      · exact .inr ⟨i, rfl, hlow, by omega⟩
      · rcases prefix_between_snoc (a := []) List.nil_prefix hpre with rfl | rfl
        · exact .inl rfl
        · exact .inr ⟨_, rfl, Nat.le_add_right _ _, by simp⟩
    · rintro (rfl | ⟨i, rfl, hlow, hhigh⟩)
      · exact .inl (.inl rfl)
      · by_cases hi : i.val < 256+j
        · exact .inl (.inr ⟨i, rfl, hlow, hi⟩)
        · have hlast : i = ⟨256+j, by omega⟩ := Fin.ext (by change i.val = 256+j; omega)
          rw [hlast]
          exact .inr ⟨List.nil_prefix, List.prefix_rfl⟩
  · rw [hgrown.leaves top rfl b i hb, h.leaves b i hb]
  · rcases hgrown.made b i hb with hsame | hnew
    · rw [hsame]
      exact h.writable b i hb
    · rw [hnew]
      exact .inr (by decide)
  · have hmissing : ¬(tableWalk s top ([] ++ [⟨256+j, by omega⟩])).isSome := by
      rw [h.walks _ (by simp)]
      rintro (hnil | ⟨i, hi, hlow, hhigh⟩)
      · simp at hnil
      · simp only [List.nil_append, List.cons.injEq, and_true] at hi
        rw [← hi] at hhigh
        simp at hhigh
    rw [hgrown.free, h.free, List.drop_drop, missing, if_neg hmissing]
    rfl

/-- With the upper half filled the mapping can start. -/
lemma TopFilled.mapping {top : ℕ} {free : List ℕ} (h : TopFilled s top 256 free) :
    Mapping s top 0 0 0 free := by
  have hshort : ∀ b : List TableIndex, 2 ≤ b.length → b.length ≤ 3 → ¬(tableWalk s top b).isSome := by
    intro b hlow hhigh hsome
    rcases (h.walks b hhigh).mp hsome with rfl | ⟨i, rfl, _⟩
    · simp at hlow
    · simp at hlow
  have hnone : ∀ shift p, shift ≠ 27 → ¬HasTable 0 0 0 shift p := by
    intro shift p hs hc
    rcases hc with ⟨h27, _⟩ | ⟨h0, _⟩ | ⟨h0, _⟩ | ⟨h0, _⟩
    · exact hs h27
    all_goals omega
  refine ⟨h.ok, fun p hp => ?_, fun p hp => ?_, fun p hp => ?_, fun w => ?_,
    h.writable, h.free⟩
  · rw [h.walks _ (by simp [pagePath])]
    simp only [pagePath, List.take, HasTable, Covers, List.cons.injEq, and_true, true_and, reduceCtorEq,
      false_or]
    constructor
    · rintro ⟨i, hi, hlow, _⟩
      rw [← hi] at hlow
      simp only at hlow
      omega
    · intro hc
      refine ⟨_, rfl, ?_, ?_⟩
      · simp only
        omega
      · simp only
        omega
  · exact iff_of_false (hshort _ (by simp [pagePath]) (by simp [pagePath])) (hnone 18 p (by decide))
  · exact iff_of_false (hshort _ (by simp [pagePath]) (by simp [pagePath])) (hnone 9 p (by decide))
  · rw [leafEntry, h.leaves _ _ rfl, initialEntry, if_neg (by omega), if_neg (by omega), if_neg (by omega)]

end Start

section Initialise
variable {s t : Paging} {topLevel : ULONG64}

lemma loopFrom_subset {body : Paging → ℕ → Option Paging} {step n i : ℕ}
    (hbody : ∀ s i t, body s i = some t → t.pmm.freeList ⊆ s.pmm.freeList)
    (h : loopFrom body step n i s = some t) : t.pmm.freeList ⊆ s.pmm.freeList :=
  Loop.rel (R := fun s t => t.pmm.freeList ⊆ s.pmm.freeList) (fun _ => List.Subset.refl _)
    (fun _ _ _ h1 h2 => List.Subset.trans h2 h1) hbody h

/-- A loop that takes pages keeps an invariant that every round keeps, as long as the pages that
the whole loop takes are zero-filled. -/
lemma loop_supplied {I : ℕ → Paging → Prop} {body : Paging → ℕ → Option Paging} {step n i : ℕ}
    (h : loopFrom body step n i s = some t) (hsup : Supplied s t)
    (hbody : ∀ s i t, body s i = some t → t.pmm.freeList ⊆ s.pmm.freeList) (hs : I 0 s)
    (hstep : ∀ k u v, k < n → I k u → Supplied u v → body u (i + k*step) = some v →
      I (k+1) v ∧ ∀ q ∈ v.pmm.freeList, tables v.mem q = tables u.mem q) :
    I n t ∧ ∀ q ∈ t.pmm.freeList, tables t.mem q = tables s.mem q := by
  have hall := Loop.invariant (I := fun k u => I k u ∧ Supplied u t ∧
    ∀ q ∈ u.pmm.freeList, tables u.mem q = tables s.mem q) h ⟨hs, hsup, fun _ _ => rfl⟩ ?_
  · exact ⟨hall.1, hall.2.2⟩
  · rintro k u v hk ⟨hI, hsupu, hmemu⟩ hbodyv hrest
    have hsub := loopFrom_subset hbody hrest
    obtain ⟨hI', hmem⟩ := hstep k u v hk hI (hsupu.right hsub) hbodyv
    refine ⟨hI', hsupu.left (hbody _ _ _ hbodyv) hmem, fun q hq => ?_⟩
    rw [hmem q hq, hmemu q (hbody _ _ _ hbodyv hq)]

lemma fill_subset {s t : Paging} {i : ℕ}
    (h : (vmmGetNextLevel s topLevel (BitVec.ofNat 64 i) 0b111#64).map Prod.snd = some t) :
    t.pmm.freeList ⊆ s.pmm.freeList := by
  simp only [Option.map_eq_some_iff] at h
  obtain ⟨⟨ret, u⟩, hnext, rfl⟩ := h
  exact vmmGetNextLevel_subset hnext

lemma mapTwice_subset {s t : Paging} {i : ℕ}
    (h : ((vmmMapPage s topLevel (BitVec.ofNat 64 i) (BitVec.ofNat 64 i) 0b11#64).bind fun s =>
      vmmMapPage s topLevel (BitVec.ofNat 64 i) (BitVec.ofNat 64 i + physMemOffset) 0b11#64) = some t) :
    t.pmm.freeList ⊆ s.pmm.freeList := by
  simp only [Option.bind_eq_some_iff] at h
  obtain ⟨u, hu, h⟩ := h
  exact List.Subset.trans (vmmMapPage_subset h) (vmmMapPage_subset hu)

/-- A round of the first loop. -/
lemma TopFilled.round {s t : Paging} {top j : ℕ} {free : List ℕ} (h : TopFilled s top j free) (hj : j < 256)
    (htop : PointsTo topLevel top) (hsup : Supplied s t)
    (hbody : (vmmGetNextLevel s topLevel (BitVec.ofNat 64 (256 + j*1)) 0b111#64).map Prod.snd = some t) :
    TopFilled t top (j+1) free ∧ ∀ q ∈ t.pmm.freeList, tables t.mem q = tables s.mem q := by
  simp only [Option.map_eq_some_iff] at hbody
  obtain ⟨⟨ret, u⟩, hnext, rfl⟩ := hbody
  exact h.step hj htop hsup hnext

/-- A round of the second loop. -/
lemma Mapping.round {s t : Paging} {top k : ℕ} {free : List ℕ} (h : Mapping s top k k 0 free)
    (hk : k < 2^20-1) (htop : PointsTo topLevel top) (hsup : Supplied s t)
    (hbody : ((vmmMapPage s topLevel (BitVec.ofNat 64 (pageSize + k*pageSize))
      (BitVec.ofNat 64 (pageSize + k*pageSize)) 0b11#64).bind fun s =>
        vmmMapPage s topLevel (BitVec.ofNat 64 (pageSize + k*pageSize))
          (BitVec.ofNat 64 (pageSize + k*pageSize) + physMemOffset) 0b11#64) = some t) :
    Mapping t top (k+1) (k+1) 0 free ∧ ∀ q ∈ t.pmm.freeList, tables t.mem q = tables s.mem q := by
  have hk' : k+1 < 2^20 := by omega
  have hcount : pageSize + k*pageSize = (k+1)*pageSize := by
    rw [Nat.add_mul, Nat.one_mul, Nat.add_comm]
  simp only [Option.bind_eq_some_iff, hcount] at hbody
  obtain ⟨u, hu, ht⟩ := hbody
  have hsub := vmmMapPage_subset ht
  have he := vmmMapPage_family h.ok rfl htop (by decide) (by decide) (hsup.right hsub) hu
  have hu' := h.identity hk' he
  have hsup' : Supplied u t := hsup.left (vmmMapPage_subset hu) he.untouched
  have he' := vmmMapPage_family hu'.ok rfl htop (by decide) (by decide) hsup' ht
  refine ⟨hu'.direct hk' he', fun q hq => ?_⟩
  rw [he'.untouched q hq, he.untouched q (hsub hq)]

/-- A round of the third loop. -/
lemma Mapping.kernelRound {s t : Paging} {top m : ℕ} {free : List ℕ}
    (h : Mapping s top (2^20-1) (2^20-1) m free) (hm : m < 2^19) (htop : PointsTo topLevel top)
    (hsup : Supplied s t) (hbody : vmmMapPage s topLevel (BitVec.ofNat 64 (0 + m*pageSize))
      (BitVec.ofNat 64 (0 + m*pageSize) + kernelMemOffset) 0b111#64 = some t) :
    Mapping t top (2^20-1) (2^20-1) (m+1) free ∧ ∀ q ∈ t.pmm.freeList, tables t.mem q = tables s.mem q := by
  rw [Nat.zero_add] at hbody
  have he := vmmMapPage_family h.ok rfl htop (by decide) (by decide) hsup hbody
  exact ⟨h.kernel (by decide) hm he, he.untouched⟩

/-- What `MmInitializeVmm` leaves behind, if the pages that it takes are zero-filled: the first
free page is the top table, and all rounds of the three mappings are done. -/
theorem mmInitializeVmm_mapping {s t : Paging} (h : mmInitializeVmm s = some (topLevel, t))
    (hsup : Supplied s t) :
    ∃ top, PointsTo topLevel top ∧ Mapping t top (2^20-1) (2^20-1) (2^19) s.pmm.freeList ∧
      ∀ q ∈ t.pmm.freeList, tables t.mem q = tables s.mem q := by
  simp only [mmInitializeVmm, forLoop, Option.bind_eq_some_iff, Option.map_eq_some_iff] at h
  obtain ⟨⟨topLevel', u0⟩, hpc, u1, h1, u2, h2, u3, h3, heq⟩ := h
  simp only [Prod.mk.injEq] at heq
  obtain ⟨rfl, rfl⟩ := heq
  dsimp only at h1 h2 h3
  have hsub1 : u1.pmm.freeList ⊆ u0.pmm.freeList := loopFrom_subset (fun _ _ _ => fill_subset) h1
  have hsub2 : u2.pmm.freeList ⊆ u1.pmm.freeList := loopFrom_subset (fun _ _ _ => mapTwice_subset) h2
  have hsub3 : u3.pmm.freeList ⊆ u2.pmm.freeList := loopFrom_subset (fun _ _ _ => vmmMapPage_subset) h3
  obtain ⟨top, htop, hfree, hused, hmem, hblank⟩ := pcalloc_one hpc
  have hfresh : top ∉ u0.pmm.freeList := by
    have hnodup := s.pmm.freeList_nodup
    rw [hfree] at hnodup
    exact (List.nodup_cons.mp hnodup).1
  have htopBlank : Blank u0.mem top :=
    hblank (hsup top (by simp [hfree]) fun hin => hfresh (hsub1 (hsub2 (hsub3 hin))))
  have hsup0 : Supplied u0 u3 := hsup.left (by rw [hfree]; exact List.subset_cons_self _ _)
    fun q hq => hmem q fun heq => hfresh (heq ▸ hq)
  obtain ⟨hfilled, hmem1⟩ := loop_supplied (I := fun j u => TopFilled u top j s.pmm.freeList) h1
    (hsup0.right (List.Subset.trans hsub3 hsub2)) (fun _ _ _ => fill_subset)
    (.start htopBlank (by simp [hused]) hfree) fun _ _ _ hk hI hsupu => hI.round hk htop hsupu
  have hsup1 : Supplied u1 u3 := hsup0.left hsub1 hmem1
  obtain ⟨hmapped, hmem2⟩ := loop_supplied (I := fun k u => Mapping u top k k 0 s.pmm.freeList) h2
    (hsup1.right hsub3) (fun _ _ _ => mapTwice_subset) hfilled.mapping
    fun _ _ _ hk hI hsupu => hI.round hk htop hsupu
  have hsup2 : Supplied u2 u3 := hsup1.left hsub2 hmem2
  obtain ⟨hkernel, hmem3⟩ := loop_supplied
    (I := fun m u => Mapping u top (2^20-1) (2^20-1) m s.pmm.freeList) h3 hsup2
    (fun _ _ _ => vmmMapPage_subset) hmapped fun _ _ _ hm hI hsupu => hI.kernelRound hm htop hsupu
  refine ⟨top, htop, hkernel, fun q hq => ?_⟩
  have hq2 := hsub3 hq
  have hq1 := hsub2 hq2
  have hq0 := hsub1 hq1
  rw [hmem3 q hq, hmem2 q hq2, hmem1 q hq1, hmem q fun heq => hfresh (heq ▸ hq0)]

end Initialise

section Returns
variable {s : Paging}

lemma pmalloc_one_returns {a : Pmm} (h : 1 ≤ a.freeList.length) :
    ∃ adr b, pmalloc a 1 = some (adr, b) ∧ a.freeList.length ≤ b.freeList.length + 1 := by
  obtain ⟨k, hk⟩ := List.exists_mem_of_length_pos h
  have hex : ∃ k, k < a.pageCount ∧ a.used k = false :=
    ⟨k, List.mem_range.mp (List.mem_filter.mp hk).1, free_of_mem_freeList hk⟩
  have hfirst : FirstFree a (Nat.find hex) := by
    refine ⟨(Nat.find_spec hex).1, (Nat.find_spec hex).2, fun j hj => ?_⟩
    have hmin := Nat.find_min hex hj
    have hlt : j < a.pageCount := hj.trans (Nat.find_spec hex).1
    simpa [hlt] using hmin
  have hsome := (pmalloc_eq_some a 1 (by omega) _ _).mpr ⟨_, hfirst, rfl, rfl⟩
  obtain ⟨f, hfree, _⟩ := pmalloc_one hsome
  refine ⟨_, _, hsome, ?_⟩
  rw [hfree, List.length_cons]

lemma vmmGetNextLevel_returns (p index flags : ULONG64) (h : 1 ≤ s.pmm.freeList.length) :
    ∃ ret t, vmmGetNextLevel s p index flags = some (ret, t) ∧
      s.pmm.freeList.length ≤ t.pmm.freeList.length + 1 := by
  obtain ⟨adr, b, hb, hlen⟩ := pmalloc_one_returns h
  unfold vmmGetNextLevel
  dsimp only
  split_ifs with hp
  · exact ⟨_, s, rfl, by omega⟩
  · rw [hb]
    exact ⟨_, _, rfl, hlen⟩

lemma vmmDescend_returns (p flags : ULONG64) (indices : List ULONG64)
    (h : indices.length ≤ s.pmm.freeList.length) :
    ∃ ret t, vmmDescend flags s p indices = some (ret, t) ∧
      s.pmm.freeList.length ≤ t.pmm.freeList.length + indices.length := by
  induction indices generalizing s p with
  | nil => exact ⟨p, s, rfl, by simp⟩
  | cons index rest ih =>
    rw [List.length_cons] at h ⊢
    obtain ⟨next, u, hu, hlen⟩ := vmmGetNextLevel_returns (s := s) p index flags (by omega)
    obtain ⟨ret, t, ht, hlen'⟩ := ih (s := u) next (by omega)
    refine ⟨ret, t, ?_, by omega⟩
    rw [vmmDescend, hu]
    exact ht

lemma vmmMapPage_returns (topLevel a v flags : ULONG64) (h : 3 ≤ s.pmm.freeList.length) :
    ∃ t, vmmMapPage s topLevel a v flags = some t ∧
      s.pmm.freeList.length ≤ t.pmm.freeList.length + 3 := by
  obtain ⟨ret, t, ht, hlen⟩ := vmmDescend_returns topLevel flags (upperEntries v) h
  rw [vmmMapPage, ht]
  exact ⟨_, rfl, hlen⟩

lemma forLoop_returns (start limit step cost : ℕ) (body : Paging → ULONG64 → Option Paging)
    (hbody : ∀ s i, cost ≤ s.pmm.freeList.length →
      ∃ t, body s i = some t ∧ s.pmm.freeList.length ≤ t.pmm.freeList.length + cost)
    (h : rounds start limit step * cost ≤ s.pmm.freeList.length) :
    ∃ t, forLoop start limit step body s = some t ∧
      s.pmm.freeList.length ≤ t.pmm.freeList.length + rounds start limit step * cost :=
  Loop.returns (fun s : Paging => s.pmm.freeList.length) cost (fun s _ => hbody s _) h

/-- With a page for each table that a call might make, `MmInitializeVmm` returns. -/
theorem mmInitializeVmm_returns (h : 1 + 256 + (2^20-1)*6 + 2^19*3 ≤ s.pmm.freeList.length) :
    ∃ topLevel t, mmInitializeVmm s = some (topLevel, t) := by
  have hpc : ∃ ret u, s.pcalloc 1 = some (ret, u) ∧ s.pmm.freeList.length ≤ u.pmm.freeList.length + 1 := by
    obtain ⟨adr, b, hb, hlen⟩ := pmalloc_one_returns (a := s.pmm) (by omega)
    rw [Paging.pcalloc, hb]
    refine ⟨_, _, rfl, ?_⟩
    split_ifs
    · exact hlen
    · exact hlen
  obtain ⟨top, u0, hu0, hlen0⟩ := hpc
  have hr1 : rounds 256 512 1 = 256 := by decide
  have hr2 : rounds pageSize 0x100000000 pageSize = 2^20-1 := by decide
  have hr3 : rounds 0 0x80000000 pageSize = 2^19 := by decide
  obtain ⟨u1, h1, hlen1⟩ := forLoop_returns (s := u0) 256 512 1 1
    (fun s i => (vmmGetNextLevel s top i 0b111#64).map Prod.snd)
    (fun s i hs => by
      obtain ⟨ret, t, ht, hlen⟩ := vmmGetNextLevel_returns top i 0b111#64 hs
      exact ⟨t, by rw [ht]; rfl, hlen⟩) (by omega)
  obtain ⟨u2, h2, hlen2⟩ := forLoop_returns (s := u1) pageSize 0x100000000 pageSize 6
    (fun s i => (vmmMapPage s top i i 0b11#64).bind fun s => vmmMapPage s top i (i + physMemOffset) 0b11#64)
    (fun s i hs => by
      obtain ⟨t, ht, hlen⟩ := vmmMapPage_returns (s := s) top i i 0b11#64 (by omega)
      obtain ⟨w, hw, hlen'⟩ := vmmMapPage_returns (s := t) top i (i + physMemOffset) 0b11#64 (by omega)
      exact ⟨w, by rw [ht]; exact hw, by omega⟩) (by omega)
  obtain ⟨u3, h3, _⟩ := forLoop_returns (s := u2) 0 0x80000000 pageSize 3
    (fun s i => vmmMapPage s top i (i + kernelMemOffset) 0b111#64)
    (fun s i hs => vmmMapPage_returns top i (i + kernelMemOffset) 0b111#64 hs) (by omega)
  refine ⟨top, u3, ?_⟩
  rw [mmInitializeVmm, hu0, Option.bind_some]
  dsimp only
  rw [h1, Option.bind_some, h2, Option.bind_some, h3]
  rfl

end Returns
end Open98.Mm
