import Mathlib.Data.BitVec
import Mathlib.Data.List.Basic
import Mathlib.Tactic.Linarith

/-! The physical page allocator of `mm/pmm.c`. The bitmap is the memory from `pmm_bitmap` on;
page addresses are 64-bit values, written as naturals with the wrap-around made explicit.
The locks are left out: `KeTryAcquireMutex` gets its lock by value and never waits. -/
namespace Open98.Mm

def pageSize : ℕ := 0x1000

/-- The number of 64-bit addresses. -/
def addressSpace : ℕ := 2^64

/-- The bytes of memory from `pmm_bitmap` on. -/
abbrev Bitmap := ℕ → BitVec 8

def bitSet (m : Bitmap) (bit : ℕ) : Bitmap :=
  Function.update m (bit/8) (m (bit/8) ||| (1#8 <<< (bit % 8)))

def bitClear (m : Bitmap) (bit : ℕ) : Bitmap :=
  Function.update m (bit/8) (m (bit/8) &&& ~~~(1#8 <<< (bit % 8)))

def bitTest (m : Bitmap) (bit : ℕ) : Bool := ((m (bit/8)) >>> (bit % 8)) &&& 1#8 != 0#8

lemma shifted_and_one (b : BitVec 8) (k : ℕ) : ((b >>> k) &&& 1#8 != 0#8) = b.getLsbD k := by
  have h : (b >>> k) &&& 1#8 = if b.getLsbD k then 1#8 else 0#8 := by
    apply BitVec.eq_of_getLsbD_eq
    intro i hi
    by_cases h0 : i = 0
    · subst h0
      cases hb : b.getLsbD k <;> simp [hb]
    · cases hb : b.getLsbD k <;> simp [h0, BitVec.getLsbD_one]
  rw [h]
  cases b.getLsbD k <;> rfl

lemma bitTest_eq (m : Bitmap) (bit : ℕ) : bitTest m bit = (m (bit/8)).getLsbD (bit % 8) :=
  shifted_and_one _ _

lemma getLsbD_one_shiftLeft (i k : ℕ) (hi : i < 8) :
    (1#8 <<< k).getLsbD i = decide (i = k) := by
  simp only [BitVec.getLsbD_shiftLeft, BitVec.getLsbD_one]
  by_cases h : i = k
  · simp [h, show k < 8 by omega]
  · by_cases hk : i < k
    · simp [hk, h]
    · simp [hk, h, show ¬ i - k = 0 by omega]

@[simp] theorem bitTest_bitSet (m : Bitmap) (a b : ℕ) :
    bitTest (bitSet m a) b = (decide (b = a) || bitTest m b) := by
  simp only [bitTest_eq, bitSet, Function.update_apply]
  have hb : b % 8 < 8 := Nat.mod_lt _ (by omega)
  split_ifs with h
  · simp only [BitVec.getLsbD_or, getLsbD_one_shiftLeft _ _ hb, ← h]
    rw [Bool.or_comm]
    congr 1
    exact decide_eq_decide.mpr (by omega)
  · have hne : b ≠ a := fun hba => h (by rw [hba])
    simp [hne]

@[simp] theorem bitTest_bitClear (m : Bitmap) (a b : ℕ) :
    bitTest (bitClear m a) b = (!decide (b = a) && bitTest m b) := by
  simp only [bitTest_eq, bitClear, Function.update_apply]
  have hb : b % 8 < 8 := Nat.mod_lt _ (by omega)
  split_ifs with h
  · simp only [BitVec.getLsbD_and, BitVec.getLsbD_not, getLsbD_one_shiftLeft _ _ hb, ← h]
    rw [Bool.and_comm]
    congr 1
    have hd : decide (b % 8 = a % 8) = decide (b = a) := decide_eq_decide.mpr (by omega)
    simp [hb, hd]
  · have hne : b ≠ a := fun hba => h (by rw [hba])
    simp [hne]

/-- The two static variables of the allocator. -/
structure Pmm where
  pmmBitmap : Bitmap
  highestPage : ℕ
  highestPage_lt : highestPage < addressSpace

/-- Page number `k` is marked used. -/
def Pmm.used (s : Pmm) (k : ℕ) : Bool := bitTest s.pmmBitmap k

/-- The pages the scan of `pmalloc` looks at. -/
def Pmm.pageCount (s : Pmm) : ℕ := s.highestPage / pageSize

def pmmFreePage (s : Pmm) (adr : ℕ) : Pmm :=
  { s with pmmBitmap := bitClear s.pmmBitmap (adr / pageSize) }

def pmmAllocPage (s : Pmm) (adr : ℕ) : Pmm :=
  { s with pmmBitmap := bitSet s.pmmBitmap (adr / pageSize) }

def pmmFreePages (s : Pmm) (adr : ℕ) : ℕ → Pmm
  | 0 => s
  | i+1 => pmmFreePage (pmmFreePages s adr i) ((adr + i*pageSize) % addressSpace)

def pmmAllocPages (s : Pmm) (adr : ℕ) : ℕ → Pmm
  | 0 => s
  | i+1 => pmmAllocPage (pmmAllocPages s adr i) ((adr + i*pageSize) % addressSpace)

/-- The inner loop of `pmalloc` from iteration `j` on, with the given number of iterations
left. The bit it tests is that of page `i` in every iteration. -/
def pmallocRun (s : Pmm) (i pages : ℕ) : ℕ → ℕ → Bool
  | _, 0 => false
  | j, left+1 =>
    if s.used i then false
    else if j = pages-1 then true
    else pmallocRun s i pages (j+1) left

/-- The outer loop of `pmalloc` from page `i` on, with the given number of pages left. -/
def pmallocScan (s : Pmm) (pages : ℕ) : ℕ → ℕ → Option ℕ
  | _, 0 => none
  | i, left+1 =>
    if pmallocRun s i pages 0 pages then some i else pmallocScan s pages (i+1) left

/-- `none` is the endless loop after "Ran out of memory! Halting!". -/
def pmalloc (s : Pmm) (pages : ℕ) : Option (ℕ × Pmm) :=
  (pmallocScan s pages 0 s.pageCount).map fun i =>
    (i*pageSize, pmmAllocPages s (i*pageSize) pages)

@[simp] theorem pmmFreePage_highestPage (s : Pmm) (adr : ℕ) :
    (pmmFreePage s adr).highestPage = s.highestPage := rfl

@[simp] theorem pmmAllocPage_highestPage (s : Pmm) (adr : ℕ) :
    (pmmAllocPage s adr).highestPage = s.highestPage := rfl

@[simp] theorem pmmFreePages_highestPage (s : Pmm) (adr n : ℕ) :
    (pmmFreePages s adr n).highestPage = s.highestPage := by
  induction n with
  | zero => rfl
  | succ n ih => exact ih

@[simp] theorem pmmAllocPages_highestPage (s : Pmm) (adr n : ℕ) :
    (pmmAllocPages s adr n).highestPage = s.highestPage := by
  induction n with
  | zero => rfl
  | succ n ih => exact ih

@[simp] theorem used_pmmFreePage (s : Pmm) (adr k : ℕ) :
    (pmmFreePage s adr).used k = (!decide (k = adr / pageSize) && s.used k) := by
  simp [Pmm.used, pmmFreePage]

@[simp] theorem used_pmmAllocPage (s : Pmm) (adr k : ℕ) :
    (pmmAllocPage s adr).used k = (decide (k = adr / pageSize) || s.used k) := by
  simp [Pmm.used, pmmAllocPage]

/-- The page that iteration `i` of the marking loops touches. -/
def touchedPage (adr i : ℕ) : ℕ := (adr + i*pageSize) % addressSpace / pageSize

lemma touchedPage_of_fits {p i : ℕ} (h : (p+i)*pageSize < addressSpace) :
    touchedPage (p*pageSize) i = p+i := by
  unfold touchedPage
  rw [← Nat.add_mul, Nat.mod_eq_of_lt h]
  exact Nat.mul_div_cancel _ (by decide)

/-- The marking loop sets the bits of the pages it touches and no others. -/
theorem used_pmmAllocPages (s : Pmm) (adr n k : ℕ) :
    (pmmAllocPages s adr n).used k = true ↔
      (∃ i < n, touchedPage adr i = k) ∨ s.used k = true := by
  induction n with
  | zero => simp [pmmAllocPages]
  | succ n ih =>
    simp only [pmmAllocPages, used_pmmAllocPage, Bool.or_eq_true, decide_eq_true_eq, ih]
    constructor
    · rintro (h | ⟨i, hi, h⟩ | h)
      · exact .inl ⟨n, by omega, h.symm⟩
      · exact .inl ⟨i, by omega, h⟩
      · exact .inr h
    · rintro (⟨i, hi, h⟩ | h)
      · rcases Nat.lt_succ_iff_lt_or_eq.mp hi with hlt | rfl
        · exact .inr (.inl ⟨i, hlt, h⟩)
        · exact .inl h.symm
      · exact .inr (.inr h)

/-- The freeing loop clears the bits of the pages it touches and no others. -/
theorem used_pmmFreePages (s : Pmm) (adr n k : ℕ) :
    (pmmFreePages s adr n).used k = true ↔
      (∀ i < n, touchedPage adr i ≠ k) ∧ s.used k = true := by
  induction n with
  | zero => simp [pmmFreePages]
  | succ n ih =>
    simp only [pmmFreePages, used_pmmFreePage, Bool.and_eq_true, Bool.not_eq_true',
      decide_eq_false_iff_not, ih]
    constructor
    · rintro ⟨h, hall, hu⟩
      refine ⟨fun i hi => ?_, hu⟩
      rcases Nat.lt_succ_iff_lt_or_eq.mp hi with hlt | rfl
      · exact hall i hlt
      · exact Ne.symm h
    · rintro ⟨hall, hu⟩
      exact ⟨(hall n (by omega)).symm, fun i hi => hall i (by omega), hu⟩

/-- A run is accepted exactly when its first page is free: the inner loop looks at no other
page. -/
theorem pmallocRun_eq (s : Pmm) (i pages : ℕ) (h : 0 < pages) :
    pmallocRun s i pages 0 pages = !s.used i := by
  have hrun : ∀ left j, j+left = pages → 0 < left →
      pmallocRun s i pages j left = !s.used i := by
    intro left
    induction left with
    | zero => intro j _ hpos; omega
    | succ left ih =>
      intro j hj _
      unfold pmallocRun
      cases hu : s.used i with
      | true => rfl
      | false =>
        by_cases hlast : j = pages-1
        · simp [hlast]
        · simp only [Bool.false_eq_true, if_false, hlast]
          rw [ih (j+1) (by omega) (by omega), hu]
  exact hrun pages 0 (by omega) h

/-- Page `i` is the first free page that the scan sees. -/
structure FirstFree (s : Pmm) (i : ℕ) : Prop where
  inside : i < s.pageCount
  free : s.used i = false
  first : ∀ k < i, s.used k = true

lemma pmallocScan_eq_some (s : Pmm) (pages : ℕ) (h : 0 < pages) (left i r : ℕ) :
    pmallocScan s pages i left = some r ↔
      i ≤ r ∧ r < i+left ∧ s.used r = false ∧ ∀ k, i ≤ k → k < r → s.used k = true := by
  induction left generalizing i with
  | zero => simp only [pmallocScan]; constructor <;> intro hr <;> [cases hr; omega]
  | succ left ih =>
    rw [pmallocScan, pmallocRun_eq s i pages h]
    cases hu : s.used i with
    | false =>
      simp only [Bool.not_false, if_true, Option.some.injEq]
      constructor
      · rintro rfl
        exact ⟨le_rfl, by omega, hu, fun k hk hlt => by omega⟩
      · rintro ⟨hle, _, _, hbefore⟩
        by_contra hne
        have := hbefore i le_rfl (by omega)
        simp [hu] at this
    | true =>
      simp only [Bool.not_true, Bool.false_eq_true, if_false]
      rw [ih (i+1)]
      constructor
      · rintro ⟨hle, hlt, hfree, hbefore⟩
        refine ⟨by omega, by omega, hfree, fun k hk hlt' => ?_⟩
        rcases Nat.eq_or_lt_of_le hk with rfl | hk'
        · exact hu
        · exact hbefore k hk' hlt'
      · rintro ⟨hle, hlt, hfree, hbefore⟩
        have hne : i ≠ r := by rintro rfl; simp [hu] at hfree
        exact ⟨by omega, by omega, hfree, fun k hk hlt' => hbefore k (by omega) hlt'⟩

/-- `pmalloc` returns the first free page, whatever follows it, and marks as many pages as
were asked for. -/
theorem pmalloc_eq_some (s : Pmm) (pages : ℕ) (h : 0 < pages) (adr : ℕ) (t : Pmm) :
    pmalloc s pages = some (adr, t) ↔
      ∃ i, FirstFree s i ∧ adr = i*pageSize ∧ t = pmmAllocPages s (i*pageSize) pages := by
  simp only [pmalloc, Option.map_eq_some_iff, Prod.mk.injEq, pmallocScan_eq_some s pages h]
  constructor
  · rintro ⟨i, ⟨_, hlt, hfree, hbefore⟩, rfl, rfl⟩
    exact ⟨i, ⟨by omega, hfree, fun k hk => hbefore k (by omega) hk⟩, rfl, rfl⟩
  · rintro ⟨i, ⟨hlt, hfree, hbefore⟩, rfl, rfl⟩
    exact ⟨i, ⟨by omega, by omega, hfree, fun k _ hk => hbefore k hk⟩, rfl, rfl⟩

/-- The pages that single-page requests are served with, in that order. -/
def Pmm.freeList (s : Pmm) : List ℕ := (List.range s.pageCount).filter fun k => !s.used k

lemma Pmm.pageCount_lt (s : Pmm) : s.pageCount * pageSize < addressSpace :=
  (Nat.div_mul_le_self _ _).trans_lt s.highestPage_lt

lemma FirstFree.freeList_eq {s : Pmm} {i : ℕ} (h : FirstFree s i) :
    s.freeList = i :: ((List.range (s.pageCount - (i+1))).map (i+1+·)).filter fun k => !s.used k := by
  have hcount : s.pageCount = i + 1 + (s.pageCount - (i+1)) := by have := h.inside; omega
  have hbefore : (List.range i).filter (fun k => !s.used k) = [] := by
    simpa [List.filter_eq_nil_iff] using h.first
  unfold Pmm.freeList
  conv_lhs => rw [hcount]
  rw [List.range_add, List.filter_append, List.range_succ, List.filter_append, hbefore]
  simp [h.free]

/-- A request for one page takes the head of the free list. -/
theorem pmalloc_one {s t : Pmm} {adr : ℕ} (h : pmalloc s 1 = some (adr, t)) :
    ∃ f, s.freeList = f :: t.freeList ∧ adr = f*pageSize ∧ adr < addressSpace ∧
      s.used f = false ∧ ∀ k, t.used k = (decide (k = f) || s.used k) := by
  obtain ⟨f, hf, rfl, rfl⟩ := (pmalloc_eq_some s 1 (by omega) adr t).mp h
  have hlt : f*pageSize < addressSpace := by
    have := s.pageCount_lt
    have := Nat.mul_le_mul_right pageSize hf.inside.le
    omega
  have hdiv : f*pageSize % addressSpace / pageSize = f := by
    rw [Nat.mod_eq_of_lt hlt]
    exact Nat.mul_div_cancel _ (by decide)
  have hused : ∀ k, (pmmAllocPages s (f*pageSize) 1).used k = (decide (k = f) || s.used k) := by
    intro k
    simp [pmmAllocPages, hdiv]
  refine ⟨f, ?_, rfl, hlt, hf.free, hused⟩
  have hcount : (pmmAllocPages s (f*pageSize) 1).pageCount = s.pageCount := by
    simp [Pmm.pageCount]
  have hbefore : (List.range f).filter (fun k => !(decide (k = f) || s.used k)) = [] := by
    simpa [List.filter_eq_nil_iff] using fun k hk _ => hf.first k hk
  have hsplit : s.pageCount = f + 1 + (s.pageCount - (f+1)) := by have := hf.inside; omega
  rw [hf.freeList_eq]
  congr 1
  unfold Pmm.freeList
  simp only [hused, hcount]
  conv_rhs => rw [hsplit]
  rw [List.range_add, List.filter_append, List.range_succ, List.filter_append, hbefore]
  simp only [decide_true, Bool.true_or, Bool.not_true, List.filter_cons, Bool.false_eq_true,
    if_false, List.filter_nil, List.append_nil, List.nil_append, List.filter_map]
  congr 1
  apply List.filter_congr
  intro k _
  simp [show f+1+k ≠ f by omega]

end Open98.Mm
