import Open98.NtDef
import Open98.Mm.PmmRuns

/-! `MmInitializePmm`: the bitmap of the page allocator from the boot loader's memory map. -/
namespace Open98.Mm

/-- `struct stivale2_mmap_entry`, without the unused field. -/
structure Stivale2MmapEntry where
  base : ULONG64
  length : ULONG64
  type : UINT
  deriving DecidableEq, Repr

def stivale2MmapUsable : UINT := 1#32
def stivale2MmapBootloaderReclaimable : UINT := 0x1000#32
def stivale2MmapKernelAndModules : UINT := 0x1001#32

/-- The loop that looks for the highest page, from the given value on. -/
def highestPageFrom (highest : ULONG64) : List Stivale2MmapEntry → ULONG64
  | [] => highest
  | entry :: rest =>
    if entry.type ≠ stivale2MmapUsable ∧ entry.type ≠ stivale2MmapBootloaderReclaimable ∧
        entry.type ≠ stivale2MmapKernelAndModules then highestPageFrom highest rest
    else
      let top := entry.base + entry.length
      highestPageFrom (if top > highest then top else highest) rest

/-- `ALIGN_UP`. -/
def alignUp (number : ULONG64) : ULONG64 := (number + 0x1000#64 - 1#64) &&& ~~~(0x1000#64 - 1#64)

/-- `ALIGN_DOWN`. -/
def alignDown (number : ULONG64) : ULONG64 := number &&& ~~~(0x1000#64 - 1#64)

def bitmapSize (highest : ULONG64) : ULONG64 := alignUp (alignDown highest / 0x1000#64 / 8#64)

/-- The loop that takes the room for the bitmap from the first usable entry that is long enough. -/
def takeBitmap (size : ULONG64) : List Stivale2MmapEntry → Option (ULONG64 × List Stivale2MmapEntry)
  | [] => none
  | entry :: rest =>
    if entry.type = stivale2MmapUsable ∧ entry.length ≥ size then
      some (entry.base, { entry with base := entry.base + size, length := entry.length - size } :: rest)
    else (takeBitmap size rest).map fun (base, rest) => (base, entry :: rest)

/-- The loop that frees the pages of the usable entries. -/
def freeUsable (s : Pmm) : List Stivale2MmapEntry → Pmm
  | [] => s
  | entry :: rest =>
    freeUsable (if entry.type = stivale2MmapUsable then
      pmmFreePages s entry.base.toNat (entry.length.toNat / pageSize) else s) rest

/-- The page allocator after `MmInitializePmm`, with the place of the bitmap. -/
structure PmmBoot where
  pmm : Pmm
  bitmapBase : ULONG64
  bitmapSize : ULONG64

/-- `MmInitializePmm`; `memory` are the bytes of physical memory. `none` is a map without room for
the bitmap, where the bitmap stays at the null pointer. -/
def mmInitializePmm (memory : ULONG64 → BitVec 8) (entries : List Stivale2MmapEntry) : Option PmmBoot :=
  let highest := highestPageFrom 0#64 entries
  let size := bitmapSize highest
  (takeBitmap size entries).map fun (base, entries) =>
    let bitmap : Bitmap := fun i => if i < size.toNat then 0xff#8 else memory (base + BitVec.ofNat 64 i)
    ⟨freeUsable ⟨bitmap, highest.toNat, highest.isLt⟩ entries, base, size⟩

/-- Where the bitmap goes, and the memory map without its room. -/
def bitmapPlace (entries : List Stivale2MmapEntry) : Option (ULONG64 × List Stivale2MmapEntry) :=
  takeBitmap (bitmapSize (highestPageFrom 0#64 entries)) entries

/-- The page holds bytes of the bitmap. -/
def BitmapPage (entries : List Stivale2MmapEntry) (p : ℕ) : Prop :=
  ∃ base rest i, bitmapPlace entries = some (base, rest) ∧
    i < (bitmapSize (highestPageFrom 0#64 entries)).toNat ∧
    (base + BitVec.ofNat 64 i).toNat / pageSize = p

/-- The page lies in a usable entry behind the room of the bitmap, or its bit lies beyond the
bitmap and happens to be clear. -/
def Offered (memory : ULONG64 → BitVec 8) (entries : List Stivale2MmapEntry) (p : ℕ) : Prop :=
  ∃ base rest, bitmapPlace entries = some (base, rest) ∧
    ((∃ entry ∈ rest, entry.type = stivale2MmapUsable ∧
        ∃ i < entry.length.toNat / pageSize, touchedPage entry.base.toNat i = p) ∨
      ((bitmapSize (highestPageFrom 0#64 entries)).toNat ≤ p / 8 ∧
        (memory (base + BitVec.ofNat 64 (p/8))).getLsbD (p % 8) = false))

open Classical in
/-- The offered pages below the highest one, in ascending order. -/
noncomputable def offeredPages (memory : ULONG64 → BitVec 8) (entries : List Stivale2MmapEntry) : List ℕ :=
  (List.range ((highestPageFrom 0#64 entries).toNat / pageSize)).filter fun p => Offered memory entries p

@[simp] theorem freeUsable_highestPage (s : Pmm) (entries : List Stivale2MmapEntry) :
    (freeUsable s entries).highestPage = s.highestPage := by
  induction entries generalizing s with
  | nil => rfl
  | cons entry rest ih =>
    rw [freeUsable, ih]
    split_ifs
    · rw [pmmFreePages_highestPage]
    · rfl

/-- A page stays used unless the freeing loop touches it for one of the usable entries. -/
theorem used_freeUsable (s : Pmm) (entries : List Stivale2MmapEntry) (k : ℕ) :
    (freeUsable s entries).used k = true ↔ s.used k = true ∧ ∀ entry ∈ entries,
      entry.type = stivale2MmapUsable →
        ∀ i < entry.length.toNat / pageSize, touchedPage entry.base.toNat i ≠ k := by
  induction entries generalizing s with
  | nil => simp [freeUsable]
  | cons entry rest ih =>
    rw [freeUsable, ih, List.forall_mem_cons]
    by_cases hu : entry.type = stivale2MmapUsable
    · rw [if_pos hu, used_pmmFreePages]
      constructor
      · rintro ⟨⟨htouched, hs⟩, hrest⟩
        exact ⟨hs, fun _ => htouched, hrest⟩
      · rintro ⟨hs, htouched, hrest⟩
        exact ⟨⟨htouched hu, hs⟩, hrest⟩
    · rw [if_neg hu]
      constructor
      · rintro ⟨hs, hrest⟩
        exact ⟨hs, fun h => (hu h).elim, hrest⟩
      · rintro ⟨hs, _, hrest⟩
        exact ⟨hs, hrest⟩

/-- The pages whose bit is clear are the offered ones. -/
lemma offered_iff {memory : ULONG64 → BitVec 8} {entries : List Stivale2MmapEntry} {boot : PmmBoot}
    (h : mmInitializePmm memory entries = some boot) (p : ℕ) :
    Offered memory entries p ↔ boot.pmm.used p = false := by
  simp only [mmInitializePmm, Option.map_eq_some_iff] at h
  obtain ⟨⟨base, rest⟩, hplace, rfl⟩ := h
  have hplace' : bitmapPlace entries = some (base, rest) := hplace
  have hbits : ∀ i < 8, (0xff#8).getLsbD i = true := by decide
  have hbyte := hbits (p % 8) (Nat.mod_lt _ (by decide))
  rw [← Bool.not_eq_true, used_freeUsable, Pmm.used, bitTest_eq, not_and_or]
  constructor
  · rintro ⟨base', rest', hplace2, hoffer⟩
    rw [hplace'] at hplace2
    obtain ⟨rfl, rfl⟩ := Prod.mk.inj (Option.some.inj hplace2)
    rcases hoffer with ⟨entry, hentry, husable, i, hi, htouched⟩ | ⟨hbeyond, hclear⟩
    · exact .inr fun hall => hall entry hentry husable i hi htouched
    · refine .inl ?_
      dsimp only
      rw [if_neg (Nat.not_lt.mpr hbeyond), hclear]
      decide
  · intro hfree
    refine ⟨base, rest, hplace', ?_⟩
    rcases hfree with hbit | hall
    · right
      dsimp only at hbit
      split_ifs at hbit with hinside
      · exact (hbit hbyte).elim
      · exact ⟨Nat.not_lt.mp hinside, Bool.not_eq_true _ ▸ hbit⟩
    · left
      push Not at hall
      exact hall

/-- The page allocator starts with the offered pages. -/
theorem mmInitializePmm_freeList {memory : ULONG64 → BitVec 8} {entries : List Stivale2MmapEntry}
    {boot : PmmBoot} (h : mmInitializePmm memory entries = some boot) :
    boot.pmm.freeList = offeredPages memory entries := by
  have hoffered := offered_iff h
  simp only [mmInitializePmm, Option.map_eq_some_iff] at h
  obtain ⟨⟨base, rest⟩, _, rfl⟩ := h
  simp only [Pmm.freeList, offeredPages, Pmm.pageCount, freeUsable_highestPage]
  refine List.filter_congr fun p _ => ?_
  simp only [hoffered p]
  exact Bool.decide_eq_false.symm

end Open98.Mm
