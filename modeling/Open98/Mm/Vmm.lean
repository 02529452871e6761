import Open98.NtDef
import Open98.Library.RadixTree
import Open98.Mm.Pmm
import Mathlib.Logic.Function.Basic

/-! The page tables of `mm/vmm.c`. Memory is the map from physical addresses to the 8-byte
words stored there; a pointer into a table denotes the same word with and without
`PHYS_MEM_OFFSET` added. Invalidating the TLB changes no table and is left out. -/
namespace Open98.Mm
open Open98.Library

/-- Physical memory and the page allocator. `installed` records the entries that
`vmm_get_next_level` and `vmm_map_page` have written, with their addresses. -/
structure Paging where
  mem : ℕ → ULONG64
  pmm : Pmm
  installed : List (ℕ × ULONG64)

def Paging.store (s : Paging) (address : ℕ) (value : ULONG64) : Paging :=
  { s with mem := Function.update s.mem address value }

/-- A store that puts an entry into a table. -/
def Paging.install (s : Paging) (address : ℕ) (entry : ULONG64) : Paging :=
  { s.store address entry with installed := (address, entry) :: s.installed }

/-- Bit 0 of an entry. -/
def present (entry : ULONG64) : Bool := entry &&& 1#64 != 0#64

/-- An entry without its low twelve bits. -/
def entryAddress (entry : ULONG64) : ULONG64 := entry &&& ~~~0xfff#64

/-- `table[ index ]` as a physical address. -/
def entryAt (table index : ULONG64) : ℕ := (table + index*8#64).toNat

def vmmGetNextLevel (s : Paging) (table index flags : ULONG64) : Option (ULONG64 × Paging) :=
  let entry := entryAt table index
  if present (s.mem entry) then some (entryAddress (s.mem entry), s)
  else (pmalloc s.pmm 1).map fun (adr, pmm) =>
    let ret := BitVec.ofNat 64 adr
    (ret, { s.install entry (ret ||| flags) with pmm := pmm })

/-- The nine bits of the address that select the entry at the level with the given shift. -/
def pmlEntry (virtualAddress : ULONG64) (shift : ℕ) : ULONG64 :=
  (virtualAddress &&& (0x1ff#64 <<< shift)) >>> shift

/-- Calls of `vmm_get_next_level` from one table down along the indices. -/
def vmmDescend (flags : ULONG64) : Paging → ULONG64 → List ULONG64 → Option (ULONG64 × Paging)
  | s, table, [] => some (table, s)
  | s, table, index :: rest =>
    (vmmGetNextLevel s table index flags).bind fun (next, s) => vmmDescend flags s next rest

/-- The three indices above the last level. -/
def upperEntries (virtualAddress : ULONG64) : List ULONG64 :=
  [pmlEntry virtualAddress 39, pmlEntry virtualAddress 30, pmlEntry virtualAddress 21]

def vmmMapPage (s : Paging) (topLevel physicalAddress virtualAddress flags : ULONG64) :
    Option Paging :=
  (vmmDescend flags s topLevel (upperEntries virtualAddress)).map fun (pml1, s) =>
    s.install (entryAt pml1 (pmlEntry virtualAddress 12)) (physicalAddress ||| flags)

def vmmUnmapPage (s : Paging) (topLevel virtualAddress : ULONG64) : Option Paging :=
  (vmmDescend 0b111#64 s topLevel (upperEntries virtualAddress)).map fun (pml1, s) =>
    s.store (entryAt pml1 (pmlEntry virtualAddress 12)) 0#64

def vmmVirtToPhys (s : Paging) (topLevel virtualAddress : ULONG64) : Option (ULONG64 × Paging) :=
  (vmmDescend 0b111#64 s topLevel (upperEntries virtualAddress)).map fun (pml1, s) =>
    let entry := s.mem (entryAt pml1 (pmlEntry virtualAddress 12))
    (if present entry then entryAddress entry else 0#64, s)

section Words

@[simp] lemma present_zero : present 0#64 = false := by decide

lemma toNat_entryAddress (e : ULONG64) : (entryAddress e).toNat = e.toNat / pageSize * pageSize := by
  have h : entryAddress e = (e >>> 12) <<< 12 := by
    apply BitVec.eq_of_getLsbD_eq
    intro i hi
    have hmask : (0xfff#64).getLsbD i = decide (i < 12) := by
      rw [BitVec.getLsbD_ofNat, show (4095 : ℕ) = 2^12-1 from rfl, Nat.testBit_two_pow_sub_one]
      simp [hi]
    simp only [entryAddress, BitVec.getLsbD_and, BitVec.getLsbD_not, hmask,
      BitVec.getLsbD_shiftLeft, BitVec.getLsbD_ushiftRight]
    by_cases h12 : i < 12
    · simp [h12]
    · simp [h12, hi, show 12+(i-12) = i by omega]
  rw [h, BitVec.toNat_shiftLeft, BitVec.toNat_ushiftRight, Nat.shiftLeft_eq, Nat.shiftRight_eq_div_pow]
  have := e.isLt
  simp only [pageSize]
  omega

lemma toNat_or_flags {x flags : ULONG64} (hx : x.toNat % pageSize = 0) (hf : flags.toNat < pageSize) :
    (x ||| flags).toNat = x.toNat + flags.toNat := by
  have hmul : x.toNat = 2^12 * (x.toNat / pageSize) := by simp only [pageSize] at *; omega
  rw [BitVec.toNat_or, hmul, ← Nat.two_pow_add_eq_or_of_lt (by simpa [pageSize] using hf)]

lemma entryAddress_or_flags {x flags : ULONG64} (hx : x.toNat % pageSize = 0)
    (hf : flags.toNat < pageSize) : entryAddress (x ||| flags) = x := by
  apply BitVec.eq_of_toNat_eq
  rw [toNat_entryAddress, toNat_or_flags hx hf]
  simp only [pageSize] at *
  omega

lemma present_or_flags {x flags : ULONG64} (hx : x.toNat % pageSize = 0) :
    present (x ||| flags) = present flags := by
  have h : (x ||| flags) &&& 1#64 = flags &&& 1#64 := by
    have hx0 : x &&& 1#64 = 0#64 := by
      apply BitVec.eq_of_toNat_eq
      rw [BitVec.toNat_and]
      refine (Nat.and_one_is_mod _).trans ?_
      simp only [pageSize] at hx
      simp only [BitVec.toNat_ofNat]
      omega
    rw [BitVec.and_comm, BitVec.and_or_distrib_left, BitVec.and_comm 1#64, hx0, BitVec.zero_or,
      BitVec.and_comm]
  simp only [present, h]

lemma toNat_pmlEntry (v : ULONG64) (shift : ℕ) (h : (0x1ff#64 <<< shift) >>> shift = 0x1ff#64) :
    (pmlEntry v shift).toNat = v.toNat / 2^shift % 512 := by
  rw [pmlEntry, BitVec.ushiftRight_and_distrib, h, BitVec.toNat_and, BitVec.toNat_ushiftRight,
    Nat.shiftRight_eq_div_pow]
  exact Nat.and_two_pow_sub_one_eq_mod _ 9

end Words

/-- An index into a table of 512 entries. -/
abbrev TableIndex := Fin 512

/-- The table in page frame `f`. -/
def tables (mem : ℕ → ULONG64) (f : ℕ) (i : TableIndex) : ULONG64 := mem (f*pageSize + 8*i.val)

/-- The page frame that a present entry refers to. -/
def child (e : ULONG64) : Option ℕ := if present e then some (e.toNat / pageSize) else none

@[simp] lemma child_zero : child 0#64 = none := by simp [child]

/-- The pointer `t` points to page frame `f`. -/
def PointsTo (t : ULONG64) (f : ℕ) : Prop := t.toNat = f*pageSize

lemma entryAt_eq {t index : ULONG64} {f : ℕ} (h : PointsTo t f) {i : TableIndex}
    (hi : index.toNat = i.val) : entryAt t index = f*pageSize + 8*i.val := by
  have ht := t.isLt
  have hlt := i.isLt
  simp only [PointsTo, pageSize] at h
  simp only [entryAt, BitVec.toNat_add, BitVec.toNat_mul, BitVec.toNat_ofNat, hi, pageSize]
  omega

/-- Storing a word of a table writes one entry of it. -/
lemma tables_update (mem : ℕ → ULONG64) (f : ℕ) (i : TableIndex) (e : ULONG64) :
    tables (Function.update mem (f*pageSize + 8*i.val) e) = Radix.write (tables mem) f i e := by
  funext g j
  have hi := i.isLt
  have hj := j.isLt
  simp only [tables, Radix.write, Function.update_apply]
  have : g*pageSize + 8*j.val = f*pageSize + 8*i.val ↔ g = f ∧ j = i := by
    simp only [pageSize, Fin.ext_iff]
    omega
  simp only [this]

/-- The index of an address at the level with the given shift. -/
def levelIndex (v : ULONG64) (shift : ℕ) : TableIndex :=
  ⟨v.toNat / 2^shift % 512, Nat.mod_lt _ (by omega)⟩

/-- The path of an address through the tables above the last level. -/
def pathOf (v : ULONG64) : List TableIndex := [levelIndex v 39, levelIndex v 30, levelIndex v 21]

/-- Bits 12 to 47 of an address. -/
def pageOf (v : ULONG64) : ℕ := v.toNat / pageSize % 2^36

/-- The indices of an address determine bits 12 to 47 and no other bits. -/
theorem pageOf_eq_iff (v w : ULONG64) :
    pageOf v = pageOf w ↔ pathOf v = pathOf w ∧ levelIndex v 12 = levelIndex w 12 := by
  simp only [pageOf, pathOf, levelIndex, List.cons.injEq, Fin.ext_iff, and_true, pageSize]
  norm_num
  omega

end Open98.Mm
