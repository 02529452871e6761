import Open98.Library.ByteCopy
import Open98.Mm.Query

/-! `vmm_memcpy`, which copies bytes between two address spaces. The bytes of physical memory are those
of the words that the page tables are made of, low byte first. -/
namespace Open98.Mm
open Open98.Library

/-- The byte at a physical address. -/
def loadByte (s : Paging) (x : ℕ) : BitVec 8 := (s.mem (x/8*8)).extractLsb' (8*(x%8)) 8

/-- The word with its byte number `k` replaced. -/
def setByte (word : ULONG64) (k : ℕ) (b : BitVec 8) : ULONG64 :=
  (word &&& ~~~(0xff#64 <<< (8*k))) ||| (b.setWidth 64 <<< (8*k))

def storeByte (s : Paging) (x : ℕ) (b : BitVec 8) : Paging :=
  s.store (x/8*8) (setByte (s.mem (x/8*8)) (x%8) b)

/-- What the copying loop keeps for one of the two address spaces. -/
structure CopySide where
  virtualAddress : ULONG64
  physAddr : ULONG64
  alignDifference : ULONG64
  deriving DecidableEq, Repr

namespace CopySide

/-- The two variables before the loop; `ALIGN_DOWN` of an address is the address of its page. -/
def start (s : Paging) (topLevel virtualAddress : ULONG64) : Option (CopySide × Paging) :=
  (vmmVirtToPhys s topLevel (entryAddress virtualAddress)).map fun (phys, s) =>
    (⟨virtualAddress, phys, virtualAddress - entryAddress virtualAddress⟩, s)

/-- The physical address behind `phys_addr + PHYS_MEM_OFFSET + align_difference`. -/
def place (c : CopySide) : ℕ := (c.physAddr + c.alignDifference).toNat

/-- The step to the next byte. -/
def advance (s : Paging) (topLevel : ULONG64) (c : CopySide) : Option (CopySide × Paging) :=
  let alignDifference := c.alignDifference + 1
  if (alignDifference + 1) % 0x1000#64 = 0 then
    let virtualAddress := c.virtualAddress + 0x1000#64
    (vmmVirtToPhys s topLevel (entryAddress virtualAddress)).map fun (phys, s) =>
      (⟨virtualAddress, phys, 0#64⟩, s)
  else some ({ c with alignDifference := alignDifference }, s)

end CopySide

/-- The loop with the given number of bytes left. -/
def vmmMemcpyFrom (topLevel1 topLevel2 : ULONG64) : Paging → CopySide → CopySide → ℕ → Option Paging
  | s, _, _, 0 => some s
  | s, c1, c2, left+1 =>
    let s := storeByte s c1.place (loadByte s c2.place)
    (c1.advance s topLevel1).bind fun (c1, s) =>
      (c2.advance s topLevel2).bind fun (c2, s) => vmmMemcpyFrom topLevel1 topLevel2 s c1 c2 left

def vmmMemcpy (s : Paging) (topLevel1 virtualAddress1 topLevel2 virtualAddress2 : ULONG64) (count : ℕ) :
    Option Paging :=
  (CopySide.start s topLevel1 virtualAddress1).bind fun (c1, s) =>
    (CopySide.start s topLevel2 virtualAddress2).bind fun (c2, s) =>
      vmmMemcpyFrom topLevel1 topLevel2 s c1 c2 count

section Bytes

lemma extract_setByte (word : ULONG64) {j k : ℕ} (hj : j < 8) (hk : k < 8) (b : BitVec 8) :
    (setByte word k b).extractLsb' (8*j) 8 = if j = k then b else word.extractLsb' (8*j) 8 := by
  apply BitVec.eq_of_getLsbD_eq
  intro i hi
  have hmask : (0xff#64 <<< (8*k)).getLsbD (8*j+i) = decide (j = k) := by
    have hff : (0xff#64).getLsbD (8*j+i-8*k) = decide (8*j+i-8*k < 8) := by
      rw [BitVec.getLsbD_ofNat, show (0xff : ℕ) = 2^8-1 from rfl, Nat.testBit_two_pow_sub_one]
      simp only [Bool.and_eq_right_iff_imp, decide_eq_true_eq]
      omega
    rw [BitVec.getLsbD_shiftLeft, hff]
    by_cases hjk : j = k
    · subst hjk
      simp only [Nat.add_sub_cancel_left, hi, decide_true, Bool.and_true, Bool.and_eq_true,
        decide_eq_true_eq, Bool.not_eq_true', decide_eq_false_iff_not]
      omega
    · simp only [hjk, decide_false, Bool.and_eq_false_iff, decide_eq_false_iff_not,
        Bool.not_eq_false', decide_eq_true_eq]
      omega
  have hplace : 8*j+i < 64 := by omega
  simp only [setByte, BitVec.getLsbD_extractLsb', hi, decide_true, Bool.true_and, BitVec.getLsbD_or,
    BitVec.getLsbD_and, BitVec.getLsbD_not, hplace, hmask, BitVec.getLsbD_shiftLeft, BitVec.getLsbD_setWidth]
  by_cases hjk : j = k
  · subst hjk
    simp only [decide_true, Bool.not_true, Bool.and_false, Bool.false_or, if_true,
      Nat.add_sub_cancel_left]
    rw [decide_eq_false (by omega), decide_eq_true (by omega : i < 64)]
    simp
  · rw [if_neg hjk]
    simp only [hjk, decide_false, Bool.not_false, Bool.and_true, BitVec.getLsbD_extractLsb', hi,
      decide_true, Bool.true_and]
    by_cases hlt : 8*j+i < 8*k
    · simp [hlt]
    · rw [BitVec.getLsbD_of_ge b (8*j+i-8*k) (by omega)]
      simp

/-- Storing a byte changes that byte. -/
theorem loadByte_storeByte (s : Paging) (x : ℕ) (b : BitVec 8) :
    loadByte (storeByte s x b) = Function.update (loadByte s) x b := by
  funext y
  simp only [loadByte, storeByte, Paging.store, Function.update_apply]
  by_cases hword : y/8*8 = x/8*8
  · rw [if_pos hword, extract_setByte _ (Nat.mod_lt _ (by omega)) (Nat.mod_lt _ (by omega)), hword]
    have hxy : y%8 = x%8 ↔ y = x := by omega
    simp only [hxy]
  · rw [if_neg hword, if_neg fun hyx => hword (by rw [hyx])]

@[simp] lemma storeByte_pmm (s : Paging) (x : ℕ) (b : BitVec 8) : (storeByte s x b).pmm = s.pmm := rfl

end Bytes

/-- The byte of physical memory that the address is mapped to. -/
def physicalByte (s : Paging) (topLevel v : ULONG64) : Option ℕ :=
  (leafPlace s topLevel v).bind fun place =>
    if present (s.mem place) then some ((entryAddress (s.mem place)).toNat + v.toNat % pageSize) else none

/-- The byte that the address `i` behind `v` is mapped to. -/
def touchedByte (s : Paging) (topLevel v : ULONG64) (i : ℕ) : Option ℕ :=
  physicalByte s topLevel (v + BitVec.ofNat 64 i)

section Translation
variable {s : Paging} {topLevel v w : ULONG64} {x : ℕ}

/-- The walk for an address depends on its page alone. -/
lemma leafPlace_congr (h : v.toNat / pageSize = w.toNat / pageSize) :
    leafPlace s topLevel v = leafPlace s topLevel w := by
  have hentry : ∀ shift, 12 ≤ shift → (0x1ff#64 <<< shift) >>> shift = 0x1ff#64 →
      pmlEntry v shift = pmlEntry w shift := by
    intro shift hshift hmask
    apply BitVec.eq_of_toNat_eq
    obtain ⟨k, rfl⟩ := Nat.exists_eq_add_of_le hshift
    rw [toNat_pmlEntry v _ hmask, toNat_pmlEntry w _ hmask, Nat.pow_add, ← Nat.div_div_eq_div_mul,
      ← Nat.div_div_eq_div_mul]
    exact congrArg (· / 2^k % 512) h
  simp only [leafPlace, upperEntries]
  rw [hentry 39 (by decide) (by decide), hentry 30 (by decide) (by decide), hentry 21 (by decide) (by decide),
    hentry 12 (by decide) (by decide)]

lemma entryAddress_page (v : ULONG64) : (entryAddress v).toNat / pageSize = v.toNat / pageSize := by
  rw [toNat_entryAddress]
  exact Nat.mul_div_cancel _ (by decide)

/-- A lookup for a mapped address returns the page of its byte. -/
lemma lookup_of_physicalByte (h : physicalByte s topLevel v = some x) :
    ∃ phys, vmmVirtToPhys s topLevel (entryAddress v) = some (phys, s) ∧ phys.toNat % pageSize = 0 ∧
      ∀ w : ULONG64, w.toNat / pageSize = v.toNat / pageSize →
        physicalByte s topLevel w = some (phys.toNat + w.toNat % pageSize) := by
  obtain ⟨place, hplace, hx⟩ := Option.bind_eq_some_iff.mp h
  split_ifs at hx with hp
  have hplace' : leafPlace s topLevel (entryAddress v) = some place :=
    (leafPlace_congr (entryAddress_page v)).trans hplace
  obtain ⟨pml1, hw, rfl⟩ := Option.map_eq_some_iff.mp hplace'
  refine ⟨entryAddress (s.mem (entryAt pml1 (pmlEntry (entryAddress v) 12))), ?_, ?_, fun w hpage => ?_⟩
  · rw [vmmVirtToPhys_present hw, if_pos hp]
  · rw [toNat_entryAddress, Nat.mul_mod_left]
  · rw [physicalByte, leafPlace_congr hpage, hplace, Option.bind_some, if_pos hp]

end Translation

/-! ### The way of the loop through memory -/

/-- The page, counted from the first one, and the distance from its start, at which the loop is after
the given number of bytes. -/
def cursor (offset : ℕ) : ℕ → ℕ × ℕ
  | 0 => (0, offset)
  | j+1 =>
    let (k, d) := cursor offset j
    if (d+2) % pageSize = 0 then (k+1, 0) else (k, d+1)

/-- Where the loop is after `j` bytes, when its lookup for page `k` has returned `phys k`. -/
def visited (phys : ℕ → ULONG64) (offset j : ℕ) : ℕ :=
  (phys (cursor offset j).1 + BitVec.ofNat 64 (cursor offset j).2).toNat

/-- The start of page `k`, counted from that of the address on. -/
def pageStart (v : ULONG64) (k : ℕ) : ULONG64 := entryAddress (v + BitVec.ofNat 64 (k*pageSize))

def CopySide.at (v : ULONG64) (phys : ℕ → ULONG64) (offset j : ℕ) : CopySide :=
  ⟨v + BitVec.ofNat 64 ((cursor offset j).1*pageSize), phys (cursor offset j).1,
    BitVec.ofNat 64 (cursor offset j).2⟩

/-- The states that copying goes through. -/
def copied (s : Paging) (dst src : ℕ → ℕ) : ℕ → Paging
  | 0 => s
  | n+1 => storeByte (copied s dst src n) (dst n) (loadByte (copied s dst src n) (src n))

section Loop
variable {s : Paging} {topLevel topLevel1 topLevel2 v v1 v2 : ULONG64} {phys phys1 phys2 : ℕ → ULONG64}
  {dst src : ℕ → ℕ} {offset offset1 offset2 n : ℕ}

lemma loadByte_copied (s : Paging) (dst src : ℕ → ℕ) (n : ℕ) :
    loadByte (copied s dst src n) = copyThrough (loadByte s) dst src n := by
  induction n with
  | zero => rfl
  | succ n ih => rw [copied, loadByte_storeByte, ih, copyThrough]

lemma copied_pmm (s : Paging) (dst src : ℕ → ℕ) (n : ℕ) : (copied s dst src n).pmm = s.pmm := by
  induction n with
  | zero => rfl
  | succ n ih => rw [copied, storeByte_pmm, ih]

/-- Words without a byte that is copied to stay. -/
lemma copied_mem {a : ℕ} (h : ∀ j < n, dst j / 8 * 8 ≠ a) : (copied s dst src n).mem a = s.mem a := by
  induction n with
  | zero => rfl
  | succ n ih =>
    refine (Function.update_of_ne (h n (Nat.lt_succ_self n)).symm _ _).trans ?_
    exact ih fun j hj => h j (Nat.lt_succ_of_lt hj)

lemma CopySide.place_at (j : ℕ) : (CopySide.at v phys offset j).place = visited phys offset j := rfl

/-- The step to the next byte, with a lookup if it comes to a new page. -/
lemma CopySide.advance_at {j : ℕ} (hlookup : ((cursor offset j).2 + 2) % pageSize = 0 →
      vmmVirtToPhys s topLevel (pageStart v ((cursor offset j).1 + 1)) = some (phys ((cursor offset j).1 + 1), s)) :
    (CopySide.at v phys offset j).advance s topLevel = some (CopySide.at v phys offset (j+1), s) := by
  have hturn : (BitVec.ofNat 64 (cursor offset j).2 + 1 + 1) % 0x1000#64 = 0 ↔
      ((cursor offset j).2 + 2) % pageSize = 0 := by
    rw [← BitVec.toNat_inj, BitVec.toNat_umod, BitVec.toNat_add, BitVec.toNat_add, BitVec.toNat_ofNat]
    change ((_ + 1) % 2^64 + 1) % 2^64 % 4096 = 0 ↔ _
    simp only [pageSize]
    omega
  unfold advance CopySide.at
  simp only [hturn, cursor]
  by_cases h : ((cursor offset j).2 + 2) % pageSize = 0
  · rw [if_pos h, if_pos h]
    have hnext : v + BitVec.ofNat 64 ((cursor offset j).1*pageSize) + 0x1000#64 =
        v + BitVec.ofNat 64 (((cursor offset j).1 + 1)*pageSize) := by
      rw [Nat.succ_mul, BitVec.ofNat_add, BitVec.add_assoc]
      rfl
    rw [hnext, ← pageStart, hlookup h]
    rfl
  · rw [if_neg h, if_neg h, BitVec.ofNat_add]
    rfl

/-- While the lookups return and change nothing, the loop copies byte after byte along its way. -/
lemma vmmMemcpyFrom_eq (left j : ℕ)
    (h1 : ∀ i, j ≤ i → i < j+left → ((cursor offset1 i).2 + 2) % pageSize = 0 →
      vmmVirtToPhys (copied s (visited phys1 offset1) (visited phys2 offset2) (i+1)) topLevel1
          (pageStart v1 ((cursor offset1 i).1 + 1)) =
        some (phys1 ((cursor offset1 i).1 + 1), copied s (visited phys1 offset1) (visited phys2 offset2) (i+1)))
    (h2 : ∀ i, j ≤ i → i < j+left → ((cursor offset2 i).2 + 2) % pageSize = 0 →
      vmmVirtToPhys (copied s (visited phys1 offset1) (visited phys2 offset2) (i+1)) topLevel2
          (pageStart v2 ((cursor offset2 i).1 + 1)) =
        some (phys2 ((cursor offset2 i).1 + 1), copied s (visited phys1 offset1) (visited phys2 offset2) (i+1))) :
    vmmMemcpyFrom topLevel1 topLevel2 (copied s (visited phys1 offset1) (visited phys2 offset2) j)
        (.at v1 phys1 offset1 j) (.at v2 phys2 offset2 j) left =
      some (copied s (visited phys1 offset1) (visited phys2 offset2) (j+left)) := by
  induction left generalizing j with
  | zero => rfl
  | succ left ih =>
    have hnext := ih (j+1) (fun i hi hlt => h1 i (by omega) (by omega)) fun i hi hlt => h2 i (by omega) (by omega)
    rw [vmmMemcpyFrom, CopySide.place_at, CopySide.place_at]
    dsimp only
    rw [← copied, CopySide.advance_at (h1 j (by omega) (by omega)), Option.bind_some,
      CopySide.advance_at (h2 j (by omega) (by omega)), Option.bind_some, hnext]
    congr 2
    omega

lemma CopySide.start_eq (h : vmmVirtToPhys s topLevel (entryAddress v) = some (phys 0, s)) :
    CopySide.start s topLevel v = some (.at v phys (v.toNat % pageSize) 0, s) := by
  have hoffset : v - entryAddress v = BitVec.ofNat 64 (v.toNat % pageSize) := by
    apply BitVec.eq_of_toNat_eq
    have hle : (entryAddress v).toNat ≤ v.toNat := by
      rw [toNat_entryAddress]
      exact Nat.div_mul_le_self _ _
    rw [BitVec.toNat_sub_of_le (BitVec.le_def.mpr hle), toNat_entryAddress, BitVec.toNat_ofNat]
    have := v.isLt
    simp only [pageSize]
    omega
  rw [start, h, Option.map_some, hoffset]
  simp [CopySide.at, cursor]

end Loop

/-! ### What the loop is to do, and when it does -/

/-- All the bytes that are to be read and written are mapped, and none is to be both. -/
structure CopyInput (s : Paging) (topLevel1 v1 topLevel2 v2 : ULONG64) (count : ℕ) : Prop where
  mapped1 : ∀ i < count, ∃ x, touchedByte s topLevel1 v1 i = some x
  mapped2 : ∀ i < count, ∃ x, touchedByte s topLevel2 v2 i = some x
  apart : ∀ i < count, ∀ j < count, touchedByte s topLevel1 v1 i ≠ touchedByte s topLevel2 v2 j

/-- The call returns, each byte of the first range gets what the one of the second range held, and no
other byte of physical memory changes. -/
def Copies (s : Paging) (topLevel1 v1 topLevel2 v2 : ULONG64) (count : ℕ) : Prop :=
  ∃ t, vmmMemcpy s topLevel1 v1 topLevel2 v2 count = some t ∧
    (∀ i < count, ∀ x y, touchedByte s topLevel1 v1 i = some x → touchedByte s topLevel2 v2 i = some y →
      loadByte t x = loadByte s y) ∧
    ∀ x, (∀ i < count, touchedByte s topLevel1 v1 i ≠ some x) → loadByte t x = loadByte s x

/-- The range lies in one piece in physical memory, and it ends before the last byte of its page, or
starts with it and takes a page at most. -/
structure Straight (s : Paging) (topLevel v : ULONG64) (count : ℕ) : Prop where
  ends : v.toNat % pageSize + count < pageSize ∨ (v.toNat % pageSize = pageSize-1 ∧ count ≤ pageSize)
  piece : ∃ x, ∀ i < count, touchedByte s topLevel v i = some ((x+i) % addressSpace)

/-- The places of the entries that the walk along the indices reads. -/
def walkWords (mem : ℕ → ULONG64) : (table : ULONG64) → List ULONG64 → List ℕ
  | _, [] => []
  | table, index :: rest => entryAt table index :: walkWords mem (entryAddress (mem (entryAt table index))) rest

/-- The lookups find their tables: the one before the loop, and the one for the page behind the range,
which is made when the range ends one byte before its page does. -/
structure Finds (s : Paging) (topLevel v : ULONG64) (count : ℕ) (written : ℕ → Prop) : Prop where
  first : ∃ place, leafPlace s topLevel v = some place
  next : 0 < count → (v.toNat % pageSize + count + 1) % pageSize = 0 →
    ∃ pml1, presentWalk s.mem topLevel (upperEntries (pageStart v 1)) = some pml1 ∧
      ∀ x, written x → x/8*8 ∉ walkWords s.mem topLevel (upperEntries (pageStart v 1))

section Enough
variable {s : Paging} {topLevel topLevel1 topLevel2 v v1 v2 : ULONG64} {phys : ℕ → ULONG64} {count offset j n : ℕ}
  {dst src dst' src' : ℕ → ℕ}

lemma presentWalk_congr {mem mem' : ℕ → ULONG64} {table : ULONG64} {rest : List ULONG64}
    (h : ∀ a ∈ walkWords mem table rest, mem' a = mem a) :
    presentWalk mem' table rest = presentWalk mem table rest := by
  induction rest generalizing table with
  | nil => rfl
  | cons index rest ih =>
    rw [walkWords, List.forall_mem_cons] at h
    rw [presentWalk, presentWalk, h.1]
    split_ifs
    · exact ih h.2
    · rfl

/-- Up to the last byte but one of its page the loop stays in the page, and behind a last byte it goes on
for a page. -/
lemma cursor_straight (h : offset + j < pageSize-1 ∨ (offset = pageSize-1 ∧ j < pageSize)) :
    cursor offset j = (0, offset+j) := by
  induction j with
  | zero => rfl
  | succ j ih =>
    have hstay : ¬ (offset + j + 2) % pageSize = 0 := by
      simp only [pageSize] at *
      omega
    rw [cursor, ih (by omega)]
    dsimp only
    rw [if_neg hstay]
    rfl

lemma copied_congr (hdst : ∀ j < n, dst j = dst' j) (hsrc : ∀ j < n, src j = src' j) :
    copied s dst src n = copied s dst' src' n := by
  induction n with
  | zero => rfl
  | succ n ih =>
    rw [copied, copied, hdst n (Nat.lt_succ_self n), hsrc n (Nat.lt_succ_self n),
      ih (fun j hj => hdst j (Nat.lt_succ_of_lt hj)) fun j hj => hsrc j (Nat.lt_succ_of_lt hj)]

lemma Straight.cursor (h : Straight s topLevel v count) (hj : j < count) :
    Mm.cursor (v.toNat % pageSize) j = (0, v.toNat % pageSize + j) := by
  apply cursor_straight
  have := h.ends
  simp only [pageSize] at *
  omega

/-- In a straight range the loop visits the bytes that it is to visit. -/
lemma Straight.visited (h : Straight s topLevel v count)
    (hlookup : vmmVirtToPhys s topLevel (entryAddress v) = some (phys 0, s)) (hj : j < count) :
    touchedByte s topLevel v j = some (Mm.visited phys (v.toNat % pageSize) j) := by
  obtain ⟨x, hx⟩ := h.piece
  have hzero := hx 0 (by omega)
  have hself : touchedByte s topLevel v 0 = physicalByte s topLevel v := by
    rw [touchedByte, BitVec.add_zero]
  obtain ⟨phys', hphys', -, hbyte⟩ := lookup_of_physicalByte (hself ▸ hzero)
  obtain rfl : phys' = phys 0 := by
    rw [hphys'] at hlookup
    exact (Prod.mk.inj (Option.some.inj hlookup)).1
  rw [hself, hbyte v rfl, Option.some.injEq] at hzero
  rw [hx j hj, Mm.visited, h.cursor hj, BitVec.toNat_add, BitVec.toNat_ofNat, Option.some.injEq]
  simp only [addressSpace] at *
  omega

/-- The lookup before the loop. -/
lemma Finds.lookup {written : ℕ → Prop} (h : Finds s topLevel v count written) :
    ∃ phys, vmmVirtToPhys s topLevel (entryAddress v) = some (phys, s) := by
  obtain ⟨place, hplace⟩ := h.first
  have hplace' : leafPlace s topLevel (entryAddress v) = some place :=
    (leafPlace_congr (entryAddress_page v)).trans hplace
  obtain ⟨pml1, hw, -⟩ := Option.map_eq_some_iff.mp hplace'
  exact ⟨_, vmmVirtToPhys_present hw⟩

/-- The lookup behind the range, after the bytes have been written. -/
lemma Finds.lookup_next {written : ℕ → Prop} (h : Finds s topLevel v count written) (hpos : 0 < count)
    (hturn : (v.toNat % pageSize + count + 1) % pageSize = 0) (hdst : ∀ j < count, written (dst j)) :
    ∃ phys, vmmVirtToPhys (copied s dst src count) topLevel (pageStart v 1) = some (phys, copied s dst src count) := by
  obtain ⟨pml1, hw, happart⟩ := h.next hpos hturn
  have hsame : presentWalk (copied s dst src count).mem topLevel (upperEntries (pageStart v 1)) = some pml1 := by
    rw [← hw]
    refine presentWalk_congr fun a ha => copied_mem fun j hj hword => ?_
    exact happart (dst j) (hdst j hj) (hword ▸ ha)
  exact ⟨_, vmmVirtToPhys_present hsame⟩

/-- What the lookups of one side return: the first page, and the page behind the range. -/
lemma Straight.pages (straight : Straight s topLevel v count) (r : ULONG64) (u : Paging)
    (hnext : 0 < count → (v.toNat % pageSize + count + 1) % pageSize = 0 →
      ∃ phys, vmmVirtToPhys u topLevel (pageStart v 1) = some (phys, u)) :
    ∃ phys : ℕ → ULONG64, phys 0 = r ∧ ∀ i < count, ((Mm.cursor (v.toNat % pageSize) i).2 + 2) % pageSize = 0 →
      i+1 = count ∧ vmmVirtToPhys u topLevel (pageStart v ((Mm.cursor (v.toNat % pageSize) i).1 + 1)) =
        some (phys ((Mm.cursor (v.toNat % pageSize) i).1 + 1), u) := by
  have hlast : ∀ i < count, ((Mm.cursor (v.toNat % pageSize) i).2 + 2) % pageSize = 0 →
      i+1 = count ∧ (v.toNat % pageSize + count + 1) % pageSize = 0 := by
    intro i hi hturn
    rw [straight.cursor hi] at hturn
    have hends := straight.ends
    simp only [pageSize] at *
    omega
  by_cases hturn : 0 < count ∧ (v.toNat % pageSize + count + 1) % pageSize = 0
  · obtain ⟨phys, hphys⟩ := hnext hturn.1 hturn.2
    refine ⟨fun k => if k = 0 then r else phys, rfl, fun i hi hi' => ⟨(hlast i hi hi').1, ?_⟩⟩
    rw [straight.cursor hi]
    exact hphys
  · refine ⟨fun _ => r, rfl, fun i hi hi' => (hturn ⟨by omega, (hlast i hi hi').2⟩).elim⟩

lemma Straight.visited_inj (h : Straight s topLevel v count) (hj : j < count) {k : ℕ} (hk : k < count)
    (heq : Mm.visited phys (v.toNat % pageSize) j = Mm.visited phys (v.toNat % pageSize) k) : j = k := by
  rw [Mm.visited, Mm.visited, h.cursor hj, h.cursor hk] at heq
  have hends := h.ends
  simp only [BitVec.toNat_add, BitVec.toNat_ofNat, pageSize] at *
  omega

/-- A run that visits the bytes that it is to visit copies as it is to. -/
lemma copies_of_visited (input : CopyInput s topLevel1 v1 topLevel2 v2 count)
    (hrun : vmmMemcpy s topLevel1 v1 topLevel2 v2 count = some (copied s dst src count))
    (hdst : ∀ j < count, touchedByte s topLevel1 v1 j = some (dst j))
    (hsrc : ∀ j < count, touchedByte s topLevel2 v2 j = some (src j))
    (hinj : ∀ j < count, ∀ k < count, dst j = dst k → j = k) : Copies s topLevel1 v1 topLevel2 v2 count := by
  refine ⟨_, hrun, fun i hi x y hx hy => ?_, fun x hx => ?_⟩
  · rw [hdst i hi, Option.some.injEq] at hx
    rw [hsrc i hi, Option.some.injEq] at hy
    subst hx hy
    rw [loadByte_copied]
    refine copyThrough_dst hinj (fun j hj k hk heq => input.apart j hj k hk ?_) hi
    rw [hdst j hj, hsrc k hk, heq]
  · rw [loadByte_copied]
    exact copyThrough_of_ne fun j hj heq => hx j hj (by rw [hdst j hj, heq])

/-- The loop copies what it is to copy where both ranges are straight and the lookups find their tables. -/
theorem copies_of_straight (input : CopyInput s topLevel1 v1 topLevel2 v2 count)
    (h1 : Straight s topLevel1 v1 count) (h2 : Straight s topLevel2 v2 count)
    (f1 : Finds s topLevel1 v1 count fun x => ∃ i < count, touchedByte s topLevel1 v1 i = some x)
    (f2 : Finds s topLevel2 v2 count fun x => ∃ i < count, touchedByte s topLevel1 v1 i = some x) :
    Copies s topLevel1 v1 topLevel2 v2 count := by
  obtain ⟨r1, hr1⟩ := f1.lookup
  obtain ⟨r2, hr2⟩ := f2.lookup
  -- The bytes of both ranges are known before the pages behind them are looked up.
  have hdst : ∀ j < count, touchedByte s topLevel1 v1 j = some (visited (fun _ => r1) (v1.toNat % pageSize) j) :=
    fun j hj => h1.visited hr1 hj
  have hsrc : ∀ j < count, touchedByte s topLevel2 v2 j = some (visited (fun _ => r2) (v2.toNat % pageSize) j) :=
    fun j hj => h2.visited hr2 hj
  generalize hu : copied s (visited (fun _ => r1) (v1.toNat % pageSize)) (visited (fun _ => r2) (v2.toNat % pageSize))
    count = u
  have hwritten : ∀ j < count, ∃ i < count, touchedByte s topLevel1 v1 i =
      some (visited (fun _ => r1) (v1.toNat % pageSize) j) := fun j hj => ⟨j, hj, hdst j hj⟩
  obtain ⟨phys1, rfl, hpages1⟩ := h1.pages r1 u fun hpos hturn =>
    hu ▸ f1.lookup_next hpos hturn hwritten
  obtain ⟨phys2, rfl, hpages2⟩ := h2.pages r2 u fun hpos hturn =>
    hu ▸ f2.lookup_next hpos hturn hwritten
  have hdst' : ∀ j < count, visited (fun _ => phys1 0) (v1.toNat % pageSize) j = visited phys1 (v1.toNat % pageSize) j := by
    intro j hj
    rw [visited, visited, h1.cursor hj]
  have hsrc' : ∀ j < count, visited (fun _ => phys2 0) (v2.toNat % pageSize) j = visited phys2 (v2.toNat % pageSize) j := by
    intro j hj
    rw [visited, visited, h2.cursor hj]
  rw [copied_congr hdst' hsrc'] at hu
  have hloop : vmmMemcpyFrom topLevel1 topLevel2 s (.at v1 phys1 (v1.toNat % pageSize) 0)
      (.at v2 phys2 (v2.toNat % pageSize) 0) count = some u := by
    rw [← hu]
    refine (vmmMemcpyFrom_eq count 0 (fun i _ hi hturn => ?_) fun i _ hi hturn => ?_).trans (by rw [Nat.zero_add])
    · obtain ⟨hlast, hlookup⟩ := hpages1 i (by omega) hturn
      rw [hlast, hu]
      exact hlookup
    · obtain ⟨hlast, hlookup⟩ := hpages2 i (by omega) hturn
      rw [hlast, hu]
      exact hlookup
  refine copies_of_visited input (hu ▸ ?_) (fun j hj => hdst' j hj ▸ hdst j hj) (fun j hj => hsrc' j hj ▸ hsrc j hj)
    fun j hj k hk => h1.visited_inj hj hk
  rw [vmmMemcpy, CopySide.start_eq hr1, Option.bind_some]
  dsimp only
  rw [CopySide.start_eq hr2, Option.bind_some]
  exact hloop

end Enough

/-- An ordinary side of a copy: the words of the page tables that its lookups read are in `words`, all its
pages are mapped whatever the bytes outside these words are, and neither its pages nor the page behind
the first one hold such words. -/
structure Ordinary (s : Paging) (topLevel v : ULONG64) (count : ℕ) (words : Set ℕ) (phys : ℕ → ULONG64) : Prop where
  lookup : ∀ t : Paging, (∀ a ∈ words, t.mem a = s.mem a) → t.pmm = s.pmm → ∀ k ≤ count,
    vmmVirtToPhys t topLevel (pageStart v k) = some (phys k, t)
  touched : ∀ t : Paging, (∀ a ∈ words, t.mem a = s.mem a) → ∀ i < count,
    touchedByte t topLevel v i = touchedByte s topLevel v i
  apart : ∀ k ≤ count, ∀ d, d < pageSize ∨ (k = 0 ∧ d < 2*pageSize) → (phys k + BitVec.ofNat 64 d).toNat / 8 * 8 ∉ words

/-- The call copies as it is to, whatever one of the touched bytes holds. -/
def CopiesAll (s : Paging) (topLevel1 v1 topLevel2 v2 : ULONG64) (count : ℕ) : Prop :=
  ∀ x b, (∃ i < count, touchedByte s topLevel1 v1 i = some x ∨ touchedByte s topLevel2 v2 i = some x) →
    Copies (storeByte s x b) topLevel1 v1 topLevel2 v2 count

section Necessary
variable {s t : Paging} {topLevel topLevel1 topLevel2 v v1 v2 : ULONG64} {phys phys1 phys2 : ℕ → ULONG64}
  {count offset j i x : ℕ} {words : Set ℕ}

/-- The last byte of a page is visited only as the first byte of all. -/
lemma cursor_cases (hoffset : offset < pageSize) (j : ℕ) : (cursor offset j).2 < pageSize-1 ∨
    (offset = pageSize-1 ∧ cursor offset j = (0, offset+j) ∧ j < pageSize) := by
  induction j with
  | zero =>
    by_cases h : offset = pageSize-1
    · exact .inr ⟨h, rfl, by decide⟩
    · exact .inl (show offset < pageSize-1 by omega)
  | succ j ih =>
    rw [cursor]
    dsimp only
    by_cases hturn : ((cursor offset j).2 + 2) % pageSize = 0
    · rw [if_pos hturn]
      exact .inl (show 0 < pageSize-1 by decide)
    · rw [if_neg hturn]
      rcases ih with hlt | ⟨hlast, heq, hj⟩
      · refine .inl (show (cursor offset j).2 + 1 < pageSize-1 from ?_)
        simp only [pageSize] at *
        omega
      · rw [heq] at hturn ⊢
        refine .inr ⟨hlast, rfl, ?_⟩
        dsimp only at hturn
        simp only [pageSize] at *
        omega

lemma cursor_page_le (offset j : ℕ) : (cursor offset j).1 ≤ j := by
  induction j with
  | zero => exact Nat.le_refl 0
  | succ j ih =>
    rw [cursor]
    dsimp only
    split_ifs
    · exact Nat.succ_le_succ ih
    · exact ih.trans (Nat.le_succ j)

/-- A byte of the range lies in the page that the lookup for it returns. -/
lemma Ordinary.touchedByte_eq (h : Ordinary s topLevel v count words phys)
    (hmapped : ∃ x, touchedByte s topLevel v i = some x) (hi : i < count) :
    (phys ((v.toNat % pageSize + i) / pageSize)).toNat % pageSize = 0 ∧
      touchedByte s topLevel v i = some ((phys ((v.toNat % pageSize + i) / pageSize)).toNat +
        (v.toNat % pageSize + i) % pageSize) := by
  obtain ⟨x, hx⟩ := hmapped
  obtain ⟨r, hr, haligned, hbyte⟩ := lookup_of_physicalByte hx
  have hpage : pageStart v ((v.toNat % pageSize + i) / pageSize) = entryAddress (v + BitVec.ofNat 64 i) := by
    apply BitVec.eq_of_toNat_eq
    rw [pageStart, toNat_entryAddress, toNat_entryAddress, BitVec.toNat_add, BitVec.toNat_add, BitVec.toNat_ofNat,
      BitVec.toNat_ofNat]
    have := v.isLt
    simp only [pageSize]
    omega
  have hle : (v.toNat % pageSize + i) / pageSize ≤ count := by
    simp only [pageSize]
    omega
  have hlookup := h.lookup s (fun _ _ => rfl) rfl _ hle
  rw [hpage, hr, Option.some.injEq, Prod.mk.injEq] at hlookup
  obtain ⟨rfl, -⟩ := hlookup
  refine ⟨haligned, ?_⟩
  rw [touchedByte, hbyte _ rfl, BitVec.toNat_add, BitVec.toNat_ofNat]
  congr 2
  simp only [pageSize]
  omega

/-- What the loop visits lies outside the tables. -/
lemma Ordinary.visited_notMem (h : Ordinary s topLevel v count words phys) (hj : j < count) :
    visited phys (v.toNat % pageSize) j / 8 * 8 ∉ words := by
  refine h.apart _ ((cursor_page_le _ _).trans hj.le) _ ?_
  rcases cursor_cases (Nat.mod_lt v.toNat (by decide : 0 < pageSize)) j with hlt | ⟨hlast, heq, hlt⟩
  · exact .inl (by omega)
  · rw [heq]
    exact .inr ⟨rfl, by dsimp only; omega⟩

/-- On ordinary sides the loop copies byte after byte along its way. -/
lemma vmmMemcpy_ordinary (h1 : Ordinary s topLevel1 v1 count words phys1) (h2 : Ordinary s topLevel2 v2 count words phys2)
    (hsame : ∀ a ∈ words, t.mem a = s.mem a) (hpmm : t.pmm = s.pmm) :
    vmmMemcpy t topLevel1 v1 topLevel2 v2 count =
      some (copied t (visited phys1 (v1.toNat % pageSize)) (visited phys2 (v2.toNat % pageSize)) count) := by
  have hzero : ∀ v, pageStart v 0 = entryAddress v := by
    intro v
    rw [pageStart, Nat.zero_mul, BitVec.add_zero]
  have hr1 := h1.lookup t hsame hpmm 0 (Nat.zero_le _)
  have hr2 := h2.lookup t hsame hpmm 0 (Nat.zero_le _)
  rw [hzero] at hr1 hr2
  have hstates : ∀ n ≤ count, ∀ a ∈ words,
      (copied t (visited phys1 (v1.toNat % pageSize)) (visited phys2 (v2.toNat % pageSize)) n).mem a = s.mem a := by
    intro n hn a ha
    rw [copied_mem fun j hj hword => h1.visited_notMem (hj.trans_le hn) (hword ▸ ha)]
    exact hsame a ha
  rw [vmmMemcpy, CopySide.start_eq hr1, Option.bind_some]
  dsimp only
  rw [CopySide.start_eq hr2, Option.bind_some]
  refine (vmmMemcpyFrom_eq count 0 (fun i _ hi _ => ?_) fun i _ hi _ => ?_).trans (by rw [Nat.zero_add])
  · refine h1.lookup _ (hstates _ (by omega)) ?_ _ ?_
    · rw [copied_pmm, hpmm]
    · have := cursor_page_le (v1.toNat % pageSize) i
      omega
  · refine h2.lookup _ (hstates _ (by omega)) ?_ _ ?_
    · rw [copied_pmm, hpmm]
    · have := cursor_page_le (v2.toNat % pageSize) i
      omega

lemma vmmVirtToPhys_aligned {r : ULONG64} (h : vmmVirtToPhys s topLevel v = some (r, t)) :
    r.toNat % pageSize = 0 := by
  obtain ⟨⟨pml1, u⟩, -, heq⟩ := Option.map_eq_some_iff.mp h
  obtain ⟨rfl, -⟩ := Prod.mk.inj heq
  split_ifs
  · rw [toNat_entryAddress, Nat.mul_mod_left]
  · rfl

lemma Ordinary.aligned (h : Ordinary s topLevel v count words phys) {k : ℕ} (hk : k ≤ count) :
    (phys k).toNat % pageSize = 0 :=
  vmmVirtToPhys_aligned (h.lookup s (fun _ _ => rfl) rfl k hk)

lemma Ordinary.visited_mod (h : Ordinary s topLevel v count words phys) (hj : j < count) :
    visited phys offset j % pageSize = (cursor offset j).2 % pageSize := by
  have haligned := h.aligned ((cursor_page_le offset j).trans hj.le)
  rw [visited, BitVec.toNat_add, BitVec.toNat_ofNat]
  simp only [pageSize] at *
  omega

/-- On the way through a range that is not straight a byte is left out. -/
lemma Ordinary.missed (h : Ordinary s topLevel v count words phys)
    (hmapped : ∀ i < count, ∃ x, touchedByte s topLevel v i = some x) (hbent : ¬ Straight s topLevel v count)
    (hdistinct : count ≤ pageSize ∨ ∀ i < count, ∀ j < count,
      touchedByte s topLevel v i = touchedByte s topLevel v j → i = j) :
    ∃ i < count, ∃ x, touchedByte s topLevel v i = some x ∧
      ∀ j < count, visited phys (v.toNat % pageSize) j ≠ x := by
  have hoffset : v.toNat % pageSize < pageSize := Nat.mod_lt _ (by decide)
  -- The bytes of the first page, and those of the second page when the first byte is the last of its page.
  have hinside : ∀ i < count, v.toNat % pageSize + i < pageSize →
      touchedByte s topLevel v i = some ((phys 0).toNat + (v.toNat % pageSize + i)) := by
    intro i hi hlt
    rw [(h.touchedByte_eq (hmapped i hi) hi).2, Nat.div_eq_of_lt hlt, Nat.mod_eq_of_lt hlt]
  have hbehind : ∀ i < count, v.toNat % pageSize = pageSize-1 → 0 < i → i ≤ pageSize →
      touchedByte s topLevel v i = some ((phys 1).toNat + (i-1)) := by
    intro i hi hlast hpos hle
    have hdiv : (v.toNat % pageSize + i) / pageSize = 1 := by
      rw [hlast]
      simp only [pageSize] at *
      omega
    have hmod : (v.toNat % pageSize + i) % pageSize = i-1 := by
      rw [hlast]
      simp only [pageSize] at *
      omega
    rw [(h.touchedByte_eq (hmapped i hi) hi).2, hdiv, hmod]
  have hvisited : ∀ j < count, visited phys (v.toNat % pageSize) j % pageSize = pageSize-1 →
      v.toNat % pageSize = pageSize-1 ∧ j = 0 := by
    intro j hj hmod
    rw [h.visited_mod hj] at hmod
    rcases cursor_cases hoffset j with hlt | ⟨hlast, heq, hlt⟩
    · rw [Nat.mod_eq_of_lt (by omega)] at hmod
      omega
    · rw [heq, hlast] at hmod
      simp only [pageSize] at *
      omega
  have hzero := h.aligned (Nat.zero_le _)
  have hbound := (phys 0).isLt
  by_cases hlast : v.toNat % pageSize = pageSize-1
  · by_cases hshort : count ≤ pageSize
    · -- The second page is not the one behind the first, so its first byte is left out.
      have hone : 1 < count → (phys 1).toNat ≠ ((phys 0).toNat + pageSize) % addressSpace := by
        intro htwo hnext
        have hfirst := h.aligned htwo.le
        refine hbent ⟨.inr ⟨hlast, hshort⟩, (phys 0).toNat + (pageSize-1), fun i hi => ?_⟩
        by_cases hi0 : i = 0
        · rw [hi0, hinside 0 (by omega) (by omega), hlast, Option.some.injEq]
          simp only [pageSize, addressSpace] at *
          omega
        · rw [hbehind i hi hlast (by omega) (by omega), hnext, Option.some.injEq]
          simp only [pageSize, addressSpace] at *
          omega
      have htwo : 1 < count := by
        by_contra hle
        refine hbent ⟨.inr ⟨hlast, hshort⟩, (phys 0).toNat + (pageSize-1), fun i hi => ?_⟩
        obtain rfl : i = 0 := by omega
        rw [hinside 0 hi (by omega), hlast, Option.some.injEq]
        simp only [pageSize, addressSpace] at *
        omega
      have hfirst := h.aligned htwo.le
      refine ⟨1, htwo, _, hbehind 1 htwo hlast Nat.one_pos (by decide), fun j hj heq => hone htwo ?_⟩
      rw [visited, cursor_straight (.inr ⟨hlast, by omega⟩), BitVec.toNat_add, BitVec.toNat_ofNat, hlast] at heq
      simp only [pageSize, addressSpace] at *
      omega
    · -- The last byte of the second page is left out, as it is not that of the first.
      have hlong : pageSize < count := Nat.lt_of_not_le hshort
      have hpages : (phys 0).toNat ≠ (phys 1).toNat := by
        intro heq
        have hsame : touchedByte s topLevel v 0 = touchedByte s topLevel v pageSize := by
          rw [hinside 0 (by omega) (by omega), hbehind pageSize hlong hlast (by decide) (Nat.le_refl _), heq, hlast]
          rfl
        exact absurd ((hdistinct.resolve_left hshort) 0 (by omega) pageSize hlong hsame) (by decide)
      have hfirst := h.aligned (show 1 ≤ count by simp only [pageSize] at hlong; omega)
      refine ⟨pageSize, hlong, _, hbehind pageSize hlong hlast (by decide) (Nat.le_refl _), fun j hj heq => ?_⟩
      have hmod : visited phys (v.toNat % pageSize) j % pageSize = pageSize-1 := by
        rw [heq]
        simp only [pageSize] at *
        omega
      obtain ⟨-, rfl⟩ := hvisited j hj hmod
      rw [visited, cursor, BitVec.toNat_add, BitVec.toNat_ofNat, hlast] at heq
      simp only [pageSize] at *
      omega
  · -- The last byte of the first page is left out.
    have hreaches : pageSize ≤ v.toNat % pageSize + count := by
      by_contra hlt
      refine hbent ⟨.inl (by omega), (phys 0).toNat + v.toNat % pageSize, fun i hi => ?_⟩
      rw [hinside i hi (by omega), Option.some.injEq]
      simp only [pageSize, addressSpace] at *
      omega
    have hi : pageSize-1 - v.toNat % pageSize < count := by omega
    refine ⟨_, hi, _, hinside _ hi (by omega), fun j hj heq => hlast (hvisited j hj ?_).1⟩
    rw [heq]
    simp only [pageSize] at *
    omega

/-- Changing a touched byte changes no word of the tables. -/
lemma Ordinary.storeByte_mem (h : Ordinary s topLevel v count words phys)
    (hmapped : ∀ i < count, ∃ x, touchedByte s topLevel v i = some x) (hi : i < count)
    (hx : touchedByte s topLevel v i = some x) (b : BitVec 8) : ∀ a ∈ words, (storeByte s x b).mem a = s.mem a := by
  intro a ha
  obtain ⟨haligned, heq⟩ := h.touchedByte_eq (hmapped i hi) hi
  rw [heq, Option.some.injEq] at hx
  have hle : (v.toNat % pageSize + i) / pageSize ≤ count := by
    simp only [pageSize]
    omega
  have hbound := (phys ((v.toNat % pageSize + i) / pageSize)).isLt
  have hplace : (phys ((v.toNat % pageSize + i) / pageSize) +
      BitVec.ofNat 64 ((v.toNat % pageSize + i) % pageSize)).toNat = x := by
    rw [BitVec.toNat_add, BitVec.toNat_ofNat, ← hx]
    simp only [pageSize] at *
    omega
  have hout := h.apart _ hle _ (.inl (Nat.mod_lt (v.toNat % pageSize + i) (by decide : 0 < pageSize)))
  rw [hplace] at hout
  refine Function.update_of_ne ?_ _ _
  rintro rfl
  exact hout ha

/-- Straight ranges of ordinary sides are copied whatever the touched bytes hold. -/
lemma copiesAll_of_straight (input : CopyInput s topLevel1 v1 topLevel2 v2 count)
    (h1 : Ordinary s topLevel1 v1 count words phys1) (h2 : Ordinary s topLevel2 v2 count words phys2)
    (straight1 : Straight s topLevel1 v1 count) (straight2 : Straight s topLevel2 v2 count) :
    CopiesAll s topLevel1 v1 topLevel2 v2 count := by
  intro x b hx
  have hsame : ∀ a ∈ words, (storeByte s x b).mem a = s.mem a := by
    obtain ⟨j, hj, hx | hx⟩ := hx
    · exact h1.storeByte_mem input.mapped1 hj hx b
    · exact h2.storeByte_mem input.mapped2 hj hx b
  have hzero : ∀ v, pageStart v 0 = entryAddress v := by
    intro v
    rw [pageStart, Nat.zero_mul, BitVec.add_zero]
  have hr1 := h1.lookup s (fun _ _ => rfl) rfl 0 (Nat.zero_le _)
  have hr2 := h2.lookup s (fun _ _ => rfl) rfl 0 (Nat.zero_le _)
  rw [hzero] at hr1 hr2
  refine copies_of_visited ⟨fun i hi => ?_, fun i hi => ?_, fun i hi j hj => ?_⟩
    (vmmMemcpy_ordinary h1 h2 hsame rfl) (fun j hj => ?_) (fun j hj => ?_)
    fun j hj k hk => straight1.visited_inj hj hk
  · rw [h1.touched _ hsame i hi]
    exact input.mapped1 i hi
  · rw [h2.touched _ hsame i hi]
    exact input.mapped2 i hi
  · rw [h1.touched _ hsame i hi, h2.touched _ hsame j hj]
    exact input.apart i hi j hj
  · rw [h1.touched _ hsame j hj]
    exact straight1.visited hr1 hj
  · rw [h2.touched _ hsame j hj]
    exact straight2.visited hr2 hj

section Both
variable (input : CopyInput s topLevel1 v1 topLevel2 v2 count) (h1 : Ordinary s topLevel1 v1 count words phys1)
  (h2 : Ordinary s topLevel2 v2 count words phys2) (all : CopiesAll s topLevel1 v1 topLevel2 v2 count)
include input h1 h2 all

/-- Whatever a touched byte holds, the loop leaves at the end what it is to leave. -/
lemma CopiesAll.result {b : BitVec 8} (hx : ∃ i < count, touchedByte s topLevel1 v1 i = some x ∨
      touchedByte s topLevel2 v2 i = some x) {y z : ℕ} (hi : i < count)
    (hy : touchedByte s topLevel1 v1 i = some y) (hz : touchedByte s topLevel2 v2 i = some z) :
    copyThrough (loadByte (storeByte s x b)) (visited phys1 (v1.toNat % pageSize)) (visited phys2 (v2.toNat % pageSize))
      count y = loadByte (storeByte s x b) z := by
  have hsame : ∀ a ∈ words, (storeByte s x b).mem a = s.mem a := by
    obtain ⟨j, hj, hx | hx⟩ := hx
    · exact h1.storeByte_mem input.mapped1 hj hx b
    · exact h2.storeByte_mem input.mapped2 hj hx b
  obtain ⟨t, ht, hcopied, -⟩ := all x b hx
  rw [vmmMemcpy_ordinary h1 h2 hsame rfl, Option.some.injEq] at ht
  rw [← loadByte_copied, ht]
  exact hcopied i hi y z (by rw [h1.touched _ hsame i hi, hy]) (by rw [h2.touched _ hsame i hi, hz])

lemma CopiesAll.straight1 (hdistinct : ∀ i < count, ∀ j < count,
      touchedByte s topLevel1 v1 i = touchedByte s topLevel1 v1 j → i = j) : Straight s topLevel1 v1 count := by
  by_contra hbent
  -- The byte that is left out keeps what it held before.
  obtain ⟨i, hi, x, hx, hmissed⟩ := h1.missed input.mapped1 hbent (.inr hdistinct)
  obtain ⟨z, hz⟩ := input.mapped2 i hi
  have hzx : z ≠ x := by
    rintro rfl
    exact input.apart i hi i hi (hx.trans hz.symm)
  have hresult := all.result input h1 h2 (b := ~~~ loadByte s z) ⟨i, hi, .inl hx⟩ hi hx hz
  rw [copyThrough_of_ne hmissed, loadByte_storeByte, Function.update_self, Function.update_of_ne hzx] at hresult
  have hflip : ∀ b : BitVec 8, ~~~ b ≠ b := by decide
  exact hflip _ hresult

lemma CopiesAll.straight2 (straight1 : Straight s topLevel1 v1 count) : Straight s topLevel2 v2 count := by
  by_contra hbent
  have hshort : count ≤ pageSize := by
    have hends := straight1.ends
    omega
  -- What the byte that is left out holds makes no difference to the byte that is to get it.
  obtain ⟨i, hi, z, hz, hmissed⟩ := h2.missed input.mapped2 hbent (.inl hshort)
  obtain ⟨y, hy⟩ := input.mapped1 i hi
  have hyz : y ≠ z := by
    rintro rfl
    exact input.apart i hi i hi (hy.trans hz.symm)
  have hzero := all.result input h1 h2 (b := 0#8) ⟨i, hi, .inr hz⟩ hi hy hz
  have hone := all.result input h1 h2 (b := 1#8) ⟨i, hi, .inr hz⟩ hi hy hz
  rw [loadByte_storeByte, Function.update_self] at hzero hone
  have hsame : ∀ w, w ≠ z → Function.update (loadByte s) z 0#8 w = Function.update (loadByte s) z 1#8 w := by
    intro w hw
    rw [Function.update_of_ne hw, Function.update_of_ne hw]
  rw [copyThrough_congr hmissed hsame y hyz, hone] at hzero
  exact absurd hzero (by decide)

end Both

end Necessary

section Exact
variable {s : Paging} {topLevel1 topLevel2 v1 v2 : ULONG64} {count : ℕ}

/-- The call copies as it is to where both ranges are straight and the lookups find their tables; on
ordinary sides, with no byte to be written twice, it does so for all contents exactly there. -/
theorem vmm_memcpy_copies_iff (input : CopyInput s topLevel1 v1 topLevel2 v2 count) :
    (Straight s topLevel1 v1 count → Straight s topLevel2 v2 count →
      Finds s topLevel1 v1 count (fun x => ∃ i < count, touchedByte s topLevel1 v1 i = some x) →
      Finds s topLevel2 v2 count (fun x => ∃ i < count, touchedByte s topLevel1 v1 i = some x) →
      Copies s topLevel1 v1 topLevel2 v2 count) ∧
    ∀ words phys1 phys2, Ordinary s topLevel1 v1 count words phys1 → Ordinary s topLevel2 v2 count words phys2 →
      (∀ i < count, ∀ j < count, touchedByte s topLevel1 v1 i = touchedByte s topLevel1 v1 j → i = j) →
      (CopiesAll s topLevel1 v1 topLevel2 v2 count ↔ Straight s topLevel1 v1 count ∧ Straight s topLevel2 v2 count) := by
  refine ⟨fun h1 h2 f1 f2 => copies_of_straight input h1 h2 f1 f2, ?_⟩
  intro words phys1 phys2 h1 h2 hdistinct
  constructor
  · intro all
    have straight1 := all.straight1 input h1 h2 hdistinct
    exact ⟨straight1, all.straight2 input h1 h2 straight1⟩
  · intro ⟨straight1, straight2⟩
    exact copiesAll_of_straight input h1 h2 straight1 straight2

/-- One address space: the pages at 0 and 0x1000 are frames 5 and 6, those at 0x2000 and 0x3000 are frames
7 and 8. Byte 4095 of frame 7 is 1. -/
def fourPages : Paging := oneFramePaging fun a =>
  if a = 0x1000 then 0x2007#64 else if a = 0x2000 then 0x3007#64 else if a = 0x3000 then 0x4007#64
  else if a = 0x4000 then 0x5007#64 else if a = 0x4008 then 0x6007#64 else if a = 0x4010 then 0x7007#64
  else if a = 0x4018 then 0x8007#64 else if a = 0x7ff8 then 0x0100000000000000#64 else 0#64

lemma fourPages_input {v1 v2 : ULONG64}
    (h1 : ∀ i < 2, (touchedByte fourPages 0x1000#64 v1 i).isSome = true)
    (h2 : ∀ i < 2, (touchedByte fourPages 0x1000#64 v2 i).isSome = true)
    (happart : ∀ i < 2, ∀ j < 2, touchedByte fourPages 0x1000#64 v1 i ≠ touchedByte fourPages 0x1000#64 v2 j) :
    CopyInput fourPages 0x1000#64 v1 0x1000#64 v2 2 :=
  ⟨fun i hi => Option.isSome_iff_exists.mp (h1 i hi), fun i hi => Option.isSome_iff_exists.mp (h2 i hi), happart⟩

/-- Two bytes at the start of a page. -/
theorem vmm_memcpy_copies_two : Copies fourPages 0x1000#64 0#64 0x1000#64 0x2000#64 2 := by
  refine (vmm_memcpy_copies_iff (fourPages_input (by decide) (by decide) (by decide))).1
    ⟨.inl (by decide), 0x5000, by decide⟩ ⟨.inl (by decide), 0x7000, by decide⟩ ⟨⟨_, rfl⟩, ?_⟩ ⟨⟨_, rfl⟩, ?_⟩
  · exact fun _ h => absurd h (by decide)
  · exact fun _ h => absurd h (by decide)

/-- Of the last two bytes of a page the second is not copied: the loop goes on with the first byte of the
next page. -/
theorem last_byte_not_copied : CopyInput fourPages 0x1000#64 0xffe#64 0x1000#64 0x2ffe#64 2 ∧
    touchedByte fourPages 0x1000#64 0xffe#64 1 = some 0x5fff ∧
    touchedByte fourPages 0x1000#64 0x2ffe#64 1 = some 0x7fff ∧ loadByte fourPages 0x7fff = 1#8 ∧
    (vmmMemcpy fourPages 0x1000#64 0xffe#64 0x1000#64 0x2ffe#64 2).map (fun t => loadByte t 0x5fff) = some 0#8 ∧
    ¬ Copies fourPages 0x1000#64 0xffe#64 0x1000#64 0x2ffe#64 2 := by
  have hdst : touchedByte fourPages 0x1000#64 0xffe#64 1 = some 0x5fff := by decide
  have hsrc : touchedByte fourPages 0x1000#64 0x2ffe#64 1 = some 0x7fff := by decide
  have hbyte : loadByte fourPages 0x7fff = 1#8 := by decide
  have hrun : (vmmMemcpy fourPages 0x1000#64 0xffe#64 0x1000#64 0x2ffe#64 2).map (fun t => loadByte t 0x5fff) =
      some 0#8 := by decide
  refine ⟨fourPages_input (by decide) (by decide) (by decide), hdst, hsrc, hbyte, hrun, ?_⟩
  intro ⟨t, ht, hcopied, _⟩
  rw [ht, Option.map_some, hcopied 1 (by decide) _ _ hdst hsrc, hbyte] at hrun
  exact absurd hrun (by decide)

end Exact

end Open98.Mm
