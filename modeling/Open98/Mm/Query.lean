import Open98.Mm.Liballoc
import Open98.Mm.PageMap

/-! Looking an address up, seen as a query. `vmm_get_next_level` serves the lookups as it serves
`vmm_map_page`, and makes the tables that it does not find. -/
namespace Open98.Mm

def vmmGetKernelAddress (s : Paging) (topLevel virtualAddress : ULONG64) : Option (ULONG64 × Paging) :=
  (vmmVirtToPhys s topLevel virtualAddress).map fun (phys, s) =>
    (phys + physMemOffset + virtualAddress - entryAddress virtualAddress, s)

/-- The table that the indices lead to along entries that are present. -/
def presentWalk (mem : ℕ → ULONG64) : (table : ULONG64) → List ULONG64 → Option ULONG64
  | table, [] => some table
  | table, index :: rest =>
    if present (mem (entryAt table index)) then presentWalk mem (entryAddress (mem (entryAt table index))) rest
    else none

/-- Where the last-level entry of the address is, if the three levels above it are present. -/
def leafPlace (s : Paging) (topLevel v : ULONG64) : Option ℕ :=
  (presentWalk s.mem topLevel (upperEntries v)).map fun pml1 => entryAt pml1 (pmlEntry v 12)

/-- All four levels of the walk are present. -/
def Mapped (s : Paging) (topLevel v : ULONG64) : Prop :=
  ∃ place, leafPlace s topLevel v = some place ∧ present (s.mem place) = true

/-- Looking the address up, and taking its mapping away where it has none, returns and changes neither
a table nor the allocator, and what is not mapped is reported as such. -/
structure QueriesPure (s : Paging) (topLevel v : ULONG64) : Prop where
  virtToPhys : ∃ r, vmmVirtToPhys s topLevel v = some (r, s)
  kernelAddress : ∃ r, vmmGetKernelAddress s topLevel v = some (r, s)
  absent : ¬ Mapped s topLevel v → ∃ t, vmmVirtToPhys s topLevel v = some (0#64, t)
  unmap : ¬ Mapped s topLevel v → vmmUnmapPage s topLevel v = some s

section Descent
variable {s t : Paging} {table index flags ret : ULONG64}

lemma present_eq (e : ULONG64) : present e = e.getLsbD 0 := by
  rw [present, BitVec.and_one_eq_setWidth_ofBool_getLsbD]
  cases e.getLsbD 0 <;> rfl

/-- Tables and pages are only taken: entries that are present stay, pages in use stay in use. -/
structure TablesGrown (s t : Paging) : Prop where
  entries : ∀ a, present (s.mem a) = true → t.mem a = s.mem a
  used : ∀ k, s.pmm.used k = true → t.pmm.used k = true

/-- At least one table has been made: an entry has become present, and a page is in use for it. -/
structure MadeTable (s t : Paging) : Prop where
  entry : ∃ a, present (s.mem a) = false ∧ present (t.mem a) = true
  page : ∃ k, s.pmm.used k = false ∧ t.pmm.used k = true

lemma TablesGrown.trans {u : Paging} (h : TablesGrown s t) (k : TablesGrown t u) : TablesGrown s u := by
  refine ⟨fun a ha => ?_, fun p hp => k.used p (h.used p hp)⟩
  rw [k.entries a (by rwa [h.entries a ha]), h.entries a ha]

lemma MadeTable.grown {u : Paging} (h : MadeTable s t) (k : TablesGrown t u) : MadeTable s u := by
  obtain ⟨⟨a, ha, ha'⟩, p, hp, hp'⟩ := h
  exact ⟨⟨a, ha, by rwa [k.entries a ha']⟩, p, hp, k.used p hp'⟩

lemma MadeTable.ne (h : MadeTable s t) : t ≠ s := by
  rintro rfl
  obtain ⟨k, hfree, hused⟩ := h.page
  simp [hfree] at hused

/-- One level down: the entry is present and nothing happens, or a table is made for it. -/
lemma vmmGetNextLevel_grows (hflags : present flags = true)
    (h : vmmGetNextLevel s table index flags = some (ret, t)) :
    (present (s.mem (entryAt table index)) = true ∧ ret = entryAddress (s.mem (entryAt table index)) ∧ t = s) ∨
      (present (s.mem (entryAt table index)) = false ∧ TablesGrown s t ∧ MadeTable s t) := by
  unfold vmmGetNextLevel at h
  dsimp only at h
  split_ifs at h with hp
  · cases h
    exact .inl ⟨hp, rfl, rfl⟩
  · obtain ⟨⟨adr, pmm⟩, hpm, heq⟩ := Option.map_eq_some_iff.mp h
    cases heq
    obtain ⟨q, -, -, -, hq, hused⟩ := pmalloc_one hpm
    have hset : present (BitVec.ofNat 64 adr ||| flags) = true := by
      rw [present_eq] at hflags ⊢
      rw [BitVec.getLsbD_or, hflags, Bool.or_true]
    have hfalse : present (s.mem (entryAt table index)) = false := Bool.not_eq_true _ ▸ hp
    refine .inr ⟨hfalse, ⟨fun a ha => ?_, fun k hk => ?_⟩, ⟨entryAt table index, hfalse, ?_⟩, q, hq, ?_⟩
    · refine Function.update_of_ne ?_ _ _
      rintro rfl
      exact hp ha
    · rw [hused, hk, Bool.or_true]
    · rwa [← Function.update_self (entryAt table index) (BitVec.ofNat 64 adr ||| flags) s.mem] at hset
    · rw [hused, decide_eq_true rfl, Bool.true_or]

/-- The descent follows the entries where all of them are present, and else makes a table. -/
lemma vmmDescend_cases (hflags : present flags = true) (rest : List ULONG64)
    (h : vmmDescend flags s table rest = some (ret, t)) :
    (presentWalk s.mem table rest = some ret ∧ t = s) ∨
      (presentWalk s.mem table rest = none ∧ TablesGrown s t ∧ MadeTable s t) := by
  induction rest generalizing s table with
  | nil =>
    cases h
    exact .inl ⟨rfl, rfl⟩
  | cons index rest ih =>
    obtain ⟨⟨next, u⟩, hnext, hrest⟩ := Option.bind_eq_some_iff.mp h
    rw [presentWalk]
    rcases vmmGetNextLevel_grows hflags hnext with ⟨hp, rfl, rfl⟩ | ⟨hp, hgrown, hmade⟩
    · rw [if_pos hp]
      exact ih hrest
    · rw [if_neg (by rw [hp]; exact Bool.false_ne_true)]
      rcases ih hrest with ⟨-, rfl⟩ | ⟨-, hgrown', -⟩
      · exact .inr ⟨rfl, hgrown, hmade⟩
      · exact .inr ⟨rfl, hgrown.trans hgrown', hmade.grown hgrown'⟩

/-- Along present entries the descent returns. -/
lemma vmmDescend_present {rest : List ULONG64} (h : presentWalk s.mem table rest = some ret) :
    vmmDescend flags s table rest = some (ret, s) := by
  induction rest generalizing table with
  | nil =>
    cases h
    rfl
  | cons index rest ih =>
    rw [presentWalk] at h
    split_ifs at h with hp
    rw [vmmDescend, vmmGetNextLevel]
    dsimp only
    rw [if_pos hp]
    exact ih h

end Descent

section Queries
variable {s : Paging} {topLevel v : ULONG64}

/-- A lookup along present tables changes nothing. -/
lemma vmmVirtToPhys_present {pml1 : ULONG64} (h : presentWalk s.mem topLevel (upperEntries v) = some pml1) :
    vmmVirtToPhys s topLevel v = some (if present (s.mem (entryAt pml1 (pmlEntry v 12))) then
      entryAddress (s.mem (entryAt pml1 (pmlEntry v 12))) else 0#64, s) := by
  rw [vmmVirtToPhys, vmmDescend_present h]
  rfl

lemma vmmUnmapPage_present {pml1 : ULONG64} (h : presentWalk s.mem topLevel (upperEntries v) = some pml1) :
    vmmUnmapPage s topLevel v = some (s.store (entryAt pml1 (pmlEntry v 12)) 0#64) := by
  rw [vmmUnmapPage, vmmDescend_present h]
  rfl

/-- A lookup that returns without a change has found the three upper levels present. -/
lemma vmmVirtToPhys_unchanged {r : ULONG64} (h : vmmVirtToPhys s topLevel v = some (r, s)) :
    ∃ pml1, presentWalk s.mem topLevel (upperEntries v) = some pml1 := by
  obtain ⟨⟨pml1, u⟩, hd, heq⟩ := Option.map_eq_some_iff.mp h
  obtain ⟨-, rfl⟩ := Prod.mk.inj heq
  rcases vmmDescend_cases (by decide) _ hd with ⟨hw, -⟩ | ⟨-, -, hmade⟩
  · exact ⟨pml1, hw⟩
  · exact (hmade.ne rfl).elim

lemma store_eq_self_iff {a : ℕ} {e : ULONG64} : s.store a e = s ↔ s.mem a = e := by
  constructor
  · intro h
    have hmem := congrArg (fun t => t.mem a) h
    simp only [Paging.store, Function.update_self] at hmem
    exact hmem.symm
  · rintro rfl
    rw [Paging.store, Function.update_eq_self]

/-- Looking an address up and unmapping what is not mapped are queries exactly when the three upper
levels of the walk are present, and the last-level entry is present or zero. -/
theorem queriesPure_iff (s : Paging) (topLevel v : ULONG64) : QueriesPure s topLevel v ↔
    ∃ place, leafPlace s topLevel v = some place ∧ (present (s.mem place) = true ∨ s.mem place = 0#64) := by
  constructor
  · intro h
    obtain ⟨r, hr⟩ := h.virtToPhys
    obtain ⟨pml1, hw⟩ := vmmVirtToPhys_unchanged hr
    have hplace : leafPlace s topLevel v = some (entryAt pml1 (pmlEntry v 12)) := by
      rw [leafPlace, hw]
      rfl
    refine ⟨_, hplace, ?_⟩
    by_cases hp : present (s.mem (entryAt pml1 (pmlEntry v 12))) = true
    · exact .inl hp
    · have hunmapped : ¬ Mapped s topLevel v := by
        rintro ⟨place, hplace', hpresent⟩
        rw [hplace] at hplace'
        cases hplace'
        exact hp hpresent
      have hunmap := h.unmap hunmapped
      rw [vmmUnmapPage_present hw, Option.some.injEq, store_eq_self_iff] at hunmap
      exact .inr hunmap
  · rintro ⟨place, hplace, hleaf⟩
    obtain ⟨pml1, hw, rfl⟩ := Option.map_eq_some_iff.mp hplace
    have hlookup := vmmVirtToPhys_present hw
    have habsent : ¬ Mapped s topLevel v → ¬ present (s.mem (entryAt pml1 (pmlEntry v 12))) = true :=
      fun hunmapped hp => hunmapped ⟨_, hplace, hp⟩
    refine ⟨⟨_, hlookup⟩, ?_, fun hunmapped => ⟨s, ?_⟩, fun hunmapped => ?_⟩
    · rw [vmmGetKernelAddress, hlookup]
      exact ⟨_, rfl⟩
    · rw [hlookup, if_neg (habsent hunmapped)]
    · rw [vmmUnmapPage_present hw, Option.some.injEq, store_eq_self_iff]
      exact hleaf.resolve_left (habsent hunmapped)

/-- Page frame 1 is an empty top level, and the free page frame 4 still holds an entry from its earlier
use. -/
def emptyPagemap : Paging := oneFramePaging (Function.update (fun _ => 0#64) (4*pageSize) 0x5003#64)

/-- A lookup in the empty pagemap makes three tables, and reports what the last of them still holds as
the page that address 0 is mapped to. -/
theorem lookup_in_empty_pagemap : (∀ i, tables emptyPagemap.mem 1 i = 0#64) ∧
    (∃ t, vmmVirtToPhys emptyPagemap 0x1000#64 0#64 = some (0x5000#64, t) ∧ t.mem 0x1000 = 0x2007#64 ∧
      emptyPagemap.pmm.used 2 = false ∧ t.pmm.used 2 = true) ∧
    ¬ QueriesPure emptyPagemap 0x1000#64 0#64 := by
  refine ⟨fun i => ?_, ⟨_, rfl, rfl, rfl, rfl⟩, fun h => ?_⟩
  · have hi := i.isLt
    have hne : 1*pageSize + 8*i.val ≠ 4*pageSize := by
      simp only [pageSize]
      omega
    exact Function.update_of_ne hne _ (fun _ : ℕ => 0#64)
  · have hnone : presentWalk emptyPagemap.mem 0x1000#64 (upperEntries 0#64) = none := by decide
    obtain ⟨r, hr⟩ := h.virtToPhys
    obtain ⟨pml1, hw⟩ := vmmVirtToPhys_unchanged hr
    rw [hnone] at hw
    cases hw

end Queries

end Open98.Mm
