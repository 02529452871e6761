import Open98.Mm.Vmm

/-! What the page-table code keeps: the tables below the top level form a tree of reserved
page frames, and creating a missing level in a zero-filled frame changes no translation. -/
namespace Open98.Mm
open Open98.Library

/-- Every entry of the page frame is zero. -/
def Blank (mem : ℕ → ULONG64) (f : ℕ) : Prop := ∀ i : TableIndex, tables mem f i = 0#64

/-- The table that the path leads to from page frame `top`. -/
abbrev tableWalk (s : Paging) (top : ℕ) (a : List TableIndex) : Option ℕ :=
  Radix.walk child (tables s.mem) top a

/-- No path leads to the frame. -/
abbrev Unlinked (s : Paging) (top f : ℕ) : Prop := Radix.Detached child (tables s.mem) top 3 f

/-- The last-level entry at a path of three indices, zero where a level is missing. -/
abbrev leafAt (s : Paging) (top : ℕ) (a : List TableIndex) (i : TableIndex) : ULONG64 :=
  Radix.lookup child (tables s.mem) 0#64 top a i

/-- Tables are reached along one path only, their frames are reserved, and each of their
entries is zero or was installed. -/
structure TablesOk (s : Paging) (top : ℕ) : Prop where
  separate : Radix.Separate child (tables s.mem) top 3
  reserved : ∀ a f, a.length ≤ 3 → tableWalk s top a = some f → s.pmm.used f = true
  known : ∀ a f i, a.length ≤ 3 → tableWalk s top a = some f →
    tables s.mem f i = 0#64 ∨ (f*pageSize + 8*i.val, tables s.mem f i) ∈ s.installed

lemma TablesOk.unlinked_of_free {s : Paging} {top q : ℕ} (ok : TablesOk s top)
    (h : s.pmm.used q = false) : Unlinked s top q := by
  intro a ha hw
  have := ok.reserved a q ha hw
  simp [h] at this

/-- What a call of `vmm_get_next_level` can do: follow an entry, or take a page and put it into
an empty one. -/
theorem vmmGetNextLevel_cases {s s' : Paging} {t ret index flags : ULONG64} {f : ℕ}
    {i : TableIndex} (ht : PointsTo t f) (hi : index.toNat = i.val)
    (h : vmmGetNextLevel s t index flags = some (ret, s')) :
    (∃ g, child (tables s.mem f i) = some g ∧ PointsTo ret g ∧ s' = s) ∨
    (∃ q, child (tables s.mem f i) = none ∧ PointsTo ret q ∧ s.pmm.used q = false ∧
      s.pmm.freeList = q :: s'.pmm.freeList ∧
      (∀ k, s'.pmm.used k = (decide (k = q) || s.pmm.used k)) ∧
      tables s'.mem = Radix.write (tables s.mem) f i (ret ||| flags) ∧
      s'.installed = (f*pageSize + 8*i.val, ret ||| flags) :: s.installed) := by
  unfold vmmGetNextLevel at h
  rw [entryAt_eq ht hi] at h
  have hentry : s.mem (f*pageSize + 8*i.val) = tables s.mem f i := rfl
  simp only [hentry] at h
  split_ifs at h with hp
  · cases h
    refine .inl ⟨(tables s.mem f i).toNat / pageSize, by simp [child, hp], ?_, rfl⟩
    exact toNat_entryAddress _
  · simp only [Option.map_eq_some_iff] at h
    obtain ⟨⟨adr, pmm⟩, hpm, heq⟩ := h
    cases heq
    obtain ⟨q, hfree, rfl, hlt, hq, hused⟩ := pmalloc_one hpm
    refine .inr ⟨q, by simp [child, hp], ?_, hq, hfree, hused, tables_update _ _ _ _, rfl⟩
    simp only [PointsTo, BitVec.toNat_ofNat]
    exact Nat.mod_eq_of_lt hlt

lemma PointsTo.aligned {t : ULONG64} {f : ℕ} (h : PointsTo t f) : t.toNat % pageSize = 0 := by
  rw [h]
  exact Nat.mul_mod_left _ _

lemma child_or_flags {ret flags : ULONG64} {q : ℕ} (h : PointsTo ret q)
    (hf : flags.toNat < pageSize) :
    child (ret ||| flags) = if present flags then some q else none := by
  have hdiv : (ret ||| flags).toNat / pageSize = q := by
    rw [toNat_or_flags h.aligned hf, h]
    simp only [pageSize] at *
    omega
  simp only [child, present_or_flags h.aligned, hdiv]

/-- The tables have only grown: translations are the same, and the pages that are still free
hold what they held. -/
structure Extends (s s' : Paging) (top : ℕ) : Prop where
  ok : TablesOk s' top
  leaves : ∀ b j, b.length = 3 → leafAt s' top b j = leafAt s top b j
  untouched : ∀ q ∈ s'.pmm.freeList, tables s'.mem q = tables s.mem q
  suffix : s'.pmm.freeList <:+ s.pmm.freeList

lemma Extends.refl {s : Paging} {top : ℕ} (ok : TablesOk s top) : Extends s s top :=
  ⟨ok, fun _ _ _ => rfl, fun _ _ => rfl, List.suffix_refl _⟩

lemma Extends.trans {s t u : Paging} {top : ℕ} (h : Extends s t top) (k : Extends t u top) :
    Extends s u top :=
  ⟨k.ok, fun b j hb => (k.leaves b j hb).trans (h.leaves b j hb),
    fun q hq => (k.untouched q hq).trans (h.untouched q (k.suffix.mem hq)),
    k.suffix.trans h.suffix⟩

/-- Frame `f` stands for the end of the path `a`: it is the table there, or a blank reserved
frame outside the tree in place of a table that an entry without its present bit refers to. -/
def Cursor (s : Paging) (top : ℕ) (a : List TableIndex) (f : ℕ) : Prop :=
  tableWalk s top a = some f ∨
    (tableWalk s top a = none ∧ Unlinked s top f ∧ Blank s.mem f ∧ s.pmm.used f = true)

section FreshTable
variable {s s' : Paging} {top f q : ℕ} {a : List TableIndex} {i : TableIndex} {e : ULONG64}

lemma free_of_mem_freeList {p : Pmm} {k : ℕ} (h : k ∈ p.freeList) : p.used k = false := by
  simpa using (List.mem_filter.mp h).2

lemma TablesOk.attach (ok : TablesOk s top) (ha : a.length < 3) (hw : tableWalk s top a = some f)
    (hempty : child (tables s.mem f i) = none) (hq : s.pmm.used q = false) (hblank : Blank s.mem q)
    (hrefers : child e = some q) : Radix.Attach child (tables s.mem) top 3 a i f q e :=
  ⟨ok.separate, ha, hw, hempty, hrefers, ok.unlinked_of_free hq, fun j => by simp [hblank j]⟩

/-- A blank page that the allocator has handed out is hung into an entry of a table. -/
lemma attach_extends (ok : TablesOk s top) (ha : a.length < 3) (hw : tableWalk s top a = some f)
    (hempty : child (tables s.mem f i) = none) (hq : s.pmm.used q = false) (hblank : Blank s.mem q)
    (hrefers : child e = some q) (hfree : s.pmm.freeList = q :: s'.pmm.freeList)
    (hused : ∀ k, s'.pmm.used k = (decide (k = q) || s.pmm.used k))
    (hmem : tables s'.mem = Radix.write (tables s.mem) f i e)
    (hinst : s'.installed = (f*pageSize + 8*i.val, e) :: s.installed) :
    Extends s s' top ∧ tableWalk s' top (a ++ [i]) = some q := by
  have hat := ok.attach ha hw hempty hq hblank hrefers
  refine ⟨⟨⟨?_, fun b g hb hg => ?_, fun b g j hb hg => ?_⟩, fun b j hb => ?_, fun k hk => ?_, ?_⟩, ?_⟩
  · rw [hmem]
    exact hat.separate
  · rw [tableWalk, hmem] at hg
    rcases hat.walk_cases hb hg with ⟨_, rfl⟩ | hold
    · simp [hused]
    · simp [hused, ok.reserved b g hb hold]
  · rw [tableWalk, hmem] at hg
    rw [hmem, hinst]
    rcases hat.walk_cases hb hg with ⟨_, rfl⟩ | hold
    · exact .inl (by rw [Radix.write_of_ne hat.ne, hblank j])
    · by_cases hcell : g = f ∧ j = i
      · obtain ⟨rfl, rfl⟩ := hcell
        exact .inr (by simp)
      · have hsame : Radix.write (tables s.mem) f i e g j = tables s.mem g j := if_neg hcell
        rw [hsame]
        exact (ok.known b g j hb hold).imp_right (List.mem_cons_of_mem _)
  · rw [leafAt, hmem]
    exact hat.lookup_eq hblank hb j
  · have hkf : k ≠ f := by
      rintro rfl
      have := ok.reserved a k ha.le hw
      have := free_of_mem_freeList hk
      simp_all
    funext j
    rw [hmem, Radix.write_of_ne hkf]
  · rw [hfree]
    exact List.suffix_cons _ _
  · rw [tableWalk, hmem]
    exact hat.walk_new

/-- A page is taken, but the tree below the top level stays as it is: the entry is written
without its present bit, or into a frame outside the tree. -/
lemma unlinked_extends (ok : TablesOk s top)
    (hwalk : ∀ b, b.length ≤ 3 → Radix.walk child (Radix.write (tables s.mem) f i e) top b = tableWalk s top b)
    (hf : s.pmm.used f = true)
    (hleaf : ∀ b j, b.length = 3 → Radix.lookup child (Radix.write (tables s.mem) f i e) 0#64 top b j = leafAt s top b j)
    (hfree : s.pmm.freeList = q :: s'.pmm.freeList)
    (hused : ∀ k, s'.pmm.used k = (decide (k = q) || s.pmm.used k))
    (hmem : tables s'.mem = Radix.write (tables s.mem) f i e)
    (hinst : s'.installed = (f*pageSize + 8*i.val, e) :: s.installed) : Extends s s' top := by
  refine ⟨⟨?_, fun b g hb hg => ?_, fun b g j hb hg => ?_⟩, fun b j hb => ?_, fun k hk => ?_, ?_⟩
  · rw [hmem]
    exact ok.separate.of_walk_eq hwalk
  · rw [tableWalk, hmem, hwalk b hb] at hg
    simp [hused, ok.reserved b g hb hg]
  · rw [tableWalk, hmem, hwalk b hb] at hg
    rw [hmem, hinst]
    by_cases hcell : g = f ∧ j = i
    · obtain ⟨rfl, rfl⟩ := hcell
      exact .inr (by simp)
    · have hsame : Radix.write (tables s.mem) f i e g j = tables s.mem g j := if_neg hcell
      rw [hsame]
      exact (ok.known b g j hb hg).imp_right (List.mem_cons_of_mem _)
  · rw [leafAt, hmem]
    exact hleaf b j hb
  · have hkf : k ≠ f := by
      rintro rfl
      have := free_of_mem_freeList hk
      simp [hused, hf] at this
    funext j
    rw [hmem, Radix.write_of_ne hkf]
  · rw [hfree]
    exact List.suffix_cons _ _

end FreshTable

/-- One call of `vmm_get_next_level`. Where the entry is missing, the page at the head of the
free list is blank and the flags are low bits. -/
theorem vmmGetNextLevel_spec {s s' : Paging} {top f : ℕ} {t ret index flags : ULONG64}
    {a : List TableIndex} {i : TableIndex} (ok : TablesOk s top) (hc : Cursor s top a f)
    (ha : a.length < 3) (ht : PointsTo t f) (hi : index.toNat = i.val)
    (hfresh : tableWalk s top (a ++ [i]) = none →
      flags.toNat < pageSize ∧ ∀ q ∈ s.pmm.freeList.head?, Blank s.mem q)
    (h : vmmGetNextLevel s t index flags = some (ret, s')) :
    ∃ g, PointsTo ret g ∧ Extends s s' top ∧ Cursor s' top (a ++ [i]) g ∧
      (tableWalk s top (a ++ [i]) = some g ∧ s' = s ∨
        tableWalk s top (a ++ [i]) = none ∧ s.pmm.freeList.tail = s'.pmm.freeList) ∧
      (present flags = true → tableWalk s top a = some f → tableWalk s' top (a ++ [i]) = some g) := by
  rcases vmmGetNextLevel_cases ht hi h with ⟨g, hg, hret, rfl⟩ |
    ⟨q, hempty, hret, hq, hfree, hused, hmem, hinst⟩
  · -- the entry is present, so the cursor is a table: a blank frame has no entry
    have hw : tableWalk s' top a = some f := by
      rcases hc with hw | ⟨_, _, hblank, _⟩
      · exact hw
      · simp [hblank i] at hg
    have hnext : tableWalk s' top (a ++ [i]) = some g := by rw [tableWalk, Radix.walk_snoc hw, hg]
    exact ⟨g, hret, .refl ok, .inl hnext, .inl ⟨hnext, rfl⟩, fun _ _ => hnext⟩
  · have hnone : tableWalk s top (a ++ [i]) = none := by
      rcases hc with hw | ⟨hw, _⟩
      · rw [tableWalk, Radix.walk_snoc hw, hempty]
      · simp [tableWalk, Radix.walk_append, hw]
    obtain ⟨hflags, hblank⟩ := hfresh hnone
    have hqblank : Blank s.mem q := hblank q (by simp [hfree])
    have hqf : q ≠ f := by
      rintro rfl
      rcases hc with hw | ⟨_, _, _, hu⟩
      · exact ok.unlinked_of_free hq a ha.le hw
      · simp [hq] at hu
    have hblank' : Blank s'.mem q := fun j => by rw [hmem, Radix.write_of_ne hqf, hqblank j]
    have hqused : s'.pmm.used q = true := by simp [hused]
    have hchild := child_or_flags hret hflags
    have htail : s.pmm.freeList.tail = s'.pmm.freeList := by rw [hfree, List.tail_cons]
    rcases hc with hw | ⟨hw, hun, hfblank, hfused⟩
    · cases hp : present flags with
      | true =>
        rw [hp, if_pos rfl] at hchild
        obtain ⟨hext, hnew⟩ := attach_extends ok ha hw hempty hq hqblank hchild hfree hused hmem hinst
        exact ⟨q, hret, hext, .inl hnew, .inr ⟨hnone, htail⟩, fun _ _ => hnew⟩
      | false =>
        -- the entry is written, but not present: the new frame stays outside the tree
        simp only [hp, Bool.false_eq_true, if_false] at hchild
        have heq : child (ret ||| flags) = child (tables s.mem f i) := by rw [hchild, hempty]
        have hwalk := fun b (_ : b.length ≤ 3) => Radix.walk_write_of_child_eq heq b top
        have hext := unlinked_extends ok hwalk (ok.reserved a f ha.le hw)
          (fun b j hb => Radix.lookup_write_of_child_eq ok.separate ha hw heq _ hb j)
          hfree hused hmem hinst
        refine ⟨q, hret, hext, .inr ⟨?_, fun b hb => ?_, hblank', hqused⟩, .inr ⟨hnone, htail⟩, by simp⟩
        · rw [tableWalk, hmem, hwalk _ (by simp; omega)]
          exact hnone
        · rw [hmem, hwalk b hb]
          exact ok.unlinked_of_free hq b hb
    · -- the cursor is outside the tree already
      have hwalk := fun (b : List TableIndex) (hb : b.length ≤ 3) =>
        Radix.walk_write_detached (i := i) (e := ret ||| flags) hun hb
      have hext := unlinked_extends ok hwalk hfused
        (fun b j hb => Radix.lookup_write_detached hun _ hb.le j) hfree hused hmem hinst
      refine ⟨q, hret, hext, .inr ⟨?_, fun b hb => ?_, hblank', hqused⟩, .inr ⟨hnone, htail⟩, ?_⟩
      · rw [tableWalk, hmem, hwalk _ (by simp; omega)]
        exact hnone
      · rw [hmem, hwalk b hb]
        exact ok.unlinked_of_free hq b hb
      · intro _ hsome
        simp [hw] at hsome

/-- The number of tables that are missing along `rest` below the path `a`. -/
def missing (s : Paging) (top : ℕ) : List TableIndex → List TableIndex → ℕ
  | _, [] => 0
  | a, i :: rest => (if (tableWalk s top (a ++ [i])).isSome then 0 else 1) + missing s top (a ++ [i]) rest

lemma missing_le (s : Paging) (top : ℕ) (rest a : List TableIndex) :
    missing s top a rest ≤ rest.length := by
  induction rest generalizing a with
  | nil => simp [missing]
  | cons i rest ih =>
    have := ih (a ++ [i])
    simp only [missing, List.length_cons]
    split_ifs <;> omega

lemma missing_of_none {s : Paging} {top : ℕ} (rest : List TableIndex) {a : List TableIndex}
    (h : tableWalk s top a = none) : missing s top a rest = rest.length := by
  induction rest generalizing a with
  | nil => rfl
  | cons i rest ih =>
    have hnone : tableWalk s top (a ++ [i]) = none := by simp [tableWalk, Radix.walk_append, h]
    simp only [missing, hnone, Option.isSome_none, Bool.false_eq_true, if_false, ih hnone,
      List.length_cons]
    omega

lemma mem_take_of_mem_take_tail {l : List ℕ} {m n q : ℕ} (h : m ≤ n) (hq : q ∈ l.tail.take m) :
    q ∈ l.take (n+1) := by
  cases l with
  | nil => simp at hq
  | cons p l =>
    rw [List.take_succ_cons]
    exact List.mem_cons_of_mem _ (List.take_subset_take_left _ h hq)

/-- The pages that the missing tables along the path will be made of are blank, and the flags
that their entries get are low bits. -/
structure FreshTables (s : Paging) (top : ℕ) (a rest : List TableIndex) (flags : ULONG64) : Prop where
  blank : ∀ q ∈ s.pmm.freeList.take (missing s top a rest), Blank s.mem q
  low : missing s top a rest ≠ 0 → flags.toNat < pageSize

/-- The page for the table below an entry is blank, and the flags are low bits, if it is missing. -/
def FreshEntry (s : Paging) (top : ℕ) (a : List TableIndex) (i : TableIndex) (flags : ULONG64) : Prop :=
  tableWalk s top (a ++ [i]) = none →
    flags.toNat < pageSize ∧ ∀ q ∈ s.pmm.freeList.head?, Blank s.mem q

/-- A descent is a chain of calls of `vmm_get_next_level`, each from the end of the path so far to
the end of the longer path. -/
theorem vmmDescend_induct {top : ℕ} {flags : ULONG64}
    {M : Paging → List TableIndex → List TableIndex → ℕ → Paging → ℕ → Prop}
    (nil : ∀ s a f, TablesOk s top → Cursor s top a f → M s a [] f s f)
    (cons : ∀ s u s' a i rest f g k index t next, TablesOk s top → Cursor s top a f → a.length < 3 →
      PointsTo t f → index.toNat = i.val → FreshEntry s top a i flags →
      vmmGetNextLevel s t index flags = some (next, u) → PointsTo next g → Extends s u top →
      Cursor u top (a ++ [i]) g →
      (present flags = true → tableWalk s top a = some f → tableWalk u top (a ++ [i]) = some g) →
      M u (a ++ [i]) rest g s' k → M s a (i :: rest) f s' k)
    (rest : List TableIndex) :
    ∀ {indices : List ULONG64} {s s' : Paging} {f : ℕ} {t ret : ULONG64} {a : List TableIndex},
      indices.map (·.toNat) = rest.map (·.val) → TablesOk s top → Cursor s top a f → PointsTo t f →
      a.length + rest.length ≤ 3 → FreshTables s top a rest flags →
      vmmDescend flags s t indices = some (ret, s') →
      ∃ g, PointsTo ret g ∧ M s a rest f s' g := by
  induction rest with
  | nil =>
    intro indices s s' f t ret a hidx ok hc ht _ _ h
    obtain rfl : indices = [] := by simpa using hidx
    simp only [vmmDescend, Option.some.injEq, Prod.mk.injEq] at h
    obtain ⟨rfl, rfl⟩ := h
    exact ⟨f, ht, nil s a f ok hc⟩
  | cons i rest ih =>
    intro indices s s' f t ret a hidx ok hc ht hlen hfresh h
    obtain ⟨index, indices, rfl⟩ : ∃ x xs, indices = x :: xs := by
      cases indices with
      | nil => simp at hidx
      | cons x xs => exact ⟨x, xs, rfl⟩
    simp only [List.map_cons, List.cons.injEq] at hidx
    simp only [vmmDescend, Option.bind_eq_some_iff] at h
    obtain ⟨⟨next, u⟩, hnext, h⟩ := h
    simp only [List.length_cons] at hlen
    have hentry : FreshEntry s top a i flags := fun hnone =>
      ⟨hfresh.low (by simp [missing, hnone]), fun q hq => hfresh.blank q (by
        cases hl : s.pmm.freeList with
        | nil => simp [hl] at hq
        | cons p l =>
          obtain rfl : p = q := by simpa [hl] using hq
          simp [missing, hnone, Nat.add_comm 1])⟩
    obtain ⟨g, hg, hext, hcur, hsteps, hlink⟩ :=
      vmmGetNextLevel_spec ok hc (by omega) ht hidx.1 hentry hnext
    have hrest : FreshTables u top (a ++ [i]) rest flags := by
      rcases hsteps with ⟨hsome, rfl⟩ | ⟨hnone, htail⟩
      · have hm : missing u top a (i :: rest) = missing u top (a ++ [i]) rest := by
          simp [missing, hsome]
        exact ⟨fun q hq => hfresh.blank q (by rwa [hm]), fun h0 => hfresh.low (by rwa [hm])⟩
      · have hm : missing s top a (i :: rest) = rest.length + 1 := by
          simp only [missing, hnone, Option.isSome_none, Bool.false_eq_true, if_false,
            missing_of_none rest hnone]
          omega
        refine ⟨fun q hq => ?_, fun _ => hfresh.low (by omega)⟩
        have hmem : q ∈ u.pmm.freeList := List.mem_of_mem_take hq
        intro j
        rw [hext.untouched q hmem]
        refine hfresh.blank q ?_ j
        rw [hm]
        exact mem_take_of_mem_take_tail (missing_le u top rest _) (htail ▸ hq)
    obtain ⟨k, hk, hM⟩ := ih hidx.2 hext.ok hcur hg (by simp; omega) hrest h
    exact ⟨k, hk, cons s u s' a i rest f g k index t next ok hc (by omega) ht hidx.1 hentry hnext hg hext
      hcur hlink hM⟩

/-- Going down a path of tables: the tables only grow, and the pointer that comes back stands
for the end of the path. -/
theorem vmmDescend_spec {top : ℕ} {flags : ULONG64} (rest : List TableIndex)
    {indices : List ULONG64} {s s' : Paging} {f : ℕ} {t ret : ULONG64} {a : List TableIndex}
    (hidx : indices.map (·.toNat) = rest.map (·.val)) (ok : TablesOk s top) (hc : Cursor s top a f)
    (ht : PointsTo t f) (hlen : a.length + rest.length ≤ 3) (hfresh : FreshTables s top a rest flags)
    (h : vmmDescend flags s t indices = some (ret, s')) :
    ∃ g, PointsTo ret g ∧ Extends s s' top ∧ Cursor s' top (a ++ rest) g ∧
      (present flags = true → tableWalk s top a = some f → tableWalk s' top (a ++ rest) = some g) := by
  refine vmmDescend_induct (M := fun s a rest f s' g => Extends s s' top ∧ Cursor s' top (a ++ rest) g ∧
    (present flags = true → tableWalk s top a = some f → tableWalk s' top (a ++ rest) = some g))
    ?_ ?_ rest hidx ok hc ht hlen hfresh h
  · intro s a f ok hc
    exact ⟨.refl ok, by simpa using hc, fun _ hw => by simpa using hw⟩
  · intro s u s' a i rest f g k index t next _ _ _ _ _ _ _ _ hext _ hlink ⟨hext', hcur', hlink'⟩
    refine ⟨hext.trans hext', by simpa using hcur', fun hp hw => ?_⟩
    simpa using hlink' hp (hlink hp hw)

end Open98.Mm
