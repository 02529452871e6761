import Open98.Library.RadixForest
import Open98.Mm.Permissions

/-! Several pagemaps in one memory. The top tables of a family have the entries of some indices in
common, and apart from what hangs below these each pagemap has its tables to itself. -/
namespace Open98.Mm
open Open98.Library

/-- The tables below the top levels form a forest of reserved page frames. -/
structure FamilyOk (s : Paging) (roots : Set ℕ) (shared : Set TableIndex) : Prop where
  forest : Radix.Forest child (tables s.mem) roots shared 3
  reserved : ∀ r ∈ roots, ∀ a f, a.length ≤ 3 → tableWalk s r a = some f → s.pmm.used f = true

/-- Every page that has been handed out between the two states was zero-filled. -/
def Supplied (s t : Paging) : Prop := ∀ q ∈ s.pmm.freeList, q ∉ t.pmm.freeList → Blank s.mem q

/-- The tables have grown along the path `a ++ rest` below `a`: the missing ones are made of the
first free pages, their entries have the permission of the flags, and no translation has changed. -/
structure Grown (s t : Paging) (roots : Set ℕ) (shared : Set TableIndex) (r : ℕ)
    (a rest : List TableIndex) (flags : ULONG64) : Prop where
  ok : FamilyOk t roots shared
  free : t.pmm.freeList = s.pmm.freeList.drop (missing s r a rest)
  untouched : ∀ q ∈ t.pmm.freeList, tables t.mem q = tables s.mem q
  leaves : ∀ r' ∈ roots, ∀ b j, b.length = 3 → leafAt t r' b j = leafAt s r' b j
  others : ∀ r' ∈ roots, ¬(r' = r ∨ Radix.Within shared (a ++ rest)) → ∀ b j, b.length ≤ 3 →
    leafAt t r' b j = leafAt s r' b j
  walks : ∀ b, b.length ≤ 3 →
    ((tableWalk t r b).isSome ↔ (tableWalk s r b).isSome ∨ (a <+: b ∧ b <+: a ++ rest))
  made : ∀ b j, b.length < 3 →
    leafAt t r b j = leafAt s r b j ∨ permission (leafAt t r b j) = permission flags

section Grow
variable {s t u : Paging} {roots : Set ℕ} {shared : Set TableIndex} {r f q : ℕ}
  {a rest : List TableIndex} {i : TableIndex} {flags : ULONG64}

lemma Pmm.freeList_nodup (p : Pmm) : p.freeList.Nodup := List.nodup_range.filter _

lemma FamilyOk.unlinked_of_free (ok : FamilyOk s roots shared) (hq : s.pmm.used q = false) :
    ∀ r ∈ roots, Unlinked s r q := by
  intro r hr b hb hw
  have := ok.reserved r hr b q hb hw
  simp [hq] at this

lemma Supplied.right (h : Supplied s t) (hsub : t.pmm.freeList ⊆ u.pmm.freeList) : Supplied s u :=
  fun q hq hqu => h q hq fun hqt => hqu (hsub hqt)

lemma Supplied.left (h : Supplied s t) (hsub : u.pmm.freeList ⊆ s.pmm.freeList)
    (hmem : ∀ q ∈ u.pmm.freeList, tables u.mem q = tables s.mem q) : Supplied u t := by
  intro q hq hqt j
  rw [hmem q hq]
  exact h q (hsub hq) hqt j

/-- Whether tables are missing below a path depends on the longer paths. -/
lemma missing_congr (rest : List TableIndex) {a : List TableIndex}
    (h : ∀ b, a <+: b → b ≠ a → b.length ≤ a.length + rest.length →
      ((tableWalk t r b).isSome ↔ (tableWalk s r b).isSome)) : missing t r a rest = missing s r a rest := by
  induction rest generalizing a with
  | nil => rfl
  | cons i rest ih =>
    have hlen : ∀ b, a ++ [i] <+: b → b ≠ a := by
      rintro b hpre rfl
      exact Radix.not_snoc_prefix_of_length_le le_rfl hpre
    have hstep := h (a ++ [i]) (List.prefix_append _ _) (hlen _ List.prefix_rfl) (by simp)
    rw [missing, missing, ih fun b hpre hne hb => h b ((List.prefix_append _ _).trans hpre) (hlen b hpre) ?_]
    · by_cases hs : (tableWalk s r (a ++ [i])).isSome
      · rw [if_pos hs, if_pos (hstep.mpr hs)]
      · rw [if_neg hs, if_neg fun ht => hs (hstep.mp ht)]
    · simp only [List.length_append, List.length_cons, List.length_nil] at hb ⊢
      omega

lemma prefix_between_snoc {b : List TableIndex} (h : a <+: b) (h' : b <+: a ++ [i]) :
    b = a ∨ b = a ++ [i] := by
  rcases List.prefix_concat_iff.mp h' with rfl | hb
  · exact .inr rfl
  · exact .inl (hb.eq_of_length_le h.length_le)

lemma Grown.refl (ok : FamilyOk s roots shared) (hw : (tableWalk s r a).isSome) :
    Grown s s roots shared r a [] flags := by
  refine ⟨ok, rfl, fun _ _ => rfl, fun _ _ _ _ _ => rfl, fun _ _ _ _ _ _ => rfl, fun b _ => ?_,
    fun _ _ _ => .inl rfl⟩
  rw [List.append_nil]
  refine ⟨.inl, ?_⟩
  rintro (h | ⟨hle, hge⟩)
  · exact h
  · rwa [hge.eq_of_length_le hle.length_le]

lemma Grown.subset {a rest : List TableIndex} (h : Grown s t roots shared r a rest flags) :
    t.pmm.freeList ⊆ s.pmm.freeList := by
  rw [h.free]
  exact List.drop_subset _ _

/-- One step and then the rest of the way. -/
lemma Grown.trans (h : Grown s u roots shared r a [i] flags)
    (k : Grown u t roots shared r (a ++ [i]) rest flags) (hlen : a.length + (i :: rest).length ≤ 3) :
    Grown s t roots shared r a (i :: rest) flags := by
  have hpath : a ++ [i] ++ rest = a ++ i :: rest := by simp
  refine ⟨k.ok, ?_, fun q hq => ?_, fun r' hr' b j hb => ?_, fun r' hr' hs b j hb => ?_, fun b hb => ?_,
    fun b j hb => ?_⟩
  · have hm : missing u r (a ++ [i]) rest = missing s r (a ++ [i]) rest := by
      refine missing_congr rest fun b hpre hne hb => ?_
      simp only [List.length_append, List.length_cons, List.length_nil] at hb hlen
      rw [h.walks b (by omega)]
      refine or_iff_left fun hmid => ?_
      exact hne (hmid.2.eq_of_length_le hpre.length_le)
    have hone : missing s r a [i] + missing s r (a ++ [i]) rest = missing s r a (i :: rest) := by
      simp [missing]
    rw [k.free, h.free, List.drop_drop, hm, hone]
  · rw [k.untouched q hq, h.untouched q (k.subset hq)]
  · rw [k.leaves r' hr' b j hb, h.leaves r' hr' b j hb]
  · rw [k.others r' hr' (by rwa [hpath]) b j hb, h.others r' hr' (fun hc => hs ?_) b j hb]
    exact hc.imp_right fun hin => hpath ▸ hin.append
  · rw [k.walks b hb, h.walks b hb, hpath, or_assoc]
    refine or_congr_right ⟨?_, ?_⟩
    · rintro (⟨h1, h2⟩ | ⟨h1, h2⟩)
      · exact ⟨h1, h2.trans (hpath ▸ List.prefix_append _ _)⟩
      · exact ⟨(List.prefix_append _ _).trans h1, h2⟩
    · rintro ⟨⟨c, rfl⟩, h2⟩
      cases c with
      | nil => exact .inl ⟨by simp, by simp⟩
      | cons k c =>
        obtain ⟨hk, h3⟩ := List.cons_prefix_cons.mp ((List.prefix_append_right_inj a).mp h2)
        subst hk
        exact .inr ⟨by simp, by simpa using h3⟩
  · rcases k.made b j hb with hk | hk
    · rw [hk]
      exact h.made b j hb
    · exact .inr hk

/-- One call of `vmm_get_next_level` for a family. -/
theorem vmmGetNextLevel_family {p ret index : ULONG64} (ok : FamilyOk s roots shared) (hr : r ∈ roots)
    (hw : tableWalk s r a = some f) (ha : a.length < 3) (ht : PointsTo p f) (hi : index.toNat = i.val)
    (hp : present flags = true) (hf : flags.toNat < pageSize) (hsup : Supplied s t)
    (h : vmmGetNextLevel s p index flags = some (ret, t)) :
    ∃ g, PointsTo ret g ∧ tableWalk t r (a ++ [i]) = some g ∧ Grown s t roots shared r a [i] flags := by
  have hsome : (tableWalk s r a).isSome := by simp [hw]
  rcases vmmGetNextLevel_cases ht hi h with ⟨g, hg, hret, rfl⟩ |
    ⟨q, hempty, hret, hq, hfree, hused, hmem, _⟩
  · have hnext : tableWalk t r (a ++ [i]) = some g := by rw [tableWalk, Radix.walk_snoc hw, hg]
    refine ⟨g, hret, hnext, ok, ?_, fun _ _ => rfl, fun _ _ _ _ _ => rfl, fun _ _ _ _ _ _ => rfl,
      fun b _ => ?_, fun _ _ _ => .inl rfl⟩
    · simp [missing, hnext]
    · refine ⟨.inl, ?_⟩
      rintro (hb | ⟨hle, hge⟩)
      · exact hb
      · rcases prefix_between_snoc hle hge with rfl | rfl
        · exact hsome
        · simp [hnext]
  · have hnodup : q ∉ t.pmm.freeList := by
      have := s.pmm.freeList_nodup
      rw [hfree] at this
      exact (List.nodup_cons.mp this).1
    have hblank : Blank s.mem q := hsup q (by simp [hfree]) hnodup
    have hun := ok.unlinked_of_free hq
    have hrefers : child (ret ||| flags) = some q := by rw [child_or_flags hret hf, if_pos hp]
    have hat : Radix.Attach child (tables s.mem) r 3 a i f q (ret ||| flags) :=
      ⟨ok.forest.separate hr, ha, hw, hempty, hrefers, hun r hr, fun j => by simp [hblank j]⟩
    have hnew : tableWalk t r (a ++ [i]) = some q := by
      rw [tableWalk, hmem]
      exact hat.walk_new
    refine ⟨q, hret, hnew, ⟨?_, fun r' hr' b g hb hg => ?_⟩, ?_, fun k hk => ?_, fun r' hr' b j hb => ?_,
      fun r' hr' hs b j hb => ?_, fun b hb => ?_, fun b j hb => ?_⟩
    · rw [hmem]
      exact ok.forest.attach hr hat hun
    · rw [tableWalk, hmem] at hg
      rcases ok.forest.walk_cases hr hr' hat hun hb hg with ⟨_, _, rfl⟩ | hold
      · simp [hused]
      · simp [hused, ok.reserved r' hr' b g hb hold]
    · have hnone : tableWalk s r (a ++ [i]) = none := by rw [tableWalk, Radix.walk_snoc hw, hempty]
      simp [missing, hnone, hfree]
    · have hkf : k ≠ f := by
        rintro rfl
        have hkused := ok.reserved r hr a k ha.le hw
        have hkfree := free_of_mem_freeList hk
        simp [hused, hkused] at hkfree
      funext j
      rw [hmem, Radix.write_of_ne hkf]
    · rw [leafAt, hmem]
      exact ok.forest.attach_lookup_leaf hr hr' hat hun hblank hb j
    · rw [leafAt, hmem]
      exact Radix.lookup_write_detached (ok.forest.not_reached_of_attach hr hr' hat hs) _ hb j
    · rw [tableWalk, hmem]
      constructor
      · intro hsomeb
        obtain ⟨g, hg⟩ := Option.isSome_iff_exists.mp hsomeb
        rcases hat.walk_cases hb hg with ⟨rfl, _⟩ | hold
        · exact .inr ⟨List.prefix_append _ _, List.prefix_rfl⟩
        · exact .inl (by simp [tableWalk, hold])
      · rintro (hold | ⟨hle, hge⟩)
        · by_cases hpre : a ++ [i] <+: b
          · obtain ⟨c, rfl⟩ := hpre
            rw [tableWalk, hat.walk_before c] at hold
            simp at hold
          · rw [Radix.walk_write hat.sep ha.le hw (by omega) hpre]
            exact hold
        · rcases prefix_between_snoc hle hge with rfl | rfl
          · simp [hat.walk_path]
          · simp [hat.walk_new]
    · have hone : leafAt t r b j = if b = a ∧ j = i then ret ||| flags else leafAt s r b j := by
        rw [leafAt, hmem]
        exact hat.lookup_write hblank hb.le j
      rw [hone]
      split_ifs
      · exact .inr (permission_or_flags hret.aligned)
      · exact .inl rfl

lemma vmmGetNextLevel_subset {p ret index : ULONG64} (h : vmmGetNextLevel s p index flags = some (ret, t)) :
    t.pmm.freeList ⊆ s.pmm.freeList := by
  unfold vmmGetNextLevel at h
  dsimp only at h
  split_ifs at h with hp
  · cases h
    exact List.Subset.refl _
  · simp only [Option.map_eq_some_iff] at h
    obtain ⟨⟨adr, pmm⟩, hpm, heq⟩ := h
    cases heq
    obtain ⟨q, hfree, _⟩ := pmalloc_one hpm
    rw [hfree]
    exact List.subset_cons_self _ _

lemma vmmDescend_subset {ret : ULONG64} {indices : List ULONG64} {p : ULONG64}
    (h : vmmDescend flags s p indices = some (ret, t)) : t.pmm.freeList ⊆ s.pmm.freeList := by
  induction indices generalizing s p with
  | nil =>
    simp only [vmmDescend, Option.some.injEq, Prod.mk.injEq] at h
    rw [h.2]
    exact List.Subset.refl _
  | cons index rest ih =>
    simp only [vmmDescend, Option.bind_eq_some_iff] at h
    obtain ⟨⟨next, u⟩, hnext, h⟩ := h
    exact List.Subset.trans (ih h) (vmmGetNextLevel_subset hnext)

/-- Going down a path of a family. -/
theorem vmmDescend_family (hr : r ∈ roots) (hp : present flags = true)
    (hf : flags.toNat < pageSize) (rest : List TableIndex) {s : Paging} {indices : List ULONG64}
    {a : List TableIndex} {f : ℕ} {p ret : ULONG64} (hidx : indices.map (·.toNat) = rest.map (·.val))
    (ok : FamilyOk s roots shared) (hw : tableWalk s r a = some f) (ht : PointsTo p f)
    (hlen : a.length + rest.length ≤ 3) (hsup : Supplied s t)
    (h : vmmDescend flags s p indices = some (ret, t)) :
    ∃ g, PointsTo ret g ∧ tableWalk t r (a ++ rest) = some g ∧
      Grown s t roots shared r a rest flags := by
  induction rest generalizing s indices a f p with
  | nil =>
    obtain rfl : indices = [] := by simpa using hidx
    simp only [vmmDescend, Option.some.injEq, Prod.mk.injEq] at h
    obtain ⟨rfl, rfl⟩ := h
    rw [List.append_nil]
    exact ⟨f, ht, hw, .refl ok (by simp [hw])⟩
  | cons i rest ih =>
    obtain ⟨index, indices, rfl⟩ : ∃ x xs, indices = x :: xs := by
      cases indices with
      | nil => simp at hidx
      | cons x xs => exact ⟨x, xs, rfl⟩
    simp only [List.map_cons, List.cons.injEq] at hidx
    simp only [vmmDescend, Option.bind_eq_some_iff] at h
    obtain ⟨⟨next, u⟩, hnext, h⟩ := h
    have hshort : a.length < 3 := by
      rw [List.length_cons] at hlen
      omega
    obtain ⟨g, hg, hwg, hgrown⟩ := vmmGetNextLevel_family ok hr hw hshort ht hidx.1 hp hf
      (hsup.right (vmmDescend_subset h)) hnext
    have hsup' : Supplied u t := hsup.left hgrown.subset hgrown.untouched
    obtain ⟨k, hk, hwk, hgrown'⟩ := ih hidx.2 hgrown.ok hwg hg
      (by simp only [List.length_append, List.length_cons, List.length_nil] at hlen ⊢; omega) hsup' h
    rw [List.append_assoc, List.singleton_append] at hwk
    exact ⟨k, hk, hwk, hgrown.trans hgrown' hlen⟩

end Grow

section Calls
variable {s t u : Paging} {roots : Set ℕ} {shared : Set TableIndex} {r g : ℕ} {a : List TableIndex}
  {i : TableIndex} {topLevel p v flags e ret : ULONG64}

/-- What setting the entry of one page through the pagemap `r` does: missing tables are made, and
the entry changes in the pagemaps that share it. -/
structure EntrySet (s t : Paging) (roots : Set ℕ) (shared : Set TableIndex) (r : ℕ)
    (v e flags : ULONG64) : Prop where
  ok : FamilyOk t roots shared
  free : t.pmm.freeList = s.pmm.freeList.drop (missing s r [] (pathOf v))
  untouched : ∀ q ∈ t.pmm.freeList, tables t.mem q = tables s.mem q
  set : ∀ r' ∈ roots, r' = r ∨ Radix.Within shared (pathOf v) → ∀ w, pageOf w = pageOf v →
    leafEntry t r' w = e
  kept : ∀ r' ∈ roots, ∀ w, pageOf w ≠ pageOf v → leafEntry t r' w = leafEntry s r' w
  others : ∀ r' ∈ roots, ¬(r' = r ∨ Radix.Within shared (pathOf v)) → ∀ b j, b.length ≤ 3 →
    leafAt t r' b j = leafAt s r' b j
  walks : ∀ b, b.length ≤ 3 → ((tableWalk t r b).isSome ↔ (tableWalk s r b).isSome ∨ b <+: pathOf v)
  made : ∀ b j, b.length < 3 →
    leafAt t r b j = leafAt s r b j ∨ permission (leafAt t r b j) = permission flags

/-- Storing the last-level entry of the address after a descent along its path. -/
lemma Grown.entrySet (h : Grown s u roots shared r [] (pathOf v) flags) (hr : r ∈ roots)
    (hw : tableWalk u r (pathOf v) = some g) (hpmm : t.pmm = u.pmm)
    (hmem : tables t.mem = Radix.write (tables u.mem) g (levelIndex v 12) e) :
    EntrySet s t roots shared r v e flags := by
  obtain ⟨hforest, hwalk, hother⟩ :=
    h.ok.forest.write_leaf (i := levelIndex v 12) (e := e) hr rfl (by decide) hw
  have hnil : pathOf v = [] ++ pathOf v := rfl
  have hleaf : ∀ r' ∈ roots, r' = r ∨ Radix.Within shared (pathOf v) → ∀ w, leafEntry t r' w =
      if pathOf w = pathOf v ∧ levelIndex w 12 = levelIndex v 12 then e else leafEntry u r' w := by
    intro r' hr' hs w
    rw [leafEntry, leafAt, hmem]
    exact Radix.lookup_write_leaf (h.ok.forest.separate hr') rfl
      (h.ok.forest.walk_of_shows hr hr' hw hs) _ le_rfl _
  refine ⟨⟨?_, fun r' hr' b f hb hf => ?_⟩, ?_, fun q hq => ?_, fun r' hr' hs w hpage => ?_,
    fun r' hr' w hpage => ?_, fun r' hr' hs b j hb => ?_, fun b hb => ?_, fun b j hb => ?_⟩
  · rw [hmem]
    exact hforest
  · rw [tableWalk, hmem, hwalk r' hr' b hb] at hf
    rw [hpmm]
    exact h.ok.reserved r' hr' b f hb hf
  · rw [hpmm, h.free]
  · rw [hpmm] at hq
    have hqg : q ≠ g := by
      rintro rfl
      have hused := h.ok.reserved r hr (pathOf v) q le_rfl hw
      simp [free_of_mem_freeList hq] at hused
    funext j
    rw [hmem, Radix.write_of_ne hqg, h.untouched q hq]
  · rw [hleaf r' hr' hs w, if_pos ((pageOf_eq_iff w v).mp hpage)]
  · have hu : leafEntry u r' w = leafEntry s r' w := h.leaves r' hr' _ _ rfl
    by_cases hs : r' = r ∨ Radix.Within shared (pathOf v)
    · rw [hleaf r' hr' hs w, if_neg (leaf_ne hpage), hu]
    · rw [← hu, leafEntry, leafAt, hmem]
      exact hother r' hr' hs _ _ _ le_rfl
  · rw [leafAt, hmem, hother r' hr' hs _ b j hb]
    exact h.others r' hr' (hnil ▸ hs) b j hb
  · rw [tableWalk, hmem, hwalk r hr b hb, ← tableWalk, h.walks b hb]
    simp
  · have hsame : leafAt t r b j = leafAt u r b j := by
      rw [leafAt, hmem, Radix.lookup_write_leaf (h.ok.forest.separate hr) rfl hw _ hb.le, if_neg]
      rintro ⟨rfl, _⟩
      exact Nat.lt_irrefl 3 hb
    rw [hsame]
    exact h.made b j hb

lemma descend_family (ok : FamilyOk s roots shared) (hr : r ∈ roots) (htop : PointsTo topLevel r)
    (hp : present flags = true) (hf : flags.toNat < pageSize) (hsup : Supplied s t)
    (h : vmmDescend flags s topLevel (upperEntries v) = some (ret, t)) :
    ∃ g, PointsTo ret g ∧ tableWalk t r (pathOf v) = some g ∧
      Grown s t roots shared r [] (pathOf v) flags :=
  vmmDescend_family hr hp hf (pathOf v) (a := []) (upperEntries_toNat v) ok rfl htop le_rfl hsup h

/-- `vmm_map_page` through one pagemap of a family. -/
theorem vmmMapPage_family (ok : FamilyOk s roots shared) (hr : r ∈ roots) (htop : PointsTo topLevel r)
    (hp : present flags = true) (hf : flags.toNat < pageSize) (hsup : Supplied s t)
    (h : vmmMapPage s topLevel p v flags = some t) : EntrySet s t roots shared r v (p ||| flags) flags := by
  simp only [vmmMapPage, Option.map_eq_some_iff] at h
  obtain ⟨⟨pml1, u⟩, hd, rfl⟩ := h
  obtain ⟨g, hg, hw, hgrown⟩ := descend_family (t := u) ok hr htop hp hf hsup hd
  refine hgrown.entrySet hr hw rfl ?_
  simp only [entryAt_eq hg (leafWord_toNat v)]
  exact tables_update _ _ _ _

/-- `vmm_unmap_page` through one pagemap of a family. -/
theorem vmmUnmapPage_family (ok : FamilyOk s roots shared) (hr : r ∈ roots) (htop : PointsTo topLevel r)
    (hsup : Supplied s t) (h : vmmUnmapPage s topLevel v = some t) :
    EntrySet s t roots shared r v 0#64 0b111#64 := by
  simp only [vmmUnmapPage, Option.map_eq_some_iff] at h
  obtain ⟨⟨pml1, u⟩, hd, rfl⟩ := h
  obtain ⟨g, hg, hw, hgrown⟩ := descend_family (t := u) ok hr htop (by decide) (by decide) hsup hd
  refine hgrown.entrySet hr hw rfl ?_
  simp only [entryAt_eq hg (leafWord_toNat v)]
  exact tables_update _ _ _ _

/-- `vmm_virt_to_phys` through one pagemap of a family makes tables and nothing else. -/
theorem vmmVirtToPhys_family (ok : FamilyOk s roots shared) (hr : r ∈ roots) (htop : PointsTo topLevel r)
    (hsup : Supplied s t) (h : vmmVirtToPhys s topLevel v = some (ret, t)) :
    Grown s t roots shared r [] (pathOf v) 0b111#64 := by
  simp only [vmmVirtToPhys, Option.map_eq_some_iff] at h
  obtain ⟨⟨pml1, u⟩, hd, heq⟩ := h
  cases heq
  obtain ⟨g, _, _, hgrown⟩ := descend_family ok hr htop (by decide) (by decide) hsup hd
  exact hgrown

lemma vmmMapPage_subset (h : vmmMapPage s topLevel p v flags = some t) :
    t.pmm.freeList ⊆ s.pmm.freeList := by
  simp only [vmmMapPage, Option.map_eq_some_iff] at h
  obtain ⟨⟨pml1, u⟩, hd, rfl⟩ := h
  exact vmmDescend_subset (t := u) hd

lemma vmmVirtToPhys_subset (h : vmmVirtToPhys s topLevel v = some (ret, t)) :
    t.pmm.freeList ⊆ s.pmm.freeList := by
  simp only [vmmVirtToPhys, Option.map_eq_some_iff] at h
  obtain ⟨⟨pml1, u⟩, hd, heq⟩ := h
  cases heq
  exact vmmDescend_subset hd

end Calls
end Open98.Mm
