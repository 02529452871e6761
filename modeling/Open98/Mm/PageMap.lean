import Open98.Library.Run
import Open98.Mm.PageTables

/-! Runs of the page-table calls on one pagemap. Their purpose is a finite map from page
numbers to physical pages; the tables implement it as long as the page frames that become
tables are zero-filled when they are taken. -/
namespace Open98.Mm
open Open98.Library

section Leaf
variable {s u t : Paging} {top g : ℕ} {a b : List TableIndex} {i j : TableIndex} {e : ULONG64}

/-- Writing the last-level entry at the end of the path. -/
lemma Extends.leaf_store (h : Extends s u top) (ha : a.length = 3) (hc : Cursor u top a g)
    (hmem : tables t.mem = Radix.write (tables u.mem) g i e) (hpmm : t.pmm = u.pmm)
    (hsub : ∀ x ∈ u.installed, x ∈ t.installed)
    (he : e = 0#64 ∨ (g*pageSize + 8*i.val, e) ∈ t.installed) :
    TablesOk t top ∧
      (∀ b j, b.length = 3 → ¬(b = a ∧ j = i) → leafAt t top b j = leafAt s top b j) ∧
      (tableWalk u top a = some g → leafAt t top a i = e) := by
  have hwalk : ∀ b, b.length ≤ 3 →
      Radix.walk child (Radix.write (tables u.mem) g i e) top b = tableWalk u top b := by
    intro b hb
    rcases hc with hw | ⟨_, hun, _, _⟩
    · exact Radix.walk_write_leaf h.ok.separate ha hw hb
    · exact Radix.walk_write_detached hun hb
  refine ⟨⟨?_, fun b f hb hf => ?_, fun b f j hb hf => ?_⟩, fun b j hb hne => ?_, fun hw => ?_⟩
  · rw [hmem]
    exact h.ok.separate.of_walk_eq hwalk
  · rw [tableWalk, hmem, hwalk b hb] at hf
    rw [hpmm]
    exact h.ok.reserved b f hb hf
  · rw [tableWalk, hmem, hwalk b hb] at hf
    rw [hmem]
    by_cases hcell : f = g ∧ j = i
    · obtain ⟨rfl, rfl⟩ := hcell
      simpa using he
    · rw [show Radix.write (tables u.mem) g i e f j = tables u.mem f j from if_neg hcell]
      exact (h.ok.known b f j hb hf).imp_right (hsub _)
  · rw [leafAt, hmem, ← h.leaves b j hb]
    rcases hc with hw | ⟨_, hun, _, _⟩
    · rw [Radix.lookup_write_leaf h.ok.separate ha hw _ hb.le, if_neg hne]
    · exact Radix.lookup_write_detached hun _ hb.le j
  · rw [leafAt, hmem, Radix.lookup_write_leaf h.ok.separate ha hw _ ha.le]
    simp

end Leaf

lemma upperEntries_toNat (v : ULONG64) :
    (upperEntries v).map (·.toNat) = (pathOf v).map (·.val) := by
  simp only [upperEntries, pathOf, levelIndex, List.map_cons, List.map_nil]
  rw [toNat_pmlEntry v 39 (by decide), toNat_pmlEntry v 30 (by decide), toNat_pmlEntry v 21 (by decide)]

/-- The last-level entry of an address. -/
def leafEntry (s : Paging) (top : ℕ) (v : ULONG64) : ULONG64 :=
  leafAt s top (pathOf v) (levelIndex v 12)

/-- What the processor finds when it walks the tables for an address. -/
def translate (s : Paging) (top : ℕ) (v : ULONG64) : Option ULONG64 :=
  if present (leafEntry s top v) then some (leafEntry s top v) else none

section Calls
variable {s t : Paging} {top : ℕ} {topLevel p v flags r : ULONG64}

/-- The tables that a call for the address will create are made of blank pages. -/
abbrev FreshFor (s : Paging) (top : ℕ) (v flags : ULONG64) : Prop :=
  FreshTables s top [] (pathOf v) flags

lemma leaf_ne {w : ULONG64} (h : pageOf w ≠ pageOf v) :
    ¬(pathOf w = pathOf v ∧ levelIndex w 12 = levelIndex v 12) := fun hc =>
  h ((pageOf_eq_iff w v).mpr hc)

lemma leafEntry_congr {w : ULONG64} (h : pageOf w = pageOf v) :
    leafEntry s top w = leafEntry s top v := by
  obtain ⟨hp, hi⟩ := (pageOf_eq_iff w v).mp h
  rw [leafEntry, hp, hi, leafEntry]

lemma descend_top (ok : TablesOk s top) (htop : PointsTo topLevel top) (hfresh : FreshFor s top v flags)
    (h : vmmDescend flags s topLevel (upperEntries v) = some (r, t)) :
    ∃ g, PointsTo r g ∧ Extends s t top ∧ Cursor t top (pathOf v) g ∧
      (present flags = true → tableWalk t top (pathOf v) = some g) := by
  obtain ⟨g, hg, hext, hcur, hlink⟩ := vmmDescend_spec (pathOf v) (a := []) (upperEntries_toNat v)
    ok (.inl rfl) htop (by simp [pathOf]) hfresh h
  exact ⟨g, hg, hext, hcur, fun hp => hlink hp rfl⟩

lemma leafWord_toNat (v : ULONG64) : (pmlEntry v 12).toNat = (levelIndex v 12).val :=
  toNat_pmlEntry v 12 (by decide)

/-- `vmm_map_page` sets the entry of its page and keeps those of all other pages. -/
theorem vmmMapPage_spec (ok : TablesOk s top) (htop : PointsTo topLevel top)
    (hfresh : FreshFor s top v flags) (h : vmmMapPage s topLevel p v flags = some t) :
    TablesOk t top ∧ (∀ w, pageOf w ≠ pageOf v → leafEntry t top w = leafEntry s top w) ∧
      (present flags = true → leafEntry t top v = p ||| flags) := by
  simp only [vmmMapPage, Option.map_eq_some_iff] at h
  obtain ⟨⟨pml1, u⟩, hd, rfl⟩ := h
  obtain ⟨g, hg, hext, hcur, hlink⟩ := descend_top ok htop hfresh hd
  simp only [entryAt_eq hg (leafWord_toNat v)]
  obtain ⟨hok, hother, hset⟩ := hext.leaf_store (t := u.install (g*pageSize + 8*(levelIndex v 12).val) (p ||| flags))
    rfl hcur (tables_update _ _ _ _) rfl (fun x hx => List.mem_cons_of_mem _ hx) (.inr (by simp [Paging.install]))
  exact ⟨hok, fun w hw => hother _ _ rfl (leaf_ne hw), fun hp => hset (hlink hp)⟩

/-- `vmm_unmap_page` clears the entry of its page and keeps those of all other pages. -/
theorem vmmUnmapPage_spec (ok : TablesOk s top) (htop : PointsTo topLevel top)
    (hfresh : FreshFor s top v 0b111#64) (h : vmmUnmapPage s topLevel v = some t) :
    TablesOk t top ∧ (∀ w, pageOf w ≠ pageOf v → leafEntry t top w = leafEntry s top w) ∧
      leafEntry t top v = 0#64 := by
  simp only [vmmUnmapPage, Option.map_eq_some_iff] at h
  obtain ⟨⟨pml1, u⟩, hd, rfl⟩ := h
  obtain ⟨g, hg, hext, hcur, hlink⟩ := descend_top ok htop hfresh hd
  simp only [entryAt_eq hg (leafWord_toNat v)]
  obtain ⟨hok, hother, hset⟩ := hext.leaf_store (t := u.store (g*pageSize + 8*(levelIndex v 12).val) 0#64)
    rfl hcur (tables_update _ _ _ _) rfl (fun x hx => hx) (.inl rfl)
  exact ⟨hok, fun w hw => hother _ _ rfl (leaf_ne hw), hset (hlink (by decide))⟩

/-- `vmm_virt_to_phys` reads the entry of the page and keeps those of all pages, although it
creates the missing tables. -/
theorem vmmVirtToPhys_spec (ok : TablesOk s top) (htop : PointsTo topLevel top)
    (hfresh : FreshFor s top v 0b111#64) (h : vmmVirtToPhys s topLevel v = some (r, t)) :
    TablesOk t top ∧ (∀ w, leafEntry t top w = leafEntry s top w) ∧
      r = if present (leafEntry s top v) then entryAddress (leafEntry s top v) else 0#64 := by
  simp only [vmmVirtToPhys, Option.map_eq_some_iff] at h
  obtain ⟨⟨pml1, u⟩, hd, heq⟩ := h
  obtain ⟨g, hg, hext, hcur, hlink⟩ := descend_top ok htop hfresh hd
  simp only [entryAt_eq hg (leafWord_toNat v), Prod.mk.injEq] at heq
  obtain ⟨rfl, rfl⟩ := heq
  have hleaf : u.mem (g*pageSize + 8*(levelIndex v 12).val) = leafEntry s top v := by
    have hwalk : Radix.walk child (tables u.mem) top (pathOf v) = some g := hlink (by decide)
    rw [leafEntry, ← hext.leaves _ _ rfl, leafAt, Radix.lookup, hwalk]
    rfl
  exact ⟨hext.ok, fun w => hext.leaves _ _ rfl, by rw [hleaf]⟩

end Calls

inductive VmmOp
  | mapPage (physicalAddress virtualAddress flags : ULONG64)
  | unmapPage (virtualAddress : ULONG64)
  | virtToPhys (virtualAddress : ULONG64)
  deriving DecidableEq, Repr

namespace VmmOp

def virtualAddress : VmmOp → ULONG64
  | mapPage _ v _ => v
  | unmapPage v => v
  | virtToPhys v => v

/-- The flags that new table entries get. -/
def flags : VmmOp → ULONG64
  | mapPage _ _ flags => flags
  | _ => 0b111#64

/-- One call on the pagemap; `none` when the allocator runs out of pages and halts. -/
def apply (topLevel : ULONG64) (s : Paging) : VmmOp → Option Paging
  | mapPage p v flags => vmmMapPage s topLevel p v flags
  | unmapPage v => vmmUnmapPage s topLevel v
  | virtToPhys v => (vmmVirtToPhys s topLevel v).map (·.2)

/-- The call makes its tables of blank pages. -/
def Fresh (top : ℕ) (s : Paging) (o : VmmOp) : Prop := FreshFor s top o.virtualAddress o.flags

end VmmOp

/-- A pagemap whose top-level page is reserved and zeroed. -/
structure ZeroedPagemap (s : Paging) (topLevel : ULONG64) (top : ℕ) : Prop where
  points : PointsTo topLevel top
  blank : Blank s.mem top
  reserved : s.pmm.used top = true

lemma ZeroedPagemap.walk {s : Paging} {topLevel : ULONG64} {top : ℕ} (h : ZeroedPagemap s topLevel top)
    (a : List TableIndex) : tableWalk s top a = if a = [] then some top else none := by
  cases a with
  | nil => rfl
  | cons i a => simp [tableWalk, h.blank i]

lemma ZeroedPagemap.ok {s : Paging} {topLevel : ULONG64} {top : ℕ} (h : ZeroedPagemap s topLevel top) :
    TablesOk s top := by
  refine ⟨fun a b t _ _ ha hb => ?_, fun a f _ hf => ?_, fun a f i _ hf => ?_⟩
  · rw [← tableWalk, h.walk] at ha hb
    simp only [Option.ite_none_right_eq_some] at ha hb
    rw [ha.1, hb.1]
  · rw [h.walk, Option.ite_none_right_eq_some, Option.some.injEq] at hf
    rw [← hf.2]
    exact h.reserved
  · rw [h.walk, Option.ite_none_right_eq_some, Option.some.injEq] at hf
    rw [← hf.2]
    exact .inl (h.blank i)

lemma ZeroedPagemap.leafEntry {s : Paging} {topLevel : ULONG64} {top : ℕ}
    (h : ZeroedPagemap s topLevel top) (v : ULONG64) : leafEntry s top v = 0#64 := by
  have hw : Radix.walk child (tables s.mem) top (pathOf v) = none := by
    rw [← tableWalk, h.walk]
    simp [pathOf]
  rw [Mm.leafEntry, leafAt, Radix.lookup, hw]
  rfl

lemma VmmOp.tablesOk {s t : Paging} {topLevel : ULONG64} {top : ℕ} {o : VmmOp} (ok : TablesOk s top)
    (htop : PointsTo topLevel top) (hfresh : o.Fresh top s) (h : o.apply topLevel s = some t) :
    TablesOk t top := by
  cases o with
  | mapPage p v flags => exact (vmmMapPage_spec ok htop hfresh h).1
  | unmapPage v => exact (vmmUnmapPage_spec ok htop hfresh h).1
  | virtToPhys v =>
    simp only [VmmOp.apply, Option.map_eq_some_iff] at h
    obtain ⟨⟨r, u⟩, h, rfl⟩ := h
    exact (vmmVirtToPhys_spec ok htop hfresh h).1

/-- In every run whose calls make their tables of blank pages, a reachable table holds nothing
but installed entries and zeros, and mapping a page changes no other translation. -/
theorem reachable_entries_installed (s : Paging) (topLevel : ULONG64) (top : ℕ) (ops : List VmmOp)
    (t : Paging) (h0 : ZeroedPagemap s topLevel top)
    (h : GuardedRun (VmmOp.Fresh top) (VmmOp.apply topLevel) s ops t) :
    (∀ a f i, a.length ≤ 3 → tableWalk t top a = some f →
      tables t.mem f i = 0#64 ∨ (f*pageSize + 8*i.val, tables t.mem f i) ∈ t.installed) ∧
    (∀ p v flags u, FreshFor t top v flags → vmmMapPage t topLevel p v flags = some u →
      (∀ w, pageOf w ≠ pageOf v → translate u top w = translate t top w) ∧
      (present flags = true → leafEntry u top v = p ||| flags)) := by
  have ok : TablesOk t top :=
    h.invariant (fun s o t ok hf hs => o.tablesOk ok h0.points hf hs) h0.ok
  refine ⟨ok.known, fun p v flags u hfresh hmap => ?_⟩
  obtain ⟨_, hother, hset⟩ := vmmMapPage_spec ok h0.points hfresh hmap
  exact ⟨fun w hw => by rw [translate, hother w hw, translate], hset⟩

/-- Page frame 1 is a zeroed top level and frame 2 is the next free page. -/
def oneFramePaging (mem : ℕ → ULONG64) : Paging :=
  ⟨mem, ⟨Function.update (fun _ => 0#8) 0 0b11#8, 16*pageSize, by decide⟩, []⟩

theorem reachable_entries_installed_one_map :
    ∃ t, vmmMapPage (oneFramePaging fun _ => 0#64) 0x1000#64 0x9000#64 0x400000#64 0b11#64 = some t ∧
      ∀ a f i, a.length ≤ 3 → tableWalk t 1 a = some f →
        tables t.mem f i = 0#64 ∨ (f*pageSize + 8*i.val, tables t.mem f i) ∈ t.installed := by
  refine ⟨_, rfl, (reachable_entries_installed (oneFramePaging fun _ => 0#64) 0x1000#64 1
    [.mapPage 0x9000#64 0x400000#64 0b11#64] _ ⟨rfl, fun _ => rfl, by decide⟩
    (.cons ⟨fun q _ i => rfl, fun _ => ?_⟩ rfl (.nil _))).1⟩
  exact show (0b11#64).toNat < pageSize by decide

/-- Memory in which frame 2 still holds an entry from an earlier use. -/
def staleMemory : ℕ → ULONG64 := Function.update (fun _ => 0#64) (2*pageSize + 8*7) 0x5003#64

/-- One call of `vmm_map_page` hangs the frame with the old entry into the top level. -/
theorem stale_entry_reachable :
    ¬ ∀ (s : Paging) (topLevel : ULONG64) (top : ℕ) (ops : List VmmOp) (t : Paging),
      ZeroedPagemap s topLevel top →
      GuardedRun (fun _ _ => True) (VmmOp.apply topLevel) s ops t →
        ∀ a f i, a.length ≤ 3 → tableWalk t top a = some f →
          tables t.mem f i = 0#64 ∨ (f*pageSize + 8*i.val, tables t.mem f i) ∈ t.installed := by
  intro claim
  have hblank : Blank (oneFramePaging staleMemory).mem 1 := by
    intro i
    have hi := i.isLt
    have hne : 1*pageSize + 8*i.val ≠ 2*pageSize + 8*7 := by simp only [pageSize]; omega
    exact Function.update_of_ne hne _ (fun _ : ℕ => 0#64)
  have h := claim (oneFramePaging staleMemory) 0x1000#64 1 [.mapPage 0x9000#64 0#64 0b11#64] _
    ⟨rfl, hblank, by decide⟩ (.cons trivial rfl (.nil _)) [0] 2 7 (by decide) (by decide)
  exact absurd h (by decide)

/-- What a pagemap is for: a physical page for some of the page numbers. -/
abbrev PageMap := ℕ → Option ULONG64

/-- The effect of a call on the map. -/
def VmmOp.onMap (m : PageMap) : VmmOp → PageMap
  | mapPage p v _ => Function.update m (pageOf v) (some p)
  | unmapPage v => Function.update m (pageOf v) none
  | virtToPhys _ => m

/-- Page-aligned physical addresses and twelve flag bits, with the present bit among them. -/
def VmmOp.WellFormed : VmmOp → Prop
  | mapPage p _ flags => p.toNat % pageSize = 0 ∧ flags.toNat < pageSize ∧ present flags = true
  | _ => True

/-- The pages that the call takes for tables are zero-filled. -/
def VmmOp.ZeroFilled (top : ℕ) (s : Paging) (o : VmmOp) : Prop :=
  ∀ q ∈ s.pmm.freeList.take (missing s top [] (pathOf o.virtualAddress)), Blank s.mem q

lemma VmmOp.fresh_of_wellFormed {s : Paging} {top : ℕ} {o : VmmOp} (hw : o.WellFormed)
    (hz : o.ZeroFilled top s) : o.Fresh top s := by
  refine ⟨hz, fun _ => ?_⟩
  cases o with
  | mapPage p v flags => exact hw.2.1
  | unmapPage v => exact show (0b111#64).toNat < pageSize by decide
  | virtToPhys v => exact show (0b111#64).toNat < pageSize by decide

/-- The entry that stands for a value of the map. -/
def Encodes (e : ULONG64) : Option ULONG64 → Prop
  | none => e = 0#64
  | some p => ∃ flags, p.toNat % pageSize = 0 ∧ flags.toNat < pageSize ∧ present flags = true ∧
      e = p ||| flags

lemma Encodes.read {e : ULONG64} {o : Option ULONG64} (h : Encodes e o) :
    (if present e then entryAddress e else 0#64) = o.getD 0#64 := by
  cases o with
  | none =>
    obtain rfl : e = 0#64 := h
    simp
  | some p =>
    obtain ⟨flags, hp, hf, hpres, rfl⟩ := h
    rw [present_or_flags hp, hpres, if_pos rfl, entryAddress_or_flags hp hf]
    rfl

/-- The tables implement the map. -/
structure Refines (top : ℕ) (s : Paging) (m : PageMap) : Prop where
  ok : TablesOk s top
  encodes : ∀ v, Encodes (leafEntry s top v) (m (pageOf v))

/-- Each call on the tables has the effect of the call on the map. -/
lemma Refines.step {s t : Paging} {topLevel : ULONG64} {top : ℕ} {m : PageMap} {o : VmmOp}
    (hr : Refines top s m) (htop : PointsTo topLevel top) (hw : o.WellFormed)
    (hz : o.ZeroFilled top s) (h : o.apply topLevel s = some t) : Refines top t (o.onMap m) := by
  have hf := VmmOp.fresh_of_wellFormed hw hz
  cases o with
  | mapPage p v flags =>
    have hfresh : FreshFor s top v flags := hf
    obtain ⟨hok, hother, hset⟩ := vmmMapPage_spec hr.ok htop hfresh h
    refine ⟨hok, fun w => ?_⟩
    by_cases hpage : pageOf w = pageOf v
    · rw [VmmOp.onMap, hpage, Function.update_self, leafEntry_congr hpage, hset hw.2.2]
      exact ⟨flags, hw.1, hw.2.1, hw.2.2, rfl⟩
    · rw [VmmOp.onMap, Function.update_of_ne hpage, hother w hpage]
      exact hr.encodes w
  | unmapPage v =>
    have hfresh : FreshFor s top v 0b111#64 := hf
    obtain ⟨hok, hother, hset⟩ := vmmUnmapPage_spec hr.ok htop hfresh h
    refine ⟨hok, fun w => ?_⟩
    by_cases hpage : pageOf w = pageOf v
    · rw [VmmOp.onMap, hpage, Function.update_self, leafEntry_congr hpage, hset]
      rfl
    · rw [VmmOp.onMap, Function.update_of_ne hpage, hother w hpage]
      exact hr.encodes w
  | virtToPhys v =>
    simp only [VmmOp.apply, Option.map_eq_some_iff] at h
    obtain ⟨⟨r, u⟩, h, rfl⟩ := h
    obtain ⟨hok, hsame, _⟩ := vmmVirtToPhys_spec hr.ok htop hf h
    exact ⟨hok, fun w => by rw [hsame w]; exact hr.encodes w⟩

lemma Refines.lookup {s t : Paging} {topLevel : ULONG64} {top : ℕ} {m : PageMap} {v r : ULONG64}
    (hr : Refines top s m) (htop : PointsTo topLevel top) (hz : (VmmOp.virtToPhys v).ZeroFilled top s)
    (h : vmmVirtToPhys s topLevel v = some (r, t)) : r = (m (pageOf v)).getD 0#64 := by
  have hfresh : FreshFor s top v 0b111#64 := VmmOp.fresh_of_wellFormed (o := .virtToPhys v) trivial hz
  rw [(vmmVirtToPhys_spec hr.ok htop hfresh h).2.2, (hr.encodes v).read]

/-- After any run of well-formed calls that are given zero-filled pages for tables, a lookup
returns the value of the map that the calls describe, and a call for another page would not
have changed it. -/
theorem vmm_refines_page_map (s : Paging) (topLevel : ULONG64) (top : ℕ) (ops : List VmmOp)
    (t : Paging) (h0 : ZeroedPagemap s topLevel top)
    (h : GuardedRun (fun s o => o.WellFormed ∧ o.ZeroFilled top s) (VmmOp.apply topLevel) s ops t)
    (v r : ULONG64) (u : Paging) (hz : (VmmOp.virtToPhys v).ZeroFilled top t)
    (hq : vmmVirtToPhys t topLevel v = some (r, u)) :
    r = ((ops.foldl VmmOp.onMap fun _ => none) (pageOf v)).getD 0#64 ∧
      ∀ (o : VmmOp) t' r' u', o.WellFormed → o.ZeroFilled top t → o.apply topLevel t = some t' →
        pageOf o.virtualAddress ≠ pageOf v → (VmmOp.virtToPhys v).ZeroFilled top t' →
        vmmVirtToPhys t' topLevel v = some (r', u') → r' = r := by
  have hstart : Refines top s fun _ => none := ⟨h0.ok, h0.leafEntry⟩
  have hr : Refines top t (ops.foldl VmmOp.onMap fun _ => none) :=
    h.simulates (fun _ _ _ _ hr ok next => hr.step h0.points ok.1 ok.2 next) hstart
  refine ⟨hr.lookup h0.points hz hq, fun o t' r' u' hw hzo happ hpage hz' hq' => ?_⟩
  rw [(hr.step h0.points hw hzo happ).lookup h0.points hz' hq', hr.lookup h0.points hz hq]
  have hsame : ∀ m : PageMap, o.onMap m (pageOf v) = m (pageOf v) := by
    intro m
    cases o with
    | mapPage p w flags => exact Function.update_of_ne hpage.symm _ _
    | unmapPage w => exact Function.update_of_ne hpage.symm _ _
    | virtToPhys w => rfl
  rw [hsame]

/-- The state after one call of `vmm_map_page` on zero-filled memory. -/
def onePageMapped : Paging :=
  (vmmMapPage (oneFramePaging fun _ => 0#64) 0x1000#64 0x9000#64 0x400000#64 0b11#64).getD
    (oneFramePaging fun _ => 0#64)

theorem vmm_refines_page_map_one_map :
    ∃ r u, vmmVirtToPhys onePageMapped 0x1000#64 0x400000#64 = some (r, u) ∧ r = 0x9000#64 := by
  have hzero : (VmmOp.mapPage 0x9000#64 0x400000#64 0b11#64).ZeroFilled 1 (oneFramePaging fun _ => 0#64) :=
    fun q _ i => rfl
  have hrun : GuardedRun (fun s o => o.WellFormed ∧ o.ZeroFilled 1 s) (VmmOp.apply 0x1000#64)
      (oneFramePaging fun _ => 0#64) [.mapPage 0x9000#64 0x400000#64 0b11#64] onePageMapped :=
    .cons ⟨⟨by decide, by decide, by decide⟩, hzero⟩ rfl (.nil _)
  have hnone : missing onePageMapped 1 [] (pathOf 0x400000#64) = 0 := by decide
  have hquery : (VmmOp.virtToPhys 0x400000#64).ZeroFilled 1 onePageMapped := by
    intro q hq
    simp [VmmOp.virtualAddress, hnone] at hq
  exact ⟨_, _, rfl, (vmm_refines_page_map (oneFramePaging fun _ => 0#64) 0x1000#64 1 _ onePageMapped
    ⟨rfl, fun _ => rfl, by decide⟩ hrun 0x400000#64 _ _ hquery rfl).1.trans (by decide)⟩

end Open98.Mm
