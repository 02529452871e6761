import Open98.Library.Run
import Open98.Mm.Permissions
import Open98.Mm.VmmInit

/-! The kernel's pagemap and those that `vmm_create_new_pagemap` makes: what they share and what
they have to themselves, over every run of creations, mappings and unmappings. -/
namespace Open98.Mm
open Open98.Library

/-- What `vmm_create_new_pagemap` reads of `KiVBEData`. -/
structure KvbeStructure where
  address : ULONG64
  width : BitVec 32
  height : BitVec 32

/-- `( uintptr_t )( Width * Height * sizeof( uint32_t ) )`; the product of the two is an `INT`. -/
def KvbeStructure.bytes (vbe : KvbeStructure) : ULONG64 := (vbe.width * vbe.height).signExtend 64 * 4#64

/-- `vmm_create_new_pagemap`, from the state that `kcalloc` leaves behind. -/
def vmmCreateNewPagemap (vbe : KvbeStructure) (kernelTop : ULONG64) (s : Paging) :
    Option (ULONG64 × Paging) :=
  (s.pcalloc 1).bind fun (userTop, s) =>
    (forLoop 256 512 1 (fun s i =>
      some (s.store (entryAt userTop i) (s.mem (entryAt kernelTop i)))) s).bind fun s =>
      -- beyond this limit the counter wraps around and the loop does not end
      if vbe.bytes.toNat + pageSize ≤ 2^64 then
        (forLoop 0 vbe.bytes.toNat pageSize (fun s i =>
          (vmmVirtToPhys s kernelTop vbe.address).bind fun (physical, s) =>
            (vmmVirtToPhys s kernelTop vbe.address).bind fun (virtual, s) =>
              vmmMapPage s userTop (physical + i) (virtual + i) 0b111#64) s).map fun s => (userTop, s)
      else none

/-- The top levels of `MiKernelPage` and, behind it, of the pagemaps created so far. -/
structure Pagemaps where
  paging : Paging
  maps : List ULONG64

/-- A call; the first pagemap is `MiKernelPage`. A creation comes with the state that its `kcalloc`
leaves behind. -/
inductive PagemapOp
  | createNewPagemap (vbe : KvbeStructure) (kcalloced : Paging)
  | mapPage (pagemap : ℕ) (physicalAddress virtualAddress flags : ULONG64)
  | unmapPage (pagemap : ℕ) (virtualAddress : ULONG64)

namespace Pagemaps

def step (m : Pagemaps) : PagemapOp → Option Pagemaps
  | .createNewPagemap vbe kcalloced => m.maps[0]?.bind fun kernelTop =>
    (vmmCreateNewPagemap vbe kernelTop kcalloced).map fun (top, s) => ⟨s, m.maps ++ [top]⟩
  | .mapPage n p v flags => m.maps[n]?.bind fun top =>
    (vmmMapPage m.paging top p v flags).map fun s => { m with paging := s }
  | .unmapPage n v => m.maps[n]?.bind fun top =>
    (vmmUnmapPage m.paging top v).map fun s => { m with paging := s }

/-- The state in which a call starts to use page tables. -/
def before (m : Pagemaps) : PagemapOp → Paging
  | .createNewPagemap _ kcalloced => kcalloced
  | _ => m.paging

/-- The frames of the top levels. -/
def roots (m : Pagemaps) : Set ℕ := {r | ∃ top ∈ m.maps, PointsTo top r}

/-- The heap writes to pages of its own: no table changes, and no page that is in use is freed. -/
structure HeapOnly (m : Pagemaps) (s : Paging) : Prop where
  tables : ∀ r ∈ m.roots, ∀ a f, a.length ≤ 3 → tableWalk m.paging r a = some f →
    tables s.mem f = tables m.paging.mem f
  used : ∀ k, m.paging.pmm.used k = true → s.pmm.used k = true

/-- The calls that are considered: flags are low bits with the present bit, `kcalloc` keeps to the
heap, and the pages that the call takes for tables are zero-filled. -/
def Regular (m : Pagemaps) (o : PagemapOp) : Prop :=
  (match o with
    | .createNewPagemap _ kcalloced => m.HeapOnly kcalloced
    | .mapPage _ _ _ flags => present flags = true ∧ flags.toNat < pageSize
    | .unmapPage _ _ => True) ∧
  ∀ m', m.step o = some m' → Supplied (m.before o) m'.paging

/-- The translation of an address in one of the pagemaps. -/
def translate (m : Pagemaps) (n : ℕ) (v : ULONG64) : Option ULONG64 :=
  m.maps[n]?.bind fun top => Mm.translate m.paging (top.toNat / pageSize) v

/-- What the processor allows on the address in one of the pagemaps. -/
def allowed (m : Pagemaps) (n : ℕ) (v : ULONG64) : Option ULONG64 :=
  m.maps[n]?.map fun top => effective m.paging (top.toNat / pageSize) v

end Pagemaps

/-- The pagemap and the address that a mapping or unmapping is about. -/
def PagemapOp.target : PagemapOp → Option (ℕ × ULONG64)
  | .createNewPagemap _ _ => none
  | .mapPage n _ v _ => some (n, v)
  | .unmapPage n v => some (n, v)

/-- Bit 47 of the address is set. -/
def UpperHalf (v : ULONG64) : Prop := v.getLsbD 47 = true

/-- The indices of the upper half of a top table. -/
def upperIndices : Set TableIndex := {i | 256 ≤ i.val}

lemma upperHalf_iff (v : ULONG64) : UpperHalf v ↔ Radix.Within upperIndices (pathOf v) := by
  have hbit : v.toNat / 2^39 % 512 / 256 = v.toNat / 2^47 % 2 := by omega
  rw [pathOf, Radix.within_cons, UpperHalf, BitVec.getLsbD, Nat.testBit_eq_decide_div_mod_eq,
    decide_eq_true_eq]
  change _ ↔ 256 ≤ v.toNat / 2^39 % 512
  omega

section Copy
variable {s t : Paging} {userTop kernelTop : ULONG64} {u k : ℕ}

/-- The loop that copies the upper half of the kernel's top table. -/
lemma copy_upper (hu : PointsTo userTop u) (hk : PointsTo kernelTop k) (hne : u ≠ k)
    (h : forLoop 256 512 1 (fun s i => some (s.store (entryAt userTop i) (s.mem (entryAt kernelTop i)))) s =
      some t) :
    t.pmm = s.pmm ∧ (∀ f, f ≠ u → tables t.mem f = tables s.mem f) ∧
      ∀ i : TableIndex, tables t.mem u i = if 256 ≤ i.val then tables s.mem k i else tables s.mem u i := by
  have hall := Loop.invariant (I := fun j w => w.pmm = s.pmm ∧ (∀ f, f ≠ u → tables w.mem f = tables s.mem f) ∧
    ∀ i : TableIndex, tables w.mem u i =
      if 256 ≤ i.val ∧ i.val < 256+j then tables s.mem k i else tables s.mem u i) h
    ⟨rfl, fun _ _ => rfl, fun i => (if_neg (by omega)).symm⟩ ?_
  · obtain ⟨hpmm, hother, hentries⟩ := hall
    refine ⟨hpmm, hother, fun i => ?_⟩
    have hi := i.isLt
    rw [hentries i]
    by_cases hup : 256 ≤ i.val
    · rw [if_pos hup, if_pos ⟨hup, hi⟩]
    · rw [if_neg hup, if_neg fun hc => hup hc.1]
  · rintro j w w' hj ⟨hpmm, hother, hentries⟩ hbody _
    have hj' : j < 256 := hj
    have hindex : (BitVec.ofNat 64 (256 + j*1)).toNat = (⟨256+j, by omega⟩ : TableIndex).val := by
      simp only [BitVec.toNat_ofNat]
      omega
    simp only [Option.some.injEq] at hbody
    subst hbody
    have hwrite : tables (w.store (entryAt userTop (BitVec.ofNat 64 (256 + j*1)))
        (w.mem (entryAt kernelTop (BitVec.ofNat 64 (256 + j*1))))).mem =
        Radix.write (tables w.mem) u ⟨256+j, by omega⟩ (tables w.mem k ⟨256+j, by omega⟩) := by
      rw [entryAt_eq hu hindex, entryAt_eq hk hindex]
      exact tables_update _ _ _ _
    refine ⟨hpmm, fun f hf => ?_, fun i => ?_⟩
    · funext i
      rw [hwrite, Radix.write_of_ne hf, hother f hf]
    · rw [hwrite]
      by_cases hi : i = ⟨256+j, by omega⟩
      · subst hi
        rw [Radix.write_same, hother k hne.symm, if_pos]
        exact ⟨Nat.le_add_right _ _, by simp⟩
      · have hival : i.val ≠ 256+j := fun hc => hi (Fin.ext hc)
        have hsame : (256 ≤ i.val ∧ i.val < 256+(j+1)) ↔ (256 ≤ i.val ∧ i.val < 256+j) := by omega
        rw [Radix.write_of_ne_index hi, hentries i]
        simp only [hsame]

end Copy

section Create
variable {s t : Paging} {roots : Set ℕ} {kernelTop userTop : ULONG64} {k q : ℕ} {vbe : KvbeStructure}

/-- A new top table with a copy of the upper half of another one joins the family. -/
lemma FamilyOk.join (ok : FamilyOk s roots upperIndices) (hk : k ∈ roots) (hq : s.pmm.used q = false)
    (hused : ∀ j, t.pmm.used j = (decide (j = q) || s.pmm.used j))
    (hmem : ∀ f, f ≠ q → tables t.mem f = tables s.mem f)
    (htop : ∀ i : TableIndex, tables t.mem q i = if 256 ≤ i.val then tables s.mem k i else 0#64) :
    FamilyOk t (insert q roots) upperIndices := by
  have hun := ok.unlinked_of_free hq
  have hforest : Radix.Forest child (tables t.mem) (insert q roots) upperIndices 3 := by
    refine ok.forest.insert hk hun hmem (fun i hi => ?_) fun i hi => ?_
    · exact (htop i).trans (if_pos hi)
    · rw [(htop i).trans (if_neg hi), child_zero]
  have hold : ∀ r ∈ roots, ∀ a f, a.length ≤ 3 → tableWalk t r a = some f → t.pmm.used f = true := by
    intro r hr a f ha hw
    have hsame : tableWalk t r a = tableWalk s r a := Radix.walk_congr a r fun c g hc hwc =>
      hmem g fun hg => hun r hr c (hc.le.trans ha) (hg ▸ hwc)
    rw [hsame] at hw
    rw [hused, ok.reserved r hr a f ha hw, Bool.or_true]
  refine ⟨hforest, ?_⟩
  rintro r (rfl | hr) a f ha hw
  · cases a with
    | nil =>
      obtain rfl : r = f := Option.some.inj hw
      simp [hused]
    | cons i a =>
      by_cases hi : i ∈ upperIndices
      · refine hold k hk (i :: a) f ha ?_
        rw [tableWalk, ← hforest.walk_eq (Set.mem_insert_of_mem _ hk) (Set.mem_insert _ _)
          (Radix.within_cons.mpr hi)]
        exact hw
      · have hlow : ¬ 256 ≤ i.val := hi
        rw [tableWalk, Radix.walk_cons, htop i, if_neg hlow, child_zero] at hw
        cases hw
  · exact hold r hr a f ha hw

/-- The body of the loop that maps the framebuffer. -/
lemma framebuffer_subset {s t : Paging} {v i : ULONG64}
    (h : ((vmmVirtToPhys s kernelTop v).bind fun (physical, s) =>
      (vmmVirtToPhys s kernelTop v).bind fun (virtual, s) =>
        vmmMapPage s userTop (physical + i) (virtual + i) 0b111#64) = some t) :
    t.pmm.freeList ⊆ s.pmm.freeList := by
  simp only [Option.bind_eq_some_iff] at h
  obtain ⟨⟨_, s1⟩, h1, ⟨_, s2⟩, h2, h3⟩ := h
  exact List.Subset.trans (vmmMapPage_subset h3)
    (List.Subset.trans (vmmVirtToPhys_subset h2) (vmmVirtToPhys_subset h1))

lemma framebuffer_round {s t : Paging} {v i : ULONG64} (ok : FamilyOk s roots upperIndices) (hk : k ∈ roots)
    (hq : q ∈ roots) (hkernel : PointsTo kernelTop k) (huser : PointsTo userTop q) (hsup : Supplied s t)
    (h : ((vmmVirtToPhys s kernelTop v).bind fun (physical, s) =>
      (vmmVirtToPhys s kernelTop v).bind fun (virtual, s) =>
        vmmMapPage s userTop (physical + i) (virtual + i) 0b111#64) = some t) :
    FamilyOk t roots upperIndices ∧ ∀ q ∈ t.pmm.freeList, tables t.mem q = tables s.mem q := by
  simp only [Option.bind_eq_some_iff] at h
  obtain ⟨⟨_, s1⟩, h1, ⟨_, s2⟩, h2, h3⟩ := h
  dsimp only at h2 h3
  have hsub3 := vmmMapPage_subset h3
  have hsub2 := vmmVirtToPhys_subset h2
  have hgrown1 := vmmVirtToPhys_family ok hk hkernel (hsup.right (List.Subset.trans hsub3 hsub2)) h1
  have hsup1 : Supplied s1 t := hsup.left hgrown1.subset hgrown1.untouched
  have hgrown2 := vmmVirtToPhys_family hgrown1.ok hk hkernel (hsup1.right hsub3) h2
  have hsup2 : Supplied s2 t := hsup1.left hgrown2.subset hgrown2.untouched
  have hset := vmmMapPage_family hgrown2.ok hq huser (by decide) (by decide) hsup2 h3
  refine ⟨hset.ok, fun f hf => ?_⟩
  rw [hset.untouched f hf, hgrown2.untouched f (hsub3 hf), hgrown1.untouched f (hsub2 (hsub3 hf))]

/-- `vmm_create_new_pagemap` adds a pagemap with a top table of its own to the family. -/
theorem vmmCreateNewPagemap_family (ok : FamilyOk s roots upperIndices) (hk : k ∈ roots)
    (hkernel : PointsTo kernelTop k) (hsup : Supplied s t)
    (h : vmmCreateNewPagemap vbe kernelTop s = some (userTop, t)) :
    ∃ q, PointsTo userTop q ∧ q ∉ roots ∧ FamilyOk t (insert q roots) upperIndices := by
  simp only [vmmCreateNewPagemap, Option.bind_eq_some_iff] at h
  obtain ⟨⟨userTop', u0⟩, hpc, u1, hcopy, h⟩ := h
  split_ifs at h with hbytes
  simp only [Option.map_eq_some_iff] at h
  obtain ⟨u2, hloop, heq⟩ := h
  simp only [Prod.mk.injEq] at heq
  obtain ⟨rfl, rfl⟩ := heq
  dsimp only at hcopy hloop
  obtain ⟨q, huser, hfree, hused, hmem, hblank⟩ := pcalloc_one hpc
  have hqfree : s.pmm.used q = false := free_of_mem_freeList (hfree ▸ List.mem_cons_self)
  have hun := ok.unlinked_of_free hqfree
  have hqroots : q ∉ roots := fun hr => hun q hr [] (by simp) rfl
  have hqk : q ≠ k := fun hc => hqroots (hc ▸ hk)
  obtain ⟨hpmm, hother, hentries⟩ := copy_upper huser hkernel hqk hcopy
  have hsub : u2.pmm.freeList ⊆ u1.pmm.freeList := loopFrom_subset (fun _ _ _ => framebuffer_subset) hloop
  have hfresh : q ∉ u0.pmm.freeList := by
    have hnodup := s.pmm.freeList_nodup
    rw [hfree] at hnodup
    exact (List.nodup_cons.mp hnodup).1
  rw [hpmm] at hsub
  have hqblank : Blank u0.mem q :=
    hblank (hsup q (hfree ▸ List.mem_cons_self) fun hin => hfresh (hsub hin))
  have hok : FamilyOk u1 (insert q roots) upperIndices := by
    refine ok.join hk hqfree (fun j => ?_) (fun f hf => ?_) fun i => ?_
    · rw [hpmm, hused]
    · rw [hother f hf, hmem f hf]
    · rw [hentries i, hqblank i, hmem k hqk.symm]
  have hsup1 : Supplied u1 u2 := by
    refine hsup.left ?_ fun f hf => ?_
    · rw [hpmm, hfree]
      exact List.subset_cons_self _ _
    · rw [hpmm] at hf
      have hfq : f ≠ q := fun hc => hfresh (hc ▸ hf)
      rw [hother f hfq, hmem f hfq]
  obtain ⟨hfinal, _⟩ := loop_supplied (I := fun _ u => FamilyOk u (insert q roots) upperIndices) hloop hsup1
    (fun _ _ _ => framebuffer_subset) hok fun _ _ _ _ hI hsupu =>
      framebuffer_round hI (Set.mem_insert_of_mem _ hk) (Set.mem_insert _ _) hkernel huser hsupu
  exact ⟨q, huser, hqroots, hfinal⟩

end Create

lemma PointsTo.frame_eq {t : ULONG64} {f : ℕ} (h : PointsTo t f) : t.toNat / pageSize = f := by
  rw [h]
  exact Nat.mul_div_cancel _ (by decide)

namespace Pagemaps

/-- The invariant of the runs. -/
structure Ok (m : Pagemaps) : Prop where
  some_map : m.maps ≠ []
  frames : ∀ top ∈ m.maps, PointsTo top (top.toNat / pageSize)
  distinct : m.maps.Nodup
  family : FamilyOk m.paging m.roots upperIndices

section Invariant
variable {m m' : Pagemaps} {o : PagemapOp} {n n' : ℕ} {top : ULONG64}

lemma mem_roots (hok : m.Ok) (h : m.maps[n]? = some top) : top.toNat / pageSize ∈ m.roots := by
  have hmem := List.mem_of_getElem? h
  exact ⟨top, hmem, hok.frames top hmem⟩

/-- Different pagemaps have different top tables. -/
lemma frame_ne (hok : m.Ok) {top' : ULONG64} (h : m.maps[n]? = some top) (h' : m.maps[n']? = some top')
    (hne : n' ≠ n) : top'.toNat / pageSize ≠ top.toNat / pageSize := by
  intro heq
  have htop := hok.frames top (List.mem_of_getElem? h)
  have htop' := hok.frames top' (List.mem_of_getElem? h')
  have hsame : top' = top := by
    apply BitVec.eq_of_toNat_eq
    rw [htop', htop, heq]
  obtain ⟨hlt, hget⟩ := List.getElem?_eq_some_iff.mp h
  obtain ⟨hlt', hget'⟩ := List.getElem?_eq_some_iff.mp h'
  exact hne (hok.distinct.getElem_inj_iff.mp (hget'.trans (hsame.trans hget.symm)))

/-- A call that sets one entry through a pagemap. -/
lemma Ok.entrySet {s : Paging} {v e flags : ULONG64} (hok : m.Ok)
    (he : EntrySet m.paging s m.roots upperIndices (top.toNat / pageSize) v e flags) :
    Ok { m with paging := s } :=
  ⟨hok.some_map, hok.frames, hok.distinct, he.ok⟩

/-- What a mapping or unmapping does to the tables. -/
lemma step_entrySet (hok : m.Ok) {v : ULONG64} (htarget : o.target = some (n, v)) (hreg : m.Regular o)
    (h : m.step o = some m') : ∃ top e flags, m.maps[n]? = some top ∧ m'.maps = m.maps ∧
      EntrySet m.paging m'.paging m.roots upperIndices (top.toNat / pageSize) v e flags := by
  obtain ⟨hargs, hsup⟩ := hreg
  have hsup := hsup m' h
  cases o with
  | createNewPagemap vbe kcalloced => cases htarget
  | mapPage n p v flags =>
    cases htarget
    simp only [step, Option.bind_eq_some_iff, Option.map_eq_some_iff] at h
    obtain ⟨top, htop, s, hs, rfl⟩ := h
    exact ⟨top, p ||| flags, flags, htop, rfl, vmmMapPage_family hok.family (mem_roots hok htop)
      (hok.frames top (List.mem_of_getElem? htop)) hargs.1 hargs.2 hsup hs⟩
  | unmapPage n v =>
    cases htarget
    simp only [step, Option.bind_eq_some_iff, Option.map_eq_some_iff] at h
    obtain ⟨top, htop, s, hs, rfl⟩ := h
    exact ⟨top, 0#64, 0b111#64, htop, rfl, vmmUnmapPage_family hok.family (mem_roots hok htop)
      (hok.frames top (List.mem_of_getElem? htop)) hsup hs⟩

lemma roots_append (m : Pagemaps) (s : Paging) {q : ℕ} (hq : PointsTo top q) :
    roots ⟨s, m.maps ++ [top]⟩ = insert q m.roots := by
  apply Set.ext
  intro r
  constructor
  · rintro ⟨t, ht, hr⟩
    rcases List.mem_append.mp ht with hold | hlast
    · exact .inr ⟨t, hold, hr⟩
    · obtain rfl := List.mem_singleton.mp hlast
      exact .inl (by rw [← hr.frame_eq, hq.frame_eq])
  · rintro (rfl | ⟨t, ht, hr⟩)
    · exact ⟨top, List.mem_append_right _ (List.mem_singleton_self _), hq⟩
    · exact ⟨t, List.mem_append_left _ ht, hr⟩

/-- Every regular call keeps the invariant. -/
theorem Ok.step (hok : m.Ok) (hreg : m.Regular o) (h : m.step o = some m') : m'.Ok := by
  cases ho : o.target with
  | some target =>
    obtain ⟨n, v⟩ := target
    obtain ⟨top, e, _, _, hmaps, he⟩ := step_entrySet hok ho hreg h
    obtain ⟨s, maps⟩ := m'
    dsimp only at hmaps he
    subst hmaps
    exact hok.entrySet he
  | none =>
    obtain ⟨hargs, hsup⟩ := hreg
    have hsup := hsup m' h
    cases o with
    | mapPage n p v flags => cases ho
    | unmapPage n v => cases ho
    | createNewPagemap vbe kcalloced =>
      simp only [Pagemaps.step, Option.bind_eq_some_iff, Option.map_eq_some_iff] at h
      obtain ⟨kernelTop, hkernel, ⟨userTop, s⟩, hs, rfl⟩ := h
      have hfamily : FamilyOk kcalloced m.roots upperIndices := by
        refine ⟨hok.family.forest.congr hargs.tables, fun r hr a f ha hw => ?_⟩
        have hsame : tableWalk kcalloced r a = tableWalk m.paging r a :=
          Radix.walk_congr a r fun c g hc hwc => hargs.tables r hr c g (hc.le.trans ha) hwc
        exact hargs.used f (hok.family.reserved r hr a f ha (hsame ▸ hw))
      obtain ⟨q, huser, hq, hfinal⟩ := vmmCreateNewPagemap_family hfamily (mem_roots hok hkernel)
        (hok.frames kernelTop (List.mem_of_getElem? hkernel)) hsup hs
      have hnew : userTop ∉ m.maps := fun hin => hq ⟨userTop, hin, huser⟩
      refine ⟨by simp, fun top htop => ?_, ?_, ?_⟩
      · rcases List.mem_append.mp htop with hold | hlast
        · exact hok.frames top hold
        · obtain rfl := List.mem_singleton.mp hlast
          rw [huser.frame_eq]
          exact huser
      · refine List.nodup_append.mpr ⟨hok.distinct, List.nodup_singleton _, ?_⟩
        rintro a ha b hb rfl
        obtain rfl := List.mem_singleton.mp hb
        exact hnew ha
      · rw [roots_append m s huser]
        exact hfinal

end Invariant

/-- After `MmInitializeVmm` there is the kernel's pagemap, with the whole upper half of its top table
populated. -/
lemma ok_of_mapping {s : Paging} {kernel : ULONG64} {top k l m : ℕ} {free : List ℕ}
    (htop : PointsTo kernel top) (h : Mapping s top k l m free) : Ok ⟨s, [kernel]⟩ := by
  have hroots : roots ⟨s, [kernel]⟩ = {top} := by
    apply Set.ext
    intro r
    constructor
    · rintro ⟨t, ht, hr⟩
      obtain rfl := List.mem_singleton.mp ht
      exact (hr.frame_eq.symm.trans htop.frame_eq)
    · rintro rfl
      exact ⟨kernel, List.mem_singleton_self _, htop⟩
  have hpop : ∀ i ∈ upperIndices, child (tables s.mem top i) ≠ none := by
    intro i hi hnone
    have hlow : 256 ≤ i.val := hi
    have hlt := i.isLt
    have hpath : (pagePath (i.val * 2^27)).take 1 = [i] := by
      simp only [pagePath, List.take, List.cons.injEq, and_true, Fin.ext_iff]
      omega
    have hsome := (h.pml3 (i.val * 2^27) (by omega)).mpr (.inl ⟨rfl, by omega⟩)
    rw [hpath, tableWalk, Radix.walk_cons, hnone] at hsome
    cases hsome
  refine ⟨by simp, fun t ht => ?_, List.nodup_singleton _, ?_⟩
  · obtain rfl := List.mem_singleton.mp ht
    rw [htop.frame_eq]
    exact htop
  · rw [hroots]
    exact ⟨(h.ok.forest.separate rfl).forest hpop, h.ok.reserved⟩

section Sharing
variable {m m' : Pagemaps} {o : PagemapOp} {n n' : ℕ} {v : ULONG64}

/-- In the upper half every pagemap has the entries of the kernel's. -/
lemma Ok.shared (hok : m.Ok) (hn : n < m.maps.length) (hv : UpperHalf v) :
    m.translate n v = m.translate 0 v ∧ m.allowed n v = m.allowed 0 v := by
  rw [upperHalf_iff] at hv
  have hpos : 0 < m.maps.length := (Nat.zero_le n).trans_lt hn
  have hr := mem_roots hok (List.getElem?_eq_getElem hn)
  have hk := mem_roots hok (List.getElem?_eq_getElem hpos)
  have hlookup : ∀ b j, b ++ [j] <+: pathOf v ++ [levelIndex v 12] →
      leafAt m.paging (m.maps[n].toNat / pageSize) b j = leafAt m.paging (m.maps[0].toNat / pageSize) b j := by
    rintro b j ⟨c, hc⟩
    refine hok.family.forest.lookup_eq hk hr _ _ ?_
    have hin := hv.append (b := [levelIndex v 12])
    rw [← hc] at hin
    cases b with
    | nil => simpa using hin
    | cons i b => simpa using hin
  have hleaf : leafEntry m.paging (m.maps[n].toNat / pageSize) v =
      leafEntry m.paging (m.maps[0].toNat / pageSize) v := hlookup _ _ List.prefix_rfl
  constructor
  · rw [translate, translate, List.getElem?_eq_getElem hn, List.getElem?_eq_getElem hpos,
      Option.bind_some, Option.bind_some, Mm.translate, Mm.translate, hleaf]
  · have hperm : ∀ b j, b ++ [j] <+: pathOf v ++ [levelIndex v 12] →
        permissionAt m.paging (m.maps[n].toNat / pageSize) b j =
          permissionAt m.paging (m.maps[0].toNat / pageSize) b j :=
      fun b j hb => congrArg permission (hlookup b j hb)
    rw [allowed, allowed, List.getElem?_eq_getElem hn, List.getElem?_eq_getElem hpos, Option.map_some,
      Option.map_some, effective_eq, effective_eq, hleaf, hperm _ _ (by simp [pathOf]),
      hperm _ _ (by simp [pathOf]), hperm _ _ (by simp [pathOf])]

/-- A change in the lower half of a pagemap changes no entry of another one. -/
lemma Ok.isolated (hok : m.Ok) (hreg : m.Regular o) (h : m.step o = some m') (htarget : o.target = some (n, v))
    (hv : ¬UpperHalf v) (hne : n' ≠ n) (w : ULONG64) :
    m'.translate n' w = m.translate n' w ∧ m'.allowed n' w = m.allowed n' w := by
  obtain ⟨top, e, _, htop, hmaps, he⟩ := step_entrySet hok htarget hreg h
  rw [translate, translate, allowed, allowed, hmaps]
  cases htop' : m.maps[n']? with
  | none => simp
  | some top' =>
    have hother : ∀ b j, b.length ≤ 3 → leafAt m'.paging (top'.toNat / pageSize) b j =
        leafAt m.paging (top'.toNat / pageSize) b j := by
      refine he.others _ (mem_roots hok htop') ?_
      rintro (heq | hin)
      · exact frame_ne hok htop htop' hne heq
      · exact hv ((upperHalf_iff v).mpr hin)
    have hleaf : leafEntry m'.paging (top'.toNat / pageSize) w = leafEntry m.paging (top'.toNat / pageSize) w :=
      hother _ _ le_rfl
    constructor
    · rw [Option.bind_some, Option.bind_some, Mm.translate, Mm.translate, hleaf]
    · have hperm : ∀ b j, b.length ≤ 3 → permissionAt m'.paging (top'.toNat / pageSize) b j =
          permissionAt m.paging (top'.toNat / pageSize) b j :=
        fun b j hb => congrArg permission (hother b j hb)
      rw [Option.map_some, Option.map_some, effective_eq, effective_eq, hleaf, hperm _ _ (by simp),
        hperm _ _ (by simp), hperm _ _ (by simp)]

end Sharing
end Pagemaps

/-- From `MmInitializeVmm` on, in every run of creations, mappings and unmappings: all pagemaps
translate the addresses of the upper half as the kernel's does, with the same permissions, and a
mapping or unmapping of an address of the lower half through one pagemap changes no translation in
another. -/
theorem kernel_half_shared_user_half_isolated {s t : Paging} {kernel : ULONG64} {os : List PagemapOp}
    {m : Pagemaps} (hinit : mmInitializeVmm s = some (kernel, t)) (hsup : Supplied s t)
    (hrun : GuardedRun Pagemaps.Regular Pagemaps.step ⟨t, [kernel]⟩ os m) :
    (∀ n v, n < m.maps.length → UpperHalf v →
      m.translate n v = m.translate 0 v ∧ m.allowed n v = m.allowed 0 v) ∧
    ∀ o m' n v, m.Regular o → m.step o = some m' → o.target = some (n, v) → ¬UpperHalf v →
      ∀ n', n' ≠ n → ∀ w, m'.translate n' w = m.translate n' w ∧ m'.allowed n' w = m.allowed n' w := by
  obtain ⟨top, htop, hmapping, _⟩ := mmInitializeVmm_mapping hinit hsup
  have hok : m.Ok := hrun.invariant (fun _ _ _ hI hreg hstep => hI.step hreg hstep)
    (Pagemaps.ok_of_mapping htop hmapping)
  refine ⟨fun n v hn hv => hok.shared hn hv, ?_⟩
  intro o m' n v hreg hstep htarget hv n' hne w
  exact hok.isolated hreg hstep htarget hv hne w

section Witness

/-- A machine with a terabyte of free and zero-filled memory. -/
def freeMachine : Paging := ⟨fun _ => 0#64, ⟨fun _ => 0#8, 2^40, by decide⟩, []⟩

lemma freeMachine_length : freeMachine.pmm.freeList.length = 2^28 := by
  have hused : ∀ k ∈ List.range freeMachine.pmm.pageCount, (!freeMachine.pmm.used k) = true := by
    intro k _
    rw [Pmm.used, bitTest_eq]
    simp [freeMachine]
  rw [Pmm.freeList, List.filter_eq_self.mpr hused, List.length_range]
  decide

/-- With a free page and no framebuffer a creation returns. -/
lemma vmmCreateNewPagemap_returns {s : Paging} (kernelTop : ULONG64) (h : 1 ≤ s.pmm.freeList.length) :
    ∃ top t, vmmCreateNewPagemap ⟨0#64, 0#32, 0#32⟩ kernelTop s = some (top, t) := by
  obtain ⟨adr, b, hb, _⟩ := pmalloc_one_returns h
  obtain ⟨u, hu, _⟩ := forLoop_returns
    (s := if adr = 0 then { s with pmm := b } else { s with pmm := b, mem := zeroPages s.mem adr 1 })
    256 512 1 0 (fun s i => some (s.store (entryAt (BitVec.ofNat 64 adr) i) (s.mem (entryAt kernelTop i))))
    (fun s i _ => ⟨_, rfl, le_rfl⟩) (Nat.zero_le _)
  have hnone : forLoop 0 (KvbeStructure.bytes ⟨0#64, 0#32, 0#32⟩).toNat pageSize (fun s i =>
      (vmmVirtToPhys s kernelTop 0#64).bind fun (physical, s) =>
        (vmmVirtToPhys s kernelTop 0#64).bind fun (virtual, s) =>
          vmmMapPage s (BitVec.ofNat 64 adr) (physical + i) (virtual + i) 0b111#64) u = some u := by
    have hrounds : rounds 0 (KvbeStructure.bytes ⟨0#64, 0#32, 0#32⟩).toNat pageSize = 0 := by decide
    rw [forLoop, hrounds, loopFrom]
  refine ⟨BitVec.ofNat 64 adr, u, ?_⟩
  rw [vmmCreateNewPagemap, Paging.pcalloc, hb, Option.map_some, Option.bind_some]
  dsimp only
  rw [hu, Option.bind_some, if_pos (by decide), hnone, Option.map_some]

theorem kernel_half_shared_two_maps : ∃ s t kernel os m, mmInitializeVmm s = some (kernel, t) ∧
    GuardedRun Pagemaps.Regular Pagemaps.step ⟨t, [kernel]⟩ os m ∧ m.maps.length = 2 ∧
    (∀ n v, n < m.maps.length → UpperHalf v →
      m.translate n v = m.translate 0 v ∧ m.allowed n v = m.allowed 0 v) ∧
    ∀ o m' n v, m.Regular o → m.step o = some m' → o.target = some (n, v) → ¬UpperHalf v →
      ∀ n', n' ≠ n → ∀ w, m'.translate n' w = m.translate n' w ∧ m'.allowed n' w = m.allowed n' w := by
  obtain ⟨kernel, t, hinit⟩ := mmInitializeVmm_returns (s := freeMachine)
    (by rw [freeMachine_length]; norm_num)
  have hsup : Supplied freeMachine t := fun _ _ _ _ => rfl
  obtain ⟨top, htop, hmapping, hmem⟩ := mmInitializeVmm_mapping hinit hsup
  have hfree : 1 ≤ t.pmm.freeList.length := by
    rw [hmapping.free, List.length_drop, freeMachine_length]
    decide
  obtain ⟨user, u, hcreate⟩ := vmmCreateNewPagemap_returns kernel hfree
  have hstep : Pagemaps.step ⟨t, [kernel]⟩ (.createNewPagemap ⟨0#64, 0#32, 0#32⟩ t) = some ⟨u, [kernel, user]⟩ := by
    simp [Pagemaps.step, hcreate]
  have hregular : Pagemaps.Regular ⟨t, [kernel]⟩ (.createNewPagemap ⟨0#64, 0#32, 0#32⟩ t) := by
    refine ⟨⟨fun _ _ _ _ _ _ => rfl, fun _ hk => hk⟩, fun m' _ q hq _ i => ?_⟩
    rw [show tables (Pagemaps.before ⟨t, [kernel]⟩ (.createNewPagemap ⟨0#64, 0#32, 0#32⟩ t)).mem q i =
      tables freeMachine.mem q i from congrFun (hmem q hq) i]
    rfl
  have hrun := GuardedRun.cons hregular hstep (.nil _)
  exact ⟨freeMachine, t, kernel, _, _, hinit, hrun, rfl,
    kernel_half_shared_user_half_isolated hinit hsup hrun⟩

end Witness
end Open98.Mm
