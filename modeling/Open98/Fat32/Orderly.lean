import Open98.Fat32.Erase
import Open98.Fat32.Runs
import Open98.Fat32.Sectors

/-! Calls on a volume with well-formed chains and enough free clusters: whatever they return, they have
written nothing but clusters and the table. -/
namespace Open98.Fat32
open Open98.Library

section Guards
variable {δ : Type} [Disk δ] (v : FAT32 δ)

/-- The entry has no cluster, or a chain. -/
def EndsWell (s : Slot) : Prop :=
  s.fields.2.1 = 0 ∨ ∃ l, IsChain v.geometry v.FAT s.fields.2.1 l

/-- The directory's clusters hold complete entry sets, and each entry's chain comes to an end. -/
structure TidyDir (dir : ℕ) (l : List ℕ) : Prop where
  walk : WalkChain v dir l
  stream : Stream false (l.flatMap v.dirSlots)
  entries : ∀ s ∈ l.flatMap v.dirSlots, s.Short → EndsWell v s

/-- The chains that the call follows are well formed, and there are enough free clusters. -/
def FatOp.Orderly : FatOp → Prop
  | writeFile dir _ fname flen => (∃ l, IsChain v.geometry v.FAT dir l) ∧ EnoughSpace v dir fname flen
  | makeDirectory dir dirname => (∃ l, IsChain v.geometry v.FAT dir l) ∧ EnoughSpace v dir dirname 0
  | deleteFile dir _ => ∃ l, TidyDir v dir l
  | scribble _ => True

end Guards

section Allocating
variable {δ : Type} [Disk δ] {v w : FAT32 δ}

/-- A cell of a cluster is set. -/
lemma Changes.cell {c x : ℕ} (h : Changes v w) (hc : w.geometry.HasCluster c) (hx : x < 2^32) :
    Changes v { w with FAT := Function.update w.FAT c x } := by
  refine .table h fun k => ?_
  by_cases hk : k = c
  · exact .inr ⟨hk ▸ hc, by rwa [hk, Function.update_self]⟩
  · exact .inl (Function.update_of_ne hk _ _)

lemma Geometry.HasCluster.lt {g : Geometry} {c : ℕ} (hc : g.HasCluster c) : c < 2^32 := by
  have := hc.2
  unfold Geometry.intsPerFat at this
  omega

/-- A call of the allocator that finds a free cell. -/
structure Took (v w : FAT32 δ) (c : ℕ) : Prop where
  hasCluster : v.geometry.HasCluster c
  wasFree : v.FAT c = 0
  changes : Changes v w
  FAT : w.FAT = Function.update v.FAT c 0x0FFFFFFF
  free : fatGetFreeClusters w + 1 = fatGetFreeClusters v

lemma fatAllocCluster_took (ready : AllocReady v) {c : ℕ} (h : fatAllocCluster v = .ok (c, w)) :
    (c = 0 ∧ w = v ∧ fatGetFreeClusters v = 0) ∨ Took v w c := by
  rcases fatAllocCluster_eq_ok h with hnone | ⟨d, hclear, hzero, hlt, rfl⟩
  · exact .inl hnone
  · have hhint := ready.hint
    have hc := ready.hasCluster (c := c) (by omega) hzero
    have hput : Changes v { v with disk := d } := .put .refl hc hclear
    exact .inr ⟨hc, hzero, .hint (hput.cell hc (by decide)) hc.2, rfl,
      card_freeCells_take (by decide) hc.2 hzero⟩

/-- A search that succeeds ends in a cluster, and has at most extended the directory. -/
lemma fatLocateEntries_changes (ready : AllocReady v) {count fuel dir c index : ℕ} {l : List ℕ}
    {found : List Slot} (hl : IsChain v.geometry v.FAT dir l)
    (h : fatLocateEntries count fuel v dir = .ok (some (c, found, index), w)) :
    Changes v w ∧ v.geometry.HasCluster c ∧
      ∃ buffer, found = slots v.geometry buffer ∧ findRun count found 0 0 = some index := by
  induction fuel generalizing v dir l with
  | zero => cases h
  | succ fuel ih =>
    obtain ⟨clusterBuffer, hget, h⟩ := bind_eq_ok.mp h
    have hdir := hl.cells dir hl.links.head_mem
    cases hfind : findRun count clusterBuffer 0 0 with
    | some i =>
      rw [hfind] at h
      obtain ⟨hsome, rfl⟩ := Prod.mk.inj (Except.ok.inj h)
      obtain ⟨rfl, rfl, rfl⟩ : dir = c ∧ clusterBuffer = found ∧ i = index := by simpa using hsome
      obtain ⟨buffer, -, hslots⟩ := bind_eq_ok.mp hget
      exact ⟨.refl, hdir, buffer, (Except.ok.inj hslots).symm, hfind⟩
    | none =>
      rw [hfind] at h
      dsimp only at h
      by_cases hend : EOC ≤ v.FAT dir
      · rw [if_pos hend] at h
        obtain ⟨⟨x, u⟩, halloc, hrest⟩ := bind_eq_ok.mp h
        dsimp only at hrest
        rcases fatAllocCluster_took ready halloc with ⟨hx, -⟩ | took
        · rw [if_pos hx] at hrest
          cases (Prod.mk.inj (Except.ok.inj hrest)).1
        · rw [if_neg took.hasCluster.ne_zero] at hrest
          have hg := took.changes.geometry_eq
          have hlink := took.changes.cell (hg ▸ hdir) took.hasCluster.lt
          have hne : x ≠ dir := by
            intro hxd
            have hfree := took.wasFree
            rw [hxd] at hfree
            unfold EOC at hend
            omega
          have hnew : IsChain u.geometry (Function.update u.FAT dir x) x [x] := by
            refine .last (hg ▸ took.hasCluster) ?_
            rw [Function.update_of_ne hne, took.FAT, Function.update_self]
            decide
          obtain ⟨hrun, hc, hfound⟩ := ih (hlink.ready ready) hnew hrest
          rw [show Geometry.HasCluster _ c ↔ v.geometry.HasCluster c by rw [← hg]] at hc
          rw [← hg]
          exact ⟨hlink.trans hrun, hg ▸ hc, hfound⟩
      · rw [if_neg hend] at h
        obtain ⟨t, rfl⟩ := hl.links.eq_cons
        cases hl.links with
        | last hstop => exact absurd hstop.le hend
        | link hgo tail =>
          exact ih ready ⟨tail, fun k hk => hl.cells k (List.mem_cons_of_mem _ hk)⟩ h

/-- What is needed beside the directory is still free. -/
lemma Located.space {l l' : List ℕ} {count c index need : ℕ} {found : List Slot}
    (h : Located v l count w l' c found index) (hl : ∀ x ∈ l, v.FAT x ≠ 0) (hneed : need ≤ fatGetFreeClusters v)
    (hroom : (∀ x ∈ l, findRun count (v.dirSlots x) 0 0 = none) → need + 1 ≤ fatGetFreeClusters v) :
    need ≤ fatGetFreeClusters w := by
  cases h with
  | room => exact hneed
  | @extended _ disk hne hfull halloc hx hfree hclear hle =>
    have hcount := FAT32.free_extended hx hfree (hl _ (List.getLast_mem hne)) disk
    have hspace := hroom hfull
    omega

/-- A search that succeeds has ended in a place for the entry. -/
lemma fatLocateEntries_place (store : ClusterStore v.geometry δ) (hg : v.geometry.Addressable)
    (ready : AllocReady v) {dir : ℕ} {l : List ℕ} (hl : IsChain v.geometry v.FAT dir l) {count : ℕ}
    (hpos : 0 < count) (hspace : Room v dir count ∨ 0 < fatGetFreeClusters v) {fuel c index : ℕ}
    {found : List Slot} (h : fatLocateEntries count fuel v dir = .ok (some (c, found, index), w)) :
    ∃ l', Located v l count w l' c found index := by
  obtain ⟨-, -, buffer, rfl, hfind⟩ := fatLocateEntries_changes ready hl h
  have hle : count ≤ v.geometry.dirsPerCluster := by
    obtain ⟨pre, run, post, hslots, -, hrun, -⟩ := findRun_start hpos hfind
    have hlength := congrArg List.length hslots
    simp only [length_slots, List.length_append] at hlength
    omega
  have hroom : (∃ c ∈ l, findRun count (v.dirSlots c) 0 0 ≠ none) ∨ 0 < fatGetFreeClusters v :=
    hspace.imp_left fun ⟨m, hm, hfound⟩ => by rwa [hl.unique hm]
  obtain ⟨u, l', c', found, index', hlocate, located⟩ := fatLocateEntries_located store hg ready hl
    hpos hle hroom (show l.length < fuel + (l.length + 1) by omega)
  have heq := Except.ok.inj ((fatLocateEntries_mono (l.length + 1) h).symm.trans hlocate)
  obtain ⟨hplace, rfl⟩ := Prod.mk.inj heq
  obtain ⟨rfl, rfl, rfl⟩ : c = c' ∧ _ = found ∧ index = index' := by simpa using hplace
  exact ⟨l', located⟩

/-- After a search that succeeds there is still what was needed beside the directory. -/
lemma fatLocateEntries_space (store : ClusterStore v.geometry δ) (hg : v.geometry.Addressable)
    (ready : AllocReady v) {count fuel dir c index : ℕ} {l : List ℕ} {found : List Slot}
    (hl : IsChain v.geometry v.FAT dir l) (hpos : 0 < count) {need : ℕ}
    (hneed : need ≤ fatGetFreeClusters v)
    (hroom : ¬ Room v dir count → need + 1 ≤ fatGetFreeClusters v)
    (h : fatLocateEntries count fuel v dir = .ok (some (c, found, index), w)) :
    need ≤ fatGetFreeClusters w := by
  have hspace : Room v dir count ∨ 0 < fatGetFreeClusters v := by
    by_cases hr : Room v dir count
    · exact .inl hr
    · have := hroom hr
      exact .inr (by omega)
  obtain ⟨l', located⟩ := fatLocateEntries_place store hg ready hl hpos hspace h
  refine located.space (fun x hx => hl.cell_ne_zero hx) hneed fun hfull => hroom ?_
  rintro ⟨m, hm, x, hx, hne⟩
  exact hne (hfull x (hl.unique hm ▸ hx))

end Allocating

section Writing
variable {δ : Type} [Disk δ] {v w : FAT32 δ}

/-- With enough free clusters the write loop only takes clusters, fills and links them. -/
lemma writeClusters_changes (ready : AllocReady v) {file : Buffer}
    {flen left writtenbytes prev first r : ℕ} (hfree : left ≤ fatGetFreeClusters v)
    (hprev : prev ≠ 0 → v.geometry.HasCluster prev ∧ v.FAT prev ≠ 0)
    (h : writeClusters file flen left v writtenbytes prev first = .ok (r, w)) : Changes v w := by
  induction left generalizing v writtenbytes prev first with
  | zero =>
    obtain ⟨-, rfl⟩ := Prod.mk.inj (Except.ok.inj h)
    exact .refl
  | succ left ih =>
    obtain ⟨⟨c, u⟩, halloc, hrest⟩ := bind_eq_ok.mp h
    obtain ⟨d, hput, hrest⟩ := bind_eq_ok.mp hrest
    rcases fatAllocCluster_took ready halloc with ⟨-, -, hnone⟩ | took
    · omega
    have hg := took.changes.geometry_eq
    have hc : u.geometry.HasCluster c := hg ▸ took.hasCluster
    have hwritten : Changes v { u with disk := d } := .put took.changes hc hput
    by_cases hp : prev = 0
    · simp only [hp, ne_eq, not_true_eq_false, if_false] at hrest
      refine hwritten.trans (ih (hwritten.ready ready) ?_ (fun _ => ⟨hc, ?_⟩) hrest)
      · change left ≤ fatGetFreeClusters u
        have := took.free
        omega
      · change u.FAT c ≠ 0
        rw [took.FAT, Function.update_self]
        decide
    · have hused : u.FAT prev ≠ 0 := by
        rw [took.FAT, Function.update_apply]
        split_ifs
        · decide
        · exact (hprev hp).2
      have hlink : Changes v { u with disk := d, FAT := Function.update u.FAT prev c } :=
        hwritten.cell (hg ▸ (hprev hp).1) took.hasCluster.lt
      simp only [hp, ne_eq, not_false_eq_true, if_true] at hrest
      refine hlink.trans (ih (hlink.ready ready) ?_ (fun _ => ⟨hc, ?_⟩) hrest)
      · have hcount : fatGetFreeClusters { u with disk := d, FAT := Function.update u.FAT prev c } =
            fatGetFreeClusters u := congrArg Finset.card (freeCells_relink hc.ne_zero hused)
        have := took.free
        omega
      · change Function.update u.FAT prev c c ≠ 0
        rw [Function.update_apply, took.FAT, Function.update_self]
        split_ifs
        · exact hc.ne_zero
        · decide

/-- A call that creates an entry and returns has written the table last. -/
lemma fatWriteFileImplementation_settles (store : ClusterStore v.geometry δ)
    (hg : v.geometry.Addressable) (ready : AllocReady v) {dir : ℕ} {l : List ℕ}
    (hl : IsChain v.geometry v.FAT dir l) {fname : List UCHAR} {flen : ℕ}
    (space : EnoughSpace v dir fname flen) {fuel : ℕ} {file : Buffer} {attrs : UCHAR}
    (h : fatWriteFileImplementation fuel v dir file fname flen attrs 0 = .ok w) : Settles v w := by
  obtain ⟨u, cluster, rootCluster, index, longs, slots, first, x, d₁, d₂, hlocate, -, hwrite, hput, hflush, rfl⟩ :=
    fatWriteFileImplementation_steps h
  obtain ⟨hlocated, hcluster, -⟩ := fatLocateEntries_changes ready hl hlocate
  have hfree := fatLocateEntries_space store hg ready hl (Nat.succ_pos _) space.data
    space.directory hlocate
  rw [← hlocated.geometry_eq] at hfree hcluster
  have hwritten := writeClusters_changes (hlocated.ready ready) hfree (fun hp => absurd rfl hp) hwrite
  rw [← hwritten.geometry_eq] at hcluster
  exact Settles.flush (w := { x with disk := d₁ })
    (.put (hlocated.trans hwritten) hcluster hput) hflush

lemma fatMakeDirectory_settles (store : ClusterStore v.geometry δ)
    (hg : v.geometry.Addressable) (ready : AllocReady v) {dir : ℕ} {l : List ℕ}
    (hl : IsChain v.geometry v.FAT dir l) {dirname : List UCHAR} (space : EnoughSpace v dir dirname 0)
    {fuel : ℕ} (h : fatMakeDirectory fuel v dir dirname = .ok w) : Settles v w :=
  fatWriteFileImplementation_settles store hg ready hl space (fatMakeDirectory_writes h)

end Writing

section Deleting
variable {δ : Type} [Disk δ] {v w : FAT32 δ}

/-- With more fuel a chain is freed in the same way. -/
lemma zeroChain_mono {FAT r : ℕ → ℕ} {fuel start : ℕ} (more : ℕ)
    (h : zeroChain fuel FAT start = .ok r) : zeroChain (fuel + more) FAT start = .ok r := by
  induction fuel generalizing FAT start with
  | zero => cases h
  | succ fuel ih =>
    rw [Nat.succ_add]
    rw [zeroChain] at h ⊢
    split_ifs at h ⊢ with hgo
    · exact ih h
    · exact h

/-- The cells of a chain that is followed to its end are cleared, and no others. -/
lemma zeroChain_clears {g : Geometry} (hg : g.Addressable) {FAT r : ℕ → ℕ} {fuel start : ℕ}
    (hends : start = 0 ∨ ∃ l, IsChain g FAT start l) (h : zeroChain fuel FAT start = .ok r) :
    ∃ m, (start = 0 ∧ m = [] ∨ IsChain g FAT start m) ∧ r = fun c => if c ∈ m then 0 else FAT c := by
  rcases hends with rfl | ⟨m, hm⟩
  · cases fuel with
    | zero => cases h
    | succ fuel =>
      rw [zeroChain, if_neg (by omega)] at h
      obtain rfl := Except.ok.inj h
      exact ⟨[], .inl ⟨rfl, rfl⟩, by simp⟩
  · have hfuel : m.length < fuel + (m.length + 1) := by omega
    have heq := (zeroChain_mono (m.length + 1) h).symm.trans (zeroChain_ok hg hm hfuel)
    exact ⟨m, .inr hm, Except.ok.inj heq⟩

/-- Freeing a chain ends with the flush. -/
lemma fatZeroFatChain_settles (hg : w.geometry.Addressable) (h : Changes v w) {fuel start : ℕ}
    (hends : start = 0 ∨ ∃ l, IsChain w.geometry w.FAT start l) {u : FAT32 δ}
    (hzero : fatZeroFatChain fuel w start = .ok u) : Settles v u := by
  obtain ⟨FAT, hchain, hrest⟩ := bind_eq_ok.mp hzero
  obtain ⟨d, hflush, hrest⟩ := bind_eq_ok.mp hrest
  obtain rfl := Except.ok.inj hrest
  obtain ⟨m, hm, hFAT⟩ := zeroChain_clears hg hends hchain
  refine Settles.flush (w := { w with FAT := FAT }) (.table h fun c => ?_) hflush
  rw [hFAT]
  by_cases hc : c ∈ m
  · rcases hm with ⟨-, rfl⟩ | hm
    · cases hc
    · exact .inr ⟨hm.cells c hc, by simp [hc]⟩
  · exact .inl (if_neg hc)

/-- Writing clusters is a change. -/
lemma PutsIn.changes {cs : List ℕ} {d : δ} (h : PutsIn v.geometry cs v.disk d)
    (hcs : ∀ c ∈ cs, v.geometry.HasCluster c) : Changes v { v with disk := d } := by
  induction h with
  | refl => exact .refl
  | @put e c buff d' _ hc hput ih => exact .put (w := { v with disk := e }) ih (hcs c hc) hput

/-- A call that deletes an entry, or finds none, and returns. -/
lemma deleteFrom_settles (store : ClusterStore v.geometry δ) (hg : v.geometry.Addressable)
    {chainFuel : ℕ} {filename : List UCHAR} {fuel dir : ℕ} {l : List ℕ} (tidy : TidyDir v dir l)
    (h : deleteFrom chainFuel v filename fuel dir = .ok w) : Settles v w := by
  rcases deleteFrom_erases store tidy.walk tidy.stream h with rfl | ⟨e, d, erases, hzero⟩
  · exact .same _
  · obtain ⟨P, Q, hbefore, -⟩ := erases.zeroed
    have hends : EndsWell v e.short := tidy.entries _ (by rw [hbefore]; simp) e.last
    exact fatZeroFatChain_settles (w := { v with disk := d }) hg (erases.puts.changes tidy.walk.cells)
      hends hzero

end Deleting

section Step
variable {δ : Type} [Disk δ] {v w : FAT32 δ}

/-- Every orderly call that returns has written clusters, and at last the table. -/
theorem FatOp.Orderly.settles (store : ClusterStore v.geometry δ) (hg : v.geometry.Addressable)
    (ready : AllocReady v) {o : FatOp} (ho : o.Orderly v) {fuel : ℕ} (h : o.apply fuel v = some w) :
    Settles v w := by
  cases o with
  | writeFile dir file fname flen =>
    obtain ⟨⟨l, hl⟩, space⟩ := ho
    exact fatWriteFileImplementation_settles store hg ready hl space (toOption_eq_some.mp h)
  | makeDirectory dir dirname =>
    obtain ⟨⟨l, hl⟩, space⟩ := ho
    exact fatMakeDirectory_settles store hg ready hl space (toOption_eq_some.mp h)
  | deleteFile dir filename =>
    obtain ⟨l, tidy⟩ := ho
    exact deleteFrom_settles store hg tidy (toOption_eq_some.mp h)
  | scribble junk =>
    obtain rfl := Option.some.inj h
    exact .same junk

/-- On a consistent volume every allowed call is orderly. -/
theorem Holds.orderly {fuel : ℕ} (sup : Supported v.geometry δ fuel) {L : Layout} (h : Holds v L)
    {o : FatOp} (ho : o.Allowed fuel v) : o.Orderly v := by
  cases o with
  | writeFile dir file fname flen =>
    obtain ⟨hd, -, -, space⟩ := ho
    rw [h.shaped.liveDir_iff sup] at hd
    exact ⟨⟨_, h.isChain hd.mem_nodes⟩, space⟩
  | makeDirectory dir dirname =>
    obtain ⟨hd, -, space⟩ := ho
    rw [h.shaped.liveDir_iff sup] at hd
    exact ⟨⟨_, h.isChain hd.mem_nodes⟩, space⟩
  | deleteFile dir filename =>
    obtain ⟨hd, -⟩ := ho
    rw [h.shaped.liveDir_iff sup] at hd
    have hparts := h.parts dir hd
    refine ⟨L.chain dir, (h.isChain hd.mem_nodes).walk sup.addressable, ?_, fun s hs hshort => ?_⟩
    · have hslots : (L.chain dir).flatMap v.dirSlots =
          ((L.chain dir).flatMap L.parts).flatMap Segment.slots := by
        rw [List.flatMap_assoc]
        exact List.flatMap_congr hparts
      rw [hslots]
      exact Stream.ofSegments _
    · obtain ⟨c, hc, hs⟩ := List.mem_flatMap.mp hs
      rw [hparts c hc] at hs
      obtain ⟨seg, hseg, hs⟩ := List.mem_flatMap.mp hs
      cases seg with
      | free t ht =>
        obtain rfl := List.mem_singleton.mp hs
        exact absurd ht hshort.1
      | entry e =>
        have he : e ∈ L.sets dir :=
          List.mem_flatMap.mpr ⟨c, hc, List.mem_filterMap.mpr ⟨_, hseg, rfl⟩⟩
        rcases List.mem_append.mp hs with hlong | hs
        · exact absurd (e.long s hlong).2 hshort.2
        · obtain rfl := List.mem_singleton.mp hs
          exact .inr ⟨_, h.isChain (s := e.first) (hd.node_mem he)⟩
  | scribble junk => trivial

end Step

end Open98.Fat32
