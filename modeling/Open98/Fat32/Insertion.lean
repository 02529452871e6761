import Open98.Fat32.Orderly

/-! What a call that creates an entry does to the slots of a directory, whatever the name is: the slots
are written over free ones in a row, in the first cluster that has so many, or into a further cluster. -/
namespace Open98.Fat32
open Open98.Library

section Place
variable {δ : Type} [Disk δ] {v u : FAT32 δ} {l l' : List ℕ} {count c index : ℕ} {found : List Slot}

omit [Disk δ] in
/-- The allocator still finds what it relies on when a free cluster has been put behind another one. -/
lemma AllocReady.extended (ready : AllocReady v) {last x : ℕ} (hlast : v.geometry.HasCluster last)
    (hx : v.geometry.HasCluster x) (d : δ) : AllocReady (v.extended last x d) := by
  have hlow : ∀ y < 2, y ≠ x ∧ y ≠ last := fun y hy => by
    have := hx.1
    have := hlast.1
    omega
  refine ⟨?_, hx.2⟩
  simpa [FAT32.extended, hlow 0, hlow 1] using ready.reserved

omit [Disk δ] in
/-- A free cluster that is put behind the last one belongs to the chain. -/
lemma IsChain.extended (hg : v.geometry.Addressable) {dir x : ℕ} (hl : IsChain v.geometry v.FAT dir l)
    (hx : v.geometry.HasCluster x) (hfree : v.FAT x = 0) (d : δ) :
    IsChain v.geometry (v.extended (l.getLast hl.links.ne_nil) x d).FAT dir (l ++ [x]) := by
  have hxl : x ∉ l := hl.notMem_of_free hfree
  refine ⟨(hl.links.update_of_notMem hxl 0x0FFFFFFF).snoc hxl ?_ (hg.not_endMark hx), fun y hy => ?_⟩
  · rw [Function.update_self]
    decide
  · rcases List.mem_append.mp hy with hy | hy
    · exact hl.cells y hy
    · exact List.mem_singleton.mp hy ▸ hx

/-- The slots that the search adds to the directory. -/
def addedSlots (g : Geometry) (l l' : List ℕ) : List Slot :=
  List.replicate ((l'.length - l.length) * g.dirsPerCluster) zeroSlot

/-- After the search: the directory has the clusters `l'`, and its slots are the old ones and those of
a further cluster. -/
structure Prepared (v u : FAT32 δ) (l l' : List ℕ) (c : ℕ) (found : List Slot) : Prop where
  geometry : u.geometry = v.geometry
  junk : u.junk = v.junk
  ready : AllocReady u
  sub : l <+: l'
  mem : c ∈ l'
  found : u.dirSlots c = found
  stream : l'.flatMap u.dirSlots = l.flatMap v.dirSlots ++ addedSlots v.geometry l l'
  fresh : ∀ x ∈ l', x ∉ l → v.FAT x = 0
  table : ∀ x, x ∉ l' → u.FAT x = v.FAT x
  kept : ∀ x, v.FAT x ≠ 0 → u.clusters x = v.clusters x

lemma Located.prepared (h : Located v l count u l' c found index) (ready : AllocReady v)
    (hl : ∀ x ∈ l, v.geometry.HasCluster x) (hused : ∀ x ∈ l, v.FAT x ≠ 0) :
    Prepared v u l l' c found := by
  cases h with
  | room hl hfull hfind =>
    refine ⟨rfl, rfl, ready, List.prefix_rfl, by simp [hl], rfl, ?_, fun x hx hn => absurd hx hn,
      fun _ _ => rfl, fun _ _ => rfl⟩
    simp [addedSlots]
  | @extended _ disk hne hfull halloc hx hfree hclear hle =>
    have hcl : c ∉ l := fun hmem => hused c hmem hfree
    have hlast : l.getLast hne ∈ l := List.getLast_mem hne
    have hslots : (v.extended (l.getLast hne) c disk).dirSlots c =
        List.replicate v.geometry.dirsPerCluster zeroSlot := by
      change slots v.geometry (content v.geometry disk c) = _
      rw [hclear, Function.update_self, slots_zero]
    have hkept : ∀ y, y ≠ c → content v.geometry disk y = v.clusters y := by
      intro y hy
      rw [hclear, Function.update_of_ne hy]
    refine ⟨rfl, rfl, ready.extended (hl _ hlast) hx disk, List.prefix_append _ _, by simp, hslots, ?_,
      fun y hy hn => ?_, fun y hy => ?_, fun y hy => hkept y fun hyc => hy (hyc ▸ hfree)⟩
    · have hold : l.flatMap (v.extended (l.getLast hne) c disk).dirSlots = l.flatMap v.dirSlots := by
        refine List.flatMap_congr fun y hy => ?_
        change slots v.geometry (content v.geometry disk y) = _
        rw [hkept y (ne_of_mem_of_not_mem hy hcl)]
        rfl
      rw [List.flatMap_append, hold, List.flatMap_singleton, hslots]
      simp [addedSlots]
    · obtain rfl : y = c := by simpa [hn] using hy
      exact hfree
    · obtain ⟨hyl, hyc⟩ : y ∉ l ∧ y ≠ c := by simpa using hy
      have hylast : y ≠ l.getLast hne := fun heq => hyl (heq ▸ hlast)
      simp only [FAT32.extended, Function.update_of_ne hylast, Function.update_of_ne hyc]

/-- The clusters of the directory are its chain again. -/
lemma Located.isChain (h : Located v l count u l' c found index) (hg : v.geometry.Addressable) {dir : ℕ}
    (hl : IsChain v.geometry v.FAT dir l) : IsChain u.geometry u.FAT dir l' := by
  cases h with
  | room => exact hl
  | @extended _ disk hne hfull halloc hx hfree hclear hle => exact hl.extended hg hx hfree disk

/-- The free slots in a row that the search has found. -/
lemma Located.run (h : Located v l count u l' c found index) (hpos : 0 < count) :
    ∃ pre run post, found = pre ++ run ++ post ∧ pre.length = index ∧ run.length = count ∧
      ∀ s ∈ run, s.Free := by
  cases h with
  | room hl hfull hfind => exact findRun_start hpos hfind
  | extended hne hfull halloc hx hfree hclear hle =>
    exact findRun_start hpos (findRun_replicate zeroSlot_free hpos (by omega) le_rfl)

/-- In a cluster of the directory with the clusters `l`, so many free slots in a row stand behind the slots
`P` of the directory. -/
def FitsAt (v : FAT32 δ) (l : List ℕ) (count : ℕ) (P : List Slot) : Prop :=
  ∃ p c q pre run post, l = p ++ c :: q ∧ v.dirSlots c = pre ++ run ++ post ∧ run.length = count ∧
    (∀ s ∈ run, s.Free) ∧ P = p.flatMap v.dirSlots ++ pre

/-- The cluster of such a place is one in which the search succeeds. -/
lemma FitsAt.searched {P : List Slot} (h : FitsAt v l count P) (hpos : 0 < count) :
    ∃ c ∈ l, findRun count (v.dirSlots c) 0 0 ≠ none := by
  obtain ⟨p, c, q, pre, run, post, hl, hslots, hlen, hrun, -⟩ := h
  obtain ⟨index, hfind, -⟩ := findRun_first pre hrun hlen hpos (Nat.zero_le 0) post
  refine ⟨c, by simp [hl], ?_⟩
  rw [hslots, hfind]
  exact Option.some_ne_none index

/-- The place that is found is the first one of the directory, or behind all its slots. -/
lemma Located.first {pre run post : List Slot}
    (h : Located v l count u l' c (pre ++ run ++ post) pre.length) (hpos : 0 < count)
    (hrun : run.length = count) (hfree : ∀ s ∈ run, s.Free) (hused : ∀ x ∈ l, v.FAT x ≠ 0)
    (prepared : Prepared v u l l' c (pre ++ run ++ post)) : ∃ p q, l' = p ++ c :: q ∧
      (FitsAt v l count (p.flatMap u.dirSlots ++ pre) ∨ p.flatMap u.dirSlots ++ pre = l.flatMap v.dirSlots) ∧
      ∀ P, FitsAt v l count P → p.flatMap u.dirSlots ++ pre <+: P := by
  generalize hfound : pre ++ run ++ post = found at h prepared
  generalize hindex : pre.length = index at h
  cases h with
  | @room p _ q _ hl hfull hfind =>
    refine ⟨p, q, hl, .inl ⟨p, c, q, pre, run, post, hl, hfound.symm, hrun, hfree, rfl⟩, fun P hP => ?_⟩
    obtain ⟨p', c', q', pre', run', post', hl', hslots', hlen', hrun', rfl⟩ := hP
    obtain ⟨index', hfind', hle⟩ := findRun_first pre' hrun' hlen' hpos (Nat.zero_le 0) post'
    rw [← hslots'] at hfind'
    have hnot : c' ∉ p := fun hmem => by
      rw [hfull c' hmem] at hfind'
      cases hfind'
    have hbefore : pre ++ run ++ post = pre' ++ run' ++ post' → index = index' → pre <+: pre' := by
      intro hsame hindex'
      have hpre : pre <+: pre ++ run ++ post := ⟨run ++ post, by rw [List.append_assoc]⟩
      have hpre' : pre' <+: pre ++ run ++ post := ⟨run' ++ post', by rw [hsame, List.append_assoc]⟩
      exact List.prefix_of_prefix_length_le hpre hpre' (by omega)
    rw [hl] at hl'
    rcases List.append_eq_append_iff.mp hl' with ⟨a, rfl, ha⟩ | ⟨a, rfl, ha⟩
    · cases a with
      | nil =>
        obtain ⟨rfl, -⟩ := List.cons.inj ha
        rw [List.append_nil, List.prefix_append_right_inj]
        exact hbefore (hfound.trans hslots') (Option.some.inj (hfind.symm.trans hfind'))
      | cons x a =>
        obtain ⟨rfl, -⟩ := List.cons.inj ha
        rw [List.flatMap_append, List.flatMap_cons, ← hfound]
        exact ⟨run ++ post ++ a.flatMap v.dirSlots ++ pre', by simp only [List.append_assoc]⟩
    · cases a with
      | nil =>
        obtain ⟨rfl, -⟩ := List.cons.inj ha
        rw [List.append_nil, List.prefix_append_right_inj]
        exact hbefore (hfound.trans hslots') (Option.some.inj (hfind.symm.trans hfind'))
      | cons x a =>
        obtain ⟨rfl, -⟩ := List.cons.inj ha
        exact absurd (by simp) hnot
  | @extended _ disk hne hfull halloc hx hzero hclear hle =>
    obtain rfl := List.length_eq_zero_iff.mp hindex
    refine ⟨l, [], rfl, .inr ?_, fun P hP => ?_⟩
    · rw [List.append_nil]
      refine List.flatMap_congr fun x hx => ?_
      change slots v.geometry _ = _
      rw [prepared.kept x (hused x hx)]
      rfl
    · obtain ⟨x, hx, hroom⟩ := hP.searched hpos
      exact absurd (hfull x hx) hroom

end Place

section Entering
variable {δ : Type} [Disk δ] {v w : FAT32 δ}

lemma EnoughSpace.place {dir flen : ℕ} {fname : List UCHAR} (space : EnoughSpace v dir fname flen) :
    Room v dir (longEntries fname + 1) ∨ 0 < fatGetFreeClusters v := by
  by_contra hno
  obtain ⟨hroom, hnone⟩ := not_or.mp hno
  have hmore := space.directory hroom
  omega

omit [Disk δ] in
/-- A name that needs no long-name slot makes the call write through a null pointer. -/
lemma longEntries_pos {fname : List UCHAR} {start longs : List Slot}
    (h : fatWriteLongFileNameEntries (start.take (longEntries fname)) fname = .ok longs) :
    0 < longEntries fname := by
  by_contra hzero
  rw [Nat.eq_zero_of_not_pos hzero, List.take_zero] at h
  cases h

/-- A call that creates an entry and returns: the place, and what it has written there over what. -/
theorem fatWriteFileImplementation_traced (store : ClusterStore v.geometry δ)
    (hg : v.geometry.Addressable) (ready : AllocReady v) {dir : ℕ} {l : List ℕ}
    (hl : IsChain v.geometry v.FAT dir l) {fname : List UCHAR} {flen : ℕ}
    (space : EnoughSpace v dir fname flen) {fuel : ℕ} {file : Buffer} {attrs : UCHAR}
    (h : fatWriteFileImplementation fuel v dir file fname flen attrs 0 = .ok w) :
    ∃ u u' l' c pre run post longs first cs,
      fatLocateEntries (longEntries fname + 1) fuel v dir = .ok (some (c, pre ++ run ++ post, pre.length), u) ∧
      Located v l (longEntries fname + 1) u l' c (pre ++ run ++ post) pre.length ∧
      run.length = longEntries fname + 1 ∧ (∀ s ∈ run, s.Free) ∧ 0 < longEntries fname ∧
      writeClusters file flen (requiredClusters u.geometry flen) u 0 0 0 = .ok (first, u') ∧
      fatWriteLongFileNameEntries (run.take (longEntries fname)) fname = .ok longs ∧
      WroteSlots u w file fname flen attrs c pre post longs
        (shortSlot fname attrs first flen (run.getD (longEntries fname) zeroSlot)) first cs := by
  obtain ⟨u, c, found, index, longs, _, _, _, _, _, hlocate, hlongs, -⟩ := fatWriteFileImplementation_steps h
  have hpos := longEntries_pos hlongs
  obtain ⟨l', located⟩ := fatLocateEntries_place store hg ready hl (Nat.succ_pos _) space.place hlocate
  obtain ⟨pre, run, post, rfl, rfl, hrun, hfree⟩ := located.run (Nat.succ_pos _)
  have prepared := located.prepared ready hl.cells fun x hx => hl.cell_ne_zero hx
  have hchain := located.isChain hg hl
  have hneed := located.space (fun x hx => hl.cell_ne_zero hx) space.data fun hfull =>
    space.directory fun ⟨m, hm, x, hx, hroom⟩ => hroom (hfull x (by rwa [hl.unique hm]))
  have hgeometry := prepared.geometry
  rw [← hgeometry] at hneed
  obtain ⟨w', u', longs', first, cs, hwrite, hdata, hover, wrote⟩ := fatWriteFileImplementation_over
    (hgeometry ▸ store) (hgeometry ▸ hg) prepared.ready hlocate hrun
    (by rw [← prepared.found]; exact length_slots _) (hchain.cells c prepared.mem)
    (hchain.cell_ne_zero prepared.mem) hpos attrs hneed file
  obtain rfl := Except.ok.inj (h.symm.trans hwrite)
  exact ⟨u, u', l', c, pre, run, post, longs', first, cs, hlocate, located, hrun, hfree, hpos, hdata,
    hover, wrote⟩

/-- The same without what the place held. -/
theorem fatWriteFileImplementation_located (store : ClusterStore v.geometry δ)
    (hg : v.geometry.Addressable) (ready : AllocReady v) {dir : ℕ} {l : List ℕ}
    (hl : IsChain v.geometry v.FAT dir l) {fname : List UCHAR} {flen : ℕ}
    (space : EnoughSpace v dir fname flen) {fuel : ℕ} {file : Buffer} {attrs : UCHAR}
    (h : fatWriteFileImplementation fuel v dir file fname flen attrs 0 = .ok w) :
    ∃ u l' c pre run post longs short first cs,
      Located v l (longEntries fname + 1) u l' c (pre ++ run ++ post) pre.length ∧
      run.length = longEntries fname + 1 ∧ (∀ s ∈ run, s.Free) ∧ 0 < longEntries fname ∧
      WroteSlots u w file fname flen attrs c pre post longs short first cs := by
  obtain ⟨u, -, l', c, pre, run, post, longs, first, cs, -, located, hrun, hfree, hpos, -, -, wrote⟩ :=
    fatWriteFileImplementation_traced store hg ready hl space h
  exact ⟨u, l', c, pre, run, post, longs, _, first, cs, located, hrun, hfree, hpos, wrote⟩

/-- What a call that creates an entry does to the directory `d` with the clusters `l`: the slots for the
name stand in the place of free ones in a row. -/
structure Inserted (v w : FAT32 δ) (d : ℕ) (l : List ℕ) (fname : List UCHAR) (attrs : UCHAR) (l' : List ℕ)
    (A run longs : List Slot) (short : Slot) (B : List Slot) : Prop where
  geometry : w.geometry = v.geometry
  ready : AllocReady w
  chain : IsChain w.geometry w.FAT d l'
  before : l.flatMap v.dirSlots ++ addedSlots v.geometry l l' = A ++ run ++ B
  after : l'.flatMap w.dirSlots = A ++ (longs ++ [short]) ++ B
  free : ∀ s ∈ run, s.Free
  length : (longs ++ [short]).length = run.length
  longSlots : LongSlotsOf fname longs
  short_eq : ∃ first flen old, short = shortSlot fname attrs first flen old
  place : FitsAt v l (longEntries fname + 1) A ∨ A = l.flatMap v.dirSlots
  first : ∀ P, FitsAt v l (longEntries fname + 1) P → A <+: P

/-- The clusters that the file takes were not those of the directory. -/
lemma WroteSlots.chain_kept {file : Buffer} {fname : List UCHAR} {flen : ℕ} {attrs : UCHAR} {c d : ℕ}
    {pre post longs : List Slot} {short : Slot} {first : ℕ} {cs l : List ℕ}
    (wrote : WroteSlots v w file fname flen attrs c pre post longs short first cs)
    (hl : IsChain v.geometry v.FAT d l) : (∀ x ∈ l, x ∉ cs) ∧ IsChain w.geometry w.FAT d l := by
  have hapart : ∀ x ∈ l, x ∉ cs := fun x hx hxcs => hl.cell_ne_zero hx (wrote.fresh x hxcs)
  refine ⟨hapart, hl.links.congr fun x hx => wrote.table x (hapart x hx), fun x hx => ?_⟩
  rw [wrote.geometry]
  exact hl.cells x hx

theorem fatWriteFileImplementation_inserts (store : ClusterStore v.geometry δ)
    (hg : v.geometry.Addressable) (ready : AllocReady v) {dir : ℕ} {l : List ℕ}
    (hl : IsChain v.geometry v.FAT dir l) {fname : List UCHAR} {flen : ℕ}
    (space : EnoughSpace v dir fname flen) {fuel : ℕ} {file : Buffer} {attrs : UCHAR}
    (h : fatWriteFileImplementation fuel v dir file fname flen attrs 0 = .ok w) :
    ∃ l' A run longs short B, Inserted v w dir l fname attrs l' A run longs short B := by
  obtain ⟨u, l', c, pre, run, post, longs, short, first, cs, located, hrun, hfree, -, wrote⟩ :=
    fatWriteFileImplementation_located store hg ready hl space h
  have hused : ∀ x ∈ l, v.FAT x ≠ 0 := fun x hx => hl.cell_ne_zero hx
  have prepared := located.prepared ready hl.cells hused
  have hchain := located.isChain hg hl
  obtain ⟨hapart, hchainW⟩ := wrote.chain_kept hchain
  obtain ⟨p, q, hsplit, hplace, hfirst⟩ := located.first (Nat.succ_pos _) hrun hfree hused prepared
  have hnodup := hchain.nodup
  rw [hsplit] at hnodup
  have hother : ∀ x ∈ p ++ q, w.dirSlots x = u.dirSlots x := by
    intro x hx
    have hxc : x ≠ c := by
      rintro rfl
      exact (List.nodup_middle.mp hnodup).notMem hx
    have hxl : x ∈ l' := by
      rw [hsplit]
      exact List.mem_append.mpr ((List.mem_append.mp hx).imp_right (List.mem_cons_of_mem c))
    rw [FAT32.dirSlots, FAT32.dirSlots, wrote.kept x (hapart x hxl) hxc, wrote.geometry]
  have hp : p.flatMap w.dirSlots = p.flatMap u.dirSlots :=
    List.flatMap_congr fun x hx => hother x (List.mem_append_left q hx)
  have hq : q.flatMap w.dirSlots = q.flatMap u.dirSlots :=
    List.flatMap_congr fun x hx => hother x (List.mem_append_right p hx)
  refine ⟨l', p.flatMap u.dirSlots ++ pre, run, longs, short, post ++ q.flatMap u.dirSlots,
    wrote.geometry.trans prepared.geometry, wrote.ready, hchainW, ?_, ?_, hfree, ?_, wrote.longSlots, ?_, hplace, hfirst⟩
  · rw [← prepared.stream, hsplit, List.flatMap_append, List.flatMap_cons, prepared.found]
    simp only [List.append_assoc]
  · rw [hsplit, List.flatMap_append, List.flatMap_cons, wrote.slots, hp, hq]
    simp only [List.append_assoc, List.cons_append, List.nil_append]
  · rw [List.length_append, wrote.longSlots.length_eq, hrun]
    rfl
  · obtain ⟨old, hshort⟩ := wrote.short_eq
    exact ⟨first, flen, old, hshort⟩

/-- The call takes as many cells as the file has clusters. -/
lemma WroteSlots.free_le {file : Buffer} {fname : List UCHAR} {flen : ℕ} {attrs : UCHAR} {c : ℕ}
    {pre post longs : List Slot} {short : Slot} {first : ℕ} {cs : List ℕ}
    (wrote : WroteSlots v w file fname flen attrs c pre post longs short first cs) :
    fatGetFreeClusters v ≤ fatGetFreeClusters w + requiredClusters v.geometry flen := by
  have hsub : freeCells v.FAT v.geometry.intsPerFat ⊆
      freeCells w.FAT v.geometry.intsPerFat ∪ cs.toFinset := by
    intro x hx
    rw [mem_freeCells] at hx
    rw [Finset.mem_union, mem_freeCells, List.mem_toFinset]
    by_cases hcs : x ∈ cs
    · exact .inr hcs
    · exact .inl ⟨hx.1, (wrote.table x hcs).trans hx.2⟩
  calc fatGetFreeClusters v
      ≤ (freeCells w.FAT v.geometry.intsPerFat).card + cs.toFinset.card :=
        (Finset.card_le_card hsub).trans (Finset.card_union_le _ _)
    _ ≤ fatGetFreeClusters w + requiredClusters v.geometry flen := by
        rw [fatGetFreeClusters, wrote.geometry, ← wrote.length]
        exact Nat.add_le_add_left cs.toFinset_card_le _

/-- A call with enough free clusters returns, if the slots for the name fit into a cluster. -/
theorem fatWriteFileImplementation_returns (store : ClusterStore v.geometry δ)
    (hg : v.geometry.Addressable) (ready : AllocReady v) {dir : ℕ} {l : List ℕ}
    (hl : IsChain v.geometry v.FAT dir l) {fname : List UCHAR} {flen : ℕ}
    (space : EnoughSpace v dir fname flen) (hpos : 0 < longEntries fname)
    (hfits : longEntries fname + 1 ≤ v.geometry.dirsPerCluster) {fuel : ℕ} (hfuel : l.length < fuel)
    (file : Buffer) (attrs : UCHAR) :
    ∃ w, fatWriteFileImplementation fuel v dir file fname flen attrs 0 = .ok w ∧
      fatGetFreeClusters v ≤ fatGetFreeClusters w + requiredClusters v.geometry flen + 1 := by
  have hroom : (∃ c ∈ l, findRun (longEntries fname + 1) (v.dirSlots c) 0 0 ≠ none) ∨
      0 < fatGetFreeClusters v :=
    space.place.imp_left fun ⟨m, hm, hfound⟩ => by rwa [hl.unique hm]
  obtain ⟨u, l', c, found, index, hlocate, located⟩ := fatLocateEntries_located store hg ready hl
    (Nat.succ_pos _) hfits hroom hfuel
  obtain ⟨pre, run, post, rfl, rfl, hrun, hfree⟩ := located.run (Nat.succ_pos _)
  have hcells : ∀ x ∈ l, v.FAT x ≠ 0 := fun x hx => hl.cell_ne_zero hx
  have prepared := located.prepared ready hl.cells hcells
  have hchain := located.isChain hg hl
  have hneed := located.space hcells space.data fun hfull =>
    space.directory fun ⟨m, hm, x, hx, hroom⟩ => hroom (hfull x (by rwa [hl.unique hm]))
  have hleft : fatGetFreeClusters v - 1 ≤ fatGetFreeClusters u := by
    refine located.space hcells (Nat.sub_le _ 1) fun hfull => ?_
    have hmore := space.directory fun ⟨m, hm, x, hx, hroom⟩ => hroom (hfull x (by rwa [hl.unique hm]))
    omega
  have hgeometry := prepared.geometry
  rw [← hgeometry] at hneed
  obtain ⟨w, longs, short, first, cs, hwrite, wrote⟩ := fatWriteFileImplementation_slots
    (hgeometry ▸ store) (hgeometry ▸ hg) prepared.ready hlocate hrun
    (by rw [← prepared.found]; exact length_slots _) (hchain.cells c prepared.mem)
    (hchain.cell_ne_zero prepared.mem) hpos attrs hneed file
  have hcount := wrote.free_le
  rw [hgeometry] at hcount
  exact ⟨w, hwrite, by omega⟩

end Entering
end Open98.Fat32
