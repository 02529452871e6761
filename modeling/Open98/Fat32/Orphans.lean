import Open98.Fat32.ShortNames

/-! Clusters that no directory or file owns any more: which calls leave such clusters behind. -/
namespace Open98.Fat32
open Open98.Library

section Entered
variable {δ : Type} [Disk δ] {u v w : FAT32 δ} {L : Layout} {S : Set ℕ} {d : ℕ} {fname : List UCHAR}

/-- A name whose slots are read back as one entry; the entry numbers of its long-name slots are less than
16. -/
structure PlainName (fname : List UCHAR) : Prop where
  noNul : NoNul fname
  live : fname.head? ≠ some 0xE5
  le : longEntries fname ≤ 15

/-- When the search for slots has ended, the directory has a layout with the same entries. -/
lemma Shaped.located (h : Shaped v L S) (hg : v.geometry.Addressable) (hd : fatNaming.Live L.sets d)
    {l' : List ℕ} {count c index : ℕ} {found : List Slot}
    (located : Located v (L.chain d) count u l' c found index) :
    ∃ M, Shaped u M S ∧ M.chain d = l' ∧ ∀ d', fatNaming.Live L.sets d' → M.sets d' = L.sets d' := by
  cases located with
  | room hl hfull hfind => exact ⟨L, h, rfl, fun _ _ => rfl⟩
  | extended hne hfull halloc hx hfree hclear hle =>
    exact ⟨_, h.extend hg hd hx hfree hclear, Layout.extend_chain_self,
      fun d' hd' => h.sets_extend hfree d hd'⟩

omit [Disk δ] in
/-- The long-name slots of such a name are in use. -/
lemma LongSlotsOf.long {longs : List Slot} (h : LongSlotsOf fname longs) (hle : longEntries fname ≤ 15) :
    ∀ s ∈ longs, s.Long := by
  intro s hs
  obtain ⟨t, ht, rfl⟩ := List.mem_iff_getElem.mp hs
  have hlen := h.length_eq
  obtain ⟨old, checksum, s, rfl, hslot⟩ := h.slot ht
  have hi : longs.length - 1 - t < 15 := by omega
  generalize longs.length - 1 - t = i at hi hslot
  have hnumber : longNameSlot old i checksum fname 0 = BitVec.ofNat 8 (i+1) := by
    simp [longNameSlot, Slot.poke, nameOffsets]
  have hattr : longNameSlot old i checksum fname 11 = LFN := by
    simp [longNameSlot, Slot.poke]
  rw [hslot]
  split_ifs
  · refine ⟨?_, by rwa [Function.update_of_ne (by decide)]⟩
    rw [Slot.Free, Function.update_self, hnumber]
    interval_cases i <;> decide
  · refine ⟨?_, hattr⟩
    rw [Slot.Free, hnumber]
    interval_cases i <;> decide

/-- The slots that are written for such a name are an entry set. -/
lemma WroteSlots.entry {file : Buffer} {flen : ℕ} {attrs : UCHAR} {c : ℕ} {pre post longs : List Slot}
    {short : Slot} {first : ℕ} {cs : List ℕ}
    (wrote : WroteSlots v w file fname flen attrs c pre post longs short first cs)
    (hg : v.geometry.Addressable) (hname : PlainName fname) (hattrs : attrs ≠ LFN) (hflen : flen < 2^32) :
    ∃ e : EntrySet, WroteSet v w file flen attrs c pre post e first cs := by
  have hfirst := wrote.first_lt hg
  obtain ⟨old, rfl⟩ := wrote.short_eq
  have hlast : (shortSlot fname attrs first flen old).Short :=
    (shortSlot_short hattrs wrote.longSlots.ne_nil hname.noNul).mpr hname.live
  exact ⟨⟨longs, _, wrote.longSlots.long hname.le, hlast⟩, shortSlot_fields hfirst hflen old,
    wrote.geometry, wrote.ready, wrote.chain, wrote.fresh, wrote.table, wrote.slots, wrote.kept, wrote.data⟩

/-- A call that creates an entry and returns has inserted it into its directory. -/
theorem Shaped.create (h : Shaped v L S) (store : ClusterStore v.geometry δ) (hg : v.geometry.Addressable)
    (hd : fatNaming.Live L.sets d) (hname : PlainName fname) {attrs : UCHAR} (hattrs : attrs ≠ LFN)
    {flen : ℕ} (hempty : attrs = DIRECTORY → flen = 0) (hflen : flen < 2^32)
    (space : EnoughSpace v d fname flen) {fuel : ℕ} {file : Buffer}
    (hwrite : fatWriteFileImplementation fuel v d file fname flen attrs 0 = .ok w) :
    ∃ L' e l₁ l₂, Shaped w L' (Insert.insert e.first S) ∧ e.first ∉ S ∧
      fatNaming.Inserts L.sets L'.sets d e l₁ l₂ ∧ w.geometry = v.geometry := by
  have hchain := h.isChain (h.live_mem hd)
  obtain ⟨u, l', c, pre, run, post, longs, short, first, cs, located, hrun, hfree, -, wrote⟩ :=
    fatWriteFileImplementation_located store hg h.ready hchain space hwrite
  have prepared := located.prepared h.ready hchain.cells fun x hx => hchain.cell_ne_zero hx
  obtain ⟨M, hM, rfl, hsets⟩ := h.located hg hd located
  have hdM : fatNaming.Live M.sets d := (Naming.live_congr hsets).mpr hd
  have hrunne : run ≠ [] := List.ne_nil_of_length_pos (by omega)
  obtain ⟨A, B, rfl, rfl, hentries⟩ :=
    split_at_run hrunne hfree ((hM.parts d hdM c prepared.mem).symm.trans prepared.found)
  obtain ⟨e, wroteSet⟩ := wrote.entry (prepared.geometry ▸ hg) hname hattrs hflen
  obtain ⟨l₁, l₂, ins⟩ := hM.inserts hdM prepared.mem hentries wroteSet
  refine ⟨_, e, l₁, l₂, hM.insert hdM prepared.mem hentries wroteSet hempty, ?_, ins.of_congr hsets,
    wrote.geometry.trans prepared.geometry⟩
  rw [wroteSet.first_eq]
  exact hM.notMem_starts (wroteSet.fresh first wroteSet.chain.links.head_mem)

end Entered

section Guards
variable {δ : Type} [Disk δ] (fuel : ℕ) (v : FAT32 δ)

/-- The call is on a directory that is reached from the root directory, and what it creates has a plain
name and enough space. -/
def FatOp.Sound : FatOp → Prop
  | writeFile dir _ fname flen => LiveDir fuel v dir ∧ PlainName fname ∧ flen < 2^32 ∧
      EnoughSpace v dir fname flen
  | makeDirectory dir dirname => LiveDir fuel v dir ∧ PlainName dirname ∧ EnoughSpace v dir dirname 0
  | deleteFile dir _ => LiveDir fuel v dir
  | scribble _ => True

/-- The entry that is deleted, the first one of the name, is not a directory with entries. -/
def FatOp.Spares : FatOp → Prop
  | deleteFile dir filename => ∀ es e, Lists fuel v dir es →
      es.find? (fun e => strcmpEq e.name filename) = some e → e.dirAttrs = DIRECTORY →
        Lists fuel v e.firstCluster []
  | _ => True

/-- Every cell in use belongs to the chain of a directory or file that is reached from the root
directory. -/
def NoOrphans : Prop := ∀ c, 2 ≤ c → c < 128 * v.geometry.sectorsPerFat32 → v.FAT c ≠ 0 →
  ∃ o s l, ChainStart fuel v o s ∧ GoodChain v s l ∧ c ∈ l

end Guards

section Steps
variable {δ : Type} [Disk δ] {fuel : ℕ} {v w : FAT32 δ} {L : Layout} {S : Set ℕ}
  (sup : Supported v.geometry δ fuel) (h : Shaped v L S)
include sup h

/-- No cell is left behind if and only if the chains are those of the tree. -/
lemma Shaped.noOrphans_iff : NoOrphans fuel v ↔ S ⊆ fatNaming.Nodes L.sets := by
  constructor
  · intro hno s hs
    have hmem := (h.isChain hs).links.head_mem
    obtain ⟨hcell, hused⟩ := h.chains.used_of_mem hs hmem
    obtain ⟨o, t, l, ho, hl, hsl⟩ := hno s hcell.1 (sup.addressable.intsPerFat_eq ▸ hcell.2) hused
    have ht := h.chainStart_node sup ho
    rw [h.eq_chain (h.nodes ht) hl] at hsl
    rwa [h.chains.disjoint s hs t (h.nodes ht) s hmem hsl]
  · intro hsub c hc hlt hused
    have hcell : c ∈ usedCells v := ⟨⟨hc, by rwa [sup.addressable.intsPerFat_eq]⟩, hused⟩
    obtain ⟨s, hs, hcs⟩ := (h.chains.mem_used c).mp hcell
    obtain ⟨o, ho⟩ := h.exists_chainStart sup (hsub hs)
    exact ⟨o, s, L.chain s, ho, h.goodChain sup.addressable hs, hcs⟩

lemma Shaped.spares_iff {d : ℕ} (hd : fatNaming.Live L.sets d) {filename : List UCHAR} {c : ℕ}
    {A B : List Segment} {e : EntrySet} (deletes : DeletesFirst v w L d filename c A B e) :
    (FatOp.deleteFile d filename).Spares fuel v ↔ (e.short 11 = DIRECTORY → L.sets e.first = []) := by
  obtain ⟨l₁, l₂, hsets, hbefore⟩ := deletes.first
  have hlists := h.lists sup hd
  have hfind : ((L.sets d).map (EntrySet.dirent v.junk)).find? (fun e => strcmpEq e.name filename) =
      some (e.dirent v.junk) := by
    rw [List.find?_eq_some_iff_append]
    refine ⟨deletes.named, l₁.map (EntrySet.dirent v.junk), l₂.map (EntrySet.dirent v.junk), ?_,
      fun e' he' => ?_⟩
    · rw [hsets, List.map_append, List.map_cons]
    · obtain ⟨set, hset, rfl⟩ := List.mem_map.mp he'
      simpa [EntrySet.Named] using hbefore set hset
  have hsub : e.short 11 = DIRECTORY → (Lists fuel v e.first [] ↔ L.sets e.first = []) := by
    intro hdir
    have hlive := h.lists sup (hd.sub deletes.mem hdir)
    constructor
    · exact fun hnone => List.map_eq_nil_iff.mp (hlive.unique hnone)
    · intro hnone
      change Lists fuel v e.first _ at hlive
      rwa [show L.sets (fatNaming.node e) = [] from hnone] at hlive
  constructor
  · intro hspares hdir
    exact (hsub hdir).mp (hspares _ _ hlists hfind hdir)
  · intro hempty es e' hes hfound hdir
    obtain rfl := hes.unique hlists
    obtain rfl := Option.some.inj (hfound.symm.trans hfind)
    exact (hsub hdir).mpr (hempty hdir)

/-- After a call the chains are those of the tree if they were so before and the call has spared what is
below a directory. -/
theorem Shaped.step {o : FatOp} (ho : o.Sound fuel v) (hw : o.apply fuel v = some w) :
    ∃ L' S', Shaped w L' S' ∧ w.geometry = v.geometry ∧
      (S' ⊆ fatNaming.Nodes L'.sets ↔ S ⊆ fatNaming.Nodes L.sets ∧ o.Spares fuel v) := by
  have hcreate : ∀ {d file fname flen attrs}, fatNaming.Live L.sets d → PlainName fname → attrs ≠ LFN →
      (attrs = DIRECTORY → flen = 0) → flen < 2^32 → EnoughSpace v d fname flen →
      fatWriteFileImplementation fuel v d file fname flen attrs 0 = .ok w →
      ∃ L' S', Shaped w L' S' ∧ w.geometry = v.geometry ∧
        (S' ⊆ fatNaming.Nodes L'.sets ↔ S ⊆ fatNaming.Nodes L.sets) := by
    intro d file fname flen attrs hd hname hattrs hempty hflen space hwrite
    obtain ⟨L', e, l₁, l₂, hshaped, hnew, ins, hgeometry⟩ :=
      h.create sup.store sup.addressable hd hname hattrs hempty hflen space hwrite
    exact ⟨L', _, hshaped, hgeometry, ins.subset_iff hnew⟩
  cases o with
  | writeFile d file fname flen =>
    obtain ⟨hd, hname, hflen, space⟩ := ho
    obtain ⟨L', S', hshaped, hgeometry, hiff⟩ := hcreate ((h.liveDir_iff sup).mp hd) hname (by decide)
      (fun h0 => absurd h0 (by decide)) hflen space (toOption_eq_some.mp hw)
    exact ⟨L', S', hshaped, hgeometry, hiff.trans (and_iff_left trivial).symm⟩
  | makeDirectory d dirname =>
    obtain ⟨hd, hname, space⟩ := ho
    have hwrite := fatMakeDirectory_writes (toOption_eq_some.mp hw)
    obtain ⟨L', S', hshaped, hgeometry, hiff⟩ := hcreate ((h.liveDir_iff sup).mp hd) hname (by decide)
      (fun _ => rfl) (by decide) space hwrite
    exact ⟨L', S', hshaped, hgeometry, hiff.trans (and_iff_left trivial).symm⟩
  | deleteFile d filename =>
    have hd := (h.liveDir_iff sup).mp ho
    obtain ⟨w', hdelete, hcases⟩ := h.deleteFile sup hd filename
    obtain rfl := Except.ok.inj ((toOption_eq_some.mp hw).symm.trans hdelete)
    rcases hcases with ⟨habsent, rfl⟩ | ⟨c, A, B, e, deletes⟩
    · refine ⟨L, S, h, rfl, (and_iff_left fun es e hes hfound _ => ?_).symm⟩
      obtain rfl := hes.unique (h.lists sup hd)
      obtain ⟨set, hset, rfl⟩ := List.mem_map.mp (List.mem_of_find?_eq_some hfound)
      exact absurd (List.find?_some hfound) (habsent set hset)
    · obtain ⟨l₁, l₂, drops⟩ := h.drops hd deletes.cluster deletes.parts
        (List.replicate (e.longs.length + 1) zeroSlot)
      refine ⟨_, _, h.remove hd deletes.cluster deletes.parts deletes.deleted, deletes.deleted.geometry, ?_⟩
      rw [h.spares_iff sup hd deletes]
      exact drops.subset_iff h.tree h.nodes
  | scribble junk =>
    obtain rfl := Option.some.inj hw
    exact ⟨L, S, ⟨⟨h.ready.reserved, h.ready.hint⟩, h.tree, h.nodes, h.chains, h.parts⟩, rfl,
      (and_iff_left trivial).symm⟩

/-- The same for a run. -/
theorem Shaped.run {ops : List FatOp} (run : GuardedRun (FatOp.Sound fuel) (FatOp.apply fuel) v ops w) :
    ∃ L' S', Shaped w L' S' ∧ w.geometry = v.geometry ∧ (S' ⊆ fatNaming.Nodes L'.sets ↔
      S ⊆ fatNaming.Nodes L.sets ∧ GuardedRun (FatOp.Spares fuel) (FatOp.apply fuel) v ops w) := by
  induction run generalizing L S with
  | nil v => exact ⟨L, S, h, rfl, (and_iff_left (.nil v)).symm⟩
  | @cons v u w o ops guard next tail ih =>
    obtain ⟨M, T, hM, hgeometry, hiff⟩ := h.step sup guard next
    obtain ⟨L', S', hshaped, hgeometry', hiff'⟩ := ih (sup.of_eq hgeometry) hM
    refine ⟨L', S', hshaped, hgeometry'.trans hgeometry, ?_⟩
    rw [hiff', hiff, GuardedRun.cons_iff next, and_assoc]

end Steps

section Integrity
variable {δ : Type} [Disk δ]

/-- In a run from a freshly formatted volume, every cell in use still belongs to a directory or file if and
only if no call has deleted a directory with entries. -/
theorem no_orphans_iff {v₀ v : FAT32 δ} (store : ClusterStore v₀.geometry δ) (h₀ : Formatted v₀) {fuel : ℕ}
    (hfuel : v₀.geometry.intsPerFat < fuel) {ops : List FatOp}
    (run : GuardedRun (FatOp.Sound fuel) (FatOp.apply fuel) v₀ ops v) :
    NoOrphans fuel v ↔ GuardedRun (FatOp.Spares fuel) (FatOp.apply fuel) v₀ ops v := by
  have sup : Supported v₀.geometry δ fuel := ⟨store, h₀.addressable, hfuel⟩
  obtain ⟨L₀, hL₀, -⟩ := h₀.holds
  obtain ⟨L, S, h, hgeometry, hiff⟩ := hL₀.shaped.run sup run
  rw [h.noOrphans_iff (sup.of_eq hgeometry), hiff]
  exact and_iff_right subset_rfl

end Integrity

section Volumes
open Open98.Ata

lemma letterA_plain : PlainName letterA := ⟨letterA_valid.noNul, by decide, by decide⟩

/-- A directory is made in the root directory of a small volume. -/
lemma fresh_makeDirectory : ∃ w L e, FatOp.Sound 200 fresh (.makeDirectory 2 letterA) ∧
    FatOp.apply 200 fresh (.makeDirectory 2 letterA) = some w ∧ w.geometry = small ∧ Holds w L ∧
    123 ≤ fatGetFreeClusters w ∧ L.sets 2 = [e] ∧ L.sets e.first = [] ∧ e.short 11 = DIRECTORY ∧
    ∀ junk, e.Named junk letterA := by
  obtain ⟨L₀, h₀, hempty⟩ := fresh_formatted.holds
  have sup : Supported fresh.geometry Drive 200 := ⟨small_clusterStore, small_addressable, by decide⟩
  have hnew : NewName 200 fresh 2 letterA := by
    refine ⟨letterA_valid, fun es hes e he => ?_⟩
    rw [hes.unique (fresh_formatted.lists_nil small_clusterStore (by decide))] at he
    cases he
  have hspace : EnoughSpace fresh 2 letterA 0 := by
    refine ⟨?_, fun _ => ?_⟩ <;> rw [fresh_space] <;> decide
  obtain ⟨w, L, e, l₁, l₂, hmake, created⟩ := h₀.makeDirectory sup .root hnew hspace
  have hfree : 123 ≤ fatGetFreeClusters w := by
    have hwrite := fatMakeDirectory_writes hmake
    obtain ⟨w', hwrite', hcount⟩ := fatWriteFileImplementation_returns small_clusterStore
      small_addressable fresh_ready fresh_root hspace (by decide) (by decide) (show 1 < 200 by decide)
      (fun _ => 0) DIRECTORY
    obtain rfl := Except.ok.inj (hwrite.symm.trans hwrite')
    rw [fresh_space, show requiredClusters fresh.geometry 0 = 1 by decide] at hcount
    omega
  have hsets : L.sets 2 = l₁ ++ e :: l₂ := created.inserts.after
  have hnone : l₁ ++ l₂ = [] := created.inserts.before.symm.trans (hempty 2)
  obtain ⟨rfl, rfl⟩ := List.append_eq_nil_iff.mp hnone
  have hdirectory : e.short 11 = DIRECTORY := congrArg Prod.fst created.describes.fields
  refine ⟨w, L, e, ⟨.root, letterA_plain, hspace⟩, congrArg Except.toOption hmake, created.geometry,
    created.holds, hfree, hsets, created.inserts.new hdirectory, hdirectory, fun junk => ?_⟩
  exact (strcmpEq_iff (created.describes.name junk) letterA_valid.noNul letterA_valid.noNul).mpr rfl

/-- An empty directory is made and deleted again. -/
theorem no_orphans_iff_empty_directory : ∃ v, GuardedRun (FatOp.Sound 200) (FatOp.apply 200) fresh
    [.makeDirectory 2 letterA, .deleteFile 2 letterA] v ∧ NoOrphans 200 v := by
  obtain ⟨w, L, e, hsound, hmake, hgeometry, h, -, hsets, hempty, hdirectory, -⟩ := fresh_makeDirectory
  have sup : Supported w.geometry Drive 200 :=
    hgeometry ▸ ⟨small_clusterStore, small_addressable, by decide⟩
  obtain ⟨v, hdelete, -⟩ := h.shaped.deleteFile sup .root letterA
  have happly : FatOp.apply 200 w (.deleteFile 2 letterA) = some v := congrArg Except.toOption hdelete
  have hspares : FatOp.Spares 200 w (.deleteFile 2 letterA) := by
    intro es e' hes hfound hdir
    obtain rfl := hes.unique (h.shaped.lists sup .root)
    obtain ⟨set, hset, rfl⟩ := List.mem_map.mp (List.mem_of_find?_eq_some hfound)
    obtain rfl : set = e := by simpa [hsets, fatNaming] using hset
    have hlists := h.shaped.lists sup (.sub .root (show set ∈ L.sets 2 by rw [hsets]; simp) hdirectory)
    change Lists 200 w set.first _ at hlists
    rwa [show L.sets (fatNaming.node set) = [] from hempty] at hlists
  have run : GuardedRun (FatOp.Sound 200) (FatOp.apply 200) fresh
      [.makeDirectory 2 letterA, .deleteFile 2 letterA] v :=
    .cons hsound hmake (.cons .root happly (.nil v))
  exact ⟨v, run, (no_orphans_iff small_clusterStore fresh_formatted (by decide) run).mpr
    (.cons trivial hmake (.cons hspares happly (.nil v)))⟩

/-- A directory with a file in it is deleted: the cluster of the file stays in use. -/
theorem directory_with_file_deleted : ∃ d v, GuardedRun (FatOp.Sound 200) (FatOp.apply 200) fresh
    [.makeDirectory 2 letterA, .writeFile d (fun _ => 7) letterA 3, .deleteFile 2 letterA] v ∧
    ¬ NoOrphans 200 v := by
  obtain ⟨w, L, e, hsound, hmake, hgeometry, h, hfree, hsets, -, hdirectory, hnamed⟩ :=
    fresh_makeDirectory
  have sup : Supported w.geometry Drive 200 :=
    hgeometry ▸ ⟨small_clusterStore, small_addressable, by decide⟩
  have hmem : e ∈ L.sets 2 := by
    rw [hsets]
    simp
  have hlive : fatNaming.Live L.sets e.first := .sub .root hmem hdirectory
  have hspace : EnoughSpace w e.first letterA 3 := by
    have hneed : requiredClusters w.geometry 3 = 1 := by
      rw [hgeometry]
      decide
    exact ⟨by omega, fun _ => by omega⟩
  obtain ⟨u, M, e₂, l₁, l₂, hwrite, created⟩ := h.create sup.store sup.addressable hlive letterA_valid
    (show (0 : UCHAR) ≠ LFN by decide) (fun h0 => absurd h0 (by decide)) (show 3 < 2^32 by decide) hspace
    sup.fuel fun _ => 7
  have supu := sup.of_eq created.geometry
  obtain ⟨v, hdelete, -⟩ := created.holds.shaped.deleteFile supu .root letterA
  have hfile : FatOp.apply 200 w (.writeFile e.first (fun _ => 7) letterA 3) = some u :=
    congrArg Except.toOption hwrite
  have happly : FatOp.apply 200 u (.deleteFile 2 letterA) = some v := congrArg Except.toOption hdelete
  refine ⟨e.first, v, .cons hsound hmake (.cons ⟨(h.shaped.liveDir_iff sup).mpr hlive, letterA_plain,
    by decide, hspace⟩ hfile (.cons .root happly (.nil v))), fun hno => ?_⟩
  obtain ⟨L', S', hshaped, hgeometry', hiff⟩ :=
    created.holds.shaped.step supu (show FatOp.Sound 200 u (.deleteFile 2 letterA) from .root) happly
  rw [hshaped.noOrphans_iff (supu.of_eq hgeometry'), hiff] at hno
  -- the first entry of the name is the directory, and it lists the file
  have hroot : M.sets 2 = [e] := by
    rw [created.inserts.others 2 .root (h.tree.notRoot 2 e .root hmem).symm, hsets]
  have hlists := created.holds.shaped.lists supu .root
  change Lists 200 u 2 _ at hlists
  rw [show M.sets fatNaming.root = [e] from hroot] at hlists
  have hfind : ([e].map (EntrySet.dirent u.junk)).find? (fun e => strcmpEq e.name letterA) =
      some (e.dirent u.junk) := by
    rw [List.map_singleton, List.find?_singleton]
    exact if_pos (hnamed u.junk)
  have hfound := hno.2 _ (e.dirent u.junk) hlists hfind hdirectory
  have hbelow := created.holds.shaped.lists supu (created.inserts.live_iff.mpr (.inl hlive))
  have hnone := List.map_eq_nil_iff.mp (hbelow.unique hfound)
  rw [created.inserts.after] at hnone
  simp at hnone

end Volumes

end Open98.Fat32
