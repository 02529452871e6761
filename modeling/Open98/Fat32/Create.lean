import Open98.Fat32.Layout

/-! `FatWriteFileImplementation` on a consistent volume with enough free clusters: where the entry
goes, and what stays as it is. -/
namespace Open98.Fat32
open Open98.Library

section Space
variable {δ : Type} [Disk δ]

/-- A cluster of the directory has so many free slots in a row. -/
def Room (v : FAT32 δ) (d count : ℕ) : Prop :=
  ∃ l, IsChain v.geometry v.FAT d l ∧ ∃ c ∈ l, findRun count (v.dirSlots c) 0 0 ≠ none

/-- There are enough free clusters for the data, and for the directory unless it has room. -/
structure EnoughSpace (v : FAT32 δ) (d : ℕ) (fname : List UCHAR) (flen : ℕ) : Prop where
  data : requiredClusters v.geometry flen ≤ fatGetFreeClusters v
  directory : ¬ Room v d (longEntries fname + 1) →
    requiredClusters v.geometry flen + 1 ≤ fatGetFreeClusters v

end Space

section Locating
variable {δ : Type} [Disk δ]

/-- At most the directory `d` has grown by a cluster. -/
structure Grown (v w : FAT32 δ) (L L' : Layout) (d : ℕ) : Prop where
  geometry : w.geometry = v.geometry
  junk : w.junk = v.junk
  sets : ∀ d', fatNaming.Live L.sets d' → L'.sets d' = L.sets d'
  chain : ∀ s ∈ fatNaming.Nodes L.sets, s ≠ d → L'.chain s = L.chain s
  used : usedCells v ⊆ usedCells w
  kept : ∀ x ∈ usedCells v, w.clusters x = v.clusters x

lemma Grown.refl (v : FAT32 δ) (L : Layout) (d : ℕ) : Grown v v L L d :=
  ⟨rfl, rfl, fun _ _ => rfl, fun _ _ _ => rfl, subset_rfl, fun _ _ => rfl⟩

variable {v : FAT32 δ} {L : Layout} (store : ClusterStore v.geometry δ) (hg : v.geometry.Addressable)
  (h : Holds v L) {d : ℕ} (hd : fatNaming.Live L.sets d)
include h hd

lemma Holds.grown {x : ℕ} (hx : v.geometry.HasCluster x) (hfree : v.FAT x = 0) {disk : δ}
    (hclear : content v.geometry disk = Function.update v.clusters x fun _ => 0) :
    Grown v (v.extended ((L.chain d).getLast (h.isChain hd.mem_nodes).links.ne_nil) x disk) L
      (L.extend v.geometry d x) d := by
  refine ⟨rfl, rfl, fun d' hd' => h.shaped.sets_extend hfree d hd',
    fun s _ hsd => Layout.extend_chain_of_ne hsd, fun c hc => ⟨hc.1, ?_⟩, fun c hc => ?_⟩
  · simp only [FAT32.extended, Function.update_apply]
    split_ifs
    · exact hx.ne_zero
    · decide
    · exact hc.2
  · have hcx : c ≠ x := fun hcx => hc.2 (hcx ▸ hfree)
    change content v.geometry disk c = _
    rw [hclear, Function.update_of_ne hcx]

include store hg

/-- The search for slots succeeds, if need be in a new cluster. -/
theorem Holds.locate {count : ℕ} (hpos : 0 < count) (hle : count ≤ v.geometry.dirsPerCluster)
    {need : ℕ} (hneed : need ≤ fatGetFreeClusters v)
    (hroom : ¬ Room v d count → need + 1 ≤ fatGetFreeClusters v) {fuel : ℕ}
    (hfuel : v.geometry.intsPerFat < fuel) :
    ∃ w L' c pre run post, fatLocateEntries count fuel v d =
        .ok (some (c, pre ++ run ++ post, pre.length), w) ∧
      Holds w L' ∧ Grown v w L L' d ∧ c ∈ L'.chain d ∧ w.dirSlots c = pre ++ run ++ post ∧
      run.length = count ∧ (∀ s ∈ run, s.Free) ∧ need ≤ fatGetFreeClusters w := by
  have hchain := h.isChain hd.mem_nodes
  have hlength := hchain.length_le
  by_cases hfound : ∃ c ∈ L.chain d, findRun count (v.dirSlots c) 0 0 ≠ none
  · obtain ⟨p, c, q, index, hl, -, hfind, hlocate⟩ :=
      fatLocateEntries_room (store.get _) hg hchain hfound (hlength.trans hfuel.le)
    have hc : c ∈ L.chain d := by simp [hl]
    obtain ⟨pre, run, post, hslots, rfl, hrun, hfree⟩ := findRun_start hpos hfind
    rw [hslots] at hlocate
    exact ⟨v, L, c, pre, run, post, hlocate, h, Grown.refl v L d, hc, hslots, hrun, hfree, hneed⟩
  · have hspace : need + 1 ≤ fatGetFreeClusters v := by
      refine hroom fun hr => hfound ?_
      obtain ⟨l, hl, hr⟩ := hr
      rwa [hchain.unique hl]
    have hfull : ∀ c ∈ L.chain d, findRun count (v.dirSlots c) 0 0 = none := by
      intro c hc
      by_contra hne
      exact hfound ⟨c, hc, hne⟩
    obtain ⟨x, disk, -, hx, hzero, hclear, hlocate⟩ := fatLocateEntries_extends store hg h.ready hchain
      hfull (by omega) hpos hle (hlength.trans_lt hfuel)
    have hholds := h.extend hg hd hx hzero hclear
    have hnew : x ∈ (L.extend v.geometry d x).chain d := by
      rw [Layout.extend_chain_self]
      simp
    have hsplit : List.replicate v.geometry.dirsPerCluster zeroSlot =
        [] ++ List.replicate count zeroSlot ++
          List.replicate (v.geometry.dirsPerCluster - count) zeroSlot := by
      rw [List.nil_append, List.replicate_append_replicate, Nat.add_sub_cancel' hle]
    have hslots := hholds.parts d ((Naming.live_congr fun d' hd' => h.shaped.sets_extend hzero d hd').mpr hd)
      x hnew
    rw [Layout.extend_parts_self, flatMap_freeSegments fun s hs =>
      List.eq_of_mem_replicate hs ▸ zeroSlot_free, hsplit] at hslots
    rw [hsplit] at hlocate
    refine ⟨_, L.extend v.geometry d x, x, [], _, _, hlocate, hholds, h.grown hd hx hzero hclear,
      hnew, hslots, by simp, fun s hs => List.eq_of_mem_replicate hs ▸ zeroSlot_free, ?_⟩
    have hlast := hchain.cell_ne_zero (List.getLast_mem hchain.links.ne_nil)
    have hcount := FAT32.free_extended hx hzero hlast disk
    omega

end Locating

section Creating
variable {δ : Type} [Disk δ]

/-- The volume `w` is `v` with a new entry `e` in the directory `d`; the other files and directories
are as they were. -/
structure Created (v w : FAT32 δ) (L L' : Layout) (d : ℕ) (e : EntrySet) (l₁ l₂ : List EntrySet)
    (file : Buffer) (fname : List UCHAR) (flen : ℕ) (attrs : UCHAR) : Prop where
  geometry : w.geometry = v.geometry
  junk : w.junk = v.junk
  holds : Holds w L'
  inserts : fatNaming.Inserts L.sets L'.sets d e l₁ l₂
  describes : Describes e fname attrs e.first flen
  chain : ∀ s ∈ fatNaming.Nodes L.sets, s ≠ d → L'.chain s = L.chain s
  kept : ∀ s ∈ fatNaming.Nodes L.sets, s ≠ d → ∀ x ∈ L.chain s, w.clusters x = v.clusters x
  data : ∀ k < flen, chainBytes v.geometry w.clusters (L'.chain e.first) k = file k
  covered : flen ≤ (L'.chain e.first).length * v.geometry.clusterSize

/-- With enough free clusters the entry is created. -/
theorem Holds.create {v : FAT32 δ} {L : Layout} (store : ClusterStore v.geometry δ)
    (hg : v.geometry.Addressable) (h : Holds v L) {d : ℕ} (hd : fatNaming.Live L.sets d)
    {fname : List UCHAR} (hname : ValidName fname) {attrs : UCHAR} (hattrs : attrs ≠ LFN) {flen : ℕ}
    (hempty : attrs = DIRECTORY → flen = 0) (hflen : flen < 2^32) (space : EnoughSpace v d fname flen)
    {fuel : ℕ} (hfuel : v.geometry.intsPerFat < fuel) (file : Buffer) :
    ∃ w L' e l₁ l₂, fatWriteFileImplementation fuel v d file fname flen attrs 0 = .ok w ∧
      Created v w L L' d e l₁ l₂ file fname flen attrs := by
  obtain ⟨u, M, c, pre, run, post, hlocate, hM, grown, hc, hslots, hrun, hfree, hneed⟩ :=
    h.locate store hg hd (Nat.succ_pos _) (hname.slots_le _) space.data space.directory hfuel
  have hdM : fatNaming.Live M.sets d := (Naming.live_congr grown.sets).mpr hd
  have hcu := hM.chains.used_of_mem hdM.mem_nodes hc
  have hlen : (pre ++ run ++ post).length = u.geometry.dirsPerCluster := by
    rw [← hslots]
    exact length_slots _
  have hrunne : run ≠ [] := List.ne_nil_of_length_pos (by omega)
  obtain ⟨A, B, hA, hB, hentries⟩ := split_at_run hrunne hfree ((hM.parts d hdM c hc).symm.trans hslots)
  obtain ⟨w, e, first, cs, hwrite, wrote⟩ := fatWriteFileImplementation_ok (grown.geometry ▸ store)
    (grown.geometry ▸ hg) hM.ready hlocate hrun hlen hcu.1 hcu.2 hname hattrs hflen
    (by rwa [grown.geometry]) file
  rw [← hA, ← hB] at wrote
  obtain ⟨l₁, l₂, ins⟩ := hM.shaped.inserts hdM hc hentries wrote.set
  have hholds := hM.insert hdM hc hentries wrote hname.noNul hempty
  have hfirst := wrote.set.first_eq
  have hnew : (M.insert u.geometry c (A ++ .entry e :: B) first cs).chain e.first = cs := by
    rw [hfirst]
    exact Function.update_self _ _ _
  have hnodes : ∀ s ∈ fatNaming.Nodes L.sets, s ∈ fatNaming.Nodes M.sets := by
    intro s hs
    rwa [Naming.nodes_congr grown.sets]
  have hcovered : flen ≤ cs.length * v.geometry.clusterSize := by
    rw [wrote.length, grown.geometry]
    exact (le_requiredClusters v.geometry flen).1
  refine ⟨w, _, e, l₁, l₂, hwrite, wrote.geometry.trans grown.geometry, wrote.junk.trans grown.junk,
    hholds, ins.of_congr grown.sets, hfirst ▸ wrote.describes, fun s hs hsd => ?_,
    fun s hs hsd x hx => ?_, fun k hk => ?_, by rwa [hnew]⟩
  · rw [hM.shaped.insert_chain wrote.set (hnodes s hs), grown.chain s hs hsd]
  · have hxM : x ∈ M.chain s := by rwa [grown.chain s hs hsd]
    have hxc : x ≠ c := fun hxc =>
      hsd (hM.chains.disjoint s (hnodes s hs) d hdM.mem_nodes c (hxc ▸ hxM) hc)
    have hxcs : x ∉ cs := fun hxcs => hM.shaped.notMem_of_free (wrote.fresh x hxcs) (hnodes s hs) hxM
    rw [wrote.kept x hxcs hxc, grown.kept x (h.chains.used_of_mem hs hx)]
  · rw [hnew, ← grown.geometry, wrote.data k (by rw [grown.geometry]; omega), if_pos hk]

end Creating

end Open98.Fat32
