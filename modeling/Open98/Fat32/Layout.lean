import Open98.Fat32.Delete
import Open98.Fat32.Write
import Open98.Library.ChainFamily
import Open98.Library.NameTree

/-! What a consistent volume looks like: a tree of directories whose nodes are chains of clusters
that partition the cells in use, and directory clusters that consist of free slots and complete
entry sets. Each operation carries one layout over to the next. -/
namespace Open98.Fat32
open Open98.Library

/-- The first cluster that an entry names. -/
def EntrySet.first (e : EntrySet) : ℕ := e.short.fields.2.1

def EntrySet.size (e : EntrySet) : ℕ := e.short.fields.2.2

/-- The root directory starts at cluster 2; other directories and the files start at the first
clusters of their entries. -/
def fatNaming : Naming ℕ EntrySet where
  root := 2
  node := EntrySet.first
  isDir e := e.short 11 = DIRECTORY

structure Layout where
  chain : ℕ → List ℕ
  parts : ℕ → List Segment

def Layout.sets (L : Layout) (d : ℕ) : List EntrySet := setsOf L.parts (L.chain d)

/-- The entry has a name that reads back as a string, and its chain covers its size; directories
have size 0. -/
structure SoundEntry (g : Geometry) (chain : ℕ → List ℕ) (e : EntrySet) : Prop where
  name : ∃ fname, NoNul fname ∧ ∀ junk, HoldsString (e.dirent junk).name fname
  covered : e.size ≤ (chain e.first).length * g.clusterSize
  directory : e.short 11 = DIRECTORY → e.size = 0

section Holds
variable {δ : Type} [Disk δ]

/-- The clusters that are in use. -/
def usedCells (v : FAT32 δ) : Set ℕ := {c | v.geometry.HasCluster c ∧ v.FAT c ≠ 0}

/-- The volume has the directories of the layout, and the chains from the clusters of `S` take up all cells
in use. The nodes of the tree are among these clusters. -/
structure Shaped (v : FAT32 δ) (L : Layout) (S : Set ℕ) : Prop where
  ready : AllocReady v
  tree : fatNaming.Tree L.sets
  nodes : fatNaming.Nodes L.sets ⊆ S
  chains : ChainFamily v.FAT EndMark (usedCells v) S L.chain
  parts : ∀ d, fatNaming.Live L.sets d → ∀ c ∈ L.chain d,
    v.dirSlots c = (L.parts c).flatMap Segment.slots

/-- The volume has the layout. -/
structure Holds (v : FAT32 δ) (L : Layout) : Prop where
  ready : AllocReady v
  tree : fatNaming.Tree L.sets
  chains : ChainFamily v.FAT EndMark (usedCells v) (fatNaming.Nodes L.sets) L.chain
  parts : ∀ d, fatNaming.Live L.sets d → ∀ c ∈ L.chain d,
    v.dirSlots c = (L.parts c).flatMap Segment.slots
  sound : ∀ d e, fatNaming.Live L.sets d → e ∈ L.sets d → SoundEntry v.geometry L.chain e

namespace Shaped
variable {v : FAT32 δ} {L : Layout} {S : Set ℕ} (h : Shaped v L S) {s d : ℕ}
include h

lemma isChain (hs : s ∈ S) : IsChain v.geometry v.FAT s (L.chain s) :=
  ⟨h.chains.links s hs, fun _ hc => (h.chains.used_of_mem hs hc).1⟩

lemma live_mem (hd : fatNaming.Live L.sets d) : d ∈ S := h.nodes hd.mem_nodes

lemma notMem_of_free {c : ℕ} (hfree : v.FAT c = 0) (hs : s ∈ S) : c ∉ L.chain s :=
  (h.isChain hs).notMem_of_free hfree

lemma notMem_starts {c : ℕ} (hfree : v.FAT c = 0) : c ∉ S :=
  fun hc => h.notMem_of_free hfree hc (h.isChain hc).links.head_mem

/-- Listing a directory gives its entry sets. -/
lemma populate (reads : ReadsClusters v.geometry v.disk) (hg : v.geometry.Addressable)
    (hd : fatNaming.Live L.sets d) {fuel : ℕ} (hfuel : v.geometry.intsPerFat ≤ fuel) :
    fatPopulateDir fuel v d = .ok ⟨d, (L.sets d).map (EntrySet.dirent v.junk)⟩ := by
  have hchain := h.isChain (h.live_mem hd)
  exact fatPopulateDir_kept reads (hchain.walk hg) (h.parts d hd) (hchain.length_le.trans hfuel)

end Shaped

namespace Holds
variable {v : FAT32 δ} {L : Layout} (h : Holds v L) {s d : ℕ}
include h

lemma shaped : Shaped v L (fatNaming.Nodes L.sets) := ⟨h.ready, h.tree, subset_rfl, h.chains, h.parts⟩

lemma isChain (hs : s ∈ fatNaming.Nodes L.sets) : IsChain v.geometry v.FAT s (L.chain s) :=
  h.shaped.isChain hs

/-- Listing a directory gives its entry sets. -/
lemma populate (reads : ReadsClusters v.geometry v.disk) (hg : v.geometry.Addressable)
    (hd : fatNaming.Live L.sets d) {fuel : ℕ} (hfuel : v.geometry.intsPerFat ≤ fuel) :
    fatPopulateDir fuel v d = .ok ⟨d, (L.sets d).map (EntrySet.dirent v.junk)⟩ :=
  h.shaped.populate reads hg hd hfuel

/-- Reading a file gives the bytes of its chain. -/
lemma readFile (reads : ReadsClusters v.geometry v.disk) (hg : v.geometry.Addressable)
    {e : DirectoryEntry} (he : e.firstCluster ∈ fatNaming.Nodes L.sets) {fuel : ℕ}
    (hfuel : v.geometry.intsPerFat ≤ fuel) : ∃ b, fatReadFile fuel v e = .ok b ∧
      ∀ k < min e.fileSize ((L.chain e.firstCluster).length * v.geometry.clusterSize),
        b k = chainBytes v.geometry v.clusters (L.chain e.firstCluster) k := by
  have hchain := h.isChain he
  refine ⟨_, fatReadFile_ok reads (hchain.walk hg) (hchain.length_le.trans hfuel), fun k hk => ?_⟩
  rw [if_pos hk]

end Holds

/-- A freshly formatted volume: the root directory is the one zeroed cluster 2, and all other
clusters are free. -/
structure Formatted (v : FAT32 δ) : Prop where
  addressable : v.geometry.Addressable
  reserved : v.FAT 0 ≠ 0 ∧ v.FAT 1 ≠ 0
  hint : v.clusterAllocationHint ≤ v.geometry.intsPerFat
  root : v.geometry.HasCluster 2 ∧ EndMark (v.FAT 2)
  zeroed : ∀ k < v.geometry.clusterSize, v.clusters 2 k = 0
  free : ∀ c, v.geometry.HasCluster c → c ≠ 2 → v.FAT c = 0

lemma dirSlots_zero {v : FAT32 δ} {c : ℕ} (h : ∀ k < v.geometry.clusterSize, v.clusters c k = 0) :
    v.dirSlots c = (freeSegments (List.replicate v.geometry.dirsPerCluster zeroSlot)).flatMap
      Segment.slots := by
  rw [flatMap_freeSegments fun s hs => List.eq_of_mem_replicate hs ▸ zeroSlot_free, ← slots_zero]
  exact slots_congr h

/-- It has a layout without entries. -/
theorem Formatted.holds {v : FAT32 δ} (h : Formatted v) : ∃ L, Holds v L ∧ ∀ d, L.sets d = [] := by
  let L : Layout := ⟨fun _ => [2],
    fun _ => freeSegments (List.replicate v.geometry.dirsPerCluster zeroSlot)⟩
  have hsets : ∀ d, L.sets d = [] := by
    intro d
    change setsOf L.parts [2] = []
    rw [setsOf_singleton]
    exact entries_freeSegments _
  have hlive : ∀ d, fatNaming.Live L.sets d → d = 2 := by
    intro d hd
    cases hd with
    | root => rfl
    | @sub d' e _ he _ =>
      rw [hsets d'] at he
      cases he
  have hnodes : ∀ s, s ∈ fatNaming.Nodes L.sets ↔ s = 2 := by
    intro s
    constructor
    · intro hs
      rcases hs with hs | ⟨d, e, _, he, _⟩
      · exact hs
      · rw [hsets d] at he
        cases he
    · intro hs
      exact .inl hs
  refine ⟨L, ⟨⟨h.reserved, h.hint⟩, ⟨?_, ?_, ?_⟩, ⟨?_, ?_, ?_⟩, ?_, ?_⟩, hsets⟩
  · intro d _
    rw [hsets d]
    exact List.nodup_nil
  · intro d d' e e' _ _ he
    rw [hsets d] at he
    cases he
  · intro d e _ he
    rw [hsets d] at he
    cases he
  · intro s hs
    rw [(hnodes s).mp hs]
    exact .last h.root.2
  · intro c
    constructor
    · intro ⟨hc, hused⟩
      obtain rfl : c = 2 := by_contra fun hne => hused (h.free c hc hne)
      exact ⟨2, (hnodes 2).mpr rfl, by simp [L]⟩
    · intro ⟨s, _, hcs⟩
      obtain rfl : c = 2 := List.mem_singleton.mp hcs
      have hend := h.root.2.le
      unfold EOC at hend
      exact ⟨h.root.1, by omega⟩
  · intro s hs t ht c _ _
    rw [(hnodes s).mp hs, (hnodes t).mp ht]
  · intro d _ c hc
    obtain rfl : c = 2 := List.mem_singleton.mp hc
    exact dirSlots_zero h.zeroed
  · intro d e _ he
    rw [hsets d] at he
    cases he

end Holds

section Sets
variable {parts parts' : ℕ → List Segment} {cs : List ℕ}

lemma setsOf_congr (h : ∀ c ∈ cs, parts' c = parts c) : setsOf parts' cs = setsOf parts cs :=
  List.flatMap_congr fun c hc => by rw [h c hc]

lemma setsOf_append (cs' : List ℕ) : setsOf parts (cs ++ cs') = setsOf parts cs ++ setsOf parts cs' :=
  List.flatMap_append

/-- The cluster `c` of a chain has been given other pieces. -/
lemma setsOf_replace (parts parts' : ℕ → List Segment) {c : ℕ} {p q : List ℕ} (hcs : cs = p ++ c :: q) (hnodup : cs.Nodup)
    (h : ∀ x ∈ cs, x ≠ c → parts' x = parts x) :
    setsOf parts' cs = setsOf parts p ++ ((parts' c).filterMap Segment.entry? ++ setsOf parts q) := by
  subst hcs
  have hmiddle := List.nodup_middle.mp hnodup
  rw [List.nodup_cons, List.mem_append, not_or] at hmiddle
  have hp : setsOf parts' p = setsOf parts p := setsOf_congr fun x hx =>
    h x (List.mem_append_left _ hx) (ne_of_mem_of_not_mem hx hmiddle.1.1)
  have hq : setsOf parts' q = setsOf parts q := setsOf_congr fun x hx =>
    h x (by simp [hx]) (ne_of_mem_of_not_mem hx hmiddle.1.2)
  rw [setsOf_append, hp, setsOf_cons, hq]

end Sets

section Extending
variable {δ : Type} [Disk δ] {v : FAT32 δ} {L : Layout}

/-- A directory with a further cluster that holds nothing. -/
def Layout.extend (g : Geometry) (L : Layout) (d x : ℕ) : Layout where
  chain := Function.update L.chain d (L.chain d ++ [x])
  parts := Function.update L.parts x (freeSegments (List.replicate g.dirsPerCluster zeroSlot))

section Extend
variable {g : Geometry} {d d' x c : ℕ}

lemma Layout.extend_chain_self : (L.extend g d x).chain d = L.chain d ++ [x] :=
  Function.update_self _ _ _

lemma Layout.extend_chain_of_ne (h : d' ≠ d) : (L.extend g d x).chain d' = L.chain d' :=
  Function.update_of_ne h _ _

lemma Layout.extend_parts_self : (L.extend g d x).parts x =
    freeSegments (List.replicate g.dirsPerCluster zeroSlot) :=
  Function.update_self _ _ _

lemma Layout.extend_parts_of_ne (h : c ≠ x) : (L.extend g d x).parts c = L.parts c :=
  Function.update_of_ne h _ _

end Extend

section Shape
variable {S : Set ℕ} (h : Shaped v L S)
include h

lemma Shaped.sets_extend {x : ℕ} (hfree : v.FAT x = 0) (d : ℕ) {d' : ℕ}
    (hd' : fatNaming.Live L.sets d') : (L.extend v.geometry d x).sets d' = L.sets d' := by
  have hold : ∀ s ∈ S, setsOf (L.extend v.geometry d x).parts (L.chain s) = setsOf L.parts (L.chain s) :=
    fun s hs => setsOf_congr fun c hc =>
      Layout.extend_parts_of_ne (ne_of_mem_of_not_mem hc (h.notMem_of_free hfree hs))
  by_cases hdd : d' = d
  · subst hdd
    have hnew : setsOf (L.extend v.geometry d' x).parts [x] = [] := by
      rw [setsOf_singleton, Layout.extend_parts_self]
      exact entries_freeSegments _
    rw [Layout.sets, Layout.extend_chain_self, setsOf_append, hnew, List.append_nil,
      hold d' (h.live_mem hd')]
    rfl
  · rw [Layout.sets, Layout.extend_chain_of_ne hdd, hold d' (h.live_mem hd')]
    rfl

/-- Extending a directory keeps the shape. -/
theorem Shaped.extend (hg : v.geometry.Addressable) {d : ℕ}
    (hd : fatNaming.Live L.sets d) {x : ℕ} (hx : v.geometry.HasCluster x) (hfree : v.FAT x = 0)
    {disk : δ} (hclear : content v.geometry disk = Function.update v.clusters x fun _ => 0) :
    Shaped (v.extended ((L.chain d).getLast (h.isChain (h.live_mem hd)).links.ne_nil) x disk)
      (L.extend v.geometry d x) S := by
  have hsets : ∀ d', fatNaming.Live L.sets d' → (L.extend v.geometry d x).sets d' = L.sets d' :=
    fun d' hd' => h.sets_extend hfree d hd'
  have hlast : (L.chain d).getLast (h.isChain (h.live_mem hd)).links.ne_nil ∈ L.chain d :=
    List.getLast_mem _
  have hlastUsed := h.chains.used_of_mem (h.live_mem hd) hlast
  generalize hlastEq : (L.chain d).getLast (h.isChain (h.live_mem hd)).links.ne_nil = last at *
  have hlx : last ≠ x := fun he => hlastUsed.2 (he ▸ hfree)
  have hused : usedCells (v.extended last x disk) = insert x (usedCells v) := by
    ext c
    simp only [usedCells, FAT32.extended, Set.mem_ofPred_eq, Set.mem_insert_iff]
    by_cases hcl : c = last
    · subst hcl
      simp [hx.ne_zero, hlastUsed.1, hlastUsed.2]
    · by_cases hcx : c = x
      · subst hcx
        simp [hcl, hx]
      · simp [hcl, hcx]
  have hready : AllocReady (v.extended last x disk) := by
    have hlow : ∀ c < 2, c ≠ x ∧ c ≠ last := fun c hc => by
      have := hx.1
      have := hlastUsed.1.1
      omega
    refine ⟨?_, hx.2⟩
    simpa [FAT32.extended, hlow 0, hlow 1] using h.ready.reserved
  have hkept : ∀ c, c ≠ x → (v.extended last x disk).dirSlots c = v.dirSlots c := by
    intro c hc
    change slots v.geometry (content v.geometry disk c) = _
    rw [hclear, Function.update_of_ne hc]
    rfl
  refine ⟨hready, h.tree.congr hsets, ?_, ?_, fun d' hd' c hc => ?_⟩
  · rw [Naming.nodes_congr hsets]
    exact h.nodes
  · rw [hused]
    subst hlastEq
    refine h.chains.append (h.live_mem hd) (fun hxu => hxu.2 hfree) (by decide) (hg.not_endMark hx)
  · rw [Naming.live_congr hsets] at hd'
    by_cases hcx : c = x
    · subst hcx
      rw [Layout.extend_parts_self]
      refine dirSlots_zero fun k _ => ?_
      change content v.geometry disk c k = 0
      rw [hclear, Function.update_self]
    · have hold : c ∈ L.chain d' := by
        by_cases hdd : d' = d
        · subst hdd
          rw [Layout.extend_chain_self] at hc
          exact (List.mem_append.mp hc).resolve_right fun hcx' => hcx (List.mem_singleton.mp hcx')
        · rwa [Layout.extend_chain_of_ne hdd] at hc
      rw [hkept c hcx, h.parts d' hd' c hold, Layout.extend_parts_of_ne hcx]

end Shape

/-- Extending a directory keeps the volume consistent. -/
theorem Holds.extend (h : Holds v L) (hg : v.geometry.Addressable) {d : ℕ}
    (hd : fatNaming.Live L.sets d) {x : ℕ} (hx : v.geometry.HasCluster x) (hfree : v.FAT x = 0)
    {disk : δ} (hclear : content v.geometry disk = Function.update v.clusters x fun _ => 0) :
    Holds (v.extended ((L.chain d).getLast (h.isChain hd.mem_nodes).links.ne_nil) x disk)
      (L.extend v.geometry d x) := by
  have hsets : ∀ d', fatNaming.Live L.sets d' → (L.extend v.geometry d x).sets d' = L.sets d' :=
    fun d' hd' => h.shaped.sets_extend hfree d hd'
  have hshaped := h.shaped.extend hg hd hx hfree hclear
  refine ⟨hshaped.ready, hshaped.tree, ?_, hshaped.parts, fun d' e hd' he => ?_⟩
  · rw [Naming.nodes_congr hsets]
    exact hshaped.chains
  · rw [Naming.live_congr hsets] at hd'
    rw [hsets d' hd'] at he
    obtain ⟨hname, hcovered, hdir⟩ := h.sound d' e hd' he
    refine ⟨hname, hcovered.trans (Nat.mul_le_mul_right _ ?_), hdir⟩
    by_cases hed : e.first = d
    · rw [hed, Layout.extend_chain_self]
      simp
    · rw [Layout.extend_chain_of_ne hed]

end Extending

section Inserting
variable {δ : Type} [Disk δ] {v w : FAT32 δ} {L : Layout}

/-- The layout with other pieces in the cluster `c` and with the new chain `cs`, which holds nothing
in case that it is a directory's. -/
def Layout.insert (g : Geometry) (L : Layout) (c : ℕ) (segs : List Segment) (first : ℕ)
    (cs : List ℕ) : Layout where
  chain := Function.update L.chain first cs
  parts x :=
    if x = c then segs
    else if x ∈ cs then freeSegments (List.replicate g.dirsPerCluster zeroSlot) else L.parts x

variable {file : Buffer} {fname : List UCHAR} {flen : ℕ} {attrs : UCHAR} {d c first : ℕ}
  {A B : List Segment} {e : EntrySet} {cs : List ℕ} {S : Set ℕ}

/-- An entry set has been written into the cluster `c`, and its file into the chain `cs`. -/
structure WroteSet (v w : FAT32 δ) (file : Buffer) (flen : ℕ) (attrs : UCHAR) (c : ℕ) (pre post : List Slot)
    (e : EntrySet) (first : ℕ) (cs : List ℕ) : Prop where
  fields : e.short.fields = (attrs, first, flen)
  geometry : w.geometry = v.geometry
  ready : AllocReady w
  chain : IsChain v.geometry w.FAT first cs
  fresh : ∀ c ∈ cs, v.FAT c = 0
  table : ∀ c, c ∉ cs → w.FAT c = v.FAT c
  slots : w.dirSlots c = pre ++ e.longs ++ e.short :: post
  kept : ∀ c', c' ∉ cs → c' ≠ c → w.clusters c' = v.clusters c'
  data : ∀ k < cs.length * v.geometry.clusterSize,
    chainBytes v.geometry w.clusters cs k = if k < flen then file k else 0

lemma WroteEntry.set {pre post : List Slot}
    (wrote : WroteEntry v w file fname flen attrs c pre post e first cs) :
    WroteSet v w file flen attrs c pre post e first cs :=
  ⟨wrote.describes.fields, wrote.geometry, wrote.ready, wrote.chain, wrote.fresh, wrote.table, wrote.slots,
    wrote.kept, wrote.data⟩

namespace WroteSet
variable {pre post : List Slot} (wrote : WroteSet v w file flen attrs c pre post e first cs)
include wrote

lemma first_eq : e.first = first := by
  rw [EntrySet.first, wrote.fields]

lemma attrs_eq : e.short 11 = attrs := congrArg Prod.fst wrote.fields

lemma usedCells_eq : usedCells w = usedCells v ∪ {x | x ∈ cs} := by
  ext x
  simp only [usedCells, wrote.geometry, Set.mem_ofPred_eq, Set.mem_union]
  by_cases hx : x ∈ cs
  · simp [hx, wrote.chain.cells x hx, wrote.chain.cell_ne_zero hx]
  · simp [hx, wrote.table x hx]

end WroteSet

section Shape
variable (h : Shaped v L S) (hd : fatNaming.Live L.sets d) (hc : c ∈ L.chain d)
  (hentries : (L.parts c).filterMap Segment.entry? =
    A.filterMap Segment.entry? ++ B.filterMap Segment.entry?)
  (wrote : WroteSet v w file flen attrs c (A.flatMap Segment.slots) (B.flatMap Segment.slots) e first cs)
include h hd hc wrote

omit hd hc in
lemma Shaped.insert_chain {s : ℕ} (hs : s ∈ S) (segs : List Segment) :
    (L.insert v.geometry c segs first cs).chain s = L.chain s := by
  refine Function.update_of_ne (fun hsf => h.notMem_starts ?_ (hsf ▸ hs)) _ _
  exact wrote.fresh first wrote.chain.links.head_mem

omit hd hc in
lemma Shaped.insert_parts {s x : ℕ} (hs : s ∈ S) (hx : x ∈ L.chain s)
    (hxc : x ≠ c) (segs : List Segment) :
    (L.insert v.geometry c segs first cs).parts x = L.parts x := by
  have hxcs : x ∉ cs := fun hxcs => h.notMem_of_free (wrote.fresh x hxcs) hs hx
  simp only [Layout.insert, if_neg hxc, if_neg hxcs]

include hentries in
/-- A written entry is inserted into its directory. -/
lemma Shaped.inserts : ∃ l₁ l₂, fatNaming.Inserts L.sets
    (L.insert v.geometry c (A ++ .entry e :: B) first cs).sets d e l₁ l₂ := by
  have hdS := h.live_mem hd
  have hchain := h.isChain hdS
  obtain ⟨p, q, hpq⟩ := List.append_of_mem hc
  have hfresh := wrote.fresh first wrote.chain.links.head_mem
  have hafter := setsOf_replace L.parts
    (L.insert v.geometry c (A ++ .entry e :: B) first cs).parts hpq hchain.nodup
    fun x hx hxc => h.insert_parts wrote hdS hx hxc _
  have hsegs : (L.insert v.geometry c (A ++ .entry e :: B) first cs).parts c = A ++ .entry e :: B :=
    if_pos rfl
  refine ⟨setsOf L.parts p ++ A.filterMap Segment.entry?,
    B.filterMap Segment.entry? ++ setsOf L.parts q, hd, ?_, ?_, fun d' hd' hne => ?_, fun _ => ?_, ?_⟩
  · rw [Layout.sets, hpq, setsOf_append, setsOf_cons, hentries]
    simp only [List.append_assoc]
  · rw [Layout.sets, h.insert_chain wrote hdS, hafter, hsegs, List.filterMap_append]
    simp [Segment.entry?]
  · rw [Layout.sets, h.insert_chain wrote (h.live_mem hd')]
    refine setsOf_congr fun x hx => h.insert_parts wrote (h.live_mem hd') hx (fun hxc => ?_) _
    exact hne (h.chains.disjoint d' (h.live_mem hd') d hdS c (hxc ▸ hx) hc)
  · change Layout.sets _ e.first = []
    have hcs : (L.insert v.geometry c (A ++ .entry e :: B) first cs).chain first = cs :=
      Function.update_self _ _ _
    rw [Layout.sets, wrote.first_eq, hcs, setsOf, List.flatMap_eq_nil_iff]
    intro x hx
    have hxc : x ≠ c := fun hxc => h.notMem_of_free (wrote.fresh x hx) hdS (hxc ▸ hc)
    simp only [Layout.insert, if_neg hxc, if_pos hx]
    exact entries_freeSegments _
  · change e.first ∉ _
    rw [wrote.first_eq]
    exact fun hmem => h.notMem_starts hfresh (h.nodes hmem)

include hentries in
/-- Writing an entry keeps the shape; its chain is a new one. -/
theorem Shaped.insert (hempty : attrs = DIRECTORY → flen = 0) :
    Shaped w (L.insert v.geometry c (A ++ .entry e :: B) first cs) (Insert.insert e.first S) := by
  obtain ⟨l₁, l₂, ins⟩ := h.inserts hd hc hentries wrote
  have hnew : (L.insert v.geometry c (A ++ .entry e :: B) first cs).chain first = cs :=
    Function.update_self _ _ _
  refine ⟨wrote.ready, ins.tree h.tree, ?_, ?_, fun d' hd' x hx => ?_⟩
  · rw [ins.nodes]
    exact Set.insert_subset_insert h.nodes
  · rw [wrote.usedCells_eq, wrote.first_eq]
    exact h.chains.insert wrote.chain.links (fun x hx hxu => hxu.2 (wrote.fresh x hx))
      fun x hxu => wrote.table x fun hx => hxu.2 (wrote.fresh x hx)
  · by_cases hxc : x = c
    · subst hxc
      rw [wrote.slots]
      simp [Layout.insert, Segment.slots]
    rcases ins.live_iff.mp hd' with hd' | ⟨hdir, rfl⟩
    · rw [h.insert_chain wrote (h.live_mem hd')] at hx
      have hxcs : x ∉ cs := fun hxcs => h.notMem_of_free (wrote.fresh x hxcs) (h.live_mem hd') hx
      rw [h.insert_parts wrote (h.live_mem hd') hx hxc, ← h.parts d' hd' x hx, FAT32.dirSlots,
        wrote.kept x hxcs hxc, wrote.geometry]
      rfl
    · change x ∈ Layout.chain _ e.first at hx
      rw [wrote.first_eq, hnew] at hx
      simp only [Layout.insert, if_neg hxc, if_pos hx]
      have hzero : flen = 0 := hempty (wrote.attrs_eq ▸ hdir)
      have hdirs := dirSlots_zero (v := w) (c := x) fun k hk => by
        obtain ⟨i, hi⟩ := List.mem_iff_getElem?.mp hx
        rw [wrote.geometry] at hk
        have hlen := (List.getElem?_eq_some_iff.mp hi).1
        have hdata := wrote.data (i * v.geometry.clusterSize + k) (by
          have := Nat.mul_le_mul_right v.geometry.clusterSize (show i+1 ≤ cs.length from hlen)
          rw [Nat.add_mul, Nat.one_mul] at this
          omega)
        rw [chainBytes_at hi hk, if_neg (by omega)] at hdata
        exact hdata
      rwa [wrote.geometry] at hdirs

end Shape

/-- Writing an entry keeps the volume consistent. -/
theorem Holds.insert (h : Holds v L) (hd : fatNaming.Live L.sets d) (hc : c ∈ L.chain d)
    (hentries : (L.parts c).filterMap Segment.entry? =
      A.filterMap Segment.entry? ++ B.filterMap Segment.entry?)
    (wrote : WroteEntry v w file fname flen attrs c (A.flatMap Segment.slots) (B.flatMap Segment.slots)
      e first cs) (hname : NoNul fname) (hempty : attrs = DIRECTORY → flen = 0) :
    Holds w (L.insert v.geometry c (A ++ .entry e :: B) first cs) := by
  obtain ⟨l₁, l₂, ins⟩ := h.shaped.inserts hd hc hentries wrote.set
  have hnew : (L.insert v.geometry c (A ++ .entry e :: B) first cs).chain first = cs :=
    Function.update_self _ _ _
  have hfirst := wrote.set.first_eq
  have hshaped := h.shaped.insert hd hc hentries wrote.set hempty
  rw [show Insert.insert e.first _ = _ from ins.nodes.symm] at hshaped
  refine ⟨hshaped.ready, hshaped.tree, hshaped.chains, hshaped.parts, fun d' e' hd' he' => ?_⟩
  rw [wrote.geometry]
  rcases ins.entry_iff.mp ⟨hd', he'⟩ with ⟨hd', he'⟩ | ⟨rfl, rfl⟩
  · obtain ⟨hname', hcovered, hdir⟩ := h.sound d' e' hd' he'
    have hnode : e'.first ∈ fatNaming.Nodes L.sets := hd'.node_mem he'
    refine ⟨hname', ?_, hdir⟩
    rwa [h.shaped.insert_chain wrote.set hnode]
  · have hsize : e'.size = flen := by rw [EntrySet.size, wrote.describes.fields]
    refine ⟨⟨fname, hname, wrote.describes.name⟩, ?_, fun hdir => ?_⟩
    · rw [hfirst, hnew, hsize, wrote.length]
      exact (le_requiredClusters v.geometry flen).1
    · rw [hsize]
      exact hempty (wrote.set.attrs_eq ▸ hdir)

end Inserting

section Removing
variable {δ : Type} [Disk δ] {v w : FAT32 δ} {L : Layout}

/-- The layout with other pieces in the cluster `c`. -/
def Layout.replace (L : Layout) (c : ℕ) (segs : List Segment) : Layout where
  chain := L.chain
  parts := Function.update L.parts c segs

variable {d c : ℕ} {A B : List Segment} {e : EntrySet}

section Shape
variable {S : Set ℕ} (h : Shaped v L S) (hd : fatNaming.Live L.sets d) (hc : c ∈ L.chain d)
  (hsegs : L.parts c = A ++ .entry e :: B)
include h hd hc hsegs

/-- A deleted entry is dropped from its directory. -/
lemma Shaped.drops (zeros : List Slot) : ∃ l₁ l₂, fatNaming.Drops L.sets
    (L.replace c (A ++ freeSegments zeros ++ B)).sets d e l₁ l₂ := by
  obtain ⟨p, q, hpq⟩ := List.append_of_mem hc
  have hother : ∀ x, x ≠ c → (L.replace c (A ++ freeSegments zeros ++ B)).parts x = L.parts x :=
    fun x hx => Function.update_of_ne hx _ _
  have hafter := setsOf_replace L.parts (L.replace c (A ++ freeSegments zeros ++ B)).parts hpq
    (h.isChain (h.live_mem hd)).nodup fun x _ hx => hother x hx
  have hparts : (L.replace c (A ++ freeSegments zeros ++ B)).parts c = A ++ freeSegments zeros ++ B :=
    Function.update_self _ _ _
  refine ⟨setsOf L.parts p ++ A.filterMap Segment.entry?,
    B.filterMap Segment.entry? ++ setsOf L.parts q, hd, ?_, ?_, fun d' hd' hne => ?_⟩
  · rw [Layout.sets, hpq, setsOf_append, setsOf_cons, hsegs, List.filterMap_append]
    simp [Segment.entry?]
  · refine hafter.trans ?_
    rw [hparts, List.filterMap_append, List.filterMap_append, entries_freeSegments]
    simp
  · refine setsOf_congr fun x hx => hother x fun hxc => ?_
    exact hne (h.chains.disjoint d' (h.live_mem hd') d (h.live_mem hd) c (hxc ▸ hx) hc)

/-- Deleting an entry keeps the shape; the chain of the entry is free, but those below it are not. -/
theorem Shaped.remove (deleted : DeletedEntry v w c (A.flatMap Segment.slots) (B.flatMap Segment.slots)
    e (L.chain e.first)) :
    Shaped w (L.replace c (A ++ freeSegments (List.replicate (e.longs.length + 1) zeroSlot) ++ B))
      (S \ {e.first}) := by
  obtain ⟨l₁, l₂, drops⟩ := h.drops hd hc hsegs (List.replicate (e.longs.length + 1) zeroSlot)
  have hnode : e.first ∈ fatNaming.Nodes L.sets := drops.live.node_mem drops.mem_before
  have hused : usedCells w = usedCells v \ {x | x ∈ L.chain e.first} := by
    ext x
    simp only [usedCells, deleted.geometry, deleted.table, Set.mem_ofPred_eq, Set.mem_sdiff]
    by_cases hx : x ∈ L.chain e.first <;> simp [hx]
  refine ⟨deleted.ready, drops.tree h.tree, ?_, ?_, fun d' hd' x hx => ?_⟩
  · exact (drops.nodes_subset h.tree).trans (Set.sdiff_subset_sdiff_left h.nodes)
  · rw [hused]
    exact h.chains.remove (h.nodes hnode) fun x hx => by rw [deleted.table, if_neg hx]
  · have hd' := (drops.live_of h.tree hd').1
    by_cases hxc : x = c
    · subst hxc
      rw [deleted.slots]
      have hzeros := flatMap_freeSegments (l := List.replicate (e.longs.length + 1) zeroSlot)
        fun s hs => List.eq_of_mem_replicate hs ▸ zeroSlot_free
      simp only [Layout.replace, Function.update_self, List.flatMap_append, hzeros]
    · have hparts : (L.replace c (A ++ freeSegments
          (List.replicate (e.longs.length + 1) zeroSlot) ++ B)).parts x = L.parts x :=
        Function.update_of_ne hxc _ _
      rw [hparts, ← h.parts d' hd' x hx, FAT32.dirSlots, deleted.kept x hxc, deleted.geometry]
      rfl

end Shape

/-- Deleting a file or an empty directory keeps the volume consistent. -/
theorem Holds.remove (h : Holds v L) (hd : fatNaming.Live L.sets d) (hc : c ∈ L.chain d)
    (hsegs : L.parts c = A ++ .entry e :: B) (hempty : e.short 11 = DIRECTORY → L.sets e.first = [])
    (deleted : DeletedEntry v w c (A.flatMap Segment.slots) (B.flatMap Segment.slots)
      e (L.chain e.first)) :
    Holds w (L.replace c (A ++ freeSegments (List.replicate (e.longs.length + 1) zeroSlot) ++ B)) := by
  obtain ⟨l₁, l₂, drops⟩ := h.shaped.drops hd hc hsegs (List.replicate (e.longs.length + 1) zeroSlot)
  have rem : fatNaming.Removes L.sets _ d e l₁ l₂ :=
    ⟨drops.live, drops.before, drops.after, drops.others, hempty⟩
  have hshaped := h.shaped.remove hd hc hsegs deleted
  rw [show fatNaming.Nodes L.sets \ {e.first} = _ from (rem.nodes h.tree).symm] at hshaped
  refine ⟨hshaped.ready, hshaped.tree, hshaped.chains, hshaped.parts, fun d' e' hd' he' => ?_⟩
  rw [deleted.geometry]
  obtain ⟨⟨hd', he'⟩, -⟩ := (rem.entry_iff h.tree).mp ⟨hd', he'⟩
  exact h.sound d' e' hd' he'

end Removing

end Open98.Fat32
