import Open98.Fat32.ClusterIO
import Open98.Fat32.Create
import Open98.Library.Run

/-! Runs of `FatWriteFile`, `FatMakeDirectory` and `FatDeleteFile` from a freshly formatted volume:
the chains stay intact in every state that is reached. -/
namespace Open98.Fat32
open Open98.Library

section Observed
variable {δ : Type} [Disk δ] (fuel : ℕ) (v : FAT32 δ)

/-- `FatPopulateDir` returns these entries for the directory at cluster `d`. -/
def Lists (d : ℕ) (es : List DirectoryEntry) : Prop :=
  ∃ dir, fatPopulateDir fuel v d = .ok dir ∧ dir.entries = es

/-- The directories that are reached through the listings from the root directory on. -/
inductive LiveDir : ℕ → Prop
  | root : LiveDir 2
  | sub {d es e} (hd : LiveDir d) (hes : Lists fuel v d es) (he : e ∈ es)
      (hdir : e.dirAttrs = DIRECTORY) : LiveDir e.firstCluster

/-- Nothing in the directory has the name, which is one of those in question. -/
structure NewName (d : ℕ) (fname : List UCHAR) : Prop where
  valid : ValidName fname
  new : ∀ es, Lists fuel v d es → ∀ e ∈ es, ¬ strcmpEq e.name fname

/-- What has the name in the directory, if anything, is a file or an empty directory. -/
structure Deletable (d : ℕ) (filename : List UCHAR) : Prop where
  noNul : NoNul filename
  empty : ∀ es, Lists fuel v d es → ∀ e ∈ es, strcmpEq e.name filename → e.dirAttrs = DIRECTORY →
    Lists fuel v e.firstCluster []

end Observed

/-- The calls that change a volume; between them other code may leave anything in the memory that
the file system has not written yet. -/
inductive FatOp
  | writeFile (dir : ℕ) (file : Buffer) (fname : List UCHAR) (flen : ℕ)
  | makeDirectory (dir : ℕ) (dirname : List UCHAR)
  | deleteFile (dir : ℕ) (filename : List UCHAR)
  | scribble (junk : Buffer)

section Operations
variable {δ : Type} [Disk δ] (fuel : ℕ)

def FatOp.apply (v : FAT32 δ) : FatOp → Option (FAT32 δ)
  | writeFile dir file fname flen => (fatWriteFile fuel v dir file fname flen).toOption
  | makeDirectory dir dirname => (fatMakeDirectory fuel v dir dirname).toOption
  | deleteFile dir filename => (fatDeleteFile fuel v dir filename).toOption
  | scribble junk => some { v with junk := junk }

def FatOp.Allowed (v : FAT32 δ) : FatOp → Prop
  | writeFile dir _ fname flen => LiveDir fuel v dir ∧ NewName fuel v dir fname ∧ flen < 2^32 ∧
      EnoughSpace v dir fname flen
  | makeDirectory dir dirname => LiveDir fuel v dir ∧ NewName fuel v dir dirname ∧
      EnoughSpace v dir dirname 0
  | deleteFile dir filename => LiveDir fuel v dir ∧ Deletable fuel v dir filename
  | scribble _ => True

end Operations

/-- What the cluster store, the table and the fuel have to provide for the calls to come to an end. -/
structure Supported (g : Geometry) (δ : Type) [Disk δ] (fuel : ℕ) : Prop where
  store : ClusterStore g δ
  addressable : g.Addressable
  fuel : g.intsPerFat < fuel

lemma Supported.of_eq {δ : Type} [Disk δ] {g g' : Geometry} {fuel : ℕ} (sup : Supported g δ fuel)
    (h : g' = g) : Supported g' δ fuel :=
  h ▸ sup

section Listings
variable {δ : Type} [Disk δ] {fuel : ℕ} {v : FAT32 δ} {L : Layout}

lemma Lists.unique {d : ℕ} {es es' : List DirectoryEntry} (h : Lists fuel v d es)
    (h' : Lists fuel v d es') : es = es' := by
  obtain ⟨dir, hdir, rfl⟩ := h
  obtain ⟨dir', hdir', rfl⟩ := h'
  rw [Except.ok.inj (hdir.symm.trans hdir')]

namespace Shaped
variable {S : Set ℕ} (sup : Supported v.geometry δ fuel) (h : Shaped v L S)
include sup h

/-- The listing of a directory of the layout. -/
lemma lists {d : ℕ} (hd : fatNaming.Live L.sets d) :
    Lists fuel v d ((L.sets d).map (EntrySet.dirent v.junk)) :=
  ⟨_, h.populate (sup.store.get _) sup.addressable hd sup.fuel.le, rfl⟩

/-- The directories that the listings lead to are those of the layout. -/
lemma liveDir_iff {d : ℕ} : LiveDir fuel v d ↔ fatNaming.Live L.sets d := by
  constructor
  · intro hd
    induction hd with
    | root => exact .root
    | sub _ hes he hdir ih =>
      obtain rfl := hes.unique (h.lists sup ih)
      obtain ⟨s, hs, rfl⟩ := List.mem_map.mp he
      exact ih.sub hs hdir
  · intro hd
    induction hd with
    | root => exact .root
    | sub hd he hdir ih => exact ih.sub (h.lists sup hd) (List.mem_map_of_mem he) hdir

end Shaped

/-- A new name is that of no set of the directory. -/
lemma Holds.not_named (sup : Supported v.geometry δ fuel) (h : Holds v L) {d : ℕ} (hd : fatNaming.Live L.sets d)
    {fname : List UCHAR} (hnew : NewName fuel v d fname) {e : EntrySet} (he : e ∈ L.sets d) :
    ¬ strcmpEq (e.dirent v.junk).name fname :=
  hnew.new _ (h.shaped.lists sup hd) _ (List.mem_map_of_mem he)

end Listings

section Deleting
variable {δ : Type} [Disk δ] {fuel : ℕ} {v w : FAT32 δ} {L : Layout} {d : ℕ}

/-- The first entry of the name, which stands in the cluster `c`, has been deleted. -/
structure DeletesFirst (v w : FAT32 δ) (L : Layout) (d : ℕ) (filename : List UCHAR) (c : ℕ)
    (A B : List Segment) (e : EntrySet) : Prop where
  cluster : c ∈ L.chain d
  parts : L.parts c = A ++ .entry e :: B
  named : e.Named v.junk filename
  first : ∃ l₁ l₂, L.sets d = l₁ ++ e :: l₂ ∧ ∀ e' ∈ l₁, ¬ e'.Named v.junk filename
  deleted : DeletedEntry v w c (A.flatMap Segment.slots) (B.flatMap Segment.slots) e (L.chain e.first)

lemma DeletesFirst.mem {filename : List UCHAR} {c : ℕ} {A B : List Segment} {e : EntrySet}
    (h : DeletesFirst v w L d filename c A B e) : e ∈ L.sets d := by
  obtain ⟨l₁, l₂, hsets, -⟩ := h.first
  rw [hsets]
  simp

/-- `FatDeleteFile` deletes the first entry of the name, if there is one. -/
lemma Shaped.deleteFile (sup : Supported v.geometry δ fuel) {S : Set ℕ} (h : Shaped v L S)
    (hd : fatNaming.Live L.sets d) (filename : List UCHAR) :
    ∃ w, fatDeleteFile fuel v d filename = .ok w ∧
      (((∀ e ∈ L.sets d, ¬ e.Named v.junk filename) ∧ w = v) ∨
        ∃ c A B e, DeletesFirst v w L d filename c A B e) := by
  have hchain := h.isChain (h.live_mem hd)
  have hlength := hchain.length_le
  by_cases hlisted : ∃ e ∈ setsOf L.parts (L.chain d), e.Named v.junk filename
  · obtain ⟨p, c, q, A, B, e, hcs, hsegs, hnamed, hother, hdelete⟩ := deleteFrom_listed fuel
      (sup.store.get _) (hchain.walk sup.addressable) (h.parts d hd) (hlength.trans sup.fuel.le) hlisted
    have hc : c ∈ L.chain d := by simp [hcs]
    have hsets : L.sets d = (setsOf L.parts p ++ A.filterMap Segment.entry?) ++
        e :: (B.filterMap Segment.entry? ++ setsOf L.parts q) := by
      rw [Layout.sets, hcs, setsOf_append, setsOf_cons, hsegs, List.filterMap_append]
      simp [Segment.entry?]
    have hnode : e.first ∈ fatNaming.Nodes L.sets := hd.node_mem (by rw [hsets]; simp)
    have hlen : (A.flatMap Segment.slots).length + (e.longs.length + 1) +
        (B.flatMap Segment.slots).length = v.geometry.dirsPerCluster := by
      have hslots : (v.dirSlots c).length = v.geometry.dirsPerCluster := length_slots _
      rw [h.parts d hd c hc, hsegs] at hslots
      rw [← hslots]
      simp [Segment.slots]
      omega
    have hfreed := h.isChain (h.nodes hnode)
    obtain ⟨w, hset, deleted⟩ := deleteSet_ok sup.store sup.addressable h.ready (hchain.cells c hc)
      hlen hfreed (hfreed.length_le.trans_lt sup.fuel)
    exact ⟨w, hdelete.trans hset, .inr ⟨c, A, B, e, hc, hsegs, hnamed, ⟨_, _, hsets, hother⟩, deleted⟩⟩
  · have hother : ∀ e ∈ L.sets d, ¬ e.Named v.junk filename := fun e he hnamed => hlisted ⟨e, he, hnamed⟩
    refine ⟨v, ?_, .inl ⟨hother, rfl⟩⟩
    exact deleteFrom_absent fuel (sup.store.get _) (hchain.walk sup.addressable) (h.parts d hd)
      (hlength.trans sup.fuel.le) hother

end Deleting

section Steps
variable {δ : Type} [Disk δ] {fuel : ℕ} {v : FAT32 δ} {L : Layout}
  (sup : Supported v.geometry δ fuel) (h : Holds v L)

/-- The last loop of `FatMakeDirectory` comes to an end when the directories it looks into can be
listed. -/
lemma populateNamed_ok {dirname : List UCHAR} {es : List DirectoryEntry}
    (hes : ∀ e ∈ es, strcmpEq e.name dirname → ∃ dir, fatPopulateDir fuel v e.firstCluster = .ok dir) :
    populateNamed fuel v dirname es = .ok () := by
  induction es with
  | nil => rfl
  | cons e es ih =>
    have hrest := ih fun e' he' => hes e' (List.mem_cons_of_mem _ he')
    by_cases hname : strcmpEq e.name dirname
    · obtain ⟨dir, hdir⟩ := hes e (by simp) hname
      rw [populateNamed, if_pos hname, hdir, ok_bind, hrest]
    · rw [populateNamed, if_neg hname, hrest]

include sup h

/-- `FatMakeDirectory` creates the directory. -/
lemma Holds.makeDirectory {d : ℕ} (hd : fatNaming.Live L.sets d) {dirname : List UCHAR}
    (hnew : NewName fuel v d dirname) (space : EnoughSpace v d dirname 0) :
    ∃ w L' e l₁ l₂, fatMakeDirectory fuel v d dirname = .ok w ∧
      Created v w L L' d e l₁ l₂ (fun _ => 0) dirname 0 DIRECTORY := by
  obtain ⟨w, L', e, l₁, l₂, hwrite, created⟩ := h.create sup.store sup.addressable hd hnew.valid
    (show DIRECTORY ≠ LFN by decide) (fun _ => rfl) (by decide) space sup.fuel fun _ => 0
  have supw := sup.of_eq created.geometry
  have hlive := created.inserts.live_iff.mpr (.inl hd)
  have hdirectory : e.short 11 = DIRECTORY := congrArg Prod.fst created.describes.fields
  have hnamed : populateNamed fuel w dirname ((L'.sets d).map (EntrySet.dirent w.junk)) = .ok () := by
    refine populateNamed_ok fun e' he' hname => ?_
    obtain ⟨s, hs, rfl⟩ := List.mem_map.mp he'
    rcases (created.inserts.mem_after hd).mp hs with hold | ⟨_, rfl⟩
    · rw [created.junk] at hname
      exact absurd hname (h.not_named sup hd hnew hold)
    · exact ⟨_, created.holds.populate (supw.store.get _) supw.addressable
        (hlive.sub hs hdirectory) supw.fuel.le⟩
  refine ⟨w, L', e, l₁, l₂, ?_, created⟩
  rw [fatMakeDirectory, hwrite, ok_bind,
    created.holds.populate (supw.store.get _) supw.addressable hlive supw.fuel.le,
    ok_bind, hnamed, ok_bind]
  rfl

/-- `FatDeleteFile` keeps the volume consistent. -/
lemma Holds.deleteFile {d : ℕ} (hd : fatNaming.Live L.sets d) {filename : List UCHAR}
    (hdel : Deletable fuel v d filename) :
    ∃ w L', fatDeleteFile fuel v d filename = .ok w ∧ Holds w L' ∧ w.geometry = v.geometry := by
  obtain ⟨w, hdelete, ⟨-, rfl⟩ | ⟨c, A, B, e, deletes⟩⟩ := h.shaped.deleteFile sup hd filename
  · exact ⟨w, L, hdelete, h, rfl⟩
  · have he := deletes.mem
    have hempty : e.short 11 = DIRECTORY → L.sets e.first = [] := by
      intro hdir
      have hnone := hdel.empty _ (h.shaped.lists sup hd) _ (List.mem_map_of_mem he) deletes.named hdir
      exact List.map_eq_nil_iff.mp ((h.shaped.lists sup (hd.sub he hdir)).unique hnone)
    exact ⟨w, _, hdelete, h.remove hd deletes.cluster deletes.parts hempty deletes.deleted,
      deletes.deleted.geometry⟩

/-- Every allowed call returns, and leaves a consistent volume. -/
theorem Holds.step {o : FatOp} (ho : o.Allowed fuel v) :
    ∃ w L', o.apply fuel v = some w ∧ Holds w L' ∧ w.geometry = v.geometry := by
  cases o with
  | writeFile d file fname flen =>
    obtain ⟨hd, hnew, hflen, space⟩ := ho
    rw [h.shaped.liveDir_iff sup] at hd
    obtain ⟨w, L', _, _, _, hwrite, created⟩ := h.create sup.store sup.addressable hd hnew.valid
      (show (0 : UCHAR) ≠ LFN by decide) (fun h0 => absurd h0 (by decide)) hflen space sup.fuel file
    exact ⟨w, L', congrArg Except.toOption hwrite, created.holds, created.geometry⟩
  | makeDirectory d dirname =>
    obtain ⟨hd, hnew, space⟩ := ho
    rw [h.shaped.liveDir_iff sup] at hd
    obtain ⟨w, L', _, _, _, hmake, created⟩ := h.makeDirectory sup hd hnew space
    exact ⟨w, L', congrArg Except.toOption hmake, created.holds, created.geometry⟩
  | deleteFile d filename =>
    obtain ⟨hd, hdel⟩ := ho
    rw [h.shaped.liveDir_iff sup] at hd
    obtain ⟨w, L', hdelete, hholds, hgeometry⟩ := h.deleteFile sup hd hdel
    exact ⟨w, L', congrArg Except.toOption hdelete, hholds, hgeometry⟩
  | scribble junk => exact ⟨_, L, rfl, ⟨⟨h.ready.reserved, h.ready.hint⟩, h.tree, h.chains, h.parts, h.sound⟩, rfl⟩

end Steps

section Chains
variable {δ : Type} [Disk δ]

/-- What a chain belongs to: the root directory, or entry `i` of the directory `d`; and the cluster
it starts at. -/
def ChainStart (fuel : ℕ) (v : FAT32 δ) : Option (ℕ × ℕ) → ℕ → Prop
  | none, s => s = 2
  | some (d, i), s => LiveDir fuel v d ∧ ∃ es e, Lists fuel v d es ∧ es[i]? = some e ∧ e.firstCluster = s

/-- The table leads from `start` through the clusters of the list, without a cycle and within the
table, to a value that ends the chain. -/
structure GoodChain (v : FAT32 δ) (start : ℕ) (l : List ℕ) : Prop where
  chain : IsChain v.geometry v.FAT start l
  acyclic : l.Nodup
  inside : ∀ c ∈ l, 2 ≤ c ∧ c < 128 * v.geometry.sectorsPerFat32
  ends : ∃ c, l.getLast? = some c ∧ EOC ≤ v.FAT c

/-- The chains of the directories and of the listed entries partition the cells in use. -/
structure ChainsIntact (fuel : ℕ) (v : FAT32 δ) : Prop where
  listed : ∀ d, LiveDir fuel v d → ∃ es, Lists fuel v d es
  chain : ∀ o s, ChainStart fuel v o s → ∃ l, GoodChain v s l
  directory : ∀ d, LiveDir fuel v d → ∃ o l, ChainStart fuel v o d ∧ GoodChain v d l
  disjoint : ∀ o o' s s' l l', ChainStart fuel v o s → ChainStart fuel v o' s' → o ≠ o' →
    GoodChain v s l → GoodChain v s' l' → l.Disjoint l'
  apart : ∀ d es e d', LiveDir fuel v d → Lists fuel v d es → e ∈ es → LiveDir fuel v d' →
    (e.dirAttrs = DIRECTORY ∧ e.firstCluster = d') ∨
      ∀ l l', GoodChain v e.firstCluster l → GoodChain v d' l' → l.Disjoint l'
  owned : ∀ c, 2 ≤ c → c < 128 * v.geometry.sectorsPerFat32 → v.FAT c ≠ 0 →
    ∃! o, ∃ s l, ChainStart fuel v o s ∧ GoodChain v s l ∧ c ∈ l

variable {fuel : ℕ} {v : FAT32 δ} {L : Layout}

namespace Shaped
variable {S : Set ℕ} (sup : Supported v.geometry δ fuel) (h : Shaped v L S)
include h

lemma goodChain (hg : v.geometry.Addressable) {s : ℕ} (hs : s ∈ S) : GoodChain v s (L.chain s) := by
  have hchain := h.isChain hs
  refine ⟨hchain, hchain.nodup, fun c hc => ?_, ?_⟩
  · rw [← hg.intsPerFat_eq]
    exact hchain.cells c hc
  · exact ⟨_, List.getLast?_eq_some_getLast hchain.links.ne_nil, hchain.links.stop_getLast.le⟩

lemma eq_chain {s : ℕ} (hs : s ∈ S) {l : List ℕ} (hl : GoodChain v s l) : l = L.chain s :=
  hl.chain.unique (h.isChain hs)

/-- Chains with different first clusters share no cluster. -/
lemma disjoint_of_ne {s t : ℕ} (hs : s ∈ S) (ht : t ∈ S)
    (hst : s ≠ t) {l l' : List ℕ} (hl : GoodChain v s l) (hl' : GoodChain v t l') : l.Disjoint l' := by
  intro c hc hc'
  rw [h.eq_chain hs hl] at hc
  rw [h.eq_chain ht hl'] at hc'
  exact hst (h.chains.disjoint s hs t ht c hc hc')

include sup

lemma chainStart_some {d i s : ℕ} : ChainStart fuel v (some (d, i)) s ↔
    fatNaming.Live L.sets d ∧ ((L.sets d).map EntrySet.first)[i]? = some s := by
  rw [ChainStart, h.liveDir_iff sup]
  refine and_congr_right fun hd => ?_
  have hlists := h.lists sup hd
  rw [List.getElem?_map, Option.map_eq_some_iff]
  constructor
  · intro ⟨es, e, hes, hi, hs⟩
    obtain rfl := hes.unique hlists
    rw [List.getElem?_map, Option.map_eq_some_iff] at hi
    obtain ⟨set, hset, rfl⟩ := hi
    exact ⟨set, hset, hs⟩
  · intro ⟨set, hset, hs⟩
    exact ⟨_, set.dirent v.junk, hlists, by rw [List.getElem?_map, hset]; rfl, hs⟩

lemma chainStart_node {o : Option (ℕ × ℕ)} {s : ℕ} (ho : ChainStart fuel v o s) :
    s ∈ fatNaming.Nodes L.sets := by
  cases o with
  | none => exact .inl ho
  | some p =>
    obtain ⟨hd, hi⟩ := (h.chainStart_some sup).mp ho
    obtain ⟨e, he, rfl⟩ := List.mem_map.mp (List.mem_of_getElem? hi)
    exact hd.node_mem he

lemma exists_chainStart {s : ℕ} (hs : s ∈ fatNaming.Nodes L.sets) : ∃ o, ChainStart fuel v o s := by
  rcases hs with rfl | ⟨d, e, hd, he, rfl⟩
  · exact ⟨none, rfl⟩
  · obtain ⟨i, hi⟩ := List.mem_iff_getElem?.mp (List.mem_map_of_mem (f := EntrySet.first) he)
    exact ⟨some (d, i), (h.chainStart_some sup).mpr ⟨hd, hi⟩⟩

end Shaped

namespace Holds
variable (sup : Supported v.geometry δ fuel) (h : Holds v L)
include sup h

/-- A first cluster is named in one place only. -/
lemma chainStart_unique {o o' : Option (ℕ × ℕ)} {s : ℕ} (ho : ChainStart fuel v o s)
    (ho' : ChainStart fuel v o' s) : o = o' := by
  have hroot : ∀ {p : ℕ × ℕ}, ¬ ChainStart fuel v (some p) 2 := by
    intro p hp
    obtain ⟨hd, hi⟩ := (h.shaped.chainStart_some sup).mp hp
    obtain ⟨e, he, hfirst⟩ := List.mem_map.mp (List.mem_of_getElem? hi)
    exact h.tree.notRoot p.1 e hd he hfirst
  cases o with
  | none =>
    obtain rfl : s = 2 := ho
    cases o' with
    | none => rfl
    | some p => exact absurd ho' hroot
  | some p =>
    cases o' with
    | none =>
      obtain rfl : s = 2 := ho'
      exact absurd ho hroot
    | some q =>
      obtain ⟨hd, hi⟩ := (h.shaped.chainStart_some sup).mp ho
      obtain ⟨hd', hi'⟩ := (h.shaped.chainStart_some sup).mp ho'
      obtain ⟨e, he, hfirst⟩ := List.mem_map.mp (List.mem_of_getElem? hi)
      obtain ⟨e', he', hfirst'⟩ := List.mem_map.mp (List.mem_of_getElem? hi')
      have hdir : p.1 = q.1 :=
        h.tree.parent p.1 q.1 e e' hd hd' he he' (hfirst.trans hfirst'.symm)
      have hindex : p.2 = q.2 := by
        rw [← hdir] at hi'
        exact (List.getElem?_inj (List.getElem?_eq_some_iff.mp hi).1 (h.tree.nodup p.1 hd)).mp
          (hi.trans hi'.symm)
      rw [Prod.ext hdir hindex]

/-- On a consistent volume all chains are intact. -/
lemma chainsIntact : ChainsIntact fuel v := by
  have hlive : ∀ {d}, LiveDir fuel v d → fatNaming.Live L.sets d :=
    fun hd => (h.shaped.liveDir_iff sup).mp hd
  refine ⟨fun d hd => ⟨_, h.shaped.lists sup (hlive hd)⟩, fun o s ho => ?_, fun d hd => ?_,
    fun o o' s s' l l' ho ho' hne hl hl' => ?_, fun d es e d' hd hes he hd' => ?_,
    fun c hc hlt hused => ?_⟩
  · exact ⟨_, h.shaped.goodChain sup.addressable (h.shaped.chainStart_node sup ho)⟩
  · obtain ⟨o, ho⟩ := h.shaped.exists_chainStart sup (hlive hd).mem_nodes
    exact ⟨o, _, ho, h.shaped.goodChain sup.addressable (hlive hd).mem_nodes⟩
  · refine h.shaped.disjoint_of_ne (h.shaped.chainStart_node sup ho)
      (h.shaped.chainStart_node sup ho') (fun hs => hne ?_) hl hl'
    exact h.chainStart_unique sup ho (hs ▸ ho')
  · obtain rfl := hes.unique (h.shaped.lists sup (hlive hd))
    obtain ⟨set, hset, rfl⟩ := List.mem_map.mp he
    by_cases hfirst : set.first = d'
    · subst hfirst
      exact .inl ⟨h.tree.isDir_of_live (hlive hd) hset (hlive hd'), rfl⟩
    · exact .inr fun l l' hl hl' => h.shaped.disjoint_of_ne (s := set.first) ((hlive hd).node_mem hset)
        (hlive hd').mem_nodes hfirst hl hl'
  · have hcell : c ∈ usedCells v := ⟨⟨hc, by rwa [sup.addressable.intsPerFat_eq]⟩, hused⟩
    obtain ⟨s, ⟨hs, hcs⟩, hunique⟩ := h.chains.existsUnique hcell
    obtain ⟨o, ho⟩ := h.shaped.exists_chainStart sup hs
    refine ⟨o, ⟨s, L.chain s, ho, h.shaped.goodChain sup.addressable hs, hcs⟩, fun o' ⟨s', l', ho', hl', hcl'⟩ => ?_⟩
    have hs' := h.shaped.chainStart_node sup ho'
    rw [h.shaped.eq_chain hs' hl'] at hcl'
    obtain rfl := hunique s' ⟨hs', hcl'⟩
    exact h.chainStart_unique sup ho' ho

end Holds
end Chains

section Integrity
variable {δ : Type} [Disk δ]

/-- The states that are reached from a freshly formatted volume are consistent. -/
lemma holds_of_run {v₀ v : FAT32 δ} {fuel : ℕ} (sup : Supported v₀.geometry δ fuel)
    (h₀ : Formatted v₀) {ops : List FatOp}
    (run : GuardedRun (FatOp.Allowed fuel) (FatOp.apply fuel) v₀ ops v) :
    v.geometry = v₀.geometry ∧ ∃ L, Holds v L := by
  obtain ⟨L₀, hL₀, -⟩ := h₀.holds
  refine run.invariant (I := fun w => w.geometry = v₀.geometry ∧ ∃ L, Holds w L) ?_ ⟨rfl, L₀, hL₀⟩
  intro u o w ⟨hgeometry, L, h⟩ ho hw
  obtain ⟨w', L', hw', hholds, hgeometry'⟩ := h.step (sup.of_eq hgeometry) ho
  obtain rfl := Option.some.inj (hw.symm.trans hw')
  exact ⟨hgeometry'.trans hgeometry, L', hholds⟩

/-- In every run of allowed calls from a freshly formatted volume the chains stay intact, and every
further allowed call returns. -/
theorem fat_chains_intact {v₀ v : FAT32 δ} (store : ClusterStore v₀.geometry δ) (h₀ : Formatted v₀)
    {fuel : ℕ} (hfuel : v₀.geometry.intsPerFat < fuel) {ops : List FatOp}
    (run : GuardedRun (FatOp.Allowed fuel) (FatOp.apply fuel) v₀ ops v) :
    ChainsIntact fuel v ∧ ∀ o, FatOp.Allowed fuel v o → ∃ w, FatOp.apply fuel v o = some w := by
  have sup : Supported v₀.geometry δ fuel := ⟨store, h₀.addressable, hfuel⟩
  obtain ⟨hgeometry, L, h⟩ := holds_of_run sup h₀ run
  refine ⟨h.chainsIntact (sup.of_eq hgeometry), fun o ho => ?_⟩
  obtain ⟨w, _, hw, _, _⟩ := h.step (sup.of_eq hgeometry) ho
  exact ⟨w, hw⟩

/-- The root directory of a freshly formatted volume is empty. -/
lemma Formatted.lists_nil {v : FAT32 δ} (h : Formatted v) (store : ClusterStore v.geometry δ)
    {fuel : ℕ} (hfuel : v.geometry.intsPerFat < fuel) : Lists fuel v 2 [] := by
  obtain ⟨L, hL, hempty⟩ := h.holds
  have hlists := hL.shaped.lists ⟨store, h.addressable, hfuel⟩ .root
  rwa [hempty] at hlists

end Integrity

section Volumes
open Open98.Ata

/-- A small volume, freshly formatted. -/
def fresh : FAT32 Drive where
  geometry := small
  FAT c := if c = 0 then 0x0FFFFFF8 else if c = 1 ∨ c = 2 then 0x0FFFFFFF else 0
  clusterAllocationHint := 0
  disk := blank
  junk _ := 0

lemma small_addressable : small.Addressable := ⟨by decide⟩

lemma fresh_formatted : Formatted fresh where
  addressable := small_addressable
  reserved := by decide
  hint := by decide
  root := by decide
  zeroed k _ := by
    rw [FAT32.clusters]
    change content small blank 2 k = 0
    rw [content_one small_reachable rfl (by decide)]
    simp [storeSector, blank]
  free c hc hne := by
    have := hc.1
    simp only [fresh]
    rw [if_neg (by omega), if_neg (by omega)]

def letterA : List UCHAR := [0x61]

lemma letterA_valid : ValidName letterA := ⟨by decide, by decide, by decide, by decide⟩

lemma fresh_space : fatGetFreeClusters fresh = 125 := by decide +kernel

lemma fresh_allowed : FatOp.Allowed 200 fresh (.writeFile 2 (fun _ => 7) letterA 3) := by
  refine ⟨.root, ⟨letterA_valid, fun es hes e he => ?_⟩, by decide, ?_, fun _ => ?_⟩
  · rw [hes.unique (fresh_formatted.lists_nil small_clusterStore (by decide))] at he
    cases he
  · rw [fresh_space]
    decide
  · rw [fresh_space]
    decide

/-- After a file has been written to a freshly formatted volume. -/
theorem fat_chains_intact_one_file : ∃ v : FAT32 Drive,
    GuardedRun (FatOp.Allowed 200) (FatOp.apply 200) fresh [.writeFile 2 (fun _ => 7) letterA 3] v ∧
    ChainsIntact 200 v ∧ ∀ o, FatOp.Allowed 200 v o → ∃ w, FatOp.apply 200 v o = some w := by
  obtain ⟨w, hw⟩ := (fat_chains_intact small_clusterStore fresh_formatted (by decide)
    (.nil fresh)).2 _ fresh_allowed
  have run := GuardedRun.cons fresh_allowed hw (.nil w)
  exact ⟨w, run, fat_chains_intact small_clusterStore fresh_formatted (by decide) run⟩

end Volumes

end Open98.Fat32
