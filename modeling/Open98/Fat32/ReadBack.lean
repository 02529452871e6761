import Open98.Fat32.Runs

/-! What is written is read back, and nothing else changes. -/
namespace Open98.Fat32
open Open98.Library

section Same
variable {δ : Type} [Disk δ]

/-- The listed entry `e'` of `w` has the name, the attributes, the first cluster and the size of the
entry `e` of `v`, and reading it gives the same bytes. -/
structure SameFile (fuel : ℕ) (v w : FAT32 δ) (e e' : DirectoryEntry) : Prop where
  fields : e'.fields = e.fields
  name : ∃ fname, NoNul fname ∧ HoldsString e.name fname ∧ HoldsString e'.name fname
  contents : ∃ b b', fatReadFile fuel v e = .ok b ∧ fatReadFile fuel w e' = .ok b' ∧
    ∀ k < e.fileSize, b' k = b k

namespace Created
variable {fuel : ℕ} {v w : FAT32 δ} {L L' : Layout} {d : ℕ} {e : EntrySet} {l₁ l₂ : List EntrySet}
  {file : Buffer} {fname : List UCHAR} {flen : ℕ} {attrs : UCHAR}
  (sup : Supported v.geometry δ fuel) (h : Holds v L)
  (created : Created v w L L' d e l₁ l₂ file fname flen attrs)
include sup created

/-- The new file is read as it was written. -/
lemma readFile_new : ∃ b, fatReadFile fuel w (e.dirent w.junk) = .ok b ∧ ∀ k < flen, b k = file k := by
  obtain ⟨hd, he⟩ := created.inserts.entry_iff.mpr (.inr ⟨rfl, rfl⟩)
  have hnode : (e.dirent w.junk).firstCluster ∈ fatNaming.Nodes L'.sets := hd.node_mem he
  have supw := sup.of_eq created.geometry
  obtain ⟨b, hb, hbytes⟩ :=
    created.holds.readFile (supw.store.get _) supw.addressable hnode supw.fuel.le
  refine ⟨b, hb, fun k hk => ?_⟩
  have hsize : (e.dirent w.junk).fileSize = flen :=
    congrArg (fun f => f.2.2) created.describes.fields
  have hcovered := created.covered
  rw [hbytes k (lt_min (hsize ▸ hk) (by rw [created.geometry]; exact lt_of_lt_of_le hk hcovered)),
    created.geometry]
  exact created.data k hk

include h

/-- The other entries are listed and read as before. -/
lemma sameFile {d' : ℕ} (hd' : fatNaming.Live L.sets d') {s : EntrySet} (hs : s ∈ L.sets d') :
    SameFile fuel v w (s.dirent v.junk) (s.dirent w.junk) := by
  obtain ⟨⟨fname, hnul, hname⟩, hcovered, hdir⟩ := h.sound d' s hd' hs
  have hnode : s.first ∈ fatNaming.Nodes L.sets := hd'.node_mem hs
  have hnode' : s.first ∈ fatNaming.Nodes L'.sets := by
    rw [created.inserts.nodes]
    exact .inr hnode
  have supw := sup.of_eq created.geometry
  obtain ⟨b, hb, hbytes⟩ :=
    h.readFile (sup.store.get _) sup.addressable (e := s.dirent v.junk) hnode sup.fuel.le
  obtain ⟨b', hb', hbytes'⟩ := created.holds.readFile (supw.store.get _) supw.addressable
    (e := s.dirent w.junk) hnode' supw.fuel.le
  refine ⟨rfl, ⟨fname, hnul, hname _, hname _⟩, b, b', hb, hb', fun k hk => ?_⟩
  have hsize : k < s.size := hk
  by_cases hsd : s.first = d
  · -- the directory itself, which may have grown; there are no bytes to compare
    have hlive : fatNaming.Live L.sets s.first := by
      rw [hsd]
      exact created.inserts.live
    have hempty := hdir (h.tree.isDir_of_live hd' hs hlive)
    omega
  · have hchain := created.chain s.first hnode hsd
    have hk' : k < (L.chain s.first).length * v.geometry.clusterSize := lt_of_lt_of_le hsize hcovered
    have hold := hbytes k (lt_min hk hk')
    have hnew := hbytes' k (lt_min hk (by
      change k < (L'.chain s.first).length * w.geometry.clusterSize
      rwa [hchain, created.geometry]))
    rw [hold, hnew, created.geometry]
    change chainBytes _ _ (L'.chain s.first) k = chainBytes _ _ (L.chain s.first) k
    rw [hchain]
    exact chainBytes_congr (created.kept s.first hnode hsd) hk'

lemma sameFiles {d' : ℕ} (hd' : fatNaming.Live L.sets d') {l : List EntrySet}
    (hl : ∀ s ∈ l, s ∈ L.sets d') : List.Forall₂ (SameFile fuel v w)
      (l.map (EntrySet.dirent v.junk)) (l.map (EntrySet.dirent w.junk)) := by
  rw [List.forall₂_map_left_iff, List.forall₂_map_right_iff, List.forall₂_same]
  exact fun s hs => created.sameFile sup h hd' (hl s hs)

end Created
end Same

section ReadBack
variable {δ : Type} [Disk δ]

/-- After a successful `FatWriteFile` the directory lists one entry more, which reads back as the
data that was written; every other entry of the volume is as it was. -/
structure WroteFile (fuel : ℕ) (v w : FAT32 δ) (d : ℕ) (file : Buffer) (fname : List UCHAR)
    (flen : ℕ) : Prop where
  listing : ∃ l₁ l₂ l₁' l₂' new, Lists fuel v d (l₁ ++ l₂) ∧ Lists fuel w d (l₁' ++ new :: l₂') ∧
    List.Forall₂ (SameFile fuel v w) l₁ l₁' ∧ List.Forall₂ (SameFile fuel v w) l₂ l₂' ∧
    HoldsString new.name fname ∧ new.dirAttrs = 0 ∧ new.fileSize = flen ∧
    ∃ b, fatReadFile fuel w new = .ok b ∧ ∀ k < flen, b k = file k
  directories : ∀ d', LiveDir fuel w d' ↔ LiveDir fuel v d'
  others : ∀ d', LiveDir fuel v d' → d' ≠ d →
    ∃ es es', Lists fuel v d' es ∧ Lists fuel w d' es' ∧ List.Forall₂ (SameFile fuel v w) es es'

/-- In every state that is reached from a freshly formatted volume a file that is written is read
back, and all else stays the same. -/
theorem fatWriteFile_read_back {v₀ v : FAT32 δ} (store : ClusterStore v₀.geometry δ)
    (h₀ : Formatted v₀) {fuel : ℕ} (hfuel : v₀.geometry.intsPerFat < fuel) {ops : List FatOp}
    (run : GuardedRun (FatOp.Allowed fuel) (FatOp.apply fuel) v₀ ops v) {d : ℕ}
    (hd : LiveDir fuel v d) {fname : List UCHAR} (hnew : NewName fuel v d fname) {flen : ℕ}
    (hflen : flen < 2^32) (space : EnoughSpace v d fname flen) (file : Buffer) :
    ∃ w, fatWriteFile fuel v d file fname flen = .ok w ∧ WroteFile fuel v w d file fname flen := by
  have sup₀ : Supported v₀.geometry δ fuel := ⟨store, h₀.addressable, hfuel⟩
  obtain ⟨hgeometry, L, h⟩ := holds_of_run sup₀ h₀ run
  have sup := sup₀.of_eq hgeometry
  rw [h.shaped.liveDir_iff sup] at hd
  obtain ⟨w, L', e, l₁, l₂, hwrite, created⟩ := h.create sup.store sup.addressable hd hnew.valid
    (show (0 : UCHAR) ≠ LFN by decide) (fun h0 => absurd h0 (by decide)) hflen space sup.fuel file
  have supw := sup.of_eq created.geometry
  have hnotDir : ¬ fatNaming.isDir e := by
    have hattrs : e.short 11 = 0 := congrArg Prod.fst created.describes.fields
    intro hdir
    have hzero : (0 : UCHAR) = DIRECTORY := hattrs.symm.trans hdir
    exact absurd hzero (by decide)
  have hlive : ∀ {d'}, fatNaming.Live L'.sets d' ↔ fatNaming.Live L.sets d' := by
    intro d'
    rw [created.inserts.live_iff]
    exact or_iff_left fun hdir => hnotDir hdir.1
  have hbefore := h.shaped.lists sup hd
  have hafter := created.holds.shaped.lists supw (hlive.mpr hd)
  rw [created.inserts.before, List.map_append] at hbefore
  rw [created.inserts.after, List.map_append, List.map_cons] at hafter
  refine ⟨w, hwrite, ⟨_, _, _, _, _, hbefore, hafter, ?_, ?_, ?_⟩, fun d' => ?_, fun d' hd' hne => ?_⟩
  · exact created.sameFiles sup h hd fun s hs => by
      rw [created.inserts.before]
      exact List.mem_append_left _ hs
  · exact created.sameFiles sup h hd fun s hs => by
      rw [created.inserts.before]
      exact List.mem_append_right _ hs
  · exact ⟨created.describes.name _, congrArg Prod.fst created.describes.fields,
      congrArg (fun f => f.2.2) created.describes.fields, created.readFile_new sup⟩
  · rw [created.holds.shaped.liveDir_iff supw, h.shaped.liveDir_iff sup, hlive]
  · rw [h.shaped.liveDir_iff sup] at hd'
    have hlists := created.holds.shaped.lists supw (hlive.mpr hd')
    rw [created.inserts.others d' hd' hne] at hlists
    exact ⟨_, _, h.shaped.lists sup hd', hlists,
      created.sameFiles sup h hd' fun s hs => hs⟩

/-- Three bytes written to a freshly formatted volume. -/
theorem fatWriteFile_read_back_fresh : ∃ w,
    fatWriteFile 200 fresh 2 (fun _ => 7) letterA 3 = .ok w ∧
      WroteFile 200 fresh w 2 (fun _ => 7) letterA 3 :=
  fatWriteFile_read_back small_clusterStore fresh_formatted (by decide) (.nil fresh)
    fresh_allowed.1 fresh_allowed.2.1 fresh_allowed.2.2.1 fresh_allowed.2.2.2 _

end ReadBack

end Open98.Fat32
