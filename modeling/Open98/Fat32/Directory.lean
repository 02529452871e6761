import Open98.Fat32.Entry
import Open98.Fat32.Table

/-! Walking through a directory: `FatNextDirectoryEntry` and `FatPopulateDir`, and what they read
from the pieces a cluster is made of. -/
namespace Open98.Fat32
open Open98.Library

/-- Slot `i` of a buffer. -/
def slotAt (b : Buffer) (i : ℕ) : Slot := fun j => b (32*i + j)

/-- A cluster's worth of slots. -/
def slots (g : Geometry) (b : Buffer) : List Slot := (List.range g.dirsPerCluster).map (slotAt b)

/-- The bytes of a list of slots. -/
def slotBytes (l : List Slot) : Buffer :=
  fun k => l.getD (k/32) (fun _ => 0) ⟨k % 32, Nat.mod_lt _ (by decide)⟩

structure Directory where
  cluster : ℕ
  entries : List DirectoryEntry

section Model
variable {δ : Type} [Disk δ]

/-- A directory buffer after `FatGetCluster`. -/
def fatGetSlots (v : FAT32 δ) (cluster : ℕ) : Result (List Slot) := do
  return slots v.geometry (← fatGetCluster v.geometry v.disk v.junk cluster)

/-- The entry, the slots of the buffer from `*nextentry` on, the second half of the buffer if it has
been loaded, and `*secondcluster`. When the entry cannot be read with the second cluster either, the
caller goes on with a null pointer. -/
def fatNextDirectoryEntry (v : FAT32 δ) (cluster : ℕ) (entry : List Slot) :
    Result (DirectoryEntry × List Slot × List Slot × ℕ) :=
  match fatReadDirectoryEntry v.junk entry with
  | some (dirent, next) => .ok (dirent, next, [], 0)
  | none => do
    let secondcluster := fatGetNextClusterID v cluster
    let more ← fatGetSlots v secondcluster
    match fatReadDirectoryEntry v.junk (entry ++ more) with
    | some (dirent, next) => .ok (dirent, next, more, secondcluster)
    | none => .error .nullPointer

/-- The inner loop of `FatPopulateDir`, from the slot `entry` points to, with the entries found so
far; it ends with the first half of the buffer and returns the cluster from which the outer loop goes
on. -/
def populateCluster (v : FAT32 δ) :
    ℕ → List Slot → ℕ → List DirectoryEntry → Result (List DirectoryEntry × ℕ)
  | 0, _, _, _ => .error .hang
  | _+1, [], cluster, entries => .ok (entries, cluster)
  | fuel+1, s :: rest, cluster, entries =>
    if s.Free then populateCluster v fuel rest cluster entries
    else do
      let (dirent, next, more, secondcluster) ← fatNextDirectoryEntry v cluster (s :: rest)
      let cluster := if secondcluster ≠ 0 then secondcluster else cluster
      populateCluster v fuel (next.take (next.length - more.length)) cluster (entries ++ [dirent])

/-- The outer loop of `FatPopulateDir`. -/
def populateFrom (v : FAT32 δ) : ℕ → ℕ → List DirectoryEntry → Result (List DirectoryEntry)
  | 0, _, _ => .error .hang
  | fuel+1, cluster, entries => do
    let root ← fatGetSlots v cluster
    let (entries, cluster) ← populateCluster v (root.length + 1) root cluster entries
    let cluster := fatGetNextClusterID v cluster
    if EOC ≤ cluster then .ok entries else populateFrom v fuel cluster entries

def fatPopulateDir (fuel : ℕ) (v : FAT32 δ) (cluster : ℕ) : Result Directory := do
  return ⟨cluster, ← populateFrom v fuel cluster []⟩

/-- The slots of a cluster of the volume. -/
def FAT32.dirSlots (v : FAT32 δ) (c : ℕ) : List Slot := slots v.geometry (v.clusters c)

end Model

section Slots
variable {g : Geometry}

@[simp] lemma length_slots (b : Buffer) : (slots g b).length = g.dirsPerCluster := by
  simp [slots]

lemma slotAt_slotBytes (l : List Slot) {i : ℕ} (hi : i < l.length) :
    slotAt (slotBytes l) i = l[i] := by
  funext j
  have hdiv : (32*i + j.val) / 32 = i := by omega
  have hmod : (32*i + j.val) % 32 = j.val := by omega
  simp [slotAt, slotBytes, hdiv, hmod, hi]

lemma slots_congr {b b' : Buffer} (h : ∀ k < g.clusterSize, b' k = b k) :
    slots g b' = slots g b := by
  refine List.map_congr_left fun i hi => ?_
  have hlt : i < g.dirsPerCluster := List.mem_range.mp hi
  funext j
  have hsize := g.clusterSize_eq
  exact h _ (by omega)

/-- What is written to a cluster as slots is read back as slots. -/
lemma slots_cut_slotBytes {l : List Slot} (hl : l.length = g.dirsPerCluster) :
    slots g (g.cut (slotBytes l)) = l := by
  have hcut : slots g (g.cut (slotBytes l)) = slots g (slotBytes l) :=
    slots_congr fun k hk => if_pos hk
  rw [hcut]
  refine List.ext_getElem (by simp [hl]) fun i hi hi' => ?_
  simp only [slots, List.getElem_map, List.getElem_range]
  exact slotAt_slotBytes l hi'

end Slots

/-- A long-name slot that is in use. -/
def Slot.Long (s : Slot) : Prop := ¬ s.Free ∧ s 11 = LFN

/-- A short slot that is in use. -/
def Slot.Short (s : Slot) : Prop := ¬ s.Free ∧ s 11 ≠ LFN

instance (s : Slot) : Decidable s.Long := inferInstanceAs (Decidable (_ ∧ _))
instance (s : Slot) : Decidable s.Short := inferInstanceAs (Decidable (_ ∧ _))

/-- A complete entry set: long-name slots, if any, and a short slot. -/
structure EntrySet where
  longs : List Slot
  short : Slot
  long : ∀ s ∈ longs, s.Long
  last : short.Short

lemma no_longs : ∀ s ∈ ([] : List Slot), s.Long := fun _ hs => absurd hs List.not_mem_nil

/-- What a directory consists of. -/
inductive Segment
  | free (s : Slot) (h : s.Free)
  | entry (e : EntrySet)

def Segment.slots : Segment → List Slot
  | free s _ => [s]
  | entry e => e.longs ++ [e.short]

def Segment.entry? : Segment → Option EntrySet
  | free _ _ => none
  | entry e => some e

/-- The entry that is read from a set. -/
def EntrySet.dirent (junk : Buffer) (e : EntrySet) : DirectoryEntry where
  name := if 0 < e.longs.length then fatParseLongName junk e.longs e.longs.length
    else shortName junk e.short
  dirAttrs := e.short 11
  firstCluster := utilReadInteger16 e.short 20 * 2^16 + utilReadInteger16 e.short 26
  fileSize := utilReadInteger32 e.short 28

/-- The fields of a listed entry that come from its short slot. -/
def DirectoryEntry.fields (d : DirectoryEntry) : UCHAR × ℕ × ℕ := (d.dirAttrs, d.firstCluster, d.fileSize)

def Slot.fields (s : Slot) : UCHAR × ℕ × ℕ :=
  (s 11, utilReadInteger16 s 20 * 2^16 + utilReadInteger16 s 26, utilReadInteger32 s 28)

@[simp] lemma EntrySet.fields_dirent (junk : Buffer) (e : EntrySet) :
    (e.dirent junk).fields = e.short.fields := rfl

/-- A set does not start with a free slot. -/
lemma EntrySet.exists_cons (e : EntrySet) (rest : List Slot) :
    ∃ s t, e.longs ++ e.short :: rest = s :: t ∧ ¬ s.Free := by
    cases hl : e.longs with
    | nil => exact ⟨_, _, rfl, e.last.1⟩
    | cons s longs => exact ⟨s, _, rfl, (e.long s (by simp [hl])).1⟩

section Reading
variable (junk : Buffer)

lemma lfnCount_longs {longs : List Slot} (h : ∀ s ∈ longs, s.Long) : lfnCount longs = none := by
  induction longs with
  | nil => rfl
  | cons s longs ih =>
    rw [lfnCount, if_pos (h s (by simp)).2, ih fun t ht => h t (List.mem_cons_of_mem _ ht)]
    rfl

lemma lfnCount_set (e : EntrySet) (rest : List Slot) :
    lfnCount (e.longs ++ e.short :: rest) = some e.longs.length := by
  obtain ⟨longs, short, long, last⟩ := e
  induction longs with
  | nil => simp [lfnCount, last.2]
  | cons s longs ih =>
    have hrest := ih fun t ht => long t (List.mem_cons_of_mem _ ht)
    simp only at hrest ⊢
    rw [List.cons_append, lfnCount, if_pos (long s (by simp)).2, hrest]
    rfl

lemma fatReadDirectoryEntry_longs {longs : List Slot} (h : ∀ s ∈ longs, s.Long) :
    fatReadDirectoryEntry junk longs = none := by
  cases longs with
  | nil => rfl
  | cons s longs => rw [fatReadDirectoryEntry, if_neg (h s (by simp)).1, lfnCount_longs h]; rfl

lemma fatReadDirectoryEntry_set (e : EntrySet) (rest : List Slot) :
    fatReadDirectoryEntry junk (e.longs ++ e.short :: rest) = some (e.dirent junk, rest) := by
  have hcount := lfnCount_set e rest
  have hdrop : (e.longs ++ e.short :: rest).drop e.longs.length = e.short :: rest :=
    List.drop_left
  have hname : fatParseLongName junk (e.longs ++ e.short :: rest) e.longs.length =
      fatParseLongName junk e.longs e.longs.length := by
    rw [fatParseLongName, List.take_append_of_le_length (Nat.mod_le _ _)]
    rfl
  obtain ⟨s, t, hcons, hlive⟩ := e.exists_cons rest
  rw [hcons] at hcount hdrop hname ⊢
  rw [fatReadDirectoryEntry, if_neg hlive, hcount, Option.bind_some, hdrop]
  simp only [hname]
  rfl

end Reading

section Walking
variable {δ : Type} [Disk δ] {v : FAT32 δ}

/-- Inside a cluster the walk lists the sets it comes across and stops at what follows them. -/
lemma populateCluster_segments (segs : List Segment) (tail : List Slot) (cluster : ℕ) {fuel : ℕ}
    (hfuel : (segs.flatMap Segment.slots ++ tail).length < fuel) (entries : List DirectoryEntry) :
    ∃ left, tail.length < left ∧
      populateCluster v fuel (segs.flatMap Segment.slots ++ tail) cluster entries =
        populateCluster v left tail cluster
          (entries ++ (segs.filterMap Segment.entry?).map (EntrySet.dirent v.junk)) := by
  induction segs generalizing fuel entries with
  | nil => exact ⟨fuel, by simpa using hfuel, by simp⟩
  | cons seg segs ih =>
    obtain ⟨fuel, rfl⟩ : ∃ n, fuel = n+1 := ⟨fuel-1, by omega⟩
    cases seg with
    | free s h =>
      simp only [List.flatMap_cons, Segment.slots, List.cons_append,
        List.nil_append, List.length_cons] at hfuel ⊢
      obtain ⟨left, hleft, hrun⟩ := ih (Nat.lt_of_succ_lt_succ hfuel) entries
      exact ⟨left, hleft, by rw [populateCluster, if_pos h, hrun]; rfl⟩
    | entry e =>
      have hslots : (Segment.entry e :: segs).flatMap Segment.slots ++ tail =
          e.longs ++ e.short :: (segs.flatMap Segment.slots ++ tail) := by
        simp [Segment.slots]
      rw [hslots] at hfuel ⊢
      have hrest : (segs.flatMap Segment.slots ++ tail).length < fuel := by
        simp at hfuel ⊢
        omega
      obtain ⟨left, hleft, hrun⟩ := ih hrest (entries ++ [e.dirent v.junk])
      refine ⟨left, hleft, ?_⟩
      have hread := fatReadDirectoryEntry_set v.junk e (segs.flatMap Segment.slots ++ tail)
      obtain ⟨s, t, hcons, hlive⟩ := e.exists_cons (segs.flatMap Segment.slots ++ tail)
      rw [hcons] at hread ⊢
      rw [populateCluster, if_neg hlive, fatNextDirectoryEntry, hread]
      simp only [ok_bind, ne_eq, not_true_eq_false, if_false, List.length_nil, Nat.sub_zero,
        List.take_length]
      rw [hrun]
      simp [Segment.entry?]

lemma fatGetSlots_ok (reads : ReadsClusters v.geometry v.disk) {c : ℕ} (hc : v.geometry.HasCluster c) :
    fatGetSlots v c = .ok (v.dirSlots c) := by
  rw [fatGetSlots, reads v.junk c hc, ok_bind]
  exact congrArg Except.ok (slots_congr fun k hk => if_pos hk)

/-- The entry sets of a chain of clusters, from the pieces of each. -/
def setsOf (parts : ℕ → List Segment) (cs : List ℕ) : List EntrySet :=
  cs.flatMap fun c => (parts c).filterMap Segment.entry?

lemma setsOf_cons (parts : ℕ → List Segment) (c : ℕ) (cs : List ℕ) : setsOf parts (c :: cs) =
    (parts c).filterMap Segment.entry? ++ setsOf parts cs := rfl

lemma setsOf_singleton (parts : ℕ → List Segment) (c : ℕ) :
    setsOf parts [c] = (parts c).filterMap Segment.entry? :=
  List.flatMap_singleton ..

/-- One turn of the outer loop, on a cluster that consists of free slots and complete sets. -/
lemma populateFrom_cluster (reads : ReadsClusters v.geometry v.disk) {c : ℕ}
    (hc : v.geometry.HasCluster c) {segs : List Segment}
    (hsegs : v.dirSlots c = segs.flatMap Segment.slots) (fuel : ℕ) (entries : List DirectoryEntry) :
    populateFrom v (fuel+1) c entries =
      if EOC ≤ fatGetNextClusterID v c then
        .ok (entries ++ (segs.filterMap Segment.entry?).map (EntrySet.dirent v.junk))
      else populateFrom v fuel (fatGetNextClusterID v c)
        (entries ++ (segs.filterMap Segment.entry?).map (EntrySet.dirent v.junk)) := by
  have hlt : (segs.flatMap Segment.slots ++ []).length < (v.dirSlots c).length + 1 := by
    rw [List.append_nil, ← hsegs]
    exact Nat.lt_succ_self _
  obtain ⟨left, hleft, hrun⟩ := populateCluster_segments (v := v) segs [] c hlt entries
  obtain ⟨left, rfl⟩ := Nat.exists_eq_add_one.mpr (Nat.zero_lt_of_lt hleft)
  rw [List.append_nil, ← hsegs, populateCluster] at hrun
  rw [populateFrom, fatGetSlots_ok reads hc, ok_bind, hrun, ok_bind]

lemma populateFrom_kept (reads : ReadsClusters v.geometry v.disk) {parts : ℕ → List Segment}
    {cluster : ℕ} {cs : List ℕ} (h : WalkChain v cluster cs)
    (hparts : ∀ c ∈ cs, v.dirSlots c = (parts c).flatMap Segment.slots) {fuel : ℕ}
    (hfuel : cs.length ≤ fuel) (entries : List DirectoryEntry) :
    populateFrom v fuel cluster entries =
      .ok (entries ++ (setsOf parts cs).map (EntrySet.dirent v.junk)) := by
  induction h using WalkChain.induct generalizing fuel entries with
  | last c hc hstop =>
    obtain ⟨fuel, rfl⟩ := Nat.exists_eq_add_one.mpr hfuel
    rw [populateFrom_cluster reads hc (hparts c (by simp)), if_pos hstop, setsOf_singleton]
  | link c t hc hgo tail ih =>
    obtain ⟨fuel, rfl⟩ := Nat.exists_eq_add_one.mpr (Nat.zero_lt_of_lt hfuel)
    rw [populateFrom_cluster reads hc (hparts c (by simp)), if_neg hgo,
      ih (fun x hx => hparts x (List.mem_cons_of_mem _ hx)) (Nat.le_of_succ_le_succ hfuel),
      setsOf_cons, List.map_append, List.append_assoc]

/-- In a directory whose entry sets all lie within clusters, `FatPopulateDir` lists all of them. -/
lemma fatPopulateDir_kept (reads : ReadsClusters v.geometry v.disk) {parts : ℕ → List Segment}
    {cluster : ℕ} {cs : List ℕ} (h : WalkChain v cluster cs)
    (hparts : ∀ c ∈ cs, v.dirSlots c = (parts c).flatMap Segment.slots) {fuel : ℕ}
    (hfuel : cs.length ≤ fuel) : fatPopulateDir fuel v cluster =
      .ok ⟨cluster, (setsOf parts cs).map (EntrySet.dirent v.junk)⟩ := by
  rw [fatPopulateDir, populateFrom_kept reads h hparts hfuel, ok_bind, List.nil_append]
  rfl

end Walking

end Open98.Fat32
