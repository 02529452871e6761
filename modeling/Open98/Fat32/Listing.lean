import Open98.Fat32.ClusterIO
import Open98.Fat32.Directory

/-! Which directories `FatPopulateDir` lists completely. After an entry set that straddles a
cluster boundary the walk goes on with the cluster behind the second one, and what else the second
cluster holds is passed over. -/
namespace Open98.Fat32
open Open98.Library

/-- The cluster ends inside an entry set. -/
def EndsInside (c : List Slot) : Prop := ∃ s, c.getLast? = some s ∧ s.Long

instance (c : List Slot) : Decidable (EndsInside c) :=
  match h : c.getLast? with
  | none => isFalse fun ⟨_, hs, _⟩ => by simp [h] at hs
  | some s => decidable_of_iff s.Long ⟨fun hs => ⟨s, h, hs⟩, fun ⟨t, ht, hlong⟩ => by
      obtain rfl : s = t := by simpa [h] using ht
      exact hlong⟩

/-- Whenever a cluster that is read from its first slot on ends inside an entry set, the next
cluster holds no other short slot than that of the set; it is not read from its first slot on. -/
def Listable : List (List Slot) → Prop
  | [] => True
  | c :: rest =>
    if EndsInside c then
      match rest with
      | [] => False
      | d :: rest => d.countP (fun s => s.Short) = 1 ∧ Listable rest
    else Listable rest

/-- The short slots whose entries the walk lists; `none` when it runs into a null pointer. -/
def listedSlots : List (List Slot) → Option (List Slot)
  | [] => some []
  | c :: rest =>
    if EndsInside c then
      match rest with
      | [] => none
      | d :: rest =>
        match d.find? (fun s => s.Short) with
        | none => none
        | some s => (listedSlots rest).map fun l => c.filter (fun s => s.Short) ++ s :: l
    else (listedSlots rest).map fun l => c.filter (fun s => s.Short) ++ l

lemma listedSlots_outside {c : List Slot} (h : ¬ EndsInside c) (rest : List (List Slot)) :
    listedSlots (c :: rest) =
      (listedSlots rest).map fun l => c.filter (fun s => s.Short) ++ l := by
  rw [listedSlots.eq_def]
  simp only [if_neg h]

lemma listedSlots_inside {c d : List Slot} (h : EndsInside c) {s : Slot}
    (hs : d.find? (fun s => s.Short) = some s) (rest : List (List Slot)) :
    listedSlots (c :: d :: rest) =
      (listedSlots rest).map fun l => (c.filter (fun s => s.Short) ++ [s]) ++ l := by
  simp [listedSlots, h, hs]

section Counting

lemma filter_eq_of_countP_one {d : List Slot} {s : Slot} (hfind : d.find? (fun s => s.Short) = some s)
    (hcount : d.countP (fun s => s.Short) = 1) : d.filter (fun s => s.Short) = [s] := by
  rw [List.countP_eq_length_filter] at hcount
  obtain ⟨t, ht⟩ := List.length_eq_one_iff.mp hcount
  rw [← List.head?_filter, ht] at hfind
  rw [ht, Option.some.inj hfind]

/-- In a listable directory every short slot is listed. -/
lemma Listable.listedSlots_eq {css : List (List Slot)} (h : Listable css) :
    listedSlots css = some (css.flatten.filter fun s => s.Short) := by
  induction css using Listable.induct with
  | case1 => rfl
  | case2 c hends =>
    rw [Listable, if_pos hends] at h
    exact h.elim
  | case3 c hends d rest ih =>
    rw [Listable, if_pos hends] at h
    obtain ⟨hcount, hrest⟩ := h
    cases hfind : d.find? (fun s => s.Short) with
    | none =>
      rw [List.find?_eq_none] at hfind
      rw [List.countP_eq_zero.mpr hfind] at hcount
      omega
    | some s =>
      simp only [listedSlots, if_pos hends, hfind, ih hrest, Option.map_some]
      simp [filter_eq_of_countP_one hfind hcount]
  | case4 c rest hends ih =>
    rw [Listable.eq_def] at h
    simp only [if_neg hends] at h
    rw [listedSlots_outside hends, ih h]
    simp

/-- No more than the short slots are listed, and all of them only in a listable directory. -/
lemma listable_of_length {css : List (List Slot)} {l : List Slot} (h : listedSlots css = some l) :
    l.length ≤ css.flatten.countP (fun s => s.Short) ∧
      (l.length = css.flatten.countP (fun s => s.Short) → Listable css) := by
  induction css using Listable.induct generalizing l with
  | case1 =>
    obtain rfl : [] = l := by simpa [listedSlots] using h
    exact ⟨by simp, fun _ => trivial⟩
  | case2 c hends => simp [listedSlots, hends] at h
  | case3 c hends d rest ih =>
    simp only [listedSlots, if_pos hends] at h
    cases hfind : d.find? (fun s => s.Short) with
    | none => simp [hfind] at h
    | some s =>
      simp only [hfind, Option.map_eq_some_iff] at h
      obtain ⟨m, hm, rfl⟩ := h
      obtain ⟨hle, hlistable⟩ := ih hm
      have hpos : 0 < d.countP (fun s => s.Short) := by
        rw [List.countP_pos_iff]
        exact ⟨s, List.mem_of_find?_eq_some hfind, by simpa using List.find?_some hfind⟩
      have hlen : (c.filter (fun s => s.Short)).length = c.countP (fun s => s.Short) :=
        (List.countP_eq_length_filter ..).symm
      simp only [List.flatten_cons, List.countP_append, List.length_append, List.length_cons, hlen]
      refine ⟨by omega, fun heq => ?_⟩
      rw [Listable, if_pos hends]
      exact ⟨by omega, hlistable (by omega)⟩
  | case4 c rest hends ih =>
    rw [listedSlots_outside hends, Option.map_eq_some_iff] at h
    obtain ⟨m, hm, rfl⟩ := h
    obtain ⟨hle, hlistable⟩ := ih hm
    have hlen : (c.filter (fun s => s.Short)).length = c.countP (fun s => s.Short) :=
      (List.countP_eq_length_filter ..).symm
    simp only [List.flatten_cons, List.countP_append, List.length_append, hlen]
    refine ⟨by omega, fun heq => ?_⟩
    rw [Listable.eq_def]
    simp only [if_neg hends]
    exact hlistable (by omega)

end Counting

section Streams

/-- A well-formed stream of slots, read from inside an entry set or from outside. -/
inductive Stream : Bool → List Slot → Prop
  | nil : Stream false []
  | free {s l} (h : s.Free) (t : Stream false l) : Stream false (s :: l)
  | long {b s l} (h : s.Long) (t : Stream true l) : Stream b (s :: l)
  | short {b s l} (h : s.Short) (t : Stream false l) : Stream b (s :: l)

lemma Stream.ofSet (e : EntrySet) {l : List Slot} (h : Stream false l) (b : Bool) :
    Stream b (e.longs ++ e.short :: l) := by
  obtain ⟨longs, short, long, last⟩ := e
  induction longs generalizing b with
  | nil => exact .short last h
  | cons s longs ih =>
    exact .long (long s (by simp)) (ih true fun t ht => long t (List.mem_cons_of_mem _ ht))

/-- Free slots and complete entry sets in any order make a well-formed stream. -/
lemma Stream.ofSegments (segs : List Segment) : Stream false (segs.flatMap Segment.slots) := by
  induction segs with
  | nil => exact .nil
  | cons seg segs ih =>
    cases seg with
    | free s h => exact .free h ih
    | entry e =>
      have := Stream.ofSet e ih false
      simpa [Segment.slots] using this

/-- A piece of a well-formed stream: what of its last entry set lies in the piece is left over,
and a piece that is entered inside a set does not start with a free slot. -/
lemma Stream.split {b : Bool} {c rest : List Slot} (h : Stream b (c ++ rest)) :
    ∃ segs tail b', c = segs.flatMap Segment.slots ++ tail ∧ (∀ s ∈ tail, s.Long) ∧
      (b = true → ∀ s hs segs', segs ≠ .free s hs :: segs') ∧
      Stream b' rest ∧ (tail ≠ [] → b' = true) ∧ (c = [] → b' = b) := by
  induction c generalizing b with
  | nil => exact ⟨[], [], b, rfl, by simp, by simp, h, by simp, fun _ => rfl⟩
  | cons s c ih =>
    cases h with
    | free hs t =>
      obtain ⟨segs, tail, b', rfl, htail, -, hrest, hin, -⟩ := ih t
      exact ⟨.free s hs :: segs, tail, b', rfl, htail, by simp, hrest, hin, by simp⟩
    | short hs t =>
      obtain ⟨segs, tail, b', rfl, htail, -, hrest, hin, -⟩ := ih t
      exact ⟨.entry ⟨[], s, by simp, hs⟩ :: segs, tail, b', rfl, htail, by simp, hrest, hin, by simp⟩
    | long hs t =>
      obtain ⟨segs, tail, b', rfl, htail, hfirst, hrest, hin, hempty⟩ := ih t
      cases segs with
      | nil =>
        refine ⟨[], s :: tail, b', rfl, ?_, by simp, hrest, fun _ => ?_, by simp⟩
        · intro u hu
          rcases List.mem_cons.mp hu with rfl | hu
          · exact hs
          · exact htail u hu
        · by_cases htl : tail = []
          · exact hempty (by simp [htl])
          · exact hin htl
      | cons seg segs =>
        cases seg with
        | free u hu => exact absurd rfl (hfirst rfl u hu segs)
        | entry e =>
          -- the slot is the first one of the set that follows
          refine ⟨.entry ⟨s :: e.longs, e.short, ?_, e.last⟩ :: segs, tail, b', ?_, htail, by simp,
            hrest, hin, by simp⟩
          · intro u hu
            rcases List.mem_cons.mp hu with rfl | hu
            · exact hs
            · exact e.long u hu
          · simp [Segment.slots]

/-- A cluster that is entered inside a set completes the set or consists of long-name slots. -/
lemma Stream.second {c rest : List Slot} (h : Stream true (c ++ rest)) :
    (∀ s ∈ c, s.Long) ∨ ∃ e after b, c = EntrySet.longs e ++ e.short :: after ∧ Stream b rest := by
  obtain ⟨segs, tail, b, rfl, htail, hfirst, hrest, -, -⟩ := h.split
  cases segs with
  | nil => exact .inl htail
  | cons seg segs =>
    cases seg with
    | free s hs => exact absurd rfl (hfirst rfl s hs segs)
    | entry e => exact .inr ⟨e, segs.flatMap Segment.slots ++ tail, b, by simp [Segment.slots], hrest⟩

variable {segs : List Segment} {tail : List Slot}

lemma endsInside_iff (htail : ∀ s ∈ tail, s.Long) :
    EndsInside (segs.flatMap Segment.slots ++ tail) ↔ tail ≠ [] := by
  constructor
  · intro ⟨s, hs, hlong⟩ hnil
    rw [hnil, List.append_nil] at hs
    rcases segs.eq_nil_or_concat with rfl | ⟨init, seg, rfl⟩
    · simp at hs
    · cases seg with
      | free u hu =>
        obtain rfl : u = s := by simpa [Segment.slots] using hs
        exact hlong.1 hu
      | entry e =>
        obtain rfl : e.short = s := by simpa [Segment.slots] using hs
        exact e.last.2 hlong.2
  · intro hne
    refine ⟨tail.getLast hne, ?_, htail _ (List.getLast_mem hne)⟩
    rw [List.getLast?_append_of_ne_nil _ hne, List.getLast?_eq_some_getLast hne]

lemma filter_short_longs {l : List Slot} (h : ∀ s ∈ l, s.Long) :
    l.filter (fun s => s.Short) = [] := by
  rw [List.filter_eq_nil_iff]
  intro s hs
  simpa using fun hshort : s.Short => hshort.2 (h s hs).2

/-- The short slots of a piece are those of its complete sets. -/
lemma filter_short_segments (htail : ∀ s ∈ tail, s.Long) :
    (segs.flatMap Segment.slots ++ tail).filter (fun s => s.Short) =
      (segs.filterMap Segment.entry?).map EntrySet.short := by
  rw [List.filter_append, filter_short_longs htail, List.append_nil]
  induction segs with
  | nil => rfl
  | cons seg segs ih =>
    cases seg with
    | free s h =>
      have hs : ¬ s.Short := fun hshort => hshort.1 h
      simpa [Segment.slots, Segment.entry?, List.filterMap_cons, hs] using ih
    | entry e =>
      have hlongs := filter_short_longs e.long
      simp [Segment.slots, Segment.entry?, hlongs, e.last, ih]

end Streams

section Walk
variable {δ : Type} [Disk δ] {v : FAT32 δ}

/-- The set that the long-name slots at the end of a cluster and a set in the next one make up. -/
def EntrySet.join (tail : List Slot) (htail : ∀ s ∈ tail, s.Long) (e : EntrySet) : EntrySet where
  longs := tail ++ e.longs
  short := e.short
  long s hs := (List.mem_append.mp hs).elim (htail s) (e.long s)
  last := e.last

section Second
variable (reads : ReadsClusters v.geometry v.disk) {tail : List Slot} (htail : ∀ s ∈ tail, s.Long)
  {cluster : ℕ} (hsecond : v.geometry.HasCluster (fatGetNextClusterID v cluster))
include reads hsecond

/-- An entry set that does not end in its cluster is read with the second cluster. -/
lemma fatNextDirectoryEntry_straddle (e : EntrySet) {rest : List Slot}
    (hslots : v.dirSlots (fatGetNextClusterID v cluster) = e.longs ++ e.short :: rest) :
    fatNextDirectoryEntry v cluster tail = .ok ((e.join tail htail).dirent v.junk, rest,
      v.dirSlots (fatGetNextClusterID v cluster), fatGetNextClusterID v cluster) := by
  have hread := fatReadDirectoryEntry_set v.junk (e.join tail htail) rest
  have hjoin : (e.join tail htail).longs ++ (e.join tail htail).short :: rest =
      tail ++ v.dirSlots (fatGetNextClusterID v cluster) := by
    rw [hslots]
    exact List.append_assoc ..
  rw [hjoin] at hread
  have hget : fatGetSlots v (fatGetNextClusterID v cluster) =
      .ok (v.dirSlots (fatGetNextClusterID v cluster)) := fatGetSlots_ok reads hsecond
  rw [fatNextDirectoryEntry, fatReadDirectoryEntry_longs v.junk htail]
  simp only [hget, ok_bind, hread]

include htail in
/-- With nothing but long-name slots in the second cluster the caller gets a null pointer. -/
lemma fatNextDirectoryEntry_fault (hslots : ∀ s ∈ v.dirSlots (fatGetNextClusterID v cluster), s.Long) :
    fatNextDirectoryEntry v cluster tail = .error .nullPointer := by
  have hget : fatGetSlots v (fatGetNextClusterID v cluster) =
      .ok (v.dirSlots (fatGetNextClusterID v cluster)) := fatGetSlots_ok reads hsecond
  have hread : fatReadDirectoryEntry v.junk
      (tail ++ v.dirSlots (fatGetNextClusterID v cluster)) = none := by
    refine fatReadDirectoryEntry_longs v.junk fun t ht => ?_
    rcases List.mem_append.mp ht with ht | ht
    · exact htail t ht
    · exact hslots t ht
  rw [fatNextDirectoryEntry, fatReadDirectoryEntry_longs v.junk htail]
  simp only [hget, ok_bind, hread]

variable (hne : tail ≠ []) {left : ℕ} (hleft : tail.length < left)
include hne hleft

/-- After a set that straddles the boundary the inner loop ends. -/
lemma populateCluster_straddle (e : EntrySet) {rest : List Slot}
    (hslots : v.dirSlots (fatGetNextClusterID v cluster) = e.longs ++ e.short :: rest)
    (entries : List DirectoryEntry) : populateCluster v left tail cluster entries =
      .ok (entries ++ [(e.join tail htail).dirent v.junk], fatGetNextClusterID v cluster) := by
  have hnext := fatNextDirectoryEntry_straddle reads htail hsecond e hslots
  obtain ⟨s, tail', rfl⟩ := List.exists_cons_of_ne_nil hne
  obtain ⟨left, rfl⟩ : ∃ n, left = n+2 := ⟨left-2, by simp at hleft; omega⟩
  have hshorter : rest.length - (v.dirSlots (fatGetNextClusterID v cluster)).length = 0 := by
    rw [hslots]
    simp
    omega
  rw [populateCluster, if_neg (htail s (by simp)).1, hnext]
  simp only [ok_bind, hshorter, List.take_zero, ne_eq, hsecond.ne_zero, not_false_eq_true, if_true]
  rfl

include htail in
lemma populateCluster_fault (hslots : ∀ s ∈ v.dirSlots (fatGetNextClusterID v cluster), s.Long)
    (entries : List DirectoryEntry) :
    populateCluster v left tail cluster entries = .error .nullPointer := by
  have hnext := fatNextDirectoryEntry_fault reads htail hsecond hslots
  obtain ⟨s, tail', rfl⟩ := List.exists_cons_of_ne_nil hne
  obtain ⟨left, rfl⟩ : ∃ n, left = n+1 := ⟨left-1, by omega⟩
  rw [populateCluster, if_neg (htail s (by simp)).1, hnext, error_bind]

end Second

/-- The call has listed the entries of the given slots behind those it had found before, or has run
into a null pointer. -/
def Outcome (entries : List DirectoryEntry) : Option (List Slot) → Result (List DirectoryEntry) → Prop
  | none, r => r = .error .nullPointer
  | some l, r => ∃ es, r = .ok es ∧
      es.map DirectoryEntry.fields = entries.map DirectoryEntry.fields ++ l.map Slot.fields

lemma Outcome.prepend {entries listed : List DirectoryEntry} {o : Option (List Slot)}
    {r : Result (List DirectoryEntry)} (h : Outcome listed o r) {found : List Slot}
    (hfound : listed.map DirectoryEntry.fields =
      entries.map DirectoryEntry.fields ++ found.map Slot.fields) :
    Outcome entries (o.map fun l => found ++ l) r := by
  cases o with
  | none => exact h
  | some l =>
    obtain ⟨es, hes, hmap⟩ := h
    exact ⟨es, hes, by simp [hmap, hfound]⟩

/-- The inner loop goes through the complete sets of a cluster and comes to the long-name slots of a
set that goes on in the next one, if there are any. -/
lemma populateCluster_split {cluster : ℕ} {b : Bool} {more : List Slot}
    (hstream : Stream b (v.dirSlots cluster ++ more)) (entries : List DirectoryEntry) :
    ∃ tail left listed b', (∀ s ∈ tail, s.Long) ∧ tail.length < left ∧
      (EndsInside (v.dirSlots cluster) ↔ tail ≠ []) ∧ Stream b' more ∧ (tail ≠ [] → b' = true) ∧
      listed.map DirectoryEntry.fields = entries.map DirectoryEntry.fields ++
        ((v.dirSlots cluster).filter fun s => s.Short).map Slot.fields ∧
      populateCluster v ((v.dirSlots cluster).length + 1) (v.dirSlots cluster) cluster entries =
        populateCluster v left tail cluster listed := by
  obtain ⟨segs, tail, b', hsplit, htail, -, hrest, hin, -⟩ := hstream.split
  have hends : EndsInside (segs.flatMap Segment.slots ++ tail) ↔ tail ≠ [] := endsInside_iff htail
  have hshort : (segs.flatMap Segment.slots ++ tail).filter (fun s => s.Short) =
      (segs.filterMap Segment.entry?).map EntrySet.short := filter_short_segments htail
  have hlt : (segs.flatMap Segment.slots ++ tail).length < (v.dirSlots cluster).length + 1 := by
    rw [← hsplit]
    exact Nat.lt_succ_self _
  obtain ⟨left, hleft, hrun⟩ := populateCluster_segments (v := v) segs tail cluster hlt entries
  rw [← hsplit] at hends hshort hrun
  exact ⟨tail, left, _, b', htail, hleft, hends, hrest, hin, by simp [hshort], hrun⟩

/-- With the second cluster the inner loop completes the set, unless that cluster has no short slot. -/
lemma populateCluster_second (reads : ReadsClusters v.geometry v.disk) {tail : List Slot}
    (htail : ∀ s ∈ tail, s.Long) (hne : tail ≠ []) {cluster left : ℕ} (hleft : tail.length < left)
    (hsecond : v.geometry.HasCluster (fatGetNextClusterID v cluster)) {more : List Slot}
    (hstream : Stream true (v.dirSlots (fatGetNextClusterID v cluster) ++ more))
    (entries : List DirectoryEntry) :
    ((v.dirSlots (fatGetNextClusterID v cluster)).find? (fun s => s.Short) = none ∧
      populateCluster v left tail cluster entries = .error .nullPointer) ∨
    ∃ s d b, (v.dirSlots (fatGetNextClusterID v cluster)).find? (fun s => s.Short) = some s ∧
      d.fields = s.fields ∧ populateCluster v left tail cluster entries =
        .ok (entries ++ [d], fatGetNextClusterID v cluster) ∧ Stream b more := by
  rcases hstream.second with hlongs | ⟨e, after, b, hslots, hmore⟩
  · refine .inl ⟨?_, populateCluster_fault reads htail hsecond hne hleft hlongs entries⟩
    rw [List.find?_eq_none]
    intro s hs
    simpa using fun hshort : s.Short => hshort.2 (hlongs s hs).2
  · refine .inr ⟨e.short, _, b, ?_, rfl,
      populateCluster_straddle reads htail hsecond hne hleft e hslots entries, hmore⟩
    rw [hslots, ← List.head?_filter, List.filter_append, filter_short_longs e.long]
    simp [e.last]

/-- Where a cluster ends inside an entry set, the walk goes on. -/
lemma WalkChain.goes_on {c : ℕ} {l : List ℕ} (h : WalkChain v c (c :: l))
    (hstream : Stream true (l.flatMap v.dirSlots)) : ∃ t, l = fatGetNextClusterID v c :: t ∧
      WalkChain v (fatGetNextClusterID v c) (fatGetNextClusterID v c :: t) := by
  rcases h.step with ⟨-, rfl⟩ | ⟨-, hnext⟩
  · cases hstream
  · obtain ⟨t, rfl⟩ := hnext.links.eq_cons
    exact ⟨t, rfl, hnext⟩

/-- The walk over a directory lists the entries of the slots in `listedSlots`, or runs into a null
pointer. -/
lemma populateFrom_listedSlots (reads : ReadsClusters v.geometry v.disk) {fuel cluster : ℕ}
    {cs : List ℕ} (h : WalkChain v cluster cs) (hfuel : cs.length ≤ fuel) {b : Bool}
    (hstream : Stream b (cs.flatMap v.dirSlots)) (entries : List DirectoryEntry) :
    Outcome entries (listedSlots (cs.map v.dirSlots)) (populateFrom v fuel cluster entries) := by
  induction fuel generalizing cluster cs b entries with
  | zero =>
    have := List.length_pos_of_ne_nil h.links.ne_nil
    omega
  | succ fuel ih =>
    -- what follows a cluster, whichever of them the inner loop ended in
    have hgo : ∀ {c : ℕ} {l : List ℕ} {b : Bool} {listed : List DirectoryEntry},
        WalkChain v c (c :: l) → l.length ≤ fuel → Stream b (l.flatMap v.dirSlots) →
        Outcome listed (listedSlots (l.map v.dirSlots))
          (if EOC ≤ fatGetNextClusterID v c then .ok listed
            else populateFrom v fuel (fatGetNextClusterID v c) listed) := by
      intro c l b listed hc hlen hl
      rcases hc.step with ⟨hstop, rfl⟩ | ⟨hgo, hnext⟩
      · exact ⟨listed, by rw [if_pos hstop], by simp⟩
      · rw [if_neg hgo]
        exact ih hnext hlen hl listed
    obtain ⟨cs, rfl⟩ := h.links.eq_cons
    rw [List.flatMap_cons] at hstream
    obtain ⟨tail, left, listed, b', htail, hleft, hends, hrest, hin, hfields, hrun⟩ :=
      populateCluster_split hstream entries
    rw [populateFrom, fatGetSlots_ok reads h.head, ok_bind, hrun]
    by_cases htl : tail = []
    · subst htl
      obtain ⟨left, rfl⟩ := Nat.exists_eq_add_one.mpr (Nat.zero_lt_of_lt hleft)
      rw [populateCluster, ok_bind, List.map_cons, listedSlots_outside fun h => hends.mp h rfl]
      exact (hgo h (Nat.le_of_succ_le_succ hfuel) hrest).prepend hfields
    · have hinside := hends.mpr htl
      rw [hin htl] at hrest
      obtain ⟨cs', rfl, hchain⟩ := h.goes_on hrest
      have hlen : cs'.length ≤ fuel := by
        simp at hfuel
        omega
      rw [List.flatMap_cons] at hrest
      rcases populateCluster_second reads htail htl hleft hchain.head hrest listed with
        ⟨hnone, hfault⟩ | ⟨s, d, b'', hsome, hd, hinner, hmore⟩
      · rw [hfault, error_bind]
        simp only [List.map_cons, listedSlots, if_pos hinside, hnone]
        rfl
      · rw [hinner, ok_bind, List.map_cons, List.map_cons, listedSlots_inside hinside hsome]
        exact (hgo hchain hlen hmore).prepend (by simp [hfields, hd])

/-- What a call lists when it returns. -/
lemma listed_of_fatPopulateDir (reads : ReadsClusters v.geometry v.disk) {fuel cluster : ℕ}
    {cs : List ℕ} (h : WalkChain v cluster cs) (hfuel : cs.length ≤ fuel)
    (hstream : Stream false (cs.flatMap v.dirSlots)) {dir : Directory}
    (hdir : fatPopulateDir fuel v cluster = .ok dir) : ∃ l, listedSlots (cs.map v.dirSlots) = some l ∧
      dir.entries.map DirectoryEntry.fields = l.map Slot.fields := by
  have hrun := populateFrom_listedSlots reads h hfuel hstream []
  cases hlisted : listedSlots (cs.map v.dirSlots) with
  | none =>
    rw [hlisted] at hrun
    rw [fatPopulateDir, hrun] at hdir
    cases hdir
  | some l =>
    rw [hlisted] at hrun
    obtain ⟨es, hes, hfields⟩ := hrun
    rw [fatPopulateDir, hes] at hdir
    obtain rfl : ⟨cluster, es⟩ = dir := Except.ok.inj hdir
    exact ⟨l, rfl, hfields⟩

lemma listable_of_complete (reads : ReadsClusters v.geometry v.disk) {fuel cluster : ℕ}
    {cs : List ℕ} (h : WalkChain v cluster cs) (hfuel : cs.length ≤ fuel)
    (hstream : Stream false (cs.flatMap v.dirSlots)) {dir : Directory}
    (hdir : fatPopulateDir fuel v cluster = .ok dir)
    (hlength : dir.entries.length = (cs.flatMap v.dirSlots).countP fun s => s.Short) :
    Listable (cs.map v.dirSlots) := by
  obtain ⟨l, hl, hlisted⟩ := listed_of_fatPopulateDir reads h hfuel hstream hdir
  have hsame : dir.entries.length = l.length := by simpa using congrArg List.length hlisted
  exact (listable_of_length hl).2 (by rw [← hsame, hlength, List.flatMap_def])

/-- `FatPopulateDir` lists every entry set of a well-formed directory exactly when the directory is
listable. -/
theorem fatPopulateDir_complete_iff (reads : ReadsClusters v.geometry v.disk) {fuel cluster : ℕ}
    {cs : List ℕ} (h : WalkChain v cluster cs) (hfuel : cs.length ≤ fuel) {segs : List Segment}
    (hstream : cs.flatMap v.dirSlots = segs.flatMap Segment.slots) :
    (∃ dir, fatPopulateDir fuel v cluster = .ok dir ∧ dir.entries.map DirectoryEntry.fields =
      (segs.filterMap Segment.entry?).map fun e => e.short.fields) ↔ Listable (cs.map v.dirSlots) := by
  have hwell : Stream false (cs.flatMap v.dirSlots) := hstream ▸ Stream.ofSegments segs
  have hshort : (cs.map v.dirSlots).flatten.filter (fun s => s.Short) =
      (segs.filterMap Segment.entry?).map EntrySet.short := by
    have hall : (segs.flatMap Segment.slots ++ []).filter (fun s => s.Short) =
        (segs.filterMap Segment.entry?).map EntrySet.short := filter_short_segments (by simp)
    rw [List.append_nil] at hall
    rw [← List.flatMap_def, hstream, hall]
  constructor
  · intro ⟨dir, hdir, hfields⟩
    refine listable_of_complete reads h hfuel hwell hdir ?_
    rw [List.countP_eq_length_filter, List.flatMap_def, hshort, List.length_map]
    simpa using congrArg List.length hfields
  · intro hlistable
    have hrun := populateFrom_listedSlots reads h hfuel hwell []
    rw [hlistable.listedSlots_eq, hshort] at hrun
    obtain ⟨es, hes, hfields⟩ := hrun
    refine ⟨⟨cluster, es⟩, by rw [fatPopulateDir, hes]; rfl, ?_⟩
    simpa [Function.comp_def] using hfields

end Walk

section Volumes
open Open98.Ata

/-- A drive whose clusters hold the given slots. -/
def driveOf (l : ℕ → List Slot) : Drive :=
  { blank with sectors := fun s => sectorAt (slotBytes (l (s - 31))) 0 }

lemma dirSlots_driveOf {l : ℕ → List Slot} {c : ℕ} (hc : small.HasCluster c) (hl : (l c).length = 16)
    {v : FAT32 Drive} (hg : v.geometry = small) (hd : v.disk = driveOf l) : v.dirSlots c = l c := by
  have hsector : fatAcquireSectorForCluster small c - 31 = c := by
    rw [(small_reachable.sector_eq hc).1]
    have := hc.1
    simp only [small]
    omega
  rw [FAT32.dirSlots, FAT32.clusters, hg, hd, content_one small_reachable rfl hc]
  refine Eq.trans (slots_congr fun k hk => ?_) (slots_cut_slotBytes (g := small) hl)
  have hk' : k < 512 := hk
  simp [driveOf, storeSector, sectorAt, hsector, Geometry.cut, hk', hk]

def longSlot : Slot := fun j => if j = 11 then LFN else 0x41
def shortSlotOf (first : UCHAR) : Slot := fun j => if j = 26 then first else 0x41
def freeSlot : Slot := fun _ => 0

def straddlingClusters (second : List Slot) (c : ℕ) : List Slot :=
  if c = 2 then List.replicate 15 freeSlot ++ [longSlot] else second

/-- A directory of two clusters; the first one ends with the long-name slot of an entry set. -/
def straddling (second : List Slot) : FAT32 Drive where
  geometry := small
  FAT c := if c = 2 then 3 else 0x0FFFFFFF
  clusterAllocationHint := 4
  disk := driveOf (straddlingClusters second)
  junk _ := 0

lemma straddling_walk (second : List Slot) : WalkChain (straddling second) 2 [2, 3] where
  links := by
    have h2 : fatGetNextClusterID (straddling second) 2 = 3 := rfl
    have h3 : fatGetNextClusterID (straddling second) 3 = 0x0FFFFFFF := rfl
    refine .link (by rw [h2]; decide) ?_
    rw [h2]
    exact .last (by rw [h3]; decide)
  cells c hc := by
    rcases List.mem_cons.mp hc with rfl | hc
    · exact show small.HasCluster 2 by decide
    · obtain rfl := List.mem_singleton.mp hc
      exact show small.HasCluster 3 by decide

/-- The segments of such a directory with the given ones behind the short slot of the set. -/
def straddlingSegments (more : List Segment) : List Segment :=
  List.replicate 15 (.free freeSlot (by decide)) ++
    .entry ⟨[longSlot], shortSlotOf 5, List.forall_mem_singleton.mpr (by decide), by decide⟩ :: more

section Second
variable {second : List Slot} (h : second.length = 16)
include h

lemma straddling_slots : [2, 3].map (straddling second).dirSlots =
    [List.replicate 15 freeSlot ++ [longSlot], second] := by
  have h2 : (straddling second).dirSlots 2 = List.replicate 15 freeSlot ++ [longSlot] :=
    dirSlots_driveOf (l := straddlingClusters second) (show small.HasCluster 2 by decide) rfl rfl rfl
  have h3 : (straddling second).dirSlots 3 = second :=
    dirSlots_driveOf (l := straddlingClusters second) (show small.HasCluster 3 by decide) h rfl rfl
  simp [h2, h3]

lemma straddling_stream {more : List Segment}
    (hmore : second = shortSlotOf 5 :: more.flatMap Segment.slots) :
    [2, 3].flatMap (straddling second).dirSlots =
      (straddlingSegments more).flatMap Segment.slots := by
  rw [List.flatMap_def, straddling_slots h, hmore]
  simp [straddlingSegments, Segment.slots]

end Second

/-- A set that straddles a boundary is listed when it is alone in the second cluster. -/
theorem fatPopulateDir_complete_iff_straddling :
    (∃ dir, fatPopulateDir 2 (straddling (shortSlotOf 5 :: List.replicate 15 freeSlot)) 2 = .ok dir ∧
      dir.entries.map DirectoryEntry.fields =
        ((straddlingSegments (List.replicate 15 (.free freeSlot (by decide)))).filterMap
          Segment.entry?).map fun e => e.short.fields) ↔
    Listable ([2, 3].map (straddling (shortSlotOf 5 :: List.replicate 15 freeSlot)).dirSlots) :=
  fatPopulateDir_complete_iff (small_clusterStore.get _) (straddling_walk _) (by decide)
    (straddling_stream rfl (by simp [Segment.slots]))

/-- The second cluster holds an entry of its own behind the short slot of the set. -/
def crowded : FAT32 Drive := straddling (shortSlotOf 5 :: shortSlotOf 6 :: List.replicate 14 freeSlot)

def crowdedSegments : List Segment := straddlingSegments
  (.entry ⟨[], shortSlotOf 6, List.forall_mem_nil _, by decide⟩ :: List.replicate 14 (.free freeSlot (by decide)))

/-- The entry behind a set that straddles the boundary is not listed. -/
theorem entry_behind_straddling_set_lost : ReadsClusters crowded.geometry crowded.disk ∧
    WalkChain crowded 2 [2, 3] ∧
    [2, 3].flatMap crowded.dirSlots = crowdedSegments.flatMap Segment.slots ∧
    ¬ ∃ dir, fatPopulateDir 2 crowded 2 = .ok dir ∧ dir.entries.map DirectoryEntry.fields =
      (crowdedSegments.filterMap Segment.entry?).map fun e => e.short.fields := by
  have hslots : [2, 3].map crowded.dirSlots = [List.replicate 15 freeSlot ++ [longSlot],
      shortSlotOf 5 :: shortSlotOf 6 :: List.replicate 14 freeSlot] := straddling_slots rfl
  have hstream : [2, 3].flatMap crowded.dirSlots = crowdedSegments.flatMap Segment.slots :=
    straddling_stream rfl (by simp [Segment.slots])
  refine ⟨small_clusterStore.get _, straddling_walk _, hstream, ?_⟩
  rintro ⟨dir, hdir, hfields⟩
  have hcount : dir.entries.length = ([2, 3].flatMap crowded.dirSlots).countP fun s => s.Short := by
    have hlen := congrArg List.length hfields
    rw [List.length_map] at hlen
    rw [hlen, List.flatMap_def, hslots]
    decide
  have hlistable : Listable ([2, 3].map crowded.dirSlots) :=
    listable_of_complete (small_clusterStore.get _) (straddling_walk _) (by decide)
      (hstream ▸ Stream.ofSegments _) hdir hcount
  rw [hslots, Listable, if_pos (by decide)] at hlistable
  exact absurd hlistable.1 (by decide)

end Volumes

end Open98.Fat32
