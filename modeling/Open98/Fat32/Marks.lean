import Open98.Fat32.DeleteList
import Open98.Fat32.ShortNames

/-! The end mark of a directory: whether a reader that stops at the first slot with first byte zero sees
every entry. -/
namespace Open98.Fat32
open Open98.Library

section Marks

/-- No live slot stands behind a slot with first byte zero. -/
def EndMarked (S : List Slot) : Prop := S.Pairwise fun s t => s 0 = 0x00 → t.Free

/-- No slot has first byte zero. -/
def Unmarked (S : List Slot) : Prop := ∀ s ∈ S, s 0 ≠ 0x00

/-- What a reader sees that stops at the first slot with first byte zero. -/
def beforeMark (S : List Slot) : List Slot := S.takeWhile fun s => s 0 ≠ 0x00

/-- Such a reader sees every live slot. -/
lemma EndMarked.seen {S : List Slot} (h : EndMarked S) :
    (beforeMark S).filter (fun s => ¬ s.Free) = S.filter fun s => ¬ s.Free := by
  induction S with
  | nil => rfl
  | cons s S ih =>
    obtain ⟨hs, htail⟩ := List.pairwise_cons.mp h
    rw [beforeMark, List.takeWhile_cons]
    by_cases hzero : s 0 = 0x00
    · have hfree : ∀ t ∈ s :: S, t.Free := by
        intro t ht
        rcases List.mem_cons.mp ht with rfl | ht
        · exact .inl hzero
        · exact hs t ht hzero
      have hnone : (s :: S).filter (fun s => ¬ s.Free) = [] :=
        List.filter_eq_nil_iff.mpr fun t ht => by simpa using hfree t ht
      rw [if_neg (by simpa using hzero), hnone]
      rfl
    · rw [if_pos (by simpa using hzero), List.filter_cons, List.filter_cons]
      have hrest := ih htail
      rw [beforeMark] at hrest
      rw [hrest]

lemma Unmarked.endMarked {S : List Slot} (h : Unmarked S) : EndMarked S :=
  List.pairwise_of_forall_mem_list fun s hs _ _ hzero => absurd hzero (h s hs)

lemma endMarked_of_free {S : List Slot} (h : ∀ s ∈ S, s.Free) : EndMarked S :=
  List.pairwise_of_forall_mem_list fun _ _ t ht _ => h t ht

/-- Slots without a mark may stand before anything. -/
lemma Unmarked.append {A B : List Slot} (hA : Unmarked A) (hB : EndMarked B) : EndMarked (A ++ B) :=
  List.pairwise_append.mpr ⟨hA.endMarked, hB, fun s hs _ _ hzero => absurd hzero (hA s hs)⟩

/-- Free slots may stand behind anything. -/
lemma EndMarked.append {A B : List Slot} (hA : EndMarked A) (hB : ∀ s ∈ B, s.Free) : EndMarked (A ++ B) :=
  List.pairwise_append.mpr ⟨hA, endMarked_of_free hB, fun _ _ t ht _ => hB t ht⟩

/-- A live slot has no mark before it. -/
lemma EndMarked.unmarked {A B : List Slot} (h : EndMarked (A ++ B)) (hlive : ∃ s ∈ B, ¬ s.Free) : Unmarked A := by
  intro s hs hzero
  obtain ⟨t, ht, hnot⟩ := hlive
  exact hnot ((List.pairwise_append.mp h).2.2 s hs t ht hzero)

variable {fname : List UCHAR}

/-- The slots for a name of up to 256 long-name slots have no mark among them. -/
lemma LongSlotsOf.unmarked {longs : List Slot} (h : LongSlotsOf fname longs) (hle : longEntries fname ≤ 256) :
    Unmarked longs := by
  intro s hs
  obtain ⟨t, ht, rfl⟩ := List.mem_iff_getElem.mp hs
  have hlen := h.length_eq
  obtain ⟨old, checksum, s, rfl, hslot⟩ := h.slot ht
  have hbyte : longNameSlot old (longs.length - 1 - t) checksum fname 0 =
      BitVec.ofNat 8 (longs.length - 1 - t + 1) := by
    simp [longNameSlot, Slot.poke, nameOffsets]
  rw [hslot]
  by_cases hfirst : t = 0
  · rw [if_pos hfirst, Function.update_self]
    intro hzero
    have hmark : (longNameSlot old (longs.length - 1 - t) checksum fname 0 ||| 0x40).getLsbD 6 = true := by
      rw [BitVec.getLsbD_or]
      exact Bool.or_eq_true_iff.mpr (.inr (by decide))
    rw [hzero] at hmark
    exact absurd hmark (by decide)
  · rw [if_neg hfirst, hbyte]
    intro hzero
    have hnat := congrArg BitVec.toNat hzero
    rw [BitVec.toNat_ofNat, Nat.mod_eq_of_lt (by omega)] at hnat
    exact absurd hnat (Nat.succ_ne_zero _)

end Marks

section Guards
variable {δ : Type} [Disk δ] (d : ℕ) (v : FAT32 δ)

/-- The directory is one in which no live slot stands behind a slot with first byte zero. -/
def MarkedDir : Prop := ∃ l, IsChain v.geometry v.FAT d l ∧ EndMarked (l.flatMap v.dirSlots)

/-- The clusters of the entries are not those of the directory. -/
def EntriesApart : Prop := ∀ l, IsChain v.geometry v.FAT d l → ∀ s ∈ l.flatMap v.dirSlots, s.Short →
  ∀ m, IsChain v.geometry v.FAT s.fields.2.1 m → ∀ c ∈ m, c ∉ l

/-- The call is on the directory `d`, with a name that is a string. -/
def FatOp.OnDirectory : FatOp → Prop
  | writeFile dir _ fname _ => dir = d ∧ NoNul fname
  | makeDirectory dir dirname => dir = d ∧ NoNul dirname
  | deleteFile dir _ => dir = d ∧ EntriesApart d v
  | scribble _ => True

/-- The slots for the name go to a place with no mark before it: no slot of the directory has one, or one
of its clusters has enough free slots in a row behind slots without a mark. -/
def FitsBeforeMark (fname : List UCHAR) : Prop := longEntries fname ≤ 256 ∧
  ∀ l, IsChain v.geometry v.FAT d l →
    Unmarked (l.flatMap v.dirSlots) ∨ ∃ P, FitsAt v l (longEntries fname + 1) P ∧ Unmarked P

/-- Nothing live stands behind an entry of the name. -/
def LastEntry (filename : List UCHAR) : Prop := ∀ l, IsChain v.geometry v.FAT d l →
  ∀ P e Q, Meets (l.map v.dirSlots) P e Q → e.Named v.junk filename → ∀ s ∈ Q, s.Free

def FatOp.KeepsMark : FatOp → Prop
  | writeFile _ _ fname _ => FitsBeforeMark d v fname
  | makeDirectory _ dirname => FitsBeforeMark d v dirname
  | deleteFile _ filename => LastEntry d v filename
  | scribble _ => True

end Guards

section Steps
variable {δ : Type} [Disk δ] {v w : FAT32 δ} {d : ℕ} {l : List ℕ} {fname : List UCHAR}

/-- A place of the directory stands before the free slots in a row. -/
lemma FitsAt.starts {P : List Slot} {count : ℕ} (h : FitsAt v l count P) : P <+: l.flatMap v.dirSlots := by
  obtain ⟨p, c, q, pre, run, post, rfl, hslots, -, -, rfl⟩ := h
  rw [List.flatMap_append, List.flatMap_cons, hslots]
  exact ⟨run ++ post ++ q.flatMap v.dirSlots, by simp only [List.append_assoc]⟩

/-- An entry that goes to a place without a mark before it keeps the end mark. -/
lemma Inserted.endMarked {attrs : UCHAR} {l' : List ℕ} {A run longs B : List Slot} {short : Slot}
    (h : Inserted v w d l fname attrs l' A run longs short B) (hmarked : EndMarked (l.flatMap v.dirSlots))
    (hnul : NoNul fname) (hle : longEntries fname ≤ 256)
    (hplace : Unmarked (l.flatMap v.dirSlots) ∨ ∃ P, FitsAt v l (longEntries fname + 1) P ∧ Unmarked P) :
    EndMarked (l'.flatMap w.dirSlots) := by
  have hA : Unmarked A := by
    rcases hplace with hwhole | ⟨P, hP, hunmarked⟩
    · rcases h.place with hfits | rfl
      · exact fun s hs => hwhole s (hfits.starts.subset hs)
      · exact hwhole
    · exact fun s hs => hunmarked s ((h.first P hP).subset hs)
  have hnew : Unmarked (longs ++ [short]) := by
    intro s hs
    rcases List.mem_append.mp hs with hs | hs
    · exact h.longSlots.unmarked hle s hs
    · obtain ⟨first, flen, old, rfl⟩ := h.short_eq
      rw [List.mem_singleton.mp hs, shortSlot_zero]
      exact name83_ne_zero h.longSlots.ne_nil hnul
  have hB : EndMarked B := by
    have hall : EndMarked (A ++ run ++ B) := by
      rw [← h.before]
      exact hmarked.append fun s hs => List.eq_of_mem_replicate hs ▸ zeroSlot_free
    exact (List.pairwise_append.mp hall).2.1
  rw [h.after, List.append_assoc]
  exact hA.append (hnew.append hB)

/-- The last entry of a directory can be zeroed. -/
lemma endMarked_erased {P Q : List Slot} {e : EntrySet} (h : EndMarked (P ++ (e.longs ++ e.short :: Q)))
    (hQ : ∀ s ∈ Q, s.Free) : EndMarked (P ++ (List.replicate (e.longs.length + 1) zeroSlot ++ Q)) := by
  have hP : Unmarked P := h.unmarked ⟨e.short, by simp, e.last.1⟩
  refine hP.endMarked.append fun s hs => ?_
  rcases List.mem_append.mp hs with hs | hs
  · exact List.eq_of_mem_replicate hs ▸ zeroSlot_free
  · exact hQ s hs

/-- A call that deletes the last entry, or none, keeps the end mark. -/
lemma deleteFrom_marked (store : ClusterStore v.geometry δ) (hg : v.geometry.Addressable)
    (ready : AllocReady v) (hl : IsChain v.geometry v.FAT d l) (hmarked : EndMarked (l.flatMap v.dirSlots))
    (tidy : TidyDir v d l) (hapart : EntriesApart d v) {filename : List UCHAR}
    (hlast : LastEntry d v filename) {chainFuel fuel : ℕ}
    (h : deleteFrom chainFuel v filename fuel d = .ok w) :
    w.geometry = v.geometry ∧ AllocReady w ∧ MarkedDir d w := by
  rcases deleteFrom_erasesAt store tidy.walk tidy.stream h with rfl | ⟨P, e, Q, d', herases, hzero⟩
  · exact ⟨rfl, ready, l, hl, hmarked⟩
  have hstream : l.flatMap v.dirSlots = P ++ (e.longs ++ e.short :: Q) := herases.meets.flatten
  have hmem : e.short ∈ l.flatMap v.dirSlots := by
    rw [hstream]
    simp
  obtain ⟨FAT, hchain, hrest⟩ := bind_eq_ok.mp hzero
  obtain ⟨d₂, hflush, hrest⟩ := bind_eq_ok.mp hrest
  obtain rfl := Except.ok.inj hrest
  obtain ⟨m, hm, rfl⟩ := zeroChain_clears hg (tidy.entries e.short hmem e.last) hchain
  obtain ⟨d₃, hflush', hcontent⟩ := store.flush d' fun c => if c ∈ m then 0 else v.FAT c
  obtain rfl := Except.ok.inj (hflush.symm.trans hflush')
  have hkept : ∀ c ∈ l, c ∉ m := by
    intro c hc hcm
    rcases hm with ⟨-, rfl⟩ | hm
    · cases hcm
    · exact hapart l hl e.short hmem e.last m hm c hcm hc
  have hlow : ∀ c < 2, c ∉ m := by
    intro c hc hcm
    rcases hm with ⟨-, rfl⟩ | hm
    · cases hcm
    · have hge := (hm.cells c hcm).1
      omega
  have hslots : l.flatMap (fun c => slots v.geometry (content v.geometry d₂ c)) =
      P ++ (List.replicate (e.longs.length + 1) zeroSlot ++ Q) := by
    rw [hcontent]
    exact herases.zeroed
  refine ⟨rfl, ⟨?_, ready.hint⟩, l, ⟨hl.links.congr fun c hc => if_neg (hkept c hc), hl.cells⟩, ?_⟩
  · simp only [hlow 0 (by decide), hlow 1 (by decide), if_false]
    exact ready.reserved
  · change EndMarked (l.flatMap fun c => slots v.geometry (content v.geometry d₂ c))
    rw [hslots]
    rw [hstream] at hmarked
    exact endMarked_erased hmarked (hlast l hl P e Q herases.meets herases.named)

/-- A call that meets the conditions keeps the end mark of the directory. -/
lemma FatOp.KeepsMark.step {fuel : ℕ} (store : ClusterStore v.geometry δ) (hg : v.geometry.Addressable)
    (ready : AllocReady v) (hmarked : MarkedDir d v) {o : FatOp} (horderly : o.Orderly v)
    (hdir : o.OnDirectory d v) (ho : o.KeepsMark d v) (hw : o.apply fuel v = some w) :
    w.geometry = v.geometry ∧ AllocReady w ∧ MarkedDir d w := by
  obtain ⟨l, hl, hend⟩ := hmarked
  have hcreate : ∀ {fname attrs flen file}, NoNul fname → FitsBeforeMark d v fname →
      EnoughSpace v d fname flen → fatWriteFileImplementation fuel v d file fname flen attrs 0 = .ok w →
      w.geometry = v.geometry ∧ AllocReady w ∧ MarkedDir d w := by
    intro fname attrs flen file hnul ⟨hle, hplace⟩ space hwrite
    obtain ⟨l', A, run, longs, short, B, inserted⟩ :=
      fatWriteFileImplementation_inserts store hg ready hl space hwrite
    exact ⟨inserted.geometry, inserted.ready, l', inserted.chain,
      inserted.endMarked hend hnul hle (hplace l hl)⟩
  cases o with
  | writeFile dir file fname flen =>
    obtain ⟨rfl, hnul⟩ := hdir
    exact hcreate hnul ho horderly.2 (toOption_eq_some.mp hw)
  | makeDirectory dir dirname =>
    obtain ⟨rfl, hnul⟩ := hdir
    have hwrite := fatMakeDirectory_writes (toOption_eq_some.mp hw)
    exact hcreate hnul ho horderly.2 hwrite
  | deleteFile dir filename =>
    obtain ⟨rfl, hapart⟩ := hdir
    obtain ⟨l₂, tidy⟩ := horderly
    obtain rfl : l₂ = l := tidy.walk.links.unique (hl.walk hg).links
    exact deleteFrom_marked store hg ready hl hend tidy hapart ho (toOption_eq_some.mp hw)
  | scribble junk =>
    obtain rfl := Option.some.inj hw
    exact ⟨rfl, ⟨ready.reserved, ready.hint⟩, l, hl, hend⟩

/-- In a run of calls on a directory that all meet the conditions, no live slot ever stands behind a slot
with first byte zero, and a reader that stops at such a slot sees every live one. -/
theorem end_mark_kept {fuel : ℕ} (store : ClusterStore v.geometry δ) (hg : v.geometry.Addressable)
    (ready : AllocReady v) (hmarked : MarkedDir d v) {ops : List FatOp}
    (run : GuardedRun (fun v o => FatOp.Orderly v o ∧ o.OnDirectory d v ∧ o.KeepsMark d v) (FatOp.apply fuel)
      v ops w) :
    ∃ l, IsChain w.geometry w.FAT d l ∧ EndMarked (l.flatMap w.dirSlots) ∧
      (beforeMark (l.flatMap w.dirSlots)).filter (fun s => ¬ s.Free) =
        (l.flatMap w.dirSlots).filter fun s => ¬ s.Free := by
  have hkept : w.geometry = v.geometry ∧ AllocReady w ∧ MarkedDir d w := by
    refine run.invariant (I := fun u => u.geometry = v.geometry ∧ AllocReady u ∧ MarkedDir d u) ?_
      ⟨rfl, ready, hmarked⟩
    intro u o u' ⟨hgeometry, hready, hu⟩ ⟨horderly, hdir, ho⟩ hnext
    obtain ⟨hgeometry', hready', hu'⟩ :=
      ho.step (hgeometry ▸ store) (hgeometry ▸ hg) hready hu horderly hdir hnext
    exact ⟨hgeometry'.trans hgeometry, hready', hu'⟩
  obtain ⟨-, -, l, hl, hend⟩ := hkept
  exact ⟨l, hl, hend, hend.seen⟩

end Steps

section Volumes
open Open98.Ata

lemma fresh_slots : fresh.dirSlots 2 = List.replicate 16 zeroSlot := by
  rw [dirSlots_zero fresh_formatted.zeroed,
    flatMap_freeSegments fun s hs => List.eq_of_mem_replicate hs ▸ zeroSlot_free]
  rfl

lemma fresh_marked : MarkedDir 2 fresh := by
  refine ⟨[2], fresh_root, endMarked_of_free fun s hs => ?_⟩
  rw [List.flatMap_singleton, fresh_slots] at hs
  exact List.eq_of_mem_replicate hs ▸ zeroSlot_free

/-- The first file of a directory is put at its start. -/
lemma letter_fitsBeforeMark : FitsBeforeMark 2 fresh letterA := by
  refine ⟨by decide, fun l hl => .inr ⟨[], ?_, by simp [Unmarked]⟩⟩
  obtain rfl := hl.unique fresh_root
  exact ⟨[], 2, [], [], List.replicate 2 zeroSlot, List.replicate 14 zeroSlot, rfl, fresh_slots, by decide,
    fun s hs => List.eq_of_mem_replicate hs ▸ zeroSlot_free, rfl⟩

/-- One file is created in an empty directory. -/
theorem end_mark_kept_letter : ∃ w l, FatOp.apply 200 fresh (.writeFile 2 (fun _ => 7) letterA 3) = some w ∧
    IsChain w.geometry w.FAT 2 l ∧ EndMarked (l.flatMap w.dirSlots) := by
  have hspace : EnoughSpace fresh 2 letterA 3 := by
    refine ⟨?_, fun _ => ?_⟩ <;> rw [fresh_space] <;> decide
  obtain ⟨w, hwrite, -⟩ := fatWriteFileImplementation_returns small_clusterStore small_addressable fresh_ready
    fresh_root hspace (by decide) (by decide) (show 1 < 200 by decide) (fun _ => 7) 0
  have hw : FatOp.apply 200 fresh (.writeFile 2 (fun _ => 7) letterA 3) = some w := toOption_eq_some.mpr hwrite
  have run : GuardedRun (fun v o => FatOp.Orderly v o ∧ o.OnDirectory 2 v ∧ o.KeepsMark 2 v) (FatOp.apply 200)
      fresh [.writeFile 2 (fun _ => 7) letterA 3] w :=
    .cons ⟨⟨⟨_, fresh_root⟩, hspace⟩, ⟨rfl, letterA_valid.noNul⟩, letter_fitsBeforeMark⟩ hw (.nil w)
  obtain ⟨l, hl, hend, -⟩ := end_mark_kept small_clusterStore small_addressable fresh_ready fresh_marked run
  exact ⟨w, l, hw, hl, hend⟩

/-- The slot of a second file of three bytes, in cluster 4. -/
def secondSlot : Slot := shortSlot [0x42] 0 4 3 zeroSlot

def secondEntry : EntrySet where
  longs := []
  short := secondSlot
  long := no_longs
  last := ⟨shortSlot_live (by decide) (by decide), by rw [secondSlot, shortSlot_attrs]; decide⟩

def twoSlots : List Slot := letterSlot :: secondSlot :: List.replicate 14 zeroSlot

/-- A small volume with two files in its root directory. -/
def twoFiles : FAT32 Drive where
  geometry := small
  FAT c := if c < 5 then EOC else 0
  clusterAllocationHint := 5
  disk := { blank with sectors := Function.update blank.sectors 33 (sectorAt (slotBytes twoSlots) 0) }
  junk _ := 0

def twoParts (_ : ℕ) : List Segment :=
  .entry letterEntry :: .entry secondEntry :: List.replicate 14 (.free zeroSlot zeroSlot_free)

lemma twoFiles_slots : twoFiles.dirSlots 2 = twoSlots := by
  have hcontent : twoFiles.clusters 2 = small.cut (slotBytes twoSlots) := content_root twoSlots
  rw [FAT32.dirSlots, hcontent]
  exact slots_cut_slotBytes (by decide)

lemma twoFiles_chain {c : ℕ} (hc : small.HasCluster c) (hlt : c < 5) :
    IsChain twoFiles.geometry twoFiles.FAT c [c] :=
  .last hc (by rw [show twoFiles.FAT c = EOC from if_pos hlt]; decide)

lemma twoFiles_root : IsChain twoFiles.geometry twoFiles.FAT 2 [2] := twoFiles_chain (by decide) (by decide)

lemma letterSlot_fields : letterSlot.fields = (0, 3, 3) := shortSlot_fields (by decide) (by decide) _

lemma secondSlot_fields : secondSlot.fields = (0, 4, 3) := shortSlot_fields (by decide) (by decide) _

/-- The two files have a cluster each. -/
lemma twoFiles_entries {s : Slot} (hs : s ∈ [2].flatMap twoFiles.dirSlots) (hshort : s.Short) :
    ∃ c, c ≠ 2 ∧ s.fields.2.1 = c ∧ IsChain twoFiles.geometry twoFiles.FAT c [c] := by
  rw [List.flatMap_singleton, twoFiles_slots] at hs
  rcases List.mem_cons.mp hs with rfl | hs
  · exact ⟨3, by decide, by rw [letterSlot_fields], twoFiles_chain (by decide) (by decide)⟩
  rcases List.mem_cons.mp hs with rfl | hs
  · exact ⟨4, by decide, by rw [secondSlot_fields], twoFiles_chain (by decide) (by decide)⟩
  · exact absurd (List.eq_of_mem_replicate hs ▸ zeroSlot_free) hshort.1

lemma twoFiles_marked : MarkedDir 2 twoFiles := by
  have hlive : Unmarked [letterSlot, secondSlot] := by
    intro s hs hzero
    rcases List.mem_cons.mp hs with rfl | hs
    · exact letterEntry.last.1 (.inl hzero)
    · rw [List.mem_singleton.mp hs] at hzero
      exact secondEntry.last.1 (.inl hzero)
  have hfree : ∀ s ∈ List.replicate 14 zeroSlot, s.Free := fun s hs => List.eq_of_mem_replicate hs ▸ zeroSlot_free
  refine ⟨[2], twoFiles_root, ?_⟩
  rw [List.flatMap_singleton, twoFiles_slots]
  exact hlive.endMarked.append hfree

lemma twoFiles_parts : ∀ c ∈ [2], twoFiles.dirSlots c = (twoParts c).flatMap Segment.slots := by
  intro c hc
  rw [List.mem_singleton.mp hc, twoFiles_slots]
  rfl

lemma twoFiles_tidy : TidyDir twoFiles 2 [2] := by
  refine ⟨twoFiles_root.walk small_addressable, ?_, fun s hs hshort => ?_⟩
  · rw [List.flatMap_singleton, twoFiles_parts 2 (by simp)]
    exact Stream.ofSegments _
  · obtain ⟨c, -, hfirst, hchain⟩ := twoFiles_entries hs hshort
    exact .inr ⟨[c], hfirst ▸ hchain⟩

/-- The first file is deleted: its slot has first byte zero, and the second file stands behind it. -/
theorem first_of_two_deleted : MarkedDir 2 twoFiles ∧ ∃ w,
    GuardedRun (fun v o => FatOp.Orderly v o ∧ o.OnDirectory 2 v) (FatOp.apply 200) twoFiles
      [.deleteFile 2 [0x41]] w ∧ ¬ MarkedDir 2 w := by
  have hnamed : letterEntry.Named twoFiles.junk [0x41] := by
    rw [EntrySet.Named]
    decide +kernel
  have hlisted : ∃ e ∈ setsOf twoParts [2], e.Named twoFiles.junk [0x41] :=
    ⟨letterEntry, by simp [setsOf, twoParts, Segment.entry?], hnamed⟩
  have hwalk : WalkChain twoFiles 2 [2] := twoFiles_root.walk small_addressable
  obtain ⟨p, c, q, A, B, e, hcs, hsegs, -, hother, hdelete⟩ := deleteFrom_listed 200
    (small_clusterStore.get _) hwalk twoFiles_parts (show [2].length ≤ 200 by decide) hlisted
  obtain ⟨rfl, rfl, rfl⟩ : p = [] ∧ c = 2 ∧ q = [] := by
    cases p with
    | nil =>
      obtain ⟨rfl, rfl⟩ := List.cons.inj hcs
      exact ⟨rfl, rfl, rfl⟩
    | cons x p => simp at hcs
  obtain ⟨rfl, rfl, rfl⟩ : A = [] ∧ e = letterEntry ∧
      B = .entry secondEntry :: List.replicate 14 (.free zeroSlot zeroSlot_free) := by
    cases A with
    | nil =>
      obtain ⟨hentry, rfl⟩ := List.cons.inj hsegs
      exact ⟨rfl, (Segment.entry.inj hentry).symm, rfl⟩
    | cons seg A =>
      obtain ⟨rfl, -⟩ := List.cons.inj hsegs
      exact absurd hnamed (hother letterEntry (by simp [Segment.entry?]))
  have hchain : IsChain twoFiles.geometry twoFiles.FAT letterEntry.short.fields.2.1 [3] := by
    rw [show letterEntry.short.fields = (0, 3, 3) from letterSlot_fields]
    exact twoFiles_chain (by decide) (by decide)
  have hlen : (([] : List Segment).flatMap Segment.slots).length + (letterEntry.longs.length + 1) +
      ((Segment.entry secondEntry :: List.replicate 14 (.free zeroSlot zeroSlot_free)).flatMap
        Segment.slots).length = twoFiles.geometry.dirsPerCluster := by decide
  obtain ⟨w, hw, deleted⟩ := deleteSet_ok small_clusterStore small_addressable
    ⟨by decide, by decide⟩ (show twoFiles.geometry.HasCluster 2 by decide) hlen hchain
    (show [3].length < 200 by decide)
  have happly : FatOp.apply 200 twoFiles (.deleteFile 2 [0x41]) = some w :=
    toOption_eq_some.mpr (hdelete.trans hw)
  have hapart : EntriesApart 2 twoFiles := by
    intro l hl s hs hshort m hm c hc hcl
    obtain rfl := hl.unique twoFiles_root
    obtain ⟨x, hx, hfirst, hx'⟩ := twoFiles_entries hs hshort
    rw [hfirst] at hm
    obtain rfl := hm.unique hx'
    rw [List.mem_singleton.mp hc] at hcl
    exact hx (List.mem_singleton.mp hcl)
  refine ⟨twoFiles_marked, w, .cons ⟨⟨[2], twoFiles_tidy⟩, rfl, hapart⟩ happly (.nil w), ?_⟩
  rintro ⟨l, hl, hend⟩
  have hroot : IsChain w.geometry w.FAT 2 [2] := by
    refine deleted.geometry ▸ .last (by decide) ?_
    rw [deleted.table 2, if_neg (by decide)]
    decide
  rw [hl.unique hroot, List.flatMap_singleton, deleted.slots] at hend
  obtain ⟨hfirst, -⟩ := List.pairwise_cons.mp hend
  exact secondEntry.last.1 (hfirst secondSlot (by simp [Segment.slots, secondEntry]) rfl)

end Volumes

end Open98.Fat32
