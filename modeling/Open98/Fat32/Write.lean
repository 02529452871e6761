import Open98.Fat32.FileData
import Open98.Fat32.Locate
import Open98.Fat32.Names

/-! Creating entries: `FatWriteFileImplementation` with its two callers, `FatWriteFile` and
`FatMakeDirectory`. -/
namespace Open98.Fat32
open Open98.Library

section Model
variable {δ : Type} [Disk δ]

/-- A failed `FatLocateEntries` is not noticed: the slots are written through the null pointer. -/
def fatWriteFileImplementation (fuel : ℕ) (v : FAT32 δ) (dir : ℕ) (file : Buffer)
    (fname : List UCHAR) (flen : ℕ) (attrs : UCHAR) (setcluster : ℕ) : Result (FAT32 δ) := do
  let n := longEntries fname
  let (startEntries, v) ← fatLocateEntries (n+1) fuel v dir
  match startEntries with
  | none => .error .nullPointer
  | some (cluster, rootCluster, index) => do
    let longs ← fatWriteLongFileNameEntries ((rootCluster.drop index).take n) fname
    let actualEntry := fatWrite83FileName fname (rootCluster.getD (index+n) zeroSlot)
    let (firstcluster, v) ←
      if setcluster ≠ 0 then .ok (setcluster, v)
      else writeClusters file flen (requiredClusters v.geometry flen) v 0 0 0
    let actualEntry := fillEntry actualEntry attrs firstcluster flen
    let rootCluster := rootCluster.take index ++ longs ++ actualEntry :: rootCluster.drop (index+n+1)
    let d ← fatPutCluster v.geometry v.disk (slotBytes rootCluster) cluster
    let d ← fatFlushFAT v.geometry d v.FAT
    return { v with disk := d }

def fatWriteFile (fuel : ℕ) (v : FAT32 δ) (dir : ℕ) (file : Buffer) (fname : List UCHAR)
    (flen : ℕ) : Result (FAT32 δ) :=
  fatWriteFileImplementation fuel v dir file fname flen 0 0

/-- The loop over the entries of the directory that holds the new one. -/
def populateNamed (fuel : ℕ) (v : FAT32 δ) (dirname : List UCHAR) : List DirectoryEntry → Result Unit
  | [] => .ok ()
  | e :: rest =>
    if strcmpEq e.name dirname then do
      let _ ← fatPopulateDir fuel v e.firstCluster
      populateNamed fuel v dirname rest
    else populateNamed fuel v dirname rest

/-- There is no data to read, so `file` is the null pointer. -/
def fatMakeDirectory (fuel : ℕ) (v : FAT32 δ) (dir : ℕ) (dirname : List UCHAR) : Result (FAT32 δ) := do
  let v ← fatWriteFileImplementation fuel v dir (fun _ => 0) dirname 0 DIRECTORY 0
  let subdir ← fatPopulateDir fuel v dir
  populateNamed fuel v dirname subdir.entries
  return v

end Model

section Inversion
variable {δ : Type} [Disk δ] {v w : FAT32 δ} {fuel dir flen : ℕ} {file : Buffer} {fname : List UCHAR} {attrs : UCHAR}

/-- The steps of a call that has returned: a place for the slots, the data, the slots and the table. -/
lemma fatWriteFileImplementation_steps (h : fatWriteFileImplementation fuel v dir file fname flen attrs 0 = .ok w) :
    ∃ u c found index longs slots first x d₁ d₂,
      fatLocateEntries (longEntries fname + 1) fuel v dir = .ok (some (c, found, index), u) ∧
      fatWriteLongFileNameEntries ((found.drop index).take (longEntries fname)) fname = .ok longs ∧
      writeClusters file flen (requiredClusters u.geometry flen) u 0 0 0 = .ok (first, x) ∧
      fatPutCluster x.geometry x.disk (slotBytes slots) c = .ok d₁ ∧
      fatFlushFAT x.geometry d₁ x.FAT = .ok d₂ ∧ w = { x with disk := d₂ } := by
  obtain ⟨⟨startEntries, u⟩, hlocate, hrest⟩ := bind_eq_ok.mp h
  cases startEntries with
  | none => cases hrest
  | some place =>
    obtain ⟨c, found, index⟩ := place
    obtain ⟨longs, hlongs, hrest⟩ := bind_eq_ok.mp hrest
    obtain ⟨⟨first, x⟩, hdata, hrest⟩ := bind_eq_ok.mp hrest
    obtain ⟨d₁, hput, hrest⟩ := bind_eq_ok.mp hrest
    obtain ⟨d₂, hflush, hrest⟩ := bind_eq_ok.mp hrest
    obtain rfl := Except.ok.inj hrest
    exact ⟨u, c, found, index, longs, _, first, x, d₁, d₂, hlocate, hlongs, hdata, hput, hflush, rfl⟩

/-- A directory is made by the write, and read again. -/
lemma fatMakeDirectory_writes (h : fatMakeDirectory fuel v dir fname = .ok w) :
    fatWriteFileImplementation fuel v dir (fun _ => 0) fname 0 DIRECTORY 0 = .ok w := by
  obtain ⟨u, hwrite, hrest⟩ := bind_eq_ok.mp h
  obtain ⟨subdir, -, hrest⟩ := bind_eq_ok.mp hrest
  obtain ⟨-, -, hrest⟩ := bind_eq_ok.mp hrest
  obtain rfl := Except.ok.inj hrest
  exact hwrite

end Inversion

section Entries

/-- The entry set is read as an entry with these data. -/
structure Describes (e : EntrySet) (fname : List UCHAR) (attrs : UCHAR) (first flen : ℕ) : Prop where
  name : ∀ junk, HoldsString (e.dirent junk).name fname
  fields : e.short.fields = (attrs, first, flen)

variable {fname : List UCHAR} {attrs : UCHAR} {first flen : ℕ}

lemma shortSlot_fields (hfirst : first < 2^32) (hflen : flen < 2^32) (old : Slot) :
    Slot.fields (shortSlot fname attrs first flen old) = (attrs, first, flen) := by
  rw [Slot.fields, shortSlot_attrs, shortSlot_firstCluster hfirst, shortSlot_fileSize hflen]

/-- The slots that are written for a new entry are an entry set. -/
lemma exists_entrySet (hname : ValidName fname) (hattrs : attrs ≠ LFN) (hfirst : first < 2^32)
    (hflen : flen < 2^32) {longs : List Slot} (hlen : longs.length = longEntries fname)
    (hlongs : ∀ t (ht : t < longs.length), LongSlotOf fname longs[t] (longs.length - 1 - t))
    (old : Slot) : ∃ e : EntrySet, e.longs = longs ∧ e.short = shortSlot fname attrs first flen old ∧
      Describes e fname attrs first flen := by
  obtain ⟨hpos, hle, hshort⟩ := hname.longEntries_bounds
  refine ⟨⟨longs, shortSlot fname attrs first flen old, fun s hs => ?_, ?_⟩, rfl, rfl,
    fun junk => ?_, shortSlot_fields hfirst hflen old⟩
  · obtain ⟨t, ht, rfl⟩ := List.mem_iff_getElem.mp hs
    exact ⟨(hlongs t ht).live, (hlongs t ht).attr⟩
  · exact ⟨shortSlot_live hname.printable hname.pos, by rwa [shortSlot_attrs]⟩
  · have hname := fatParseLongName_holds junk hlongs (by omega) (by omega) []
    rw [List.append_nil] at hname
    simp only [EntrySet.dirent]
    rwa [if_pos (by omega)]

/-- Slots that `FatWriteLongFileNameEntries` leaves for the name. -/
def LongSlotsOf (fname : List UCHAR) (longs : List Slot) : Prop :=
  ∃ start : List Slot, start.length = longEntries fname ∧ fatWriteLongFileNameEntries start fname = .ok longs

lemma LongSlotsOf.length_eq {longs : List Slot} (h : LongSlotsOf fname longs) :
    longs.length = longEntries fname := by
  obtain ⟨start, hlen, hwrite⟩ := h
  rw [← hlen]
  cases start with
  | nil => cases hwrite
  | cons s start =>
    rw [fatWriteLongFileNameEntries, List.mapIdx_cons] at hwrite
    rw [← Except.ok.inj hwrite]
    simp

/-- The long-name slots are written into the first slots of the run that was found. -/
lemma writeLongNames_ok (hpos : 0 < longEntries fname) (pre post : List Slot) {run : List Slot}
    (hrun : run.length = longEntries fname + 1) :
    ∃ longs, fatWriteLongFileNameEntries
        (((pre ++ run ++ post).drop pre.length).take (longEntries fname)) fname = .ok longs ∧
      LongSlotsOf fname longs := by
  have hlen : (((pre ++ run ++ post).drop pre.length).take (longEntries fname)).length =
      longEntries fname := by
    rw [List.append_assoc, List.drop_left, List.length_take, List.length_append]
    omega
  generalize ((pre ++ run ++ post).drop pre.length).take (longEntries fname) = start at hlen ⊢
  cases start with
  | nil => exact absurd hlen hpos.ne
  | cons s start =>
    have hwrite : ∃ longs, fatWriteLongFileNameEntries (s :: start) fname = .ok longs := by
      rw [fatWriteLongFileNameEntries, List.mapIdx_cons]
      exact ⟨_, rfl⟩
    obtain ⟨longs, hlongs⟩ := hwrite
    exact ⟨longs, hlongs, s :: start, hlen, hlongs⟩

/-- Such slots carry the pieces of the name. -/
lemma LongSlotsOf.codec {longs : List Slot} (h : LongSlotsOf fname longs) (hname : ValidName fname)
    (t : ℕ) (ht : t < longs.length) : LongSlotOf fname longs[t] (longs.length - 1 - t) := by
  obtain ⟨start, hlen, hwrite⟩ := h
  obtain ⟨hpos, hle, -⟩ := hname.longEntries_bounds
  obtain ⟨longs', hwrite', -, hcodec⟩ := fatWriteLongFileNameEntries_ok hname.printable start
    (by omega) (by omega)
  obtain rfl := Except.ok.inj (hwrite.symm.trans hwrite')
  exact hcodec t ht

end Entries

section Writing
variable {δ : Type} [Disk δ] {v : FAT32 δ}

/-- The last state of a call that has found room and had enough free clusters: the file's clusters
have been written, and then the slots for the name in their place. -/
structure WroteSlots (v w : FAT32 δ) (file : Buffer) (fname : List UCHAR) (flen : ℕ) (attrs : UCHAR)
    (c : ℕ) (pre post longs : List Slot) (short : Slot) (first : ℕ) (cs : List ℕ) : Prop where
  longSlots : LongSlotsOf fname longs
  short_eq : ∃ old, short = shortSlot fname attrs first flen old
  geometry : w.geometry = v.geometry
  junk : w.junk = v.junk
  ready : AllocReady w
  chain : IsChain v.geometry w.FAT first cs
  fresh : ∀ c ∈ cs, v.FAT c = 0
  length : cs.length = requiredClusters v.geometry flen
  table : ∀ c, c ∉ cs → w.FAT c = v.FAT c
  slots : w.dirSlots c = pre ++ longs ++ short :: post
  kept : ∀ c', c' ∉ cs → c' ≠ c → w.clusters c' = v.clusters c'
  data : ∀ k < cs.length * v.geometry.clusterSize,
    chainBytes v.geometry w.clusters cs k = if k < flen then file k else 0

/-- The first cluster of the data fits into the fields of a slot. -/
lemma WroteSlots.first_lt {v w : FAT32 δ} {file : Buffer} {fname : List UCHAR} {flen c first : ℕ} {attrs : UCHAR}
    {pre post longs cs} {short : Slot} (wrote : WroteSlots v w file fname flen attrs c pre post longs short first cs)
    (hg : v.geometry.Addressable) : first < 2^32 := by
  have hlt := hg.lt_EOC (wrote.chain.cells first wrote.chain.links.head_mem)
  unfold EOC at hlt
  omega

/-- The same for a name that reads back: the slots are those of an entry set. -/
structure WroteEntry (v w : FAT32 δ) (file : Buffer) (fname : List UCHAR) (flen : ℕ) (attrs : UCHAR)
    (c : ℕ) (pre post : List Slot) (e : EntrySet) (first : ℕ) (cs : List ℕ) : Prop where
  describes : Describes e fname attrs first flen
  geometry : w.geometry = v.geometry
  junk : w.junk = v.junk
  ready : AllocReady w
  chain : IsChain v.geometry w.FAT first cs
  fresh : ∀ c ∈ cs, v.FAT c = 0
  length : cs.length = requiredClusters v.geometry flen
  table : ∀ c, c ∉ cs → w.FAT c = v.FAT c
  slots : w.dirSlots c = pre ++ e.longs ++ e.short :: post
  kept : ∀ c', c' ∉ cs → c' ≠ c → w.clusters c' = v.clusters c'
  data : ∀ k < cs.length * v.geometry.clusterSize,
    chainBytes v.geometry w.clusters cs k = if k < flen then file k else 0

/-- The clusters needed for a file hold it. -/
lemma le_requiredClusters (g : Geometry) (flen : ℕ) :
    flen ≤ requiredClusters g flen * g.clusterSize ∧ 0 < requiredClusters g flen := by
  have hdiv := Nat.div_add_mod flen g.clusterSize
  have hmod := Nat.mod_lt flen g.clusterSize_pos
  rw [Nat.mul_comm] at hdiv
  have hcount : flen / g.clusterSize + (if flen % g.clusterSize ≠ 0 then 1 else 0) ≤
      requiredClusters g flen ∧ 0 < requiredClusters g flen := by
    unfold requiredClusters
    generalize flen / g.clusterSize + (if flen % g.clusterSize ≠ 0 then 1 else 0) = n
    dsimp only
    by_cases hn : n = 0
    · rw [if_pos hn]
      omega
    · rw [if_neg hn]
      omega
  refine ⟨?_, hcount.2⟩
  refine le_trans ?_ (Nat.mul_le_mul_right _ hcount.1)
  rw [Nat.add_mul]
  by_cases hrest : flen % g.clusterSize = 0
  · rw [if_neg (not_not.mpr hrest)]
    omega
  · rw [if_pos hrest, Nat.one_mul]
    omega

/-- From the place that was found on, the call succeeds while there are enough free clusters, and writes
over the slots of the place. -/
theorem fatWriteFileImplementation_over {u : FAT32 δ} (store : ClusterStore v.geometry δ)
    (hg : v.geometry.Addressable) (ready : AllocReady v) {fuel dir c : ℕ} {pre run post : List Slot}
    {fname : List UCHAR} (hlocate : fatLocateEntries (longEntries fname + 1) fuel u dir =
      .ok (some (c, pre ++ run ++ post, pre.length), v))
    (hrun : run.length = longEntries fname + 1)
    (hslots : (pre ++ run ++ post).length = v.geometry.dirsPerCluster) (hc : v.geometry.HasCluster c)
    (hused : v.FAT c ≠ 0) (hpos : 0 < longEntries fname) (attrs : UCHAR) {flen : ℕ}
    (hfree : requiredClusters v.geometry flen ≤ fatGetFreeClusters v) (file : Buffer) :
    ∃ w v' longs first cs, fatWriteFileImplementation fuel u dir file fname flen attrs 0 = .ok w ∧
      writeClusters file flen (requiredClusters v.geometry flen) v 0 0 0 = .ok (first, v') ∧
      fatWriteLongFileNameEntries (run.take (longEntries fname)) fname = .ok longs ∧
      WroteSlots v w file fname flen attrs c pre post longs
        (shortSlot fname attrs first flen (run.getD (longEntries fname) zeroSlot)) first cs := by
  obtain ⟨longs, hlongs, hlongsOf⟩ := writeLongNames_ok hpos pre post hrun
  have hlongsLen := hlongsOf.length_eq
  obtain ⟨w, first, cs, hwrite, hcount, hchain, wrote⟩ := writeClusters_ok store hg ready file flen
    (le_requiredClusters v.geometry flen).2 hfree
  have htake : ((pre ++ run ++ post).drop pre.length).take (longEntries fname) =
      run.take (longEntries fname) := by
    rw [List.append_assoc, List.drop_left, List.take_append_of_le_length (by omega)]
  have hold : (pre ++ run ++ post).getD (pre.length + longEntries fname) zeroSlot =
      run.getD (longEntries fname) zeroSlot := by
    rw [List.append_assoc, List.getD_append_right _ _ _ _ (by omega), Nat.add_sub_cancel_left,
      List.getD_append _ _ _ _ (by omega)]
  obtain ⟨short, hshort⟩ : ∃ short, short = shortSlot fname attrs first flen
    (run.getD (longEntries fname) zeroSlot) := ⟨_, rfl⟩
  have hroot : (pre ++ run ++ post).take pre.length ++ longs ++ short ::
      (pre ++ run ++ post).drop (pre.length + longEntries fname + 1) =
        pre ++ longs ++ short :: post := by
    have hdrop : (pre ++ run ++ post).drop (pre.length + longEntries fname + 1) = post :=
      List.drop_left' (by simp [hrun, Nat.add_assoc])
    rw [hdrop, List.append_assoc pre run, List.take_left]
  have hnew : (pre ++ longs ++ short :: post).length = v.geometry.dirsPerCluster := by
    rw [← hslots]
    simp [hlongsLen, hrun]
    omega
  obtain ⟨d₁, hput, hcontent₁⟩ := (wrote.geometry ▸ store).put w.disk
    (slotBytes (pre ++ longs ++ short :: post)) c (wrote.geometry ▸ hc)
  obtain ⟨d₂, hflush, hcontent₂⟩ := (wrote.geometry ▸ store).flush d₁ w.FAT
  have hclusters : content w.geometry d₂ = Function.update w.clusters c
      (w.geometry.cut (slotBytes (pre ++ longs ++ short :: post))) := hcontent₂.trans hcontent₁
  have hccs : c ∉ cs := fun hmem => hused (wrote.fresh c hmem)
  refine ⟨{ w with disk := d₂ }, w, longs, first, cs, ?_, hwrite, htake ▸ hlongs, hlongsOf, ⟨_, rfl⟩,
    wrote.geometry, wrote.junk, ⟨wrote.ready.reserved, wrote.ready.hint⟩, hchain, wrote.fresh, hcount,
    fun c hc => wrote.table c hc (.inl rfl), ?_, fun c' hc' hne => ?_, fun k hk => ?_⟩
  · rw [fatWriteFileImplementation]
    simp only [hlocate, ok_bind, hlongs, ne_eq, not_true_eq_false, if_false, hwrite]
    rw [hold]
    rw [shortSlot] at hshort
    rw [← hshort, hroot, hput, ok_bind, hflush]
    rfl
  · rw [← hshort, FAT32.dirSlots, FAT32.clusters, hclusters, Function.update_self]
    exact slots_cut_slotBytes (by rw [hnew, wrote.geometry])
  · rw [FAT32.clusters, hclusters, Function.update_of_ne hne]
    exact wrote.kept c' hc'
  · have hsame : ∀ x ∈ cs, content w.geometry d₂ x = w.clusters x := by
      intro x hx
      rw [hclusters, Function.update_of_ne (ne_of_mem_of_not_mem hx hccs)]
    refine (chainBytes_congr hsame hk).trans ?_
    rw [wrote.data k hk, Nat.zero_add]

/-- The same without what the place held. -/
theorem fatWriteFileImplementation_slots {u : FAT32 δ} (store : ClusterStore v.geometry δ)
    (hg : v.geometry.Addressable) (ready : AllocReady v) {fuel dir c : ℕ} {pre run post : List Slot}
    {fname : List UCHAR} (hlocate : fatLocateEntries (longEntries fname + 1) fuel u dir =
      .ok (some (c, pre ++ run ++ post, pre.length), v))
    (hrun : run.length = longEntries fname + 1)
    (hslots : (pre ++ run ++ post).length = v.geometry.dirsPerCluster) (hc : v.geometry.HasCluster c)
    (hused : v.FAT c ≠ 0) (hpos : 0 < longEntries fname) (attrs : UCHAR) {flen : ℕ}
    (hfree : requiredClusters v.geometry flen ≤ fatGetFreeClusters v) (file : Buffer) :
    ∃ w longs short first cs, fatWriteFileImplementation fuel u dir file fname flen attrs 0 = .ok w ∧
      WroteSlots v w file fname flen attrs c pre post longs short first cs := by
  obtain ⟨w, -, longs, first, cs, hwrite, -, -, wrote⟩ := fatWriteFileImplementation_over store hg ready
    hlocate hrun hslots hc hused hpos attrs hfree file
  exact ⟨w, longs, _, first, cs, hwrite, wrote⟩

/-- For a name that reads back, the slots are an entry set. -/
theorem fatWriteFileImplementation_ok {u : FAT32 δ} (store : ClusterStore v.geometry δ)
    (hg : v.geometry.Addressable) (ready : AllocReady v) {fuel dir c : ℕ} {pre run post : List Slot}
    {fname : List UCHAR} (hlocate : fatLocateEntries (longEntries fname + 1) fuel u dir =
      .ok (some (c, pre ++ run ++ post, pre.length), v))
    (hrun : run.length = longEntries fname + 1)
    (hslots : (pre ++ run ++ post).length = v.geometry.dirsPerCluster) (hc : v.geometry.HasCluster c)
    (hused : v.FAT c ≠ 0) (hname : ValidName fname) {attrs : UCHAR} (hattrs : attrs ≠ LFN) {flen : ℕ}
    (hflen : flen < 2^32) (hfree : requiredClusters v.geometry flen ≤ fatGetFreeClusters v)
    (file : Buffer) :
    ∃ w e first cs, fatWriteFileImplementation fuel u dir file fname flen attrs 0 = .ok w ∧
      WroteEntry v w file fname flen attrs c pre post e first cs := by
  obtain ⟨w, longs, short, first, cs, hwrite, wrote⟩ := fatWriteFileImplementation_slots store hg ready
    hlocate hrun hslots hc hused hname.longEntries_bounds.1 attrs hfree file
  obtain ⟨old, rfl⟩ := wrote.short_eq
  obtain ⟨e, rfl, heshort, hdescribes⟩ := exists_entrySet hname hattrs (wrote.first_lt hg) hflen
    wrote.longSlots.length_eq (wrote.longSlots.codec hname) old
  exact ⟨w, e, first, cs, hwrite, hdescribes, wrote.geometry, wrote.junk, wrote.ready, wrote.chain,
    wrote.fresh, wrote.length, wrote.table, heshort ▸ wrote.slots, wrote.kept, wrote.data⟩

end Writing

end Open98.Fat32
