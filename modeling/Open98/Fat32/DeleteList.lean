import Open98.Fat32.ChainWalks
import Open98.Fat32.Delete
import Open98.Fat32.Labels

/-! Listing and deletion, two walks written down separately: on a directory whose entry sets lie within
clusters they find the same entries, and deleting one takes it out of the list. -/
namespace Open98.Fat32
open Open98.Library Open98.Ata

section Chains
variable {δ : Type} {v : FAT32 δ} {start : ℕ} {l : List ℕ}

/-- A chain of clusters whose numbers lie below the end marks. -/
structure SoundChain (v : FAT32 δ) (start : ℕ) (l : List ℕ) : Prop where
  isChain : IsChain v.geometry v.FAT start l
  below : ∀ c ∈ l, c < EOC

/-- The chain of an entry; the first cluster 0 is "none". -/
def FileChain (v : FAT32 δ) (first : ℕ) (l : List ℕ) : Prop := (first = 0 ∧ l = []) ∨ SoundChain v first l

lemma SoundChain.isLink (h : SoundChain v start l) : ∀ c ∈ l, IsLink c :=
  fun c hc => ⟨h.below c hc, (h.isChain.cells c hc).ne_zero⟩

/-- The readers follow the chain. -/
lemma SoundChain.walk (h : SoundChain v start l) : WalkChain v start l :=
  ⟨(links_walks h.isChain.links h.isLink).2, h.isChain.cells⟩

/-- A chain none of whose cells has changed. -/
lemma SoundChain.congr {w : FAT32 δ} (h : SoundChain v start l) (hg : w.geometry = v.geometry)
    (heq : ∀ c ∈ l, w.FAT c = v.FAT c) : SoundChain w start l :=
  ⟨⟨h.isChain.links.congr heq, fun c hc => hg ▸ h.isChain.cells c hc⟩, h.below⟩

lemma FileChain.length_le (h : FileChain v start l) : l.length ≤ v.geometry.intsPerFat := by
  rcases h with ⟨-, rfl⟩ | h
  · exact Nat.zero_le _
  · exact h.isChain.length_le

/-- The cells of the chain are freed, and no others. -/
lemma FileChain.zeroed (h : FileChain v start l) {fuel : ℕ} (hfuel : l.length < fuel) :
    zeroChain fuel v.FAT start = .ok fun k => if k ∈ l then 0 else v.FAT k := by
  have hfreed : freed v.FAT fuel start = l := by
    rcases h with ⟨rfl, rfl⟩ | h
    · obtain ⟨fuel, rfl⟩ := Nat.exists_eq_add_one.mpr (Nat.zero_lt_of_lt hfuel)
      rw [freed, erased, if_neg not_isLink_zero]
    · have hraw := (links_walks h.isChain.links h.isLink).1
      have hstop : ∀ value, EOC ≤ value → ¬ IsLink value := fun value hle hlink => Nat.not_le.mpr hlink.1 hle
      exact (hraw.erased h.isLink hstop fuel).trans (List.take_of_length_le hfuel.le)
  have hended : (freed v.FAT fuel start).length < fuel := by rwa [hfreed]
  have hzero := zeroChain_freed hended
  rwa [hfreed] at hzero

end Chains

section Listing
variable {δ : Type} [Disk δ]

/-- Whatever memory holds, the directory is listed as these entries. -/
def Shows (v : FAT32 δ) (dir : ℕ) (L : List Label) : Prop :=
  ∀ junk fuel, v.geometry.intsPerFat < fuel → ∃ es,
    fatPopulateDir fuel { v with junk := junk } dir = .ok ⟨dir, es⟩ ∧ List.Forall₂ DirectoryEntry.Shows es L

/-- A directory with the clusters `cs`, which consist of free slots and complete sets. -/
structure WellFormed (v : FAT32 δ) (dir : ℕ) (cs : List ℕ) (parts : ℕ → List Segment) : Prop where
  chain : SoundChain v dir cs
  slots : ∀ c ∈ cs, v.dirSlots c = (parts c).flatMap Segment.slots
  names : ∀ e ∈ setsOf parts cs, e.WellNamed

variable {v w : FAT32 δ} {dir : ℕ} {cs : List ℕ} {parts : ℕ → List Segment}

lemma WellFormed.shows (store : ClusterStore v.geometry δ) (h : WellFormed v dir cs parts) :
    Shows v dir ((setsOf parts cs).map EntrySet.label) := by
  intro junk fuel hfuel
  have hlen := h.chain.isChain.length_le
  have hwalk : WalkChain { v with junk := junk } dir cs := ⟨h.chain.walk.links, h.chain.walk.cells⟩
  have hrun := fatPopulateDir_kept (v := { v with junk := junk }) (store.get v.disk) hwalk h.slots
    (show cs.length ≤ fuel by omega)
  refine ⟨_, hrun, ?_⟩
  rw [List.forall₂_map_left_iff, List.forall₂_map_right_iff, List.forall₂_same]
  exact fun e he => EntrySet.shows (h.names e he) junk

/-- The comparison in `FatDeleteFile` and the listing mean the same sets. -/
lemma WellFormed.named_iff (h : WellFormed v dir cs parts) {filename : List UCHAR} (hname : NoNul filename)
    {e : EntrySet} (he : e ∈ setsOf parts cs) : e.Named v.junk filename ↔ e.label.name = filename :=
  (EntrySet.shows (h.names e he) v.junk).strcmpEq_iff hname

/-- What happens to the listed entry `x` between `v` and `w`: exactly its chain is freed, and of the
clusters only the one that holds its slots has changed. -/
structure Removes (v w : FAT32 δ) (cs : List ℕ) (parts : ℕ → List Segment) (x : Label) : Prop where
  chain : ∃ l, FileChain v x.firstCluster l ∧ ∀ k, w.FAT k = if k ∈ l then 0 else v.FAT k
  cluster : ∃ c ∈ cs, (∃ e, .entry e ∈ parts c ∧ e.label = x) ∧ ∀ k, k ≠ c → w.clusters k = v.clusters k

omit [Disk δ] in
/-- The sets of a directory, with the pieces of one cluster written out. -/
lemma setsOf_split {p q : List ℕ} {c : ℕ} {A B : List Segment} {e : EntrySet} (hsegs : parts c = A ++ .entry e :: B) :
    setsOf parts (p ++ c :: q) = setsOf parts p ++ A.filterMap Segment.entry? ++
      (e :: (B.filterMap Segment.entry? ++ setsOf parts q)) := by
  rw [setsOf, List.flatMap_append, List.flatMap_cons, hsegs]
  simp [setsOf, Segment.entry?]

/-- Without the set `e` the directory is well formed again. -/
lemma WellFormed.removed (h : WellFormed v dir cs parts) {p q : List ℕ} {c : ℕ} {A B : List Segment}
    {e : EntrySet} (hcs : cs = p ++ c :: q) (hsegs : parts c = A ++ .entry e :: B)
    (hg : w.geometry = v.geometry) (htable : ∀ k ∈ cs, w.FAT k = v.FAT k)
    (hslots : w.dirSlots c = A.flatMap Segment.slots ++ List.replicate (e.longs.length + 1) zeroSlot ++
      B.flatMap Segment.slots) (hkept : ∀ k, k ≠ c → w.clusters k = v.clusters k) :
    ∃ parts', WellFormed w dir cs parts' ∧ setsOf parts' cs = setsOf parts p ++ A.filterMap Segment.entry? ++
      (B.filterMap Segment.entry? ++ setsOf parts q) := by
  have hnodup := h.chain.isChain.nodup
  rw [hcs] at hnodup
  have hcp : c ∉ p := fun hc => (List.nodup_append.mp hnodup).2.2 c hc c List.mem_cons_self rfl
  have hcq : c ∉ q := (List.nodup_cons.mp (List.nodup_append.mp hnodup).2.1).1
  have hzeros : ∀ s ∈ List.replicate (e.longs.length + 1) zeroSlot, s.Free :=
    fun s hs => List.eq_of_mem_replicate hs ▸ zeroSlot_free
  have hother : ∀ l : List ℕ, c ∉ l → ∀ segs, setsOf (Function.update parts c segs) l = setsOf parts l := by
    intro l hl segs
    refine List.flatMap_congr fun x hx => ?_
    rw [Function.update_of_ne (ne_of_mem_of_not_mem hx hl)]
  have hsets : setsOf (Function.update parts c
      (A ++ freeSegments (List.replicate (e.longs.length + 1) zeroSlot) ++ B)) cs =
      setsOf parts p ++ A.filterMap Segment.entry? ++ (B.filterMap Segment.entry? ++ setsOf parts q) := by
    have hsplit : ∀ parts, setsOf parts (p ++ c :: q) =
        setsOf parts p ++ ((parts c).filterMap Segment.entry? ++ setsOf parts q) := by
      intro parts
      rw [setsOf, List.flatMap_append]
      rfl
    rw [hcs, hsplit, hother p hcp, hother q hcq, Function.update_self, List.filterMap_append,
      List.filterMap_append, entries_freeSegments]
    simp only [List.append_nil, List.append_assoc]
  refine ⟨_, ⟨h.chain.congr hg htable, fun k hk => ?_, fun x hx => h.names x ?_⟩, hsets⟩
  · by_cases hkc : k = c
    · subst hkc
      rw [hslots, Function.update_self, List.flatMap_append, List.flatMap_append, flatMap_freeSegments hzeros]
    · rw [Function.update_of_ne hkc, ← h.slots k hk, FAT32.dirSlots, hg, hkept k hkc, FAT32.dirSlots]
  · rw [hsets] at hx
    rw [hcs, setsOf_split hsegs]
    cases List.mem_append.mp hx with
    | inl hx => exact List.mem_append_left _ hx
    | inr hx => exact List.mem_append_right _ (List.mem_cons_of_mem e hx)

omit [Disk δ] in
/-- The first entry of a name, and what is left without it. -/
lemma first_of_name {L₁ : List Label} {x : Label} {filename : List UCHAR}
    (hbefore : ∀ y ∈ L₁, y.name ≠ filename) (hx : x.name = filename) (L₂ : List Label) :
    (L₁ ++ x :: L₂).find? (fun y => y.name = filename) = some x ∧
      (L₁ ++ x :: L₂).eraseP (fun y => y.name = filename) = L₁ ++ L₂ := by
  constructor
  · rw [List.find?_append, List.find?_eq_none.mpr (by simpa using hbefore), Option.none_or]
    exact List.find?_cons_of_pos (by simpa using hx)
  · rw [List.eraseP_append_right _ (by simpa using hbefore), List.eraseP_cons_of_pos (by simpa using hx)]

/-- For every directory of free slots and complete sets, each within a cluster, and every name: when no
entry of that name is listed, the deletion changes nothing. Otherwise it takes the first one out of the
list, frees exactly its chain, and changes no cluster but the one with its slots. -/
theorem list_delete_agree (store : ClusterStore v.geometry δ) (h : WellFormed v dir cs parts)
    (hchains : ∀ e ∈ setsOf parts cs, ∃ l, FileChain v e.label.firstCluster l ∧ ∀ c ∈ l, c ∉ cs)
    {filename : List UCHAR} (hname : NoNul filename) {fuel : ℕ} (hfuel : v.geometry.intsPerFat < fuel) :
    Shows v dir ((setsOf parts cs).map EntrySet.label) ∧
      ((∀ x ∈ (setsOf parts cs).map EntrySet.label, x.name ≠ filename) → fatDeleteFile fuel v dir filename = .ok v) ∧
      ∀ x, ((setsOf parts cs).map EntrySet.label).find? (fun y => y.name = filename) = some x →
        ∃ w, fatDeleteFile fuel v dir filename = .ok w ∧ Removes v w cs parts x ∧
          Shows w dir (((setsOf parts cs).map EntrySet.label).eraseP fun y => y.name = filename) := by
  have hlen : cs.length ≤ fuel := h.chain.isChain.length_le.trans hfuel.le
  refine ⟨h.shows store, fun hnone => ?_, fun x hx => ?_⟩
  · refine deleteFrom_absent fuel (store.get v.disk) h.chain.walk h.slots hlen fun e he hnamed => ?_
    exact hnone _ (List.mem_map_of_mem he) ((h.named_iff hname he).mp hnamed)
  · obtain ⟨e₀, he₀, rfl⟩ := List.mem_map.mp (List.mem_of_find?_eq_some hx)
    have hnamed₀ := (h.named_iff hname he₀).mpr (by simpa using List.find?_some hx)
    obtain ⟨p, c, q, A, B, e, rfl, hsegs, hnamed, hother, hdelete⟩ :=
      deleteFrom_listed fuel (store.get v.disk) h.chain.walk h.slots hlen ⟨e₀, he₀, hnamed₀⟩
    have hsplit := setsOf_split (p := p) (q := q) hsegs
    have he : e ∈ setsOf parts (p ++ c :: q) := by simp [hsplit]
    have hname_e : e.label.name = filename := (h.named_iff hname he).mp hnamed
    have hbefore : ∀ y ∈ (setsOf parts p ++ A.filterMap Segment.entry?).map EntrySet.label, y.name ≠ filename := by
      intro y hy
      obtain ⟨e', he', rfl⟩ := List.mem_map.mp hy
      have hmem : e' ∈ setsOf parts (p ++ c :: q) := by
        rw [hsplit]
        exact List.mem_append_left _ he'
      exact fun heq => hother e' he' ((h.named_iff hname hmem).mpr heq)
    have hlabels : (setsOf parts (p ++ c :: q)).map EntrySet.label =
        (setsOf parts p ++ A.filterMap Segment.entry?).map EntrySet.label ++
          e.label :: (B.filterMap Segment.entry? ++ setsOf parts q).map EntrySet.label := by
      rw [hsplit, List.map_append, List.map_cons]
    obtain ⟨hfirst, herase⟩ := first_of_name hbefore hname_e
      ((B.filterMap Segment.entry? ++ setsOf parts q).map EntrySet.label)
    rw [hlabels] at hx ⊢
    rw [herase, ← List.map_append]
    have hlabel : e.label = e₀.label := Option.some.inj (hfirst.symm.trans hx)
    rw [← hlabel]
    obtain ⟨l, hl, hdisjoint⟩ := hchains e he
    have hlength : (A.flatMap Segment.slots).length + (e.longs.length + 1) +
        (B.flatMap Segment.slots).length = v.geometry.dirsPerCluster := by
      have hslots : (v.dirSlots c).length = v.geometry.dirsPerCluster := length_slots _
      rw [h.slots c (by simp), hsegs] at hslots
      rw [← hslots]
      simp [Segment.slots]
      omega
    obtain ⟨d, hrun, hslots, hkept⟩ := deleteSet_run store (h.chain.isChain.cells c (by simp)) hlength
      (hl.zeroed (hl.length_le.trans_lt hfuel))
    refine ⟨_, hdelete.trans hrun, ⟨⟨l, hl, fun k => rfl⟩, c, by simp, ⟨e, by simp [hsegs], rfl⟩, hkept⟩, ?_⟩
    have htable : ∀ k ∈ p ++ c :: q, (if k ∈ l then 0 else v.FAT k) = v.FAT k :=
      fun k hk => if_neg fun hkl => hdisjoint k hkl hk
    obtain ⟨parts', hwell, hsets⟩ := h.removed (w := { v with
      FAT := fun k => if k ∈ l then 0 else v.FAT k, disk := d }) rfl hsegs rfl htable hslots hkept
    rw [← hsets]
    exact hwell.shows store

end Listing

section OneEntry

/-- The slot of a file of three bytes in cluster 3. -/
def letterSlot : Slot := shortSlot [0x41] 0 3 3 zeroSlot

def letterEntry : EntrySet where
  longs := []
  short := letterSlot
  long := no_longs
  last := ⟨shortSlot_live (by decide) (by decide), by rw [letterSlot, shortSlot_attrs]; decide⟩

def letterSlots : List Slot := letterSlot :: List.replicate 15 zeroSlot

/-- A small volume with this file in its root directory. -/
def oneShort : FAT32 Drive where
  geometry := small
  FAT c := if c < 4 then EOC else 0
  clusterAllocationHint := 4
  disk := { blank with sectors := Function.update blank.sectors 33 (sectorAt (slotBytes letterSlots) 0) }
  junk _ := 0

def letterParts (_ : ℕ) : List Segment := .entry letterEntry :: List.replicate 15 (.free zeroSlot zeroSlot_free)

/-- What a root directory of one sector holds. -/
lemma content_root (l : List Slot) : content small
    { blank with sectors := Function.update blank.sectors 33 (sectorAt (slotBytes l) 0) } 2 =
      small.cut (slotBytes l) := by
  have hsector : fatAcquireSectorForCluster small 2 = 33 := by decide
  rw [content_one small_reachable rfl (by decide), hsector]
  funext k
  by_cases hk : k < 512
  · simp [storeSector, sectorAt, Geometry.cut, Geometry.clusterSize, small, hk]
  · simp [storeSector, Geometry.cut, Geometry.clusterSize, small, hk]

lemma oneShort_slots : oneShort.dirSlots 2 = letterSlots := by
  have hcontent : oneShort.clusters 2 = small.cut (slotBytes letterSlots) := content_root letterSlots
  rw [FAT32.dirSlots, hcontent]
  exact slots_cut_slotBytes (by decide)

lemma oneShort_chain {c : ℕ} (hc : small.HasCluster c) (hlt : c < 4) : SoundChain oneShort c [c] := by
  have hcell : oneShort.FAT c = EOC := if_pos hlt
  have hbelow : c < EOC := hlt.trans (by decide)
  exact ⟨.last hc (by rw [hcell]; decide), by simpa using hbelow⟩

lemma oneShort_wellFormed : WellFormed oneShort 2 [2] letterParts where
  chain := oneShort_chain (by decide) (by decide)
  slots c hc := by
    obtain rfl := List.mem_singleton.mp hc
    rw [oneShort_slots]
    rfl
  names e he := by
    obtain rfl : e = letterEntry := List.mem_singleton.mp he
    exact fun h => absurd rfl h

/-- The file is deleted: its cluster is free, and nothing is listed any more. -/
theorem list_delete_agree_letter : ∃ w, fatDeleteFile 200 oneShort 2 [0x41] = .ok w ∧ w.FAT 3 = 0 ∧
    w.FAT 2 = EOC ∧ Shows w 2 [] := by
  have hthree : letterEntry.label.firstCluster = 3 := by decide +kernel
  have hlisted : letterEntry.label.name = [0x41] := by decide +kernel
  have hsound : SoundChain oneShort letterEntry.label.firstCluster [3] := by
    rw [hthree]
    exact oneShort_chain (by decide) (by decide)
  have hchains : ∀ e ∈ setsOf letterParts [2], ∃ l, FileChain oneShort e.label.firstCluster l ∧ ∀ c ∈ l, c ∉ [2] := by
    intro e he
    obtain rfl : e = letterEntry := List.mem_singleton.mp he
    exact ⟨[3], .inr hsound, by decide⟩
  have hname : NoNul [0x41] := by simp [NoNul]
  have hsets : (setsOf letterParts [2]).map EntrySet.label = [letterEntry.label] := rfl
  obtain ⟨-, -, hdelete⟩ := list_delete_agree small_clusterStore oneShort_wellFormed hchains hname
    (show oneShort.geometry.intsPerFat < 200 by decide)
  rw [hsets] at hdelete
  obtain ⟨w, hw, removes, hshows⟩ := hdelete letterEntry.label (List.find?_cons_of_pos (by simpa using hlisted))
  rw [List.eraseP_cons_of_pos (by simpa using hlisted)] at hshows
  obtain ⟨l, hl, htable⟩ := removes.chain
  obtain rfl : l = [3] := by
    rcases hl with ⟨hzero, -⟩ | hl
    · rw [hthree] at hzero
      cases hzero
    · exact hl.isChain.unique hsound.isChain
  exact ⟨w, hw, (htable 3).trans (if_pos (by decide)), (htable 2).trans (if_neg (by decide)), hshows⟩

end OneEntry
end Open98.Fat32
