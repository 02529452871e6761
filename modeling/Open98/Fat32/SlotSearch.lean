import Open98.Fat32.Insertion
import Open98.Fat32.Runs

/-! When the search for slots in a row succeeds. It looks for the whole run within one cluster: a run that
is longer than a cluster is never found, and clusters are added until none is free. -/
namespace Open98.Fat32
open Open98.Library Open98.Ata

section Search
variable {δ : Type} [Disk δ]

/-- The volume `w` after the search: as before, or the directory has a further cluster at its end, which
was free. Only the two cells that this takes have changed. -/
inductive AddsAtMostOne (v w : FAT32 δ) (l : List ℕ) : List ℕ → Prop
  | none (h : w = v) : AddsAtMostOne v w l l
  | one {x last} (hx : v.geometry.HasCluster x) (hfree : v.FAT x = 0) (hlast : l.getLast? = some last)
      (hgeometry : w.geometry = v.geometry)
      (htable : w.FAT = Function.update (Function.update v.FAT x 0x0FFFFFFF) last x) :
      AddsAtMostOne v w l (l ++ [x])

/-- Slots `index` to `index + count - 1` of the buffer are free; the buffer is what the cluster `c` of the
directory with the chain `l` holds. -/
structure FreeRun (w : FAT32 δ) (dir : ℕ) (l : List ℕ) (c : ℕ) (found : List Slot) (index count : ℕ) : Prop where
  chain : IsChain w.geometry w.FAT dir l
  member : c ∈ l
  buffer : fatGetSlots w c = .ok found
  inside : index + count ≤ w.geometry.dirsPerCluster
  free : ∀ i s, index ≤ i → i < index + count → found[i]? = some s → s.Free

/-- The search in the directory with the chain `l` ends with a free run, and it has added a cluster at
most. -/
def FindsRun (v : FAT32 δ) (dir : ℕ) (l : List ℕ) (count : ℕ) : Prop :=
  ∃ fuel w l' c found index, fatLocateEntries count fuel v dir = .ok (some (c, found, index), w) ∧
    FreeRun w dir l' c found index count ∧ AddsAtMostOne v w l l'

variable {v w : FAT32 δ} {dir count : ℕ} {l : List ℕ}

omit [Disk δ] in
lemma AddsAtMostOne.geometry_eq {l' : List ℕ} (h : AddsAtMostOne v w l l') : w.geometry = v.geometry := by
  cases h with
  | none h => rw [h]
  | one _ _ _ hgeometry _ => exact hgeometry

/-- The slots of a run in the middle of a list. -/
lemma free_of_run {pre run post : List Slot} (hrun : ∀ s ∈ run, s.Free) {i : ℕ} {s : Slot}
    (hi : pre.length ≤ i) (hlt : i < pre.length + run.length) (hs : (pre ++ run ++ post)[i]? = some s) :
    s.Free := by
  rw [List.append_assoc, List.getElem?_append_right hi, List.getElem?_append_left (by omega)] at hs
  exact hrun s (List.mem_of_getElem? hs)

/-- With a free cluster at hand, and slots enough in a cluster, the search succeeds. -/
lemma findsRun (store : ClusterStore v.geometry δ) (hg : v.geometry.Addressable) (ready : AllocReady v)
    (hl : IsChain v.geometry v.FAT dir l) (hfree : 0 < fatGetFreeClusters v) (hpos : 0 < count)
    (hle : count ≤ v.geometry.dirsPerCluster) : FindsRun v dir l count := by
  obtain ⟨w, l', c, found, index, hsearch, located⟩ := fatLocateEntries_located store hg ready hl hpos hle
    (.inr hfree) (Nat.lt_succ_self l.length)
  have prepared := located.prepared ready hl.cells fun x hx => hl.cell_ne_zero hx
  have hchain := located.isChain hg hl
  have hadds : AddsAtMostOne v w l l' := by
    cases located with
    | room _ _ _ => exact .none rfl
    | extended hne _ _ hx hzero _ _ => exact .one hx hzero (List.getLast?_eq_some_getLast hne) rfl rfl
  obtain ⟨pre, run, post, rfl, rfl, hlen, hrun⟩ := located.run hpos
  have hbuffer : fatGetSlots w c = .ok (pre ++ run ++ post) := by
    rw [← prepared.found]
    exact fatGetSlots_ok ((prepared.geometry ▸ store).get w.disk) (hchain.cells c prepared.mem)
  have hlength : (pre ++ run ++ post).length = w.geometry.dirsPerCluster := by
    rw [← prepared.found]
    exact length_slots _
  rw [List.length_append, List.length_append] at hlength
  refine ⟨l.length + 1, w, l', c, _, _, hsearch, ⟨hchain, prepared.mem, hbuffer, by omega, ?_⟩, hadds⟩
  intro i s hi hlt hs
  exact free_of_run hrun hi (by omega) hs

/-- For every name: with a free cluster at hand the search succeeds exactly when a cluster has as many
slots as the name takes. -/
theorem findsRun_iff (store : ClusterStore v.geometry δ) (hg : v.geometry.Addressable) (ready : AllocReady v)
    (hl : IsChain v.geometry v.FAT dir l) (hfree : 0 < fatGetFreeClusters v) (fname : List UCHAR) :
    FindsRun v dir l (longEntries fname + 1) ↔ longEntries fname + 1 ≤ v.geometry.dirsPerCluster := by
  constructor
  · rintro ⟨fuel, w, l', c, found, index, -, hrun, hadds⟩
    have hinside := hrun.inside
    rw [hadds.geometry_eq] at hinside
    omega
  · exact findsRun store hg ready hl hfree (Nat.succ_pos _)

/-- No list of fewer slots has such a run. -/
lemma findRun_short {rest : List Slot} {i inARow : ℕ} (h : inARow + rest.length < count) :
    findRun count rest i inARow = none := by
  induction rest generalizing i inARow with
  | nil => rfl
  | cons s rest ih =>
    rw [List.length_cons] at h
    rw [findRun]
    by_cases hs : s.Free
    · simp only [if_pos hs]
      rw [if_neg (by omega)]
      exact ih (by omega)
    · simp only [if_neg hs]
      rw [if_neg (by omega)]
      exact ih (by omega)

/-- A run that is longer than a cluster: the search takes every free cluster and then gives up. -/
theorem fatLocateEntries_exhausts (store : ClusterStore v.geometry δ) (hg : v.geometry.Addressable)
    (ready : AllocReady v) (hl : IsChain v.geometry v.FAT dir l) (hlong : v.geometry.dirsPerCluster < count) :
    ∃ w, fatLocateEntries count (l.length + fatGetFreeClusters v) v dir = .ok (none, w) ∧
      fatGetFreeClusters w = 0 := by
  have hnone : ∀ (u : FAT32 δ) (c : ℕ), u.geometry = v.geometry → findRun count (u.dirSlots c) 0 0 = none := by
    intro u c hu
    refine findRun_short ?_
    rw [FAT32.dirSlots, length_slots, hu]
    omega
  induction hn : fatGetFreeClusters v generalizing v dir l with
  | zero =>
    refine ⟨v, ?_, hn⟩
    rw [fatLocateEntries_full (store.get v.disk) hg hl fun c _ => hnone v c rfl,
      fatAllocCluster_full ready.hint hn]
    rfl
  | succ n ih =>
    obtain ⟨x, disk, halloc, hx, hzero, -⟩ := fatAllocCluster_ok store ready (by omega)
    have hlast : v.geometry.HasCluster (l.getLast hl.links.ne_nil) := hl.cells _ (List.getLast_mem _)
    have hused := hl.cell_ne_zero (List.getLast_mem hl.links.ne_nil)
    have hcount := FAT32.free_extended hx hzero hused disk
    have hxlast : x ≠ l.getLast hl.links.ne_nil := fun heq => hused (heq ▸ hzero)
    have hcell : (v.extended (l.getLast hl.links.ne_nil) x disk).FAT x = 0x0FFFFFFF := by
      simp only [FAT32.extended]
      rw [Function.update_of_ne hxlast, Function.update_self]
    have hchain : IsChain v.geometry (v.extended (l.getLast hl.links.ne_nil) x disk).FAT x [x] :=
      .last hx (by rw [hcell]; decide)
    obtain ⟨w, hsearch, hfull⟩ := ih (v := v.extended (l.getLast hl.links.ne_nil) x disk) store hg
      (ready.extended hlast hx disk) hchain hlong hnone (by omega)
    refine ⟨w, ?_, hfull⟩
    rw [fatLocateEntries_full (store.get v.disk) hg hl fun c _ => hnone v c rfl, halloc, ok_bind]
    dsimp only
    rw [if_neg hx.ne_zero, Nat.add_comm n 1]
    exact hsearch

end Search

section Volumes

lemma small_slots : small.dirsPerCluster = 16 := by decide

lemma fresh_ready : AllocReady fresh := ⟨by decide, by decide⟩

lemma fresh_root : IsChain fresh.geometry fresh.FAT 2 [2] := .last (by decide) (by decide)

/-- A freshly formatted volume on some drive. -/
def freshWith (d : Ata.Drive) : FAT32 Ata.Drive := { fresh with disk := d }

/-- The root directory can hold any slots. -/
lemma exists_freshWith {l : List Slot} (hl : l.length = 16) : ∃ d, (freshWith d).dirSlots 2 = l := by
  obtain ⟨d, -, hcontent⟩ := small_clusterStore.put Ata.blank (slotBytes l) 2 (by decide)
  refine ⟨d, ?_⟩
  change slots small (content small d 2) = l
  rw [hcontent, Function.update_self]
  exact slots_cut_slotBytes (hl.trans small_slots.symm)

/-- On a volume with 512 bytes to a cluster there is a place for a name of one character. -/
theorem findsRun_iff_letter : FindsRun fresh 2 [2] (longEntries letterA + 1) :=
  (findsRun_iff small_clusterStore small_addressable fresh_ready fresh_root (by rw [fresh_space]; decide)
    letterA).mpr (by decide)

/-- A name of 196 characters takes 17 slots. -/
def longName : List UCHAR := List.replicate 196 0x41

lemma length_longName : longName.length = 196 := List.length_replicate

lemma longEntries_longName : longEntries longName = 16 := by
  simp [longEntries, length_longName]

/-- In such clusters there is none for it: the call takes all 125 free clusters and finds nothing. -/
theorem long_name_takes_all : longName.length ≤ 255 ∧ fatGetFreeClusters fresh = 125 ∧
    ¬ FindsRun fresh 2 [2] (longEntries longName + 1) ∧
    ∃ w, fatLocateEntries (longEntries longName + 1) 126 fresh 2 = .ok (none, w) ∧ fatGetFreeClusters w = 0 := by
  refine ⟨by rw [length_longName]; decide, fresh_space, ?_, ?_⟩
  · rintro ⟨fuel, w, l', c, found, index, -, hrun, hadds⟩
    have hinside := hrun.inside
    rw [hadds.geometry_eq, longEntries_longName, show fresh.geometry.dirsPerCluster = 16 from small_slots] at hinside
    omega
  · have hlong : fresh.geometry.dirsPerCluster < longEntries longName + 1 := by
      rw [longEntries_longName]
      decide
    have hsearch := fatLocateEntries_exhausts small_clusterStore small_addressable fresh_ready fresh_root hlong
    rw [fresh_space] at hsearch
    exact hsearch

end Volumes
end Open98.Fat32
