import Open98.Fat32.Locate

/-! `FatDeleteFile`: the walk to the first entry with the name, whose slots are zeroed and whose
chain is freed. -/
namespace Open98.Fat32
open Open98.Library

section Model
variable {δ : Type} [Disk δ]

/-- The inner loop of `FatDeleteFile`, from the slot `entry` points to, behind the slots that have
been passed. It ends with the entry deleted, or with the cluster from which the outer loop goes on. -/
def deleteInCluster (chainFuel : ℕ) (v : FAT32 δ) (filename : List UCHAR) :
    ℕ → (passed entry : List Slot) → (cluster : ℕ) → Result (FAT32 δ ⊕ ℕ)
  | 0, _, _, _ => .error .hang
  | _+1, _, [], cluster => .ok (.inr cluster)
  | fuel+1, passed, s :: rest, cluster =>
    if s.Free then deleteInCluster chainFuel v filename fuel (passed ++ [s]) rest cluster
    else do
      let (dirent, next, more, secondcluster) ← fatNextDirectoryEntry v cluster (s :: rest)
      if strcmpEq dirent.name filename then do
        let n := (s :: rest).length + more.length - next.length
        let rootCluster := passed ++ List.replicate n zeroSlot ++ next
        let d ← fatPutCluster v.geometry v.disk
          (slotBytes (rootCluster.take v.geometry.dirsPerCluster)) cluster
        let d ←
          if secondcluster ≠ 0 then
            fatPutCluster v.geometry d (slotBytes (rootCluster.drop v.geometry.dirsPerCluster))
              secondcluster
          else .ok d
        let w ← fatZeroFatChain chainFuel { v with disk := d } dirent.firstCluster
        return .inl w
      else
        let ahead := next.take (next.length - more.length)
        let cluster := if secondcluster ≠ 0 then secondcluster else cluster
        deleteInCluster chainFuel v filename fuel
          (passed ++ (s :: rest).take ((s :: rest).length - ahead.length)) ahead cluster

/-- The outer loop of `FatDeleteFile`. -/
def deleteFrom (chainFuel : ℕ) (v : FAT32 δ) (filename : List UCHAR) :
    ℕ → (cluster : ℕ) → Result (FAT32 δ)
  | 0, _ => .error .hang
  | fuel+1, cluster => do
    let rootCluster ← fatGetSlots v cluster
    match ← deleteInCluster chainFuel v filename (rootCluster.length + 1) [] rootCluster cluster with
    | .inl w => .ok w
    | .inr cluster =>
      let cluster := fatGetNextClusterID v cluster
      if EOC ≤ cluster then .ok v else deleteFrom chainFuel v filename fuel cluster

def fatDeleteFile (fuel : ℕ) (v : FAT32 δ) (dir : ℕ) (filename : List UCHAR) : Result (FAT32 δ) :=
  deleteFrom fuel v filename fuel dir

end Model

section Walking
variable {δ : Type} [Disk δ] {v : FAT32 δ} {filename : List UCHAR}

/-- The entry of the set has the name. -/
def EntrySet.Named (junk : Buffer) (filename : List UCHAR) (e : EntrySet) : Prop :=
  strcmpEq (e.dirent junk).name filename = true

/-- What happens to the entry set `e` between the pieces `A` and `B` of a cluster. -/
def deleteSet (chainFuel : ℕ) (v : FAT32 δ) (cluster : ℕ) (A B : List Slot) (e : EntrySet) :
    Result (FAT32 δ) := do
  let d ← fatPutCluster v.geometry v.disk
    (slotBytes (A ++ List.replicate (e.longs.length + 1) zeroSlot ++ B)) cluster
  fatZeroFatChain chainFuel { v with disk := d } (e.dirent v.junk).firstCluster

/-- One turn of the inner loop: the set is passed, or it is the one to be deleted. -/
lemma deleteInCluster_set (chainFuel fuel : ℕ) (passed rest : List Slot) (e : EntrySet) (cluster : ℕ)
    (hlen : passed.length + (e.longs.length + 1) + rest.length = v.geometry.dirsPerCluster) :
    (e.Named v.junk filename →
      deleteInCluster chainFuel v filename (fuel+1) passed (e.longs ++ e.short :: rest) cluster =
        (deleteSet chainFuel v cluster passed rest e).map .inl) ∧
    (¬ e.Named v.junk filename →
      deleteInCluster chainFuel v filename (fuel+1) passed (e.longs ++ e.short :: rest) cluster =
        deleteInCluster chainFuel v filename fuel (passed ++ (e.longs ++ [e.short])) rest cluster) := by
  have hread := fatReadDirectoryEntry_set v.junk e rest
  obtain ⟨s, t, hcons, hlive⟩ := e.exists_cons rest
  have hcount : (s :: t).length - rest.length = e.longs.length + 1 := by
    rw [← hcons]
    simp
    omega
  have htake : (s :: t).take (e.longs.length + 1) = e.longs ++ [e.short] := by
    rw [← hcons, List.append_cons]
    exact List.take_left' (by simp)
  rw [hcons] at hread ⊢
  rw [deleteInCluster, if_neg hlive, fatNextDirectoryEntry, hread]
  simp only [ok_bind, ne_eq, not_true_eq_false, if_false, List.length_nil, Nat.add_zero, Nat.sub_zero,
    List.take_length, hcount, htake]
  constructor
  · intro hnamed
    have hfull : (passed ++ List.replicate (e.longs.length + 1) zeroSlot ++ rest).take
        v.geometry.dirsPerCluster = passed ++ List.replicate (e.longs.length + 1) zeroSlot ++ rest :=
      List.take_of_length_le (by simp; omega)
    rw [EntrySet.Named] at hnamed
    rw [if_pos hnamed, hfull, deleteSet]
    cases fatPutCluster v.geometry v.disk
      (slotBytes (passed ++ List.replicate (e.longs.length + 1) zeroSlot ++ rest)) cluster with
    | error f => rfl
    | ok d => rfl
  · intro hnamed
    rw [EntrySet.Named] at hnamed
    rw [if_neg hnamed]

variable (chainFuel : ℕ)

/-- Pieces without an entry of the name are passed. -/
lemma deleteInCluster_pass (segs : List Segment)
    (hother : ∀ e ∈ segs.filterMap Segment.entry?, ¬ e.Named v.junk filename) {fuel : ℕ}
    (passed rest : List Slot) (hfuel : (segs.flatMap Segment.slots ++ rest).length < fuel)
    (hlen : (passed ++ segs.flatMap Segment.slots ++ rest).length = v.geometry.dirsPerCluster)
    (cluster : ℕ) : ∃ left, rest.length < left ∧
      deleteInCluster chainFuel v filename fuel passed (segs.flatMap Segment.slots ++ rest) cluster =
        deleteInCluster chainFuel v filename left (passed ++ segs.flatMap Segment.slots) rest
          cluster := by
  induction segs generalizing fuel passed with
  | nil => exact ⟨fuel, by simpa using hfuel, by simp⟩
  | cons seg segs ih =>
    obtain ⟨fuel, rfl⟩ : ∃ n, fuel = n+1 := ⟨fuel-1, by omega⟩
    cases seg with
    | free s h =>
      have hslots : (Segment.free s h :: segs).flatMap Segment.slots =
          s :: segs.flatMap Segment.slots := rfl
      have hpassed : passed ++ s :: segs.flatMap Segment.slots =
          passed ++ [s] ++ segs.flatMap Segment.slots := by simp
      rw [hslots] at hfuel hlen ⊢
      rw [hpassed] at hlen ⊢
      obtain ⟨left, hleft, hrun⟩ := ih hother _ (Nat.lt_of_succ_lt_succ hfuel) hlen
      exact ⟨left, hleft, by rw [List.cons_append, deleteInCluster, if_pos h, hrun]⟩
    | entry e =>
      have hslots : (Segment.entry e :: segs).flatMap Segment.slots =
          (e.longs ++ [e.short]) ++ segs.flatMap Segment.slots := rfl
      rw [hslots] at hfuel hlen ⊢
      rw [← List.append_assoc] at hlen ⊢
      have hrest : (segs.flatMap Segment.slots ++ rest).length < fuel := by
        simp at hfuel ⊢
        omega
      obtain ⟨left, hleft, hrun⟩ :=
        ih (fun e' he' => hother e' (List.mem_cons_of_mem _ he')) _ hrest hlen
      refine ⟨left, hleft, ?_⟩
      rw [← hrun, List.append_assoc, List.append_assoc, List.singleton_append]
      exact (deleteInCluster_set chainFuel fuel passed (segs.flatMap Segment.slots ++ rest) e cluster
        (by simp at hlen ⊢; omega)).2 (hother e (by simp [Segment.entry?]))

omit [Disk δ] in
/-- The first entry of the name in a cluster. -/
lemma split_at_named {segs : List Segment}
    (h : ∃ e ∈ segs.filterMap Segment.entry?, e.Named v.junk filename) :
    ∃ A e B, segs = A ++ .entry e :: B ∧ e.Named v.junk filename ∧
      ∀ e' ∈ A.filterMap Segment.entry?, ¬ e'.Named v.junk filename := by
  induction segs with
  | nil =>
    obtain ⟨e, he, _⟩ := h
    cases he
  | cons seg segs ih =>
    cases seg with
    | free s hs =>
      obtain ⟨A, e, B, rfl, hnamed, hother⟩ := ih h
      exact ⟨.free s hs :: A, e, B, rfl, hnamed, hother⟩
    | entry e₀ =>
      by_cases hnamed : e₀.Named v.junk filename
      · exact ⟨[], e₀, segs, rfl, hnamed, by simp⟩
      · obtain ⟨e₁, he₁, hnamed₁⟩ := h
        have hmem : e₁ ∈ segs.filterMap Segment.entry? :=
          (List.mem_cons.mp he₁).resolve_left fun heq => hnamed (heq ▸ hnamed₁)
        obtain ⟨A, e, B, rfl, hnamed', hother⟩ := ih ⟨e₁, hmem, hnamed₁⟩
        refine ⟨.entry e₀ :: A, e, B, rfl, hnamed', fun e' he' => ?_⟩
        rcases List.mem_cons.mp he' with rfl | he'
        · exact hnamed
        · exact hother e' he'

section Clusters
variable (reads : ReadsClusters v.geometry v.disk) {c : ℕ} (hc : v.geometry.HasCluster c)
include reads hc

/-- One turn of the outer loop, on a cluster without an entry of the name. -/
lemma deleteFrom_pass {segs : List Segment} (hsegs : v.dirSlots c = segs.flatMap Segment.slots)
    (hother : ∀ e ∈ segs.filterMap Segment.entry?, ¬ e.Named v.junk filename) (fuel : ℕ) :
    deleteFrom chainFuel v filename (fuel+1) c =
      if EOC ≤ fatGetNextClusterID v c then .ok v
      else deleteFrom chainFuel v filename fuel (fatGetNextClusterID v c) := by
  have hslots : segs.flatMap Segment.slots ++ [] = v.dirSlots c := by rw [List.append_nil, hsegs]
  have hlt : (segs.flatMap Segment.slots ++ []).length < (v.dirSlots c).length + 1 := by
    rw [hslots]
    exact Nat.lt_succ_self _
  obtain ⟨left, hleft, hrun⟩ := deleteInCluster_pass (v := v) chainFuel segs hother [] [] hlt
    (by rw [List.nil_append, hslots]; exact length_slots _) c
  obtain ⟨left, rfl⟩ := Nat.exists_eq_add_one.mpr (Nat.zero_lt_of_lt hleft)
  rw [hslots, deleteInCluster] at hrun
  rw [deleteFrom, fatGetSlots_ok reads hc, ok_bind, hrun, ok_bind]

/-- In a cluster that has an entry of the name, the first one is deleted. -/
lemma deleteFrom_here {A : List Segment} {e : EntrySet} {rest : List Slot}
    (hslots : v.dirSlots c = A.flatMap Segment.slots ++ (e.longs ++ e.short :: rest))
    (hnamed : e.Named v.junk filename)
    (hother : ∀ e ∈ A.filterMap Segment.entry?, ¬ e.Named v.junk filename) (fuel : ℕ) :
    deleteFrom chainFuel v filename (fuel+1) c =
      deleteSet chainFuel v c (A.flatMap Segment.slots) rest e := by
  have hlen : (v.dirSlots c).length = v.geometry.dirsPerCluster := length_slots _
  have hlt : (A.flatMap Segment.slots ++ (e.longs ++ e.short :: rest)).length <
      (v.dirSlots c).length + 1 := by
    rw [← hslots]
    exact Nat.lt_succ_self _
  obtain ⟨left, hleft, hrun⟩ := deleteInCluster_pass (v := v) chainFuel A hother []
    (e.longs ++ e.short :: rest) hlt (by rw [List.nil_append, ← hslots, hlen]) c
  obtain ⟨left, rfl⟩ := Nat.exists_eq_add_one.mpr (Nat.zero_lt_of_lt hleft)
  have hturn := (deleteInCluster_set chainFuel left (A.flatMap Segment.slots) rest e c (by
      rw [← hlen, hslots]
      simp
      omega)).1 hnamed
  rw [← hslots, List.nil_append, hturn] at hrun
  rw [deleteFrom, fatGetSlots_ok reads hc, ok_bind, hrun]
  cases deleteSet chainFuel v c (A.flatMap Segment.slots) rest e with
  | error f => rfl
  | ok w => rfl

end Clusters

variable {parts : ℕ → List Segment} {dir : ℕ} {cs : List ℕ} {fuel : ℕ}
  (reads : ReadsClusters v.geometry v.disk) (h : WalkChain v dir cs)
  (hparts : ∀ c ∈ cs, v.dirSlots c = (parts c).flatMap Segment.slots) (hfuel : cs.length ≤ fuel)
include reads h hparts hfuel

/-- A name that is not listed changes nothing. -/
lemma deleteFrom_absent (hother : ∀ e ∈ setsOf parts cs, ¬ e.Named v.junk filename) :
    deleteFrom chainFuel v filename fuel dir = .ok v := by
  induction h using WalkChain.induct generalizing fuel with
  | last c hc hstop =>
    obtain ⟨fuel, rfl⟩ := Nat.exists_eq_add_one.mpr hfuel
    rw [setsOf_singleton] at hother
    rw [deleteFrom_pass chainFuel reads hc (hparts c (by simp)) hother, if_pos hstop]
  | link c t hc hgo tail ih =>
    obtain ⟨fuel, rfl⟩ := Nat.exists_eq_add_one.mpr (Nat.zero_lt_of_lt hfuel)
    have hhere : ∀ e ∈ (parts c).filterMap Segment.entry?, ¬ e.Named v.junk filename :=
      fun e he => hother e (List.mem_append_left _ he)
    rw [deleteFrom_pass chainFuel reads hc (hparts c (by simp)) hhere, if_neg hgo]
    exact ih (fun x hx => hparts x (List.mem_cons_of_mem _ hx)) (Nat.le_of_succ_le_succ hfuel)
      fun e he => hother e (List.mem_append_right _ he)

/-- The first entry of the name is the one that is deleted. -/
lemma deleteFrom_listed (hlisted : ∃ e ∈ setsOf parts cs, e.Named v.junk filename) :
    ∃ p c q A B e, cs = p ++ c :: q ∧ parts c = A ++ .entry e :: B ∧ e.Named v.junk filename ∧
      (∀ e' ∈ setsOf parts p ++ A.filterMap Segment.entry?, ¬ e'.Named v.junk filename) ∧
      deleteFrom chainFuel v filename fuel dir =
        deleteSet chainFuel v c (A.flatMap Segment.slots) (B.flatMap Segment.slots) e := by
  have hcluster : ∀ c ∈ cs, v.geometry.HasCluster c →
      (∃ e ∈ (parts c).filterMap Segment.entry?, e.Named v.junk filename) → ∀ fuel,
      ∃ A B e, parts c = A ++ .entry e :: B ∧ e.Named v.junk filename ∧
        (∀ e' ∈ A.filterMap Segment.entry?, ¬ e'.Named v.junk filename) ∧
        deleteFrom chainFuel v filename (fuel+1) c =
          deleteSet chainFuel v c (A.flatMap Segment.slots) (B.flatMap Segment.slots) e := by
    intro c hmem hc hhere fuel
    obtain ⟨A, e, B, hsegs, hnamed, hother⟩ := split_at_named hhere
    have hslots : v.dirSlots c = A.flatMap Segment.slots ++
        (e.longs ++ e.short :: B.flatMap Segment.slots) := by
      rw [hparts c hmem, hsegs]
      simp [Segment.slots]
    exact ⟨A, B, e, hsegs, hnamed, hother, deleteFrom_here chainFuel reads hc hslots hnamed hother fuel⟩
  induction h using WalkChain.induct generalizing fuel with
  | last c hc hstop =>
    obtain ⟨fuel, rfl⟩ := Nat.exists_eq_add_one.mpr hfuel
    rw [setsOf_singleton] at hlisted
    obtain ⟨A, B, e, hsegs, hnamed, hother, hdelete⟩ := hcluster c (by simp) hc hlisted fuel
    exact ⟨[], c, [], A, B, e, rfl, hsegs, hnamed, hother, hdelete⟩
  | link c t hc hgo tail ih =>
    obtain ⟨fuel, rfl⟩ := Nat.exists_eq_add_one.mpr (Nat.zero_lt_of_lt hfuel)
    by_cases hhere : ∃ e ∈ (parts c).filterMap Segment.entry?, e.Named v.junk filename
    · obtain ⟨A, B, e, hsegs, hnamed, hother, hdelete⟩ := hcluster c (by simp) hc hhere fuel
      exact ⟨[], c, t, A, B, e, rfl, hsegs, hnamed, hother, hdelete⟩
    · have hother : ∀ e ∈ (parts c).filterMap Segment.entry?, ¬ e.Named v.junk filename :=
        fun e he hnamed => hhere ⟨e, he, hnamed⟩
      obtain ⟨e, he, hnamed⟩ := hlisted
      have het : e ∈ setsOf parts t :=
        (List.mem_append.mp he).resolve_left fun he => hother e he hnamed
      obtain ⟨p, x, q, A, B, e', rfl, hsegs, hnamed', hbefore, hdelete⟩ := ih
        (fun x hx => hparts x (List.mem_cons_of_mem _ hx)) (Nat.le_of_succ_le_succ hfuel)
        ⟨e, het, hnamed⟩ fun x hx => hcluster x (List.mem_cons_of_mem _ hx)
      refine ⟨c :: p, x, q, A, B, e', rfl, hsegs, hnamed', fun y hy => ?_, ?_⟩
      · rw [setsOf_cons, List.append_assoc] at hy
        cases List.mem_append.mp hy with
        | inl hy => exact hother y hy
        | inr hy => exact hbefore y hy
      · rw [deleteFrom_pass chainFuel reads hc (hparts c (by simp)) hother, if_neg hgo, hdelete]

end Walking

section Deleting
variable {δ : Type} [Disk δ] {v : FAT32 δ}

/-- The state after the entry set `e` of cluster `c` has been zeroed and its chain has been freed. -/
structure DeletedEntry (v w : FAT32 δ) (c : ℕ) (A B : List Slot) (e : EntrySet) (l : List ℕ) : Prop where
  geometry : w.geometry = v.geometry
  junk : w.junk = v.junk
  ready : AllocReady w
  table : ∀ x, w.FAT x = if x ∈ l then 0 else v.FAT x
  slots : w.dirSlots c = A ++ List.replicate (e.longs.length + 1) zeroSlot ++ B
  kept : ∀ x, x ≠ c → w.clusters x = v.clusters x

/-- The slots of the set are zeroed, and its chain is followed. -/
lemma deleteSet_run (store : ClusterStore v.geometry δ) {c : ℕ} (hc : v.geometry.HasCluster c)
    {A B : List Slot} {e : EntrySet}
    (hlen : A.length + (e.longs.length + 1) + B.length = v.geometry.dirsPerCluster) {fuel : ℕ}
    {FAT : ℕ → ℕ} (hzero : zeroChain fuel v.FAT e.short.fields.2.1 = .ok FAT) :
    ∃ d, deleteSet fuel v c A B e = .ok { v with FAT := FAT, disk := d } ∧
      slots v.geometry (content v.geometry d c) = A ++ List.replicate (e.longs.length + 1) zeroSlot ++ B ∧
      ∀ x, x ≠ c → content v.geometry d x = v.clusters x := by
  obtain ⟨d₁, hput, hcontent₁⟩ := store.put v.disk
    (slotBytes (A ++ List.replicate (e.longs.length + 1) zeroSlot ++ B)) c hc
  obtain ⟨d₂, hflush, hcontent₂⟩ := store.flush d₁ FAT
  have hclusters : content v.geometry d₂ = Function.update v.clusters c
      (v.geometry.cut (slotBytes (A ++ List.replicate (e.longs.length + 1) zeroSlot ++ B))) :=
    hcontent₂.trans hcontent₁
  refine ⟨d₂, ?_, ?_, fun x hx => ?_⟩
  · rw [deleteSet, hput, ok_bind, fatZeroFatChain]
    dsimp only
    change (zeroChain fuel v.FAT e.short.fields.2.1 >>= _) = _
    rw [hzero, ok_bind, hflush]
    rfl
  · rw [hclusters, Function.update_self]
    exact slots_cut_slotBytes (by simp; omega)
  · rw [hclusters, Function.update_of_ne hx]

lemma deleteSet_ok (store : ClusterStore v.geometry δ) (hg : v.geometry.Addressable)
    (ready : AllocReady v) {c : ℕ} (hc : v.geometry.HasCluster c) {A B : List Slot} {e : EntrySet}
    (hlen : A.length + (e.longs.length + 1) + B.length = v.geometry.dirsPerCluster) {l : List ℕ}
    (h : IsChain v.geometry v.FAT e.short.fields.2.1 l) {fuel : ℕ} (hfuel : l.length < fuel) :
    ∃ w, deleteSet fuel v c A B e = .ok w ∧ DeletedEntry v w c A B e l := by
  obtain ⟨d, hrun, hslots, hkept⟩ := deleteSet_run store hc hlen (zeroChain_ok hg h hfuel)
  refine ⟨_, hrun, rfl, rfl, ⟨?_, ready.hint⟩, fun x => rfl, hslots, hkept⟩
  have hne : ∀ x < 2, x ∉ l := fun x hx hxl => by
    have := (h.cells x hxl).1
    omega
  simp only [hne 0 (by decide), hne 1 (by decide), if_false]
  exact ready.reserved

end Deleting

end Open98.Fat32
