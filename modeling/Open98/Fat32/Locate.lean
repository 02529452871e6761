import Open98.Fat32.Directory

/-! `FatLocateEntries`: the search for free slots in a row in the clusters of a directory, and its
extension by a cluster. -/
namespace Open98.Fat32
open Open98.Library

section Model
variable {δ : Type} [Disk δ]

/-- The search of a cluster from slot `i` on, with `inARow` free slots just before it. -/
def findRun (count : ℕ) : List Slot → (i inARow : ℕ) → Option ℕ
  | [], _, _ => none
  | entry :: rest, i, inARow =>
    let inARow := if entry.Free then inARow + 1 else 0
    if inARow = count then some (i - (inARow - 1)) else findRun count rest (i+1) inARow

/-- The cluster that was found, its slots and the index of the first free one; `none` is the null
pointer. -/
def fatLocateEntries (count : ℕ) :
    ℕ → FAT32 δ → (cluster : ℕ) → Result (Option (ℕ × List Slot × ℕ) × FAT32 δ)
  | 0, _, _ => .error .hang
  | fuel+1, v, cluster => do
    let clusterBuffer ← fatGetSlots v cluster
    match findRun count clusterBuffer 0 0 with
    | some index => .ok (some (cluster, clusterBuffer, index), v)
    | none =>
      let nextCluster := v.FAT cluster
      if EOC ≤ nextCluster then do
        let (nextCluster, v) ← fatAllocCluster v
        if nextCluster = 0 then .ok (none, v)
        else
          fatLocateEntries count fuel
            { v with FAT := Function.update v.FAT cluster nextCluster } nextCluster
      else fatLocateEntries count fuel v nextCluster

end Model

section FindRun
variable {count index : ℕ} {rest : List Slot}

/-- A run that is found consists of free slots, the first of them at the index. -/
lemma findRun_some (pre run : List Slot) (hrun : ∀ s ∈ run, s.Free) (hlt : run.length < count)
    (h : findRun count rest (pre ++ run).length run.length = some index) :
    ∃ pre' run' post, pre ++ run ++ rest = pre' ++ run' ++ post ∧ pre'.length = index ∧
      run'.length = count ∧ ∀ s ∈ run', s.Free := by
  induction rest generalizing pre run with
  | nil => cases h
  | cons s rest ih =>
    have hsplit : pre ++ run ++ s :: rest = pre ++ (run ++ [s]) ++ rest := by simp
    by_cases hs : s.Free
    · have hrun' : ∀ u ∈ run ++ [s], u.Free := by
        intro u hu
        rcases List.mem_append.mp hu with hu | hu
        · exact hrun u hu
        · exact List.mem_singleton.mp hu ▸ hs
      simp only [findRun, if_pos hs] at h
      by_cases hcount : run.length + 1 = count
      · rw [if_pos hcount] at h
        refine ⟨pre, run ++ [s], rest, hsplit, ?_, by simpa using hcount, hrun'⟩
        have := Option.some.inj h
        simp at this
        omega
      · rw [if_neg hcount] at h
        rw [hsplit]
        refine ih _ _ hrun' (by simp; omega) ?_
        rw [← h]
        simp [Nat.add_assoc]
    · simp only [findRun, if_neg hs] at h
      rw [if_neg (by omega)] at h
      have hnext := ih (pre ++ run ++ [s]) [] (by simp) (by simp; omega)
      simp only [List.append_nil, List.append_assoc, List.singleton_append] at hnext ⊢
      refine hnext ?_
      rw [← h]
      simp [Nat.add_assoc]

lemma findRun_start (hcount : 0 < count) {slots : List Slot} (h : findRun count slots 0 0 = some index) :
    ∃ pre run post, slots = pre ++ run ++ post ∧ pre.length = index ∧ run.length = count ∧
      ∀ s ∈ run, s.Free :=
  findRun_some [] [] (by simp) hcount h

/-- Among enough free slots the run ends as soon as it is long enough. -/
lemma findRun_free {run : List Slot} (hrun : ∀ s ∈ run, s.Free) {i inARow : ℕ} (hlt : inARow < count)
    (hle : count ≤ inARow + run.length) (hi : inARow ≤ i) (post : List Slot) :
    findRun count (run ++ post) i inARow = some (i - inARow) := by
  induction run generalizing i inARow with
  | nil =>
    rw [List.length_nil] at hle
    omega
  | cons s run ih =>
    rw [List.length_cons] at hle
    rw [List.cons_append]
    simp only [findRun, if_pos (hrun s (by simp))]
    by_cases hend : inARow + 1 = count
    · rw [if_pos hend, Nat.add_sub_cancel]
    · rw [if_neg hend, ih (fun u hu => hrun u (List.mem_cons_of_mem _ hu)) (by omega) (by omega) (by omega)]
      congr 1
      omega

lemma findRun_replicate {s : Slot} (hs : s.Free) {n i inARow : ℕ} (hlt : inARow < count)
    (hle : count ≤ inARow + n) (hi : inARow ≤ i) :
    findRun count (List.replicate n s) i inARow = some (i - inARow) := by
  have hfree : ∀ u ∈ List.replicate n s, u.Free := fun u hu => List.eq_of_mem_replicate hu ▸ hs
  have h := findRun_free hfree hlt (by rwa [List.length_replicate]) hi []
  rwa [List.append_nil] at h

/-- No run of free slots starts before the one that is found. -/
lemma findRun_first (pre : List Slot) {run : List Slot} (hrun : ∀ s ∈ run, s.Free) (hlen : run.length = count)
    {i inARow : ℕ} (hlt : inARow < count) (hi : inARow ≤ i) (post : List Slot) :
    ∃ index, findRun count (pre ++ run ++ post) i inARow = some index ∧ index ≤ i + pre.length := by
  induction pre generalizing i inARow with
  | nil => exact ⟨_, findRun_free hrun hlt (by omega) hi post, by omega⟩
  | cons s pre ih =>
    rw [List.cons_append, List.cons_append, findRun]
    by_cases hs : s.Free
    · simp only [if_pos hs]
      by_cases hend : inARow + 1 = count
      · exact ⟨_, if_pos hend, by omega⟩
      · obtain ⟨index, hfind, hle⟩ := @ih (i+1) (inARow+1) (by omega) (by omega)
        rw [if_neg hend]
        exact ⟨index, hfind, by rw [List.length_cons]; omega⟩
    · simp only [if_neg hs]
      obtain ⟨index, hfind, hle⟩ := @ih (i+1) 0 (by omega) (by omega)
      rw [if_neg (by omega)]
      exact ⟨index, hfind, by rw [List.length_cons]; omega⟩

end FindRun

section Segments

/-- A free slot is a piece of its own. -/
lemma split_at_free {segs : List Segment} {post : List Slot} {s : Slot} (hs : s.Free) (pre : List Slot)
    (h : segs.flatMap Segment.slots = pre ++ s :: post) :
    ∃ A B, segs = A ++ .free s hs :: B ∧ A.flatMap Segment.slots = pre ∧
      B.flatMap Segment.slots = post := by
  induction segs generalizing pre with
  | nil => simp at h
  | cons seg segs ih =>
    cases seg with
    | free t ht =>
      rw [List.flatMap_cons, Segment.slots, List.singleton_append] at h
      cases pre with
      | nil =>
        obtain ⟨rfl, htail⟩ := List.cons.inj h
        exact ⟨[], segs, rfl, rfl, htail⟩
      | cons u pre =>
        obtain ⟨rfl, htail⟩ := List.cons.inj h
        obtain ⟨A, B, rfl, hA, hB⟩ := ih _ htail
        exact ⟨.free t ht :: A, B, rfl, by rw [List.flatMap_cons, hA]; rfl, hB⟩
    | entry e =>
      have hlive : ∀ u ∈ e.longs ++ [e.short], ¬ u.Free := by
        intro u hu
        rcases List.mem_append.mp hu with hu | hu
        · exact (e.long u hu).1
        · exact List.mem_singleton.mp hu ▸ e.last.1
      rw [List.flatMap_cons, Segment.slots, List.append_eq_append_iff] at h
      rcases h with ⟨more, rfl, hmore⟩ | ⟨more, hset, hmore⟩
      · obtain ⟨A, B, rfl, hA, hB⟩ := ih _ hmore
        exact ⟨.entry e :: A, B, rfl, by rw [List.flatMap_cons, hA]; rfl, hB⟩
      · cases more with
        | nil =>
          obtain ⟨A, B, rfl, hA, hB⟩ := ih [] hmore.symm
          refine ⟨.entry e :: A, B, rfl, ?_, hB⟩
          rw [List.flatMap_cons, hA, List.append_nil]
          simpa [Segment.slots] using hset
        | cons u more =>
          obtain ⟨rfl, _⟩ := List.cons.inj hmore
          exact absurd hs (hlive s (by rw [hset]; simp))

/-- Pieces of free slots. -/
def freeSegments : List Slot → List Segment :=
  List.filterMap fun s => if h : s.Free then some (.free s h) else none

lemma flatMap_freeSegments {l : List Slot} (h : ∀ s ∈ l, s.Free) :
    (freeSegments l).flatMap Segment.slots = l := by
  induction l with
  | nil => rfl
  | cons s l ih =>
    have hs := h s (by simp)
    rw [freeSegments, List.filterMap_cons, dif_pos hs, List.flatMap_cons]
    exact congrArg (s :: ·) (ih fun u hu => h u (List.mem_cons_of_mem _ hu))

lemma entries_freeSegments (l : List Slot) : (freeSegments l).filterMap Segment.entry? = [] := by
  rw [freeSegments, List.filterMap_filterMap, List.filterMap_eq_nil_iff]
  intro s _
  by_cases hs : s.Free
  · simp [hs, Segment.entry?]
  · simp [hs]

lemma entries_nil_of_slots_nil {segs : List Segment} (h : segs.flatMap Segment.slots = []) :
    segs = [] := by
  cases segs with
  | nil => rfl
  | cons seg segs =>
    cases seg with
    | free s hs => simp [Segment.slots] at h
    | entry e => simp [Segment.slots] at h

/-- A run of free slots lies between the pieces before it and those behind it, and no entry is in
it. -/
lemma split_at_run {segs : List Segment} {pre run post : List Slot} (hne : run ≠ [])
    (hrun : ∀ s ∈ run, s.Free) (h : segs.flatMap Segment.slots = pre ++ run ++ post) :
    ∃ A B : List Segment, A.flatMap Segment.slots = pre ∧ B.flatMap Segment.slots = post ∧
      segs.filterMap Segment.entry? = A.filterMap Segment.entry? ++ B.filterMap Segment.entry? := by
  induction run generalizing segs pre with
  | nil => exact absurd rfl hne
  | cons s run ih =>
    have hs := hrun s (by simp)
    rw [List.append_assoc, List.cons_append] at h
    obtain ⟨A, C, rfl, hA, hC⟩ := split_at_free hs _ h
    by_cases hlast : run = []
    · subst hlast
      exact ⟨A, C, hA, hC, by rw [List.filterMap_append, List.filterMap_cons_none (by rfl)]⟩
    · obtain ⟨A', B, hA', hB, hentries⟩ := ih hlast (fun u hu => hrun u (List.mem_cons_of_mem _ hu))
        (show C.flatMap Segment.slots = [] ++ run ++ post from hC)
      obtain rfl := entries_nil_of_slots_nil hA'
      refine ⟨A, B, hA, hB, ?_⟩
      rw [List.filterMap_append, List.filterMap_cons_none (by rfl), hentries]
      rfl

end Segments

section Fuel
variable {δ : Type} [Disk δ] {v w : FAT32 δ}

/-- With more fuel the search gives the same result. -/
lemma fatLocateEntries_mono {count fuel d : ℕ} {r : Option (ℕ × List Slot × ℕ)} (more : ℕ)
    (h : fatLocateEntries count fuel v d = .ok (r, w)) :
    fatLocateEntries count (fuel + more) v d = .ok (r, w) := by
  induction fuel generalizing v d with
  | zero => cases h
  | succ fuel ih =>
    rw [Nat.succ_add]
    obtain ⟨clusterBuffer, hget, hsearch⟩ := bind_eq_ok.mp h
    refine bind_eq_ok.mpr ⟨clusterBuffer, hget, ?_⟩
    cases hfind : findRun count clusterBuffer 0 0 with
    | some index => rwa [hfind] at hsearch
    | none =>
      rw [hfind] at hsearch
      dsimp only at hsearch ⊢
      by_cases hend : EOC ≤ v.FAT d
      · rw [if_pos hend] at hsearch ⊢
        obtain ⟨⟨c, u⟩, halloc, hrest⟩ := bind_eq_ok.mp hsearch
        refine bind_eq_ok.mpr ⟨(c, u), halloc, ?_⟩
        dsimp only at hrest ⊢
        by_cases hc : c = 0
        · rwa [if_pos hc] at hrest ⊢
        · rw [if_neg hc] at hrest ⊢
          exact ih hrest
      · rw [if_neg hend] at hsearch ⊢
        exact ih hsearch

end Fuel

section Locate
variable {δ : Type} [Disk δ] {v : FAT32 δ} (reads : ReadsClusters v.geometry v.disk)
  (hg : v.geometry.Addressable) {count d : ℕ} {l : List ℕ}

include reads in
/-- The search ends in a cluster with room. -/
lemma fatLocateEntries_here {c : ℕ} (hc : v.geometry.HasCluster c) {index : ℕ}
    (hfind : findRun count (v.dirSlots c) 0 0 = some index) (fuel : ℕ) :
    fatLocateEntries count (fuel+1) v c = .ok (some (c, v.dirSlots c, index), v) := by
  rw [fatLocateEntries, fatGetSlots_ok reads hc, ok_bind, hfind]

include reads in
/-- One turn of the search, in a cluster without room. -/
lemma fatLocateEntries_pass {c : ℕ} (hc : v.geometry.HasCluster c)
    (hfull : findRun count (v.dirSlots c) 0 0 = none) (fuel : ℕ) :
    fatLocateEntries count (fuel+1) v c =
      if EOC ≤ v.FAT c then do
        let (nextCluster, w) ← fatAllocCluster v
        if nextCluster = 0 then .ok (none, w)
        else
          fatLocateEntries count fuel
            { w with FAT := Function.update w.FAT c nextCluster } nextCluster
      else fatLocateEntries count fuel v (v.FAT c) := by
  rw [fatLocateEntries, fatGetSlots_ok reads hc, ok_bind, hfull]

include reads hg in
/-- The search goes past the clusters that have no room. -/
lemma fatLocateEntries_full (h : IsChain v.geometry v.FAT d l)
    (hfull : ∀ c ∈ l, findRun count (v.dirSlots c) 0 0 = none) (fuel : ℕ) :
    fatLocateEntries count (l.length + fuel) v d = (do
      let (nextCluster, w) ← fatAllocCluster v
      if nextCluster = 0 then .ok (none, w)
      else
        fatLocateEntries count fuel
          { w with FAT := Function.update w.FAT (l.getLast h.links.ne_nil) nextCluster } nextCluster) := by
  induction h using IsChain.induct with
  | last c hc hstop =>
    rw [List.length_singleton, Nat.add_comm, fatLocateEntries_pass reads hc (hfull c (by simp)),
      if_pos hstop.le]
    rfl
  | link c t hc hgo tail ih =>
    have hlt := hg.lt_EOC (tail.cells _ tail.links.head_mem)
    rw [List.length_cons, Nat.succ_add, fatLocateEntries_pass reads hc (hfull c (by simp)),
      if_neg (by omega), ih fun x hx => hfull x (List.mem_cons_of_mem _ hx)]
    simp only [List.getLast_cons tail.links.ne_nil]

include reads hg in
/-- The search stops at the first cluster with room and changes nothing. -/
lemma fatLocateEntries_room (h : IsChain v.geometry v.FAT d l)
    (hroom : ∃ c ∈ l, findRun count (v.dirSlots c) 0 0 ≠ none) {fuel : ℕ} (hfuel : l.length ≤ fuel) :
    ∃ p c q index, l = p ++ c :: q ∧ (∀ x ∈ p, findRun count (v.dirSlots x) 0 0 = none) ∧
      findRun count (v.dirSlots c) 0 0 = some index ∧
      fatLocateEntries count fuel v d = .ok (some (c, v.dirSlots c, index), v) := by
  induction h using IsChain.induct generalizing fuel with
  | last c hc hstop =>
    obtain ⟨fuel, rfl⟩ := Nat.exists_eq_add_one.mpr hfuel
    obtain ⟨c', hc', hroom⟩ := hroom
    obtain rfl := List.mem_singleton.mp hc'
    obtain ⟨index, hfind⟩ := Option.ne_none_iff_exists'.mp hroom
    exact ⟨[], _, [], index, rfl, by simp, hfind, fatLocateEntries_here reads hc hfind fuel⟩
  | link c t hc hgo tail ih =>
    obtain ⟨fuel, rfl⟩ := Nat.exists_eq_add_one.mpr (Nat.zero_lt_of_lt hfuel)
    cases hfind : findRun count (v.dirSlots c) 0 0 with
    | some index =>
      exact ⟨[], c, t, index, rfl, by simp, hfind, fatLocateEntries_here reads hc hfind fuel⟩
    | none =>
      have hlt := hg.lt_EOC (tail.cells _ tail.links.head_mem)
      obtain ⟨c', hc', hroom'⟩ := hroom
      have hct : c' ∈ t := (List.mem_cons.mp hc').resolve_left fun hcc => hroom' (hcc ▸ hfind)
      obtain ⟨p, x, q, index, rfl, hfull, hfindx, hrun⟩ :=
        ih ⟨c', hct, hroom'⟩ (Nat.le_of_succ_le_succ hfuel)
      refine ⟨c :: p, x, q, index, rfl, List.forall_mem_cons.mpr ⟨hfind, hfull⟩, hfindx, ?_⟩
      rw [fatLocateEntries_pass reads hc hfind, if_neg (by omega), hrun]

/-- A slot of zeros. -/
def zeroSlot : Slot := fun _ => 0

lemma zeroSlot_free : zeroSlot.Free := .inl rfl

lemma slots_zero (g : Geometry) : slots g (fun _ => 0) = List.replicate g.dirsPerCluster zeroSlot := by
  refine List.ext_getElem (by simp) fun i hi hi' => ?_
  simp only [slots, List.getElem_map, List.getElem_replicate]
  rfl

include reads in
/-- A zeroed cluster has room at its start. -/
lemma fatLocateEntries_zeroed {c : ℕ} (hc : v.geometry.HasCluster c) (hpos : 0 < count)
    (hle : count ≤ v.geometry.dirsPerCluster)
    (hzero : v.dirSlots c = List.replicate v.geometry.dirsPerCluster zeroSlot) (fuel : ℕ) :
    fatLocateEntries count (fuel+1) v c = .ok (some (c, v.dirSlots c, 0), v) := by
  have hfound : findRun count (v.dirSlots c) 0 0 = some 0 := by
    rw [hzero]
    exact findRun_replicate zeroSlot_free hpos (by omega) le_rfl
  exact fatLocateEntries_here reads hc hfound fuel

/-- The volume after a directory has been extended by a free cluster. -/
def FAT32.extended (v : FAT32 δ) (last x : ℕ) (d : δ) : FAT32 δ := { v with
  FAT := Function.update (Function.update v.FAT x 0x0FFFFFFF) last x
  disk := d
  clusterAllocationHint := x + 1 }

omit [Disk δ] in
/-- The extension takes one free cluster. -/
lemma FAT32.free_extended {v : FAT32 δ} {last x : ℕ} (hx : v.geometry.HasCluster x)
    (hzero : v.FAT x = 0) (hlast : v.FAT last ≠ 0) (d : δ) :
    fatGetFreeClusters (v.extended last x d) + 1 = fatGetFreeClusters v := by
  have hused : Function.update v.FAT x 0x0FFFFFFF last ≠ 0 := update_ne_zero hlast x
  simp only [fatGetFreeClusters_eq, FAT32.extended, freeCells_relink hx.ne_zero hused]
  exact card_freeCells_take (by decide) hx.2 hzero

/-- A directory without room is extended by a zeroed cluster, if a cluster is free. -/
lemma fatLocateEntries_extends (store : ClusterStore v.geometry δ) (hg : v.geometry.Addressable)
    (ready : AllocReady v) (h : IsChain v.geometry v.FAT d l)
    (hfull : ∀ c ∈ l, findRun count (v.dirSlots c) 0 0 = none) (hfree : 0 < fatGetFreeClusters v)
    (hpos : 0 < count) (hle : count ≤ v.geometry.dirsPerCluster) {fuel : ℕ}
    (hfuel : l.length < fuel) :
    ∃ x disk, fatAllocCluster v = .ok (x, { v with
        FAT := Function.update v.FAT x 0x0FFFFFFF, disk := disk, clusterAllocationHint := x + 1 }) ∧
      v.geometry.HasCluster x ∧ v.FAT x = 0 ∧
      content v.geometry disk = Function.update v.clusters x (fun _ => 0) ∧
      fatLocateEntries count fuel v d = .ok (some (x, List.replicate v.geometry.dirsPerCluster zeroSlot, 0),
        v.extended (l.getLast h.links.ne_nil) x disk) := by
  obtain ⟨n, rfl⟩ : ∃ n, fuel = l.length + (n+1) := ⟨fuel - l.length - 1, by omega⟩
  obtain ⟨x, disk, halloc, hx, hzero, hclear⟩ := fatAllocCluster_ok store ready hfree
  refine ⟨x, disk, halloc, hx, hzero, hclear, ?_⟩
  have hslots : (v.extended (l.getLast h.links.ne_nil) x disk).dirSlots x =
      List.replicate v.geometry.dirsPerCluster zeroSlot := by
    rw [← slots_zero]
    refine congrArg (slots v.geometry) ?_
    change content v.geometry disk x = _
    rw [hclear, Function.update_self]
  rw [fatLocateEntries_full (store.get _) hg h hfull, halloc, ok_bind]
  dsimp only
  rw [if_neg hx.ne_zero]
  exact (fatLocateEntries_zeroed (v := v.extended (l.getLast h.links.ne_nil) x disk) (store.get _) hx
    hpos hle hslots n).trans (by rw [hslots])

/-- The place for an entry that needs `count` slots: in the first cluster of the directory with so many
free slots in a row, or at the start of a further cluster. It comes with the state after the search,
the clusters of the directory then, the cluster of the place, its slots and the index. -/
inductive Located (v : FAT32 δ) (l : List ℕ) (count : ℕ) :
    FAT32 δ → List ℕ → ℕ → List Slot → ℕ → Prop
  | room {p c q index} (hl : l = p ++ c :: q)
      (hfull : ∀ x ∈ p, findRun count (v.dirSlots x) 0 0 = none)
      (hfind : findRun count (v.dirSlots c) 0 0 = some index) :
      Located v l count v l c (v.dirSlots c) index
  | extended {x disk} (hne : l ≠ []) (hfull : ∀ c ∈ l, findRun count (v.dirSlots c) 0 0 = none)
      (halloc : fatAllocCluster v = .ok (x, { v with
        FAT := Function.update v.FAT x 0x0FFFFFFF, disk := disk, clusterAllocationHint := x + 1 }))
      (hx : v.geometry.HasCluster x) (hfree : v.FAT x = 0)
      (hclear : content v.geometry disk = Function.update v.clusters x fun _ => 0)
      (hle : count ≤ v.geometry.dirsPerCluster) :
      Located v l count (v.extended (l.getLast hne) x disk) (l ++ [x]) x
        (List.replicate v.geometry.dirsPerCluster zeroSlot) 0

/-- A search with room, or with a free cluster for it, ends in a place for the entry. -/
lemma fatLocateEntries_located (store : ClusterStore v.geometry δ) (hg : v.geometry.Addressable)
    (ready : AllocReady v) (h : IsChain v.geometry v.FAT d l) (hpos : 0 < count)
    (hle : count ≤ v.geometry.dirsPerCluster)
    (hspace : (∃ c ∈ l, findRun count (v.dirSlots c) 0 0 ≠ none) ∨ 0 < fatGetFreeClusters v)
    {fuel : ℕ} (hfuel : l.length < fuel) : ∃ w l' c found index,
      fatLocateEntries count fuel v d = .ok (some (c, found, index), w) ∧
        Located v l count w l' c found index := by
  by_cases hroom : ∃ c ∈ l, findRun count (v.dirSlots c) 0 0 ≠ none
  · obtain ⟨p, c, q, index, hl, hfull, hfind, hlocate⟩ :=
      fatLocateEntries_room (store.get _) hg h hroom hfuel.le
    exact ⟨v, l, c, _, index, hlocate, .room hl hfull hfind⟩
  · have hfull : ∀ c ∈ l, findRun count (v.dirSlots c) 0 0 = none := by
      intro c hc
      by_contra hne
      exact hroom ⟨c, hc, hne⟩
    obtain ⟨x, disk, halloc, hx, hzero, hclear, hlocate⟩ := fatLocateEntries_extends store hg ready h
      hfull (hspace.resolve_left hroom) hpos hle hfuel
    exact ⟨_, _, x, _, 0, hlocate, .extended h.links.ne_nil hfull halloc hx hzero hclear hle⟩

end Locate

end Open98.Fat32
