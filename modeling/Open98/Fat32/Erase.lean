import Open98.Fat32.Delete
import Open98.Fat32.Listing

/-! What `FatDeleteFile` does to a directory of complete entry sets, wherever they lie: the slots of
one set are zeroed in place, in one cluster or in two, and its chain is freed. -/
namespace Open98.Fat32
open Open98.Library

section Puts
variable {δ : Type} [Disk δ]

/-- The disk `d'` after clusters of the list have been written, one after another. -/
inductive PutsIn (g : Geometry) (cs : List ℕ) (d : δ) : δ → Prop
  | refl : PutsIn g cs d d
  | put {e c buff d'} (h : PutsIn g cs d e) (hc : c ∈ cs) (hput : fatPutCluster g e buff c = .ok d') :
      PutsIn g cs d d'

lemma PutsIn.mono {g : Geometry} {cs cs' : List ℕ} {d d' : δ} (h : PutsIn g cs d d')
    (hsub : ∀ c ∈ cs, c ∈ cs') : PutsIn g cs' d d' := by
  induction h with
  | refl => exact .refl
  | put _ hc hput ih => exact .put ih (hsub _ hc) hput

end Puts

section Straddling
variable {δ : Type} [Disk δ] {v : FAT32 δ} {filename : List UCHAR}

/-- What happens to an entry set of which the slots `tail` end the cluster and those of `e` start the
second one. -/
def deleteStraddling (chainFuel : ℕ) (v : FAT32 δ) (cluster secondcluster : ℕ)
    (A tail B : List Slot) (e : EntrySet) : Result (FAT32 δ) := do
  let d ← fatPutCluster v.geometry v.disk
    (slotBytes (A ++ List.replicate tail.length zeroSlot)) cluster
  let d ← fatPutCluster v.geometry d
    (slotBytes (List.replicate (e.longs.length + 1) zeroSlot ++ B)) secondcluster
  fatZeroFatChain chainFuel { v with disk := d } e.short.fields.2.1

variable (reads : ReadsClusters v.geometry v.disk) {c : ℕ} (hc : v.geometry.HasCluster c)
  (hsecond : v.geometry.HasCluster (fatGetNextClusterID v c)) (chainFuel : ℕ) {segs : List Segment}
  {tail rest : List Slot} (htail : ∀ s ∈ tail, s.Long) (hne : tail ≠ [])
  (hslots : v.dirSlots c = segs.flatMap Segment.slots ++ tail)
  (hother : ∀ e ∈ segs.filterMap Segment.entry?, ¬ e.Named v.junk filename)
include hslots hother

/-- The inner loop comes to the slots at the end of a cluster. -/
lemma deleteInCluster_tail : ∃ left, tail.length < left ∧
    deleteInCluster chainFuel v filename ((v.dirSlots c).length + 1) [] (v.dirSlots c) c =
      deleteInCluster chainFuel v filename left (segs.flatMap Segment.slots) tail c := by
  have hlt : (segs.flatMap Segment.slots ++ tail).length < (v.dirSlots c).length + 1 := by
    rw [← hslots]
    exact Nat.lt_succ_self _
  have hlen : ([] ++ segs.flatMap Segment.slots ++ tail).length = v.geometry.dirsPerCluster := by
    rw [List.nil_append, ← hslots]
    exact length_slots _
  obtain ⟨left, hleft, hrun⟩ := deleteInCluster_pass (v := v) chainFuel segs hother [] tail hlt hlen c
  rw [← hslots] at hrun
  exact ⟨left, hleft, hrun⟩

include reads hc hsecond hne

/-- With the second cluster the set is completed: it is deleted, or the walk goes on behind that
cluster. -/
lemma deleteFrom_straddle (e : EntrySet)
    (hslots' : v.dirSlots (fatGetNextClusterID v c) = e.longs ++ e.short :: rest) (fuel : ℕ) :
    ((e.join tail htail).Named v.junk filename → deleteFrom chainFuel v filename (fuel+1) c =
      deleteStraddling chainFuel v c (fatGetNextClusterID v c) (segs.flatMap Segment.slots) tail rest e) ∧
    (¬ (e.join tail htail).Named v.junk filename → deleteFrom chainFuel v filename (fuel+1) c =
      if EOC ≤ fatGetNextClusterID v (fatGetNextClusterID v c) then .ok v
      else deleteFrom chainFuel v filename fuel (fatGetNextClusterID v (fatGetNextClusterID v c))) := by
  obtain ⟨left, hleft, hrun⟩ := deleteInCluster_tail chainFuel hslots hother
  have hnext := fatNextDirectoryEntry_straddle reads htail hsecond e hslots'
  have hlen : (segs.flatMap Segment.slots).length + tail.length = v.geometry.dirsPerCluster := by
    rw [← List.length_append, ← hslots]
    exact length_slots _
  obtain ⟨s, tail', rfl⟩ := List.exists_cons_of_ne_nil hne
  obtain ⟨left, rfl⟩ : ∃ n, left = n+2 := ⟨left-2, by simp at hleft; omega⟩
  have hcount : (s :: tail').length + (v.dirSlots (fatGetNextClusterID v c)).length - rest.length =
      (s :: tail').length + (e.longs.length + 1) := by
    rw [hslots']
    simp
    omega
  have hshorter : rest.length - (v.dirSlots (fatGetNextClusterID v c)).length = 0 := by
    rw [hslots']
    simp
    omega
  have htake : (segs.flatMap Segment.slots ++ List.replicate ((s :: tail').length +
      (e.longs.length + 1)) zeroSlot ++ rest).take v.geometry.dirsPerCluster =
        segs.flatMap Segment.slots ++ List.replicate (s :: tail').length zeroSlot := by
    rw [List.replicate_add, ← List.append_assoc, List.append_assoc _ _ rest]
    exact List.take_left' (by simpa using hlen)
  have hdrop : (segs.flatMap Segment.slots ++ List.replicate ((s :: tail').length +
      (e.longs.length + 1)) zeroSlot ++ rest).drop v.geometry.dirsPerCluster =
        List.replicate (e.longs.length + 1) zeroSlot ++ rest := by
    rw [List.replicate_add, ← List.append_assoc, List.append_assoc _ _ rest]
    exact List.drop_left' (by simpa using hlen)
  rw [deleteInCluster, if_neg (htail s (by simp)).1, hnext, ok_bind] at hrun
  dsimp only at hrun
  simp only [hcount, hshorter, List.take_zero, if_pos hsecond.ne_zero, htake, hdrop] at hrun
  rw [deleteFrom, fatGetSlots_ok reads hc, ok_bind, hrun]
  constructor
  · intro hnamed
    rw [EntrySet.Named] at hnamed
    rw [if_pos hnamed, deleteStraddling]
    cases fatPutCluster v.geometry v.disk (slotBytes (segs.flatMap Segment.slots ++
        List.replicate (s :: tail').length zeroSlot)) c with
    | error f => rfl
    | ok d =>
      rw [ok_bind, ok_bind]
      cases fatPutCluster v.geometry d (slotBytes (List.replicate (e.longs.length + 1) zeroSlot ++ rest))
          (fatGetNextClusterID v c) with
      | error f => rfl
      | ok d' =>
        rw [ok_bind, ok_bind]
        change ((fatZeroFatChain chainFuel { v with disk := d' } e.short.fields.2.1 >>= _) >>= _) = _
        cases fatZeroFatChain chainFuel { v with disk := d' } e.short.fields.2.1 with
        | error f => rfl
        | ok w => rfl
  · intro hnamed
    rw [EntrySet.Named] at hnamed
    rw [if_neg hnamed]
    rfl

include htail in
/-- Without a short slot in the second cluster the call fails. -/
lemma deleteFrom_fault (hlongs : ∀ s ∈ v.dirSlots (fatGetNextClusterID v c), s.Long) (fuel : ℕ) :
    deleteFrom chainFuel v filename (fuel+1) c = .error .nullPointer := by
  obtain ⟨left, hleft, hrun⟩ := deleteInCluster_tail chainFuel hslots hother
  obtain ⟨s, tail', rfl⟩ := List.exists_cons_of_ne_nil hne
  obtain ⟨left, rfl⟩ := Nat.exists_eq_add_one.mpr (Nat.zero_lt_of_lt hleft)
  rw [deleteInCluster, if_neg (htail s (by simp)).1, fatNextDirectoryEntry_fault reads htail hsecond hlongs,
    error_bind] at hrun
  rw [deleteFrom, fatGetSlots_ok reads hc, ok_bind, hrun, error_bind]

end Straddling

section Meeting

/-- The walk over clusters with these slots meets the entry set `e`, with the slots `P` before it and `Q`
behind it. Behind a set that goes on in the next cluster it leaves out the rest of that cluster. -/
inductive Meets : List (List Slot) → List Slot → EntrySet → List Slot → Prop
  | here (A : List Segment) (e : EntrySet) (rest : List Slot) (more : List (List Slot)) :
      Meets ((A.flatMap Segment.slots ++ (e.longs ++ e.short :: rest)) :: more) (A.flatMap Segment.slots) e
        (rest ++ more.flatten)
  | straddling (A : List Segment) {tail : List Slot} (htail : ∀ s ∈ tail, s.Long) (hne : tail ≠ [])
      (e : EntrySet) (rest : List Slot) (more : List (List Slot)) :
      Meets ((A.flatMap Segment.slots ++ tail) :: (e.longs ++ e.short :: rest) :: more)
        (A.flatMap Segment.slots) (e.join tail htail) (rest ++ more.flatten)
  | pass (A : List Segment) {more P e Q} (h : Meets more P e Q) :
      Meets (A.flatMap Segment.slots :: more) (A.flatMap Segment.slots ++ P) e Q
  | passStraddling (A : List Segment) {tail : List Slot} (htail : ∀ s ∈ tail, s.Long) (hne : tail ≠ [])
      (e : EntrySet) (rest : List Slot) {more P e' Q} (h : Meets more P e' Q) :
      Meets ((A.flatMap Segment.slots ++ tail) :: (e.longs ++ e.short :: rest) :: more)
        (A.flatMap Segment.slots ++ tail ++ (e.longs ++ e.short :: rest) ++ P) e' Q

/-- The set and what is around it are all the slots. -/
lemma Meets.flatten {clusters : List (List Slot)} {P Q : List Slot} {e : EntrySet} (h : Meets clusters P e Q) :
    clusters.flatten = P ++ (e.longs ++ e.short :: Q) := by
  induction h with
  | here A e rest more => simp
  | straddling A htail hne e rest more => simp [EntrySet.join]
  | pass A h ih => rw [List.flatten_cons, ih, List.append_assoc]
  | passStraddling A htail hne e rest h ih =>
    rw [List.flatten_cons, List.flatten_cons, ih]
    simp only [List.append_assoc]

end Meeting

section Erasing
variable {δ : Type} [Disk δ] {v : FAT32 δ} {filename : List UCHAR}

/-- On the disk `d` the slots of the set `e` of the directory with the clusters `cs` are zeroed; it has
the name, and nothing else has changed. -/
structure Erases (v : FAT32 δ) (filename : List UCHAR) (cs : List ℕ) (e : EntrySet) (d : δ) : Prop where
  named : e.Named v.junk filename
  puts : PutsIn v.geometry cs v.disk d
  kept : ∀ c, c ∉ cs → content v.geometry d c = v.clusters c
  zeroed : ∃ P Q, cs.flatMap v.dirSlots = P ++ (e.longs ++ e.short :: Q) ∧
    cs.flatMap (fun c => slots v.geometry (content v.geometry d c)) =
      P ++ (List.replicate (e.longs.length + 1) zeroSlot ++ Q)

/-- The same for a set that the walk meets, with what is around it. -/
structure ErasesAt (v : FAT32 δ) (filename : List UCHAR) (cs : List ℕ) (P : List Slot) (e : EntrySet)
    (Q : List Slot) (d : δ) : Prop where
  named : e.Named v.junk filename
  puts : PutsIn v.geometry cs v.disk d
  kept : ∀ c, c ∉ cs → content v.geometry d c = v.clusters c
  meets : Meets (cs.map v.dirSlots) P e Q
  zeroed : cs.flatMap (fun c => slots v.geometry (content v.geometry d c)) =
    P ++ (List.replicate (e.longs.length + 1) zeroSlot ++ Q)

lemma ErasesAt.erases {cs : List ℕ} {P Q : List Slot} {e : EntrySet} {d : δ}
    (h : ErasesAt v filename cs P e Q d) : Erases v filename cs e d :=
  ⟨h.named, h.puts, h.kept, P, Q, h.meets.flatten, h.zeroed⟩

/-- Clusters that are not written keep their slots. -/
lemma flatMap_kept {cs l : List ℕ} {d : δ} (hkept : ∀ c, c ∉ cs → content v.geometry d c = v.clusters c)
    (hl : ∀ c ∈ l, c ∉ cs) :
    l.flatMap (fun c => slots v.geometry (content v.geometry d c)) = l.flatMap v.dirSlots := by
  refine List.flatMap_congr fun c hc => ?_
  rw [hkept c (hl c hc)]
  rfl

/-- The walk has passed further clusters. -/
lemma ErasesAt.behind {p cs : List ℕ} {P Q : List Slot} {e : EntrySet} {d : δ}
    (h : ErasesAt v filename cs P e Q d) (hp : ∀ c ∈ p, c ∉ cs)
    (hpass : Meets (cs.map v.dirSlots) P e Q → Meets ((p ++ cs).map v.dirSlots) (p.flatMap v.dirSlots ++ P) e Q) :
    ErasesAt v filename (p ++ cs) (p.flatMap v.dirSlots ++ P) e Q d := by
  refine ⟨h.named, h.puts.mono fun c hc => by simp [hc], fun c hc => h.kept c fun hcs => hc (by simp [hcs]),
    hpass h.meets, ?_⟩
  rw [List.flatMap_append, flatMap_kept h.kept hp, h.zeroed, List.append_assoc]

variable (store : ClusterStore v.geometry δ) {chainFuel : ℕ} {w : FAT32 δ}
include store

/-- A set that lies in the cluster `c` has been erased. -/
lemma deleteSet_erases {c : ℕ} (hc : v.geometry.HasCluster c) {A : List Segment} {B : List Slot} {e : EntrySet}
    (hnamed : e.Named v.junk filename) (hslots : v.dirSlots c = A.flatMap Segment.slots ++ (e.longs ++ e.short :: B))
    {q : List ℕ} (hq : c ∉ q) (h : deleteSet chainFuel v c (A.flatMap Segment.slots) B e = .ok w) :
    ∃ d, ErasesAt v filename (c :: q) (A.flatMap Segment.slots) e (B ++ q.flatMap v.dirSlots) d ∧
      fatZeroFatChain chainFuel { v with disk := d } e.short.fields.2.1 = .ok w := by
  obtain ⟨d, hput, hzero⟩ := bind_eq_ok.mp h
  have hlen : (A.flatMap Segment.slots ++ List.replicate (e.longs.length + 1) zeroSlot ++ B).length =
      v.geometry.dirsPerCluster := by
    have hlength : (v.dirSlots c).length = v.geometry.dirsPerCluster := length_slots _
    rw [hslots] at hlength
    rw [← hlength]
    simp only [List.length_append, List.length_replicate, List.length_cons]
    omega
  obtain ⟨d', hput', hcontent⟩ := store.put v.disk
    (slotBytes (A.flatMap Segment.slots ++ List.replicate (e.longs.length + 1) zeroSlot ++ B)) c hc
  obtain rfl := Except.ok.inj (hput.symm.trans hput')
  have hkept : ∀ x, x ∉ [c] → content v.geometry d x = v.clusters x := by
    intro x hx
    rw [hcontent, Function.update_of_ne (by simpa using hx)]
    rfl
  refine ⟨d, ⟨hnamed, .put .refl (by simp) hput, fun x hx => hkept x fun hxc => hx (by simp_all), ?_, ?_⟩, hzero⟩
  · rw [List.map_cons, hslots]
    exact Meets.here A e B _
  · rw [List.flatMap_cons, flatMap_kept hkept fun x hx => by simpa using ne_of_mem_of_not_mem hx hq, hcontent,
      Function.update_self, slots_cut_slotBytes hlen]
    simp only [List.append_assoc]

/-- A set of which the slots `tail` lie in the cluster `c`, and the slots of `e` in the cluster
`second`. -/
lemma deleteStraddling_erases {c second : ℕ} (hc : v.geometry.HasCluster c)
    (hsecond : v.geometry.HasCluster second) (hne : c ≠ second) {A : List Segment} {tail rest : List Slot}
    (htail : ∀ s ∈ tail, s.Long) (hnil : tail ≠ []) {e : EntrySet} (hnamed : (e.join tail htail).Named v.junk filename)
    (hslots : v.dirSlots c = A.flatMap Segment.slots ++ tail)
    (hslots' : v.dirSlots second = e.longs ++ e.short :: rest) {q : List ℕ} (hq : ∀ x ∈ q, x ∉ [c, second])
    (h : deleteStraddling chainFuel v c second (A.flatMap Segment.slots) tail rest e = .ok w) :
    ∃ d, ErasesAt v filename (c :: second :: q) (A.flatMap Segment.slots) (e.join tail htail)
        (rest ++ q.flatMap v.dirSlots) d ∧
      fatZeroFatChain chainFuel { v with disk := d } e.short.fields.2.1 = .ok w := by
  obtain ⟨d₁, hput₁, h⟩ := bind_eq_ok.mp h
  obtain ⟨d₂, hput₂, hzero⟩ := bind_eq_ok.mp h
  obtain ⟨d₁', hput₁', hcontent₁⟩ := store.put v.disk
    (slotBytes (A.flatMap Segment.slots ++ List.replicate tail.length zeroSlot)) c hc
  obtain rfl := Except.ok.inj (hput₁.symm.trans hput₁')
  obtain ⟨d₂', hput₂', hcontent₂⟩ := store.put d₁
    (slotBytes (List.replicate (e.longs.length + 1) zeroSlot ++ rest)) second hsecond
  obtain rfl := Except.ok.inj (hput₂.symm.trans hput₂')
  have hlen : (A.flatMap Segment.slots ++ List.replicate tail.length zeroSlot).length =
      v.geometry.dirsPerCluster := by
    have hlength : (v.dirSlots c).length = v.geometry.dirsPerCluster := length_slots _
    rw [hslots] at hlength
    rw [← hlength, List.length_append, List.length_append, List.length_replicate]
  have hlen' : (List.replicate (e.longs.length + 1) zeroSlot ++ rest).length =
      v.geometry.dirsPerCluster := by
    have hlength : (v.dirSlots second).length = v.geometry.dirsPerCluster := length_slots _
    rw [hslots'] at hlength
    simp at hlength ⊢
    omega
  have hkept : ∀ x, x ∉ [c, second] → content v.geometry d₂ x = v.clusters x := by
    intro x hx
    obtain ⟨hxc, hxs⟩ : x ≠ c ∧ x ≠ second := by simpa using hx
    rw [hcontent₂, Function.update_of_ne hxs, hcontent₁, Function.update_of_ne hxc]
    rfl
  refine ⟨d₂, ⟨hnamed, .put (.put .refl (by simp) hput₁) (by simp) hput₂,
    fun x hx => hkept x fun hxc => hx (by simp_all), ?_, ?_⟩, hzero⟩
  · rw [List.map_cons, List.map_cons, hslots, hslots']
    exact Meets.straddling A htail hnil e rest _
  · have hzeros : List.replicate ((e.join tail htail).longs.length + 1) zeroSlot =
        List.replicate tail.length zeroSlot ++ List.replicate (e.longs.length + 1) zeroSlot := by
      rw [List.replicate_append_replicate]
      congr 1
      simp [EntrySet.join]
      omega
    rw [List.flatMap_cons, List.flatMap_cons, flatMap_kept hkept hq]
    simp only [hcontent₂, hcontent₁, Function.update_self, Function.update_of_ne hne]
    rw [slots_cut_slotBytes hlen, slots_cut_slotBytes hlen', hzeros]
    simp only [List.append_assoc]

/-- A call that returns has deleted a set that the walk meets, or changed nothing. -/
theorem deleteFrom_erasesAt {fuel cluster : ℕ} {cs : List ℕ} (hwalk : WalkChain v cluster cs) {b : Bool}
    (hstream : Stream b (cs.flatMap v.dirSlots))
    (h : deleteFrom chainFuel v filename fuel cluster = .ok w) : w = v ∨ ∃ P e Q d,
      ErasesAt v filename cs P e Q d ∧
        fatZeroFatChain chainFuel { v with disk := d } e.short.fields.2.1 = .ok w := by
  have reads := store.get v.disk
  induction fuel generalizing cluster cs b with
  | zero => cases h
  | succ fuel ih =>
    -- what follows a cluster, in which the walk has found nothing
    have hgo : ∀ {c : ℕ} {p l : List ℕ} {b : Bool}, WalkChain v c (c :: l) → cs = p ++ l → cs.Nodup →
        (∀ {P e Q}, Meets (l.map v.dirSlots) P e Q →
          Meets ((p ++ l).map v.dirSlots) (p.flatMap v.dirSlots ++ P) e Q) →
        Stream b (l.flatMap v.dirSlots) →
        (if EOC ≤ fatGetNextClusterID v c then .ok v
          else deleteFrom chainFuel v filename fuel (fatGetNextClusterID v c)) = .ok w →
        w = v ∨ ∃ P e Q d, ErasesAt v filename cs P e Q d ∧
          fatZeroFatChain chainFuel { v with disk := d } e.short.fields.2.1 = .ok w := by
      intro c p l b hc hcs hnodup hpass hl hrun
      rcases hc.step with ⟨hstop, -⟩ | ⟨hgo, hnext⟩
      · rw [if_pos hstop] at hrun
        exact .inl (Except.ok.inj hrun).symm
      · rw [if_neg hgo] at hrun
        refine (ih hnext hl hrun).imp_right fun ⟨P, e, Q, d, herases, hzero⟩ =>
          ⟨p.flatMap v.dirSlots ++ P, e, Q, d, ?_, hzero⟩
        rw [hcs] at hnodup ⊢
        exact herases.behind (fun x hx hxl => (List.nodup_append.mp hnodup).2.2 x hx x hxl rfl) hpass
    have hnodup := hwalk.links.nodup
    obtain ⟨cs, rfl⟩ := hwalk.links.eq_cons
    have hc := hwalk.head
    obtain ⟨segs, tail, b', hsplit, htail, -, hrest, hin, -⟩ :=
      (show Stream b (v.dirSlots cluster ++ cs.flatMap v.dirSlots) from hstream).split
    have hnotMem : cluster ∉ cs := (List.nodup_cons.mp hnodup).1
    by_cases hhere : ∃ e ∈ segs.filterMap Segment.entry?, e.Named v.junk filename
    · obtain ⟨A, e, B, rfl, hnamed, hother⟩ := split_at_named hhere
      have hslots : v.dirSlots cluster = A.flatMap Segment.slots ++
          (e.longs ++ e.short :: (B.flatMap Segment.slots ++ tail)) := by
        rw [hsplit]
        simp [Segment.slots]
      rw [deleteFrom_here chainFuel reads hc hslots hnamed hother] at h
      obtain ⟨d, herases, hzero⟩ := deleteSet_erases store hc hnamed hslots hnotMem h
      exact .inr ⟨_, e, _, d, herases, hzero⟩
    have hother : ∀ e ∈ segs.filterMap Segment.entry?, ¬ e.Named v.junk filename :=
      fun e he hnamed => hhere ⟨e, he, hnamed⟩
    by_cases htl : tail = []
    · rw [htl, List.append_nil] at hsplit
      rw [deleteFrom_pass chainFuel reads hc hsplit hother] at h
      refine hgo hwalk (p := [cluster]) rfl hnodup (fun hmeets => ?_) hrest h
      rw [List.singleton_append, List.map_cons, List.flatMap_singleton, hsplit]
      exact .pass segs hmeets
    · rw [hin htl] at hrest
      obtain ⟨cs', rfl, hchain⟩ := hwalk.goes_on hrest
      rw [List.flatMap_cons] at hrest
      rcases hrest.second with hlongs | ⟨e, after, b'', hslots', hmore⟩
      · rw [deleteFrom_fault reads hc hchain.head chainFuel htail htl hsplit hother hlongs] at h
        cases h
      · obtain ⟨hfound, hpassed⟩ := deleteFrom_straddle reads hc hchain.head chainFuel htail htl hsplit
          hother e hslots' fuel
        by_cases hnamed : (e.join tail htail).Named v.junk filename
        · rw [hfound hnamed] at h
          have hne : cluster ≠ fatGetNextClusterID v cluster := fun heq => hnotMem (by simp [← heq])
          have hsecond := (List.nodup_cons.mp (List.nodup_cons.mp hnodup).2).1
          have hq : ∀ x ∈ cs', x ∉ [cluster, fatGetNextClusterID v cluster] := by
            intro x hx
            have hxc : x ≠ cluster := fun hxc => hnotMem (hxc ▸ List.mem_cons_of_mem _ hx)
            simpa using ⟨hxc, ne_of_mem_of_not_mem hx hsecond⟩
          obtain ⟨d, herases, hzero⟩ := deleteStraddling_erases store hc hchain.head hne htail htl hnamed
            hsplit hslots' hq h
          exact .inr ⟨_, e.join tail htail, _, d, herases, hzero⟩
        · rw [hpassed hnamed] at h
          refine hgo hchain (p := [cluster, fatGetNextClusterID v cluster]) rfl hnodup (fun hmeets => ?_) hmore h
          have hslots : [cluster, fatGetNextClusterID v cluster].flatMap v.dirSlots =
              segs.flatMap Segment.slots ++ tail ++ (e.longs ++ e.short :: after) := by
            rw [List.flatMap_cons, List.flatMap_singleton, hsplit, hslots']
          rw [hslots, List.cons_append, List.singleton_append, List.map_cons, List.map_cons, hsplit, hslots']
          exact .passStraddling segs htail htl e after hmeets

/-- A call that returns has deleted a set of the directory, or changed nothing. -/
theorem deleteFrom_erases {fuel cluster : ℕ} {cs : List ℕ} (hwalk : WalkChain v cluster cs) {b : Bool}
    (hstream : Stream b (cs.flatMap v.dirSlots))
    (h : deleteFrom chainFuel v filename fuel cluster = .ok w) : w = v ∨ ∃ e d,
      Erases v filename cs e d ∧
        fatZeroFatChain chainFuel { v with disk := d } e.short.fields.2.1 = .ok w :=
  (deleteFrom_erasesAt store hwalk hstream h).imp_right fun ⟨_, e, _, d, herases, hzero⟩ =>
    ⟨e, d, herases.erases, hzero⟩

end Erasing
end Open98.Fat32
