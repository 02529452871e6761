import Open98.Fat32.DirectoryWalks
import Open98.Fat32.SlotSearch

/-! `FatPopulateDir` on a directory whose slots are arbitrary: which clusters it loads, and which entries
it counts without having read them. -/
namespace Open98.Fat32
open Open98.Library Open98.Ata

section Walk
variable (v : FAT32 Drive)

/-- From the cluster `c` on, the inner loop gets to these slots, with `cluster` as its cluster. -/
inductive Inner (c : ℕ) : (entry : List Slot) → (cluster : ℕ) → Prop
  | load {root} (h : fatGetSlots v c = .ok root) : Inner c root c
  | free {s rest cluster} (at_ : Inner c (s :: rest) cluster) (hs : s.Free) : Inner c rest cluster
  | read {s rest cluster d next more second} (at_ : Inner c (s :: rest) cluster) (hs : ¬ s.Free)
      (h : fatNextDirectoryEntry v cluster (s :: rest) = .ok (d, next, more, second)) :
      Inner c (next.take (next.length - more.length)) (if second ≠ 0 then second else cluster)

/-- The outer loop gets to a cluster. -/
inductive Outer (start : ℕ) : ℕ → Prop
  | start : Outer start start
  | next {c cluster} (h : Outer start c) (inner : Inner v c [] cluster)
      (hgo : ¬ EOC ≤ fatGetNextClusterID v cluster) : Outer start (fatGetNextClusterID v cluster)

/-- `FatGetCluster` is called for a cluster: by the outer loop, or because an entry could not be read. -/
inductive Loaded (start : ℕ) : ℕ → Prop
  | outer {c} (h : Outer v start c) : Loaded start c
  | second {c s rest cluster} (h : Outer v start c) (inner : Inner v c (s :: rest) cluster) (hs : ¬ s.Free)
      (hread : fatReadDirectoryEntry v.junk (s :: rest) = none) : Loaded start (fatGetNextClusterID v cluster)

/-- Every entry that is counted has been read, with the walk pointer in the buffer behind it, and every
cluster that is loaded is one of the volume. -/
structure ReadsAll (start : ℕ) : Prop where
  filled : ∀ c s rest cluster, Outer v start c → Inner v c (s :: rest) cluster → ¬ s.Free →
    ∃ d next more second, fatNextDirectoryEntry v cluster (s :: rest) = .ok (d, next, more, second) ∧
      next <:+ s :: rest ++ more
  loaded : ∀ c, Loaded v start c → c < EOC

end Walk

section Open
variable {l front : List Slot}

/-- A slot in use from which only long-name slots follow. -/
def LeavesOpen (slots : List Slot) : Prop :=
  ∃ front s rest, slots = front ++ s :: rest ∧ ¬ s.Free ∧ ∀ t ∈ s :: rest, t 11 = LFN

lemma leavesOpen_free {s : Slot} (hs : s.Free) : LeavesOpen (s :: l) ↔ LeavesOpen l := by
  constructor
  · rintro ⟨front, t, rest, heq, ht, hlong⟩
    cases front with
    | nil => exact absurd ((List.cons.inj heq).1 ▸ hs) ht
    | cons x front => exact ⟨front, t, rest, (List.cons.inj heq).2, ht, hlong⟩
  · rintro ⟨front, t, rest, heq, ht, hlong⟩
    exact ⟨s :: front, t, rest, by rw [heq]; rfl, ht, hlong⟩

/-- What stands in front of a short slot does not matter. -/
lemma leavesOpen_short {s : Slot} (hs : s 11 ≠ LFN) : LeavesOpen (front ++ s :: l) ↔ LeavesOpen l := by
  constructor
  · rintro ⟨front', t, rest, heq, ht, hlong⟩
    rcases List.append_eq_append_iff.mp heq with ⟨a, rfl, ha⟩ | ⟨a, rfl, ha⟩
    · cases a with
      | nil => exact absurd (hlong s (by rw [← List.nil_append (t :: rest), ← ha]; simp)) hs
      | cons x a => exact ⟨a, t, rest, (List.cons.inj ha).2, ht, hlong⟩
    · exact absurd (hlong s (by rw [ha]; simp)) hs
  · rintro ⟨front', t, rest, heq, ht, hlong⟩
    exact ⟨front ++ s :: front', t, rest, by rw [heq]; simp, ht, hlong⟩

lemma not_leavesOpen_nil : ¬ LeavesOpen [] := by
  rintro ⟨front, s, rest, heq, -⟩
  cases front <;> cases heq

end Open

section Calls
variable {v : FAT32 Drive} {c k start : ℕ} {part : List Slot}

/-- All that `FatNextDirectoryEntry` can do. -/
lemma fatNextDirectoryEntry_ends (v : FAT32 Drive) (k : ℕ) {s : Slot} (hs : ¬ s.Free) (rest : List Slot) :
    (∃ d front x next, fatNextDirectoryEntry v k (s :: rest) = .ok (d, next, [], 0) ∧
      s :: rest = front ++ x :: next ∧ x 11 ≠ LFN) ∨
    ((∀ t ∈ s :: rest, t 11 = LFN) ∧ fatReadDirectoryEntry v.junk (s :: rest) = none ∧
      ∃ more, fatGetSlots v (fatGetNextClusterID v k) = .ok more ∧
        ((∃ d next, fatNextDirectoryEntry v k (s :: rest) = .ok (d, next, more, fatGetNextClusterID v k) ∧
            next <:+ s :: rest ++ more ∧ next.length < more.length ∧ ∃ t ∈ more, t 11 ≠ LFN) ∨
          fatNextDirectoryEntry v k (s :: rest) = .error .nullPointer ∧ ∀ t ∈ more, t 11 = LFN)) := by
  rw [fatNextDirectoryEntry]
  rcases fatReadDirectoryEntry_ends v.junk hs rest with ⟨d, front, x, next, hread, heq, hx⟩ | ⟨hread, hlong⟩
  · rw [hread]
    exact .inl ⟨d, front, x, next, rfl, heq, hx⟩
  · obtain ⟨more, hmore⟩ := fatGetSlots_returns v (fatGetNextClusterID v k)
    rw [hread]
    dsimp only
    rw [hmore, ok_bind]
    refine .inr ⟨hlong, rfl, more, rfl, ?_⟩
    rw [List.cons_append]
    rcases fatReadDirectoryEntry_ends v.junk hs (rest ++ more) with ⟨d, front, x, next, hagain, heq, hx⟩ | ⟨hagain, hall⟩
    · rw [hagain]
      refine .inl ⟨d, next, rfl, ⟨front ++ [x], by rw [heq]; simp⟩, ?_⟩
      rw [← List.cons_append] at heq
      have hbehind : ∃ a, more = a ++ x :: next := by
        rcases List.append_eq_append_iff.mp heq with ⟨a, -, ha⟩ | ⟨a, ha, hb⟩
        · exact ⟨a, ha⟩
        · cases a with
          | nil => exact ⟨[], hb.symm⟩
          | cons y a => exact absurd (hlong x (by rw [ha, ← (List.cons.inj hb).1]; simp)) hx
      obtain ⟨a, rfl⟩ := hbehind
      exact ⟨by rw [List.length_append, List.length_cons]; omega, x, by simp, hx⟩
    · rw [hagain]
      exact .inr ⟨rfl, fun t ht => hall t (by simp [ht])⟩

lemma fatNextDirectoryEntry_lt {s : Slot} (hs : ¬ s.Free) {rest next more : List Slot} {d : DirectoryEntry} {second : ℕ}
    (h : fatNextDirectoryEntry v k (s :: rest) = .ok (d, next, more, second)) :
    (next.take (next.length - more.length)).length < (s :: rest).length := by
  rw [List.length_take]
  rcases fatNextDirectoryEntry_ends v k hs rest with ⟨d', front, x, next', hread, heq, -⟩ |
    ⟨-, -, more', -, ⟨d', next', hread, -, hlt, -⟩ | ⟨hfault, -⟩⟩
  · obtain ⟨rfl, rfl, rfl, rfl⟩ : d = d' ∧ next = next' ∧ more = [] ∧ second = 0 := by simpa using h.symm.trans hread
    rw [heq, List.length_append, List.length_cons]
    omega
  · obtain ⟨rfl, rfl, rfl, rfl⟩ : d = d' ∧ next = next' ∧ more = more' ∧ second = fatGetNextClusterID v k := by
      simpa using h.symm.trans hread
    rw [List.length_cons]
    omega
  · cases h.symm.trans hfault

/-- The cluster from which the walk goes on behind the cluster `c`: the next one if that is loaded for an
entry that `c` leaves open. -/
inductive GoesOn (v : FAT32 Drive) (c : ℕ) : ℕ → Prop
  | here {root} (h : fatGetSlots v c = .ok root) (hclosed : ¬ LeavesOpen root) : GoesOn v c c
  | beyond {root} (h : fatGetSlots v c = .ok root) (hopen : LeavesOpen root) :
      GoesOn v c (if fatGetNextClusterID v c ≠ 0 then fatGetNextClusterID v c else c)

/-- The clusters of a chain at which the walk looks first. -/
inductive Visits (v : FAT32 Drive) (start : ℕ) : ℕ → Prop
  | start : Visits v start start
  | next {c k : ℕ} (h : Visits v start c) (goes : GoesOn v c k) (hgo : ¬ EOC ≤ fatGetNextClusterID v k) :
      Visits v start (fatGetNextClusterID v k)

/-- An entry that a visited cluster leaves open ends in the next one. -/
def Completed (v : FAT32 Drive) (start : ℕ) : Prop :=
  ∀ c root, Visits v start c → fatGetSlots v c = .ok root → LeavesOpen root →
    fatGetNextClusterID v c < EOC ∧ ∃ more, fatGetSlots v (fatGetNextClusterID v c) = .ok more ∧ ∃ t ∈ more, t 11 ≠ LFN

lemma GoesOn.unique {k' : ℕ} (h : GoesOn v c k) (h' : GoesOn v c k') : k = k' := by
  cases h with
  | here hroot hclosed =>
    cases h' with
    | here _ _ => rfl
    | beyond hroot' hopen => exact absurd (Except.ok.inj (hroot'.symm.trans hroot) ▸ hopen) hclosed
  | beyond hroot hopen =>
    cases h' with
    | here hroot' hclosed => exact absurd (Except.ok.inj (hroot.symm.trans hroot') ▸ hopen) hclosed
    | beyond _ _ => rfl

/-- Where the inner loop can be: in the cluster, which leaves as much open as what is left of it, or behind
an entry that has been read with the next cluster. -/
lemma Inner.place (h : Inner v c part k) : ∃ root, fatGetSlots v c = .ok root ∧
    ((k = c ∧ (LeavesOpen root ↔ LeavesOpen part)) ∨ (part = [] ∧ LeavesOpen root ∧
      k = if fatGetNextClusterID v c ≠ 0 then fatGetNextClusterID v c else c)) := by
  induction h with
  | load hroot => exact ⟨_, hroot, .inl ⟨rfl, Iff.rfl⟩⟩
  | free _ hs ih =>
    obtain ⟨root, hroot, ⟨rfl, hopen⟩ | ⟨hnil, -⟩⟩ := ih
    · exact ⟨root, hroot, .inl ⟨rfl, hopen.trans (leavesOpen_free hs)⟩⟩
    · cases hnil
  | @read s rest cluster d next more second _ hs hcall ih =>
    obtain ⟨root, hroot, ⟨rfl, hopen⟩ | ⟨hnil, -⟩⟩ := ih
    · refine ⟨root, hroot, ?_⟩
      rcases fatNextDirectoryEntry_ends v cluster hs rest with ⟨d', front, x, next', hread, heq, hx⟩ |
        ⟨hlong, -, more', -, ⟨d', next', hread, -, hlt, -⟩ | ⟨hfault, -⟩⟩
      · obtain ⟨rfl, rfl, rfl, rfl⟩ : d = d' ∧ next = next' ∧ more = [] ∧ second = 0 := by
          simpa using hcall.symm.trans hread
        refine .inl ⟨rfl, hopen.trans ?_⟩
        rw [List.length_nil, Nat.sub_zero, List.take_length, heq]
        exact leavesOpen_short hx
      · obtain ⟨rfl, rfl, rfl, rfl⟩ : d = d' ∧ next = next' ∧ more = more' ∧ second = fatGetNextClusterID v cluster := by
          simpa using hcall.symm.trans hread
        refine .inr ⟨by rw [Nat.sub_eq_zero_of_le hlt.le, List.take_zero], hopen.mpr ⟨[], s, rest, rfl, hs, hlong⟩, rfl⟩
      · cases hcall.symm.trans hfault
    · cases hnil

lemma Inner.goesOn (h : Inner v c [] k) : GoesOn v c k := by
  obtain ⟨root, hroot, ⟨rfl, hopen⟩ | ⟨-, hopen, rfl⟩⟩ := h.place
  · exact .here hroot fun hleft => not_leavesOpen_nil (hopen.mp hleft)
  · exact .beyond hroot hopen

lemma Outer.visits (h : Outer v start c) : Visits v start c := by
  induction h with
  | start => exact .start
  | next _ inner hgo ih => exact .next ih inner.goesOn hgo

/-- While every call returns, the inner loop gets to its end. -/
lemma ReadsAll.ends (h : ReadsAll v start) (outer : Outer v start c) (inner : Inner v c part k) :
    ∃ k', Inner v c [] k' := by
  induction hn : part.length using Nat.strong_induction_on generalizing part k with
  | _ n ih =>
    cases part with
    | nil => exact ⟨k, inner⟩
    | cons s rest =>
      rw [List.length_cons] at hn
      by_cases hs : s.Free
      · exact ih rest.length (by omega) (.free inner hs) rfl
      · obtain ⟨d, next, more, second, hcall, -⟩ := h.filled c s rest k outer inner hs
        exact ih _ (hn ▸ fatNextDirectoryEntry_lt hs hcall) (.read inner hs hcall) rfl

lemma ReadsAll.outer (h : ReadsAll v start) (visits : Visits v start c) : Outer v start c := by
  induction visits with
  | start => exact .start
  | next _ goes hgo ih =>
    obtain ⟨root, hroot⟩ := fatGetSlots_returns v _
    obtain ⟨k', inner⟩ := h.ends ih (.load hroot)
    obtain rfl := goes.unique inner.goesOn
    exact .next ih inner hgo

/-- The inner loop gets to the entry that is left open. -/
lemma Inner.meets (inner : Inner v c part c) (hopen : LeavesOpen part) :
    ∃ s rest, Inner v c (s :: rest) c ∧ ¬ s.Free ∧ ∀ t ∈ s :: rest, t 11 = LFN := by
  induction hn : part.length using Nat.strong_induction_on generalizing part with
  | _ n ih =>
    cases part with
    | nil => exact absurd hopen not_leavesOpen_nil
    | cons s rest =>
      rw [List.length_cons] at hn
      by_cases hs : s.Free
      · exact ih rest.length (by omega) (.free inner hs) ((leavesOpen_free hs).mp hopen) rfl
      · rcases fatNextDirectoryEntry_ends v c hs rest with ⟨d, front, x, next, hread, heq, hx⟩ | ⟨hlong, -⟩
        · have hinner := Inner.read inner hs hread
          have hlt := fatNextDirectoryEntry_lt hs hread
          simp only [List.length_nil, Nat.sub_zero, List.take_length, ne_eq, not_true_eq_false, if_false] at hinner hlt
          exact ih next.length (hn ▸ hlt) hinner ((leavesOpen_short hx).mp (heq ▸ hopen)) rfl
        · exact ⟨s, rest, inner, hs, hlong⟩

/-- Whatever the slots of the directory are, every counted entry has been read and no cluster from `EOC` on
is loaded if and only if each entry that a cluster leaves open ends in the next cluster of the chain. -/
theorem readsAll_iff (hstart : start < EOC) : ReadsAll v start ↔ Completed v start := by
  constructor
  · intro h c root visits hroot hopen
    have outer := h.outer visits
    obtain ⟨s, rest, inner, hs, hlong⟩ := (Inner.load hroot).meets hopen
    obtain ⟨d, next, more, second, hcall, -⟩ := h.filled c s rest c outer inner hs
    rcases fatNextDirectoryEntry_ends v c hs rest with ⟨d', front, x, next', -, heq, hx⟩ |
      ⟨-, hnone, more', hmore, ⟨d', next', -, -, -, hshort⟩ | ⟨hfault, -⟩⟩
    · exact absurd (hlong x (by rw [heq]; simp)) hx
    · exact ⟨h.loaded _ (.second outer inner hs hnone), more', hmore, hshort⟩
    · cases hcall.symm.trans hfault
  · intro h
    have hopens : ∀ c s rest k, Outer v start c → Inner v c (s :: rest) k → ¬ s.Free →
        (∀ t ∈ s :: rest, t 11 = LFN) → k = c ∧ fatGetNextClusterID v c < EOC ∧
          ∃ more, fatGetSlots v (fatGetNextClusterID v c) = .ok more ∧ ∃ t ∈ more, t 11 ≠ LFN := by
      intro c s rest k outer inner hs hlong
      obtain ⟨root, hroot, ⟨rfl, hopen⟩ | ⟨hnil, -⟩⟩ := inner.place
      · exact ⟨rfl, h k root outer.visits hroot (hopen.mpr ⟨[], s, rest, rfl, hs, hlong⟩)⟩
      · cases hnil
    refine ⟨fun c s rest k outer inner hs => ?_, fun c hloaded => ?_⟩
    · rcases fatNextDirectoryEntry_ends v k hs rest with ⟨d, front, x, next, hread, heq, -⟩ |
        ⟨hlong, -, more, hmore, ⟨d, next, hread, hsuffix, -⟩ | ⟨-, hall⟩⟩
      · exact ⟨d, next, [], 0, hread, ⟨front ++ [x], by rw [heq]; simp⟩⟩
      · exact ⟨d, next, more, _, hread, hsuffix⟩
      · obtain ⟨rfl, -, more', hmore', t, ht, hshort⟩ := hopens c s rest k outer inner hs hlong
        obtain rfl := Except.ok.inj (hmore.symm.trans hmore')
        exact absurd (hall t ht) hshort
    · cases hloaded with
      | outer outer =>
        cases outer with
        | start => exact hstart
        | next _ _ hgo => exact Nat.lt_of_not_le hgo
      | second outer inner hs hread =>
        rcases fatReadDirectoryEntry_ends v.junk hs _ with ⟨d, -, -, next, hsome, -⟩ | ⟨-, hlong⟩
        · cases hread.symm.trans hsome
        · obtain ⟨rfl, hlt, -⟩ := hopens _ _ _ _ outer inner hs hlong
          exact hlt

/-- The inner loop of `FatPopulateDir` is at these places only. -/
lemma populateCluster_inner (inner : Inner v c part k) (fuel : ℕ) (entries : List DirectoryEntry) :
    (∀ listed k', populateCluster v fuel part k entries = .ok (listed, k') → Inner v c [] k') ∧
      (populateCluster v fuel part k entries = .error .nullPointer → ∃ s rest k', Inner v c (s :: rest) k' ∧
        ¬ s.Free ∧ fatNextDirectoryEntry v k' (s :: rest) = .error .nullPointer) := by
  induction fuel generalizing part k entries with
  | zero => exact ⟨fun _ _ h => (by cases h), fun h => (by cases h)⟩
  | succ fuel ih =>
    cases part with
    | nil =>
      refine ⟨fun listed k' h => ?_, fun h => by cases h⟩
      obtain ⟨-, rfl⟩ := Prod.mk.inj (Except.ok.inj h)
      exact inner
    | cons s rest =>
      rw [populateCluster]
      by_cases hs : s.Free
      · rw [if_pos hs]
        exact ih (.free inner hs) entries
      · rw [if_neg hs]
        cases hcall : fatNextDirectoryEntry v k (s :: rest) with
        | error fault =>
          refine ⟨fun _ _ h => (by cases h), fun h => ⟨s, rest, k, inner, hs, ?_⟩⟩
          rw [hcall, Except.error.inj h]
        | ok called =>
          obtain ⟨d, next, more, second⟩ := called
          exact ih (.read inner hs hcall) (entries ++ [d])

/-- Then the call does not go on with a null pointer. -/
theorem ReadsAll.populates (h : ReadsAll v start) (fuel : ℕ) : fatPopulateDir fuel v start ≠ .error .nullPointer := by
  have hfrom : ∀ fuel c entries, Outer v start c → populateFrom v fuel c entries ≠ .error .nullPointer := by
    intro fuel
    induction fuel with
    | zero => exact fun _ _ _ hfault => nomatch hfault
    | succ fuel ih =>
      intro c entries outer
      obtain ⟨root, hroot⟩ := fatGetSlots_returns v c
      obtain ⟨hends, hfails⟩ := populateCluster_inner (.load hroot) (root.length + 1) entries
      rw [populateFrom, hroot, ok_bind]
      cases hrun : populateCluster v (root.length + 1) root c entries with
      | error fault =>
        intro hfault
        rw [error_bind] at hfault
        obtain ⟨s, rest, k, inner, hs, hcall⟩ := hfails (by rw [hrun, Except.error.inj hfault])
        obtain ⟨d, next, more, second, hok, -⟩ := h.filled c s rest k outer inner hs
        cases hcall.symm.trans hok
      | ok result =>
        obtain ⟨listed, k⟩ := result
        rw [ok_bind]
        dsimp only
        by_cases hstop : EOC ≤ fatGetNextClusterID v k
        · rw [if_pos hstop]
          simp
        · rw [if_neg hstop]
          exact ih _ _ (.next outer (hends listed k hrun) hstop)
  intro hfault
  exact hfrom fuel start [] .start ((fatPopulateDir_eq_error v start).mp hfault)

end Calls

section Volumes

lemma freshWith_next (d : Drive) : fatGetNextClusterID (freshWith d) 2 = 0x0FFFFFFF :=
  show 0x0FFFFFFF % 2^28 = 0x0FFFFFFF by decide

lemma freshWith_slots (d : Drive) : fatGetSlots (freshWith d) 2 = .ok ((freshWith d).dirSlots 2) :=
  fatGetSlots_ok (small_clusterStore.get d) (show small.HasCluster 2 by decide)

/-- An empty directory. -/
theorem readsAll_iff_empty : ∃ d, (freshWith d).dirSlots 2 = List.replicate 16 zeroSlot ∧ ReadsAll (freshWith d) 2 := by
  obtain ⟨d, hslots⟩ := exists_freshWith (l := List.replicate 16 zeroSlot) List.length_replicate
  have hclosed : ¬ LeavesOpen (List.replicate 16 zeroSlot) := by
    rintro ⟨front, s, rest, heq, hs, -⟩
    have hmem : s ∈ List.replicate 16 zeroSlot := by rw [heq]; simp
    exact hs (List.eq_of_mem_replicate hmem ▸ zeroSlot_free)
  have hvisits : ∀ c, Visits (freshWith d) 2 c → c = 2 := by
    intro c h
    induction h with
    | start => rfl
    | next _ goes hgo ih =>
      subst ih
      cases goes with
      | here => exact absurd (by rw [freshWith_next]; decide) hgo
      | beyond hroot hopen =>
        obtain rfl := Except.ok.inj (hroot.symm.trans (freshWith_slots d))
        exact absurd (hslots ▸ hopen) hclosed
  refine ⟨d, hslots, (readsAll_iff (by decide)).mpr fun c root h hroot hopen => ?_⟩
  obtain rfl := hvisits c h
  obtain rfl := Except.ok.inj (hroot.symm.trans (freshWith_slots d))
  exact absurd (hslots ▸ hopen) hclosed

/-- A long-name slot, as its attributes say. -/
def openSlot : Slot := fun _ => LFN

/-- A long-name slot at the end of the directory makes the call load the end mark of the chain. -/
theorem open_directory_loads_end_mark : ∃ d, (freshWith d).dirSlots 2 = List.replicate 15 zeroSlot ++ [openSlot] ∧
    Loaded (freshWith d) 2 0x0FFFFFFF ∧ ¬ ReadsAll (freshWith d) 2 := by
  obtain ⟨d, hslots⟩ := exists_freshWith (l := List.replicate 15 zeroSlot ++ [openSlot]) (by simp)
  have hopen : LeavesOpen ((freshWith d).dirSlots 2) := by
    rw [hslots]
    exact ⟨List.replicate 15 zeroSlot, openSlot, [], rfl, by decide, fun t ht => List.mem_singleton.mp ht ▸ rfl⟩
  obtain ⟨s, rest, inner, hs, hlong⟩ := (Inner.load (freshWith_slots d)).meets hopen
  have hloaded : Loaded (freshWith d) 2 0x0FFFFFFF := by
    rcases fatReadDirectoryEntry_ends (freshWith d).junk hs rest with ⟨e, front, x, next, -, heq, hx⟩ | ⟨hnone, -⟩
    · exact absurd (hlong x (by rw [heq]; simp)) hx
    · exact freshWith_next d ▸ .second .start inner hs hnone
  exact ⟨d, hslots, hloaded, fun h => absurd (h.loaded _ hloaded) (by decide)⟩

end Volumes

end Open98.Fat32
