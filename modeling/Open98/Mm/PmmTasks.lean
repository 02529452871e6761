import Open98.Library.Ownership
import Open98.Mm.PmmRuns

/-! `pmalloc` and `pmm_free_pages` of `mm/pmm.c` run by several tasks that are preempted at any
point. The scan of `pmalloc` is one step, as under a lock that works; the lock is given back before
the pages are marked, so each `pmm_alloc_page` is a step of its own, and so is each
`pmm_free_page`. -/
namespace Open98.Mm
open Open98.Library

/-- Where a task is in its call: `done` of the `pages` pages have been marked or freed. A task whose
scan found nothing halts. -/
inductive PmmCall
  | idle
  | marking (adr pages done : ℕ)
  | freeing (adr pages done : ℕ)
  | halted
  deriving DecidableEq, Repr

/-- The allocator, and for each task its call and the ranges it has been given and not given back. -/
structure PmmTasks (ι : Type) where
  pmm : Pmm
  call : ι → PmmCall
  live : ι → List PageRange

inductive PmmAction (ι : Type)
  | scan (t : ι) (pages : ℕ)
  | allocPage (t : ι)
  | giveBack (t : ι) (r : PageRange)
  | freePage (t : ι)

namespace PmmTasks
variable {ι : Type}

/-- Nobody has been given a page yet. -/
def start (s : Pmm) : PmmTasks ι := ⟨s, fun _ => .idle, fun _ => []⟩

variable [DecidableEq ι]

def step (m : PmmTasks ι) : PmmAction ι → Option (PmmTasks ι)
  | .scan t pages =>
    match m.call t with
    | .idle =>
      match pmallocScan m.pmm pages 0 m.pmm.pageCount with
      | some i => some { m with call := Function.update m.call t (.marking (i*pageSize) pages 0) }
      | none => some { m with call := Function.update m.call t .halted }
    | _ => none
  | .allocPage t =>
    match m.call t with
    | .marking adr pages done =>
      let pmm := pmmAllocPage m.pmm ((adr + done*pageSize) % addressSpace)
      if done+1 = pages then some {
        pmm := pmm
        call := Function.update m.call t .idle
        live := Function.update m.live t (⟨adr, pages⟩ :: m.live t) }
      else some { m with
        pmm := pmm, call := Function.update m.call t (.marking adr pages (done+1)) }
    | _ => none
  | .giveBack t r =>
    match m.call t with
    | .idle =>
      if r ∈ m.live t then some { m with
        call := Function.update m.call t (.freeing r.adr r.pages 0)
        live := Function.update m.live t ((m.live t).erase r) }
      else none
    | _ => none
  | .freePage t =>
    match m.call t with
    | .freeing adr pages done =>
      let pmm := pmmFreePage m.pmm ((adr + done*pageSize) % addressSpace)
      if done+1 = pages then some { m with pmm := pmm, call := Function.update m.call t .idle }
      else some { m with
        pmm := pmm, call := Function.update m.call t (.freeing adr pages (done+1)) }
    | _ => none

end PmmTasks

/-- The tasks in question ask for one page at a time. -/
def PmmAction.SinglePage {ι : Type} : PmmAction ι → Prop
  | scan _ pages => pages = 1
  | _ => True

/-- No scan finds a page that another task's scan has found and that is not marked yet. -/
def PmmAction.Timely {ι : Type} (m : PmmTasks ι) : PmmAction ι → Prop
  | scan _ _ => ∀ i, FirstFree m.pmm i → ∀ u pages done, m.call u ≠ .marking (i*pageSize) pages done
  | _ => True

namespace PmmTasks
variable {ι : Type}

/-- No two ranges that are live at the same time share a page. -/
structure LiveDisjoint (m : PmmTasks ι) : Prop where
  own : ∀ t, (m.live t).Pairwise PageRange.Disjoint
  apart : ∀ t u, t ≠ u → ∀ r ∈ m.live t, ∀ q ∈ m.live u, r.Disjoint q

end PmmTasks

section Invariant
variable {ι : Type}

/-- The page of a call for a single page. -/
def PmmCall.held : PmmCall → List ℕ
  | marking adr _ _ | freeing adr _ _ => [adr / pageSize]
  | _ => []

def PageRange.firstPage (r : PageRange) : ℕ := r.adr / pageSize

/-- The pages that a task has been promised, owns or is giving back. -/
def PmmTasks.held (m : PmmTasks ι) (t : ι) : List ℕ :=
  (m.call t).held ++ (m.live t).map PageRange.firstPage

/-- The call is for one page of memory. -/
def PmmCall.Single (limit : ℕ) : PmmCall → Prop
  | marking adr pages done | freeing adr pages done =>
    pages = 1 ∧ done = 0 ∧ ∃ p < limit, adr = p*pageSize
  | _ => True

/-- A page of memory as a range of its own. -/
def PageRange.SinglePage (limit : ℕ) (r : PageRange) : Prop := ∃ p < limit, r = ⟨p*pageSize, 1⟩

lemma firstPage_single (p : ℕ) : PageRange.firstPage ⟨p*pageSize, 1⟩ = p :=
  Nat.mul_div_cancel _ (by decide)

lemma covers_single (p k : ℕ) : PageRange.Covers ⟨p*pageSize, 1⟩ k ↔ k = p := by
  have hdiv : p*pageSize / pageSize = p := Nat.mul_div_cancel _ (by decide)
  unfold PageRange.Covers
  rw [hdiv]
  change p ≤ k ∧ k < p+1 ↔ k = p
  omega

/-- Pages that are owned or are being given back are marked used, and nothing is held twice. -/
structure PmmTasks.Owned (m : PmmTasks ι) : Prop where
  call : ∀ t, (m.call t).Single m.pmm.pageCount
  live : ∀ t, ∀ r ∈ m.live t, r.SinglePage m.pmm.pageCount
  liveUsed : ∀ t, ∀ r ∈ m.live t, m.pmm.used r.firstPage = true
  freeingUsed : ∀ t adr pages done, m.call t = .freeing adr pages done →
    m.pmm.used (adr / pageSize) = true
  separate : Separate m.held

end Invariant

section Steps
variable {ι : Type} [DecidableEq ι] {m n : PmmTasks ι} {t : ι}

/-- Every step changes the allocator and one task. -/
def PmmTasks.assign (m : PmmTasks ι) (t : ι) (s : Pmm) (c : PmmCall) (l : List PageRange) : PmmTasks ι :=
  ⟨s, Function.update m.call t c, Function.update m.live t l⟩

lemma PmmTasks.held_assign (s : Pmm) (c : PmmCall) (l : List PageRange) :
    (m.assign t s c l).held = Function.update m.held t (c.held ++ l.map PageRange.firstPage) := by
  funext u
  by_cases hu : u = t
  · subst hu
    simp [held, assign]
  · simp [held, assign, hu]

omit [DecidableEq ι] in
lemma PmmTasks.held_idle (h : m.call t = .idle) :
    m.held t = (m.live t).map PageRange.firstPage := by
  rw [held, h]
  rfl

/-- A scan takes the first free page, or halts the task. -/
lemma PmmTasks.step_scan {pages : ℕ} (hpages : 0 < pages) (h : m.step (.scan t pages) = some n) :
    m.call t = .idle ∧ ((∃ i, FirstFree m.pmm i ∧
      n = m.assign t m.pmm (.marking (i*pageSize) pages 0) (m.live t)) ∨
        n = m.assign t m.pmm .halted (m.live t)) := by
  unfold step at h
  cases hcall : m.call t with
  | idle =>
    simp only [hcall] at h
    refine ⟨rfl, ?_⟩
    simp only [assign, Function.update_eq_self]
    cases hscan : pmallocScan m.pmm pages 0 m.pmm.pageCount with
    | some i =>
      rw [hscan] at h
      obtain ⟨-, hlt, hfree, hfirst⟩ := (pmallocScan_eq_some m.pmm pages hpages _ _ _).mp hscan
      exact .inl ⟨i, ⟨by omega, hfree, fun k hk => hfirst k (Nat.zero_le k) hk⟩,
        (Option.some.inj h).symm⟩
    | none =>
      rw [hscan] at h
      exact .inr (Option.some.inj h).symm
  | marking adr pages done | freeing adr pages done | halted =>
    simp only [hcall, reduceCtorEq] at h

lemma PmmTasks.step_giveBack {r : PageRange} (h : m.step (.giveBack t r) = some n) :
    m.call t = .idle ∧ r ∈ m.live t ∧
      n = m.assign t m.pmm (.freeing r.adr r.pages 0) ((m.live t).erase r) := by
  unfold step at h
  cases hcall : m.call t with
  | idle =>
    simp only [hcall] at h
    split at h
    · exact ⟨rfl, ‹_›, (Option.some.inj h).symm⟩
    · cases h
  | marking adr pages done | freeing adr pages done | halted =>
    simp only [hcall, reduceCtorEq] at h

lemma page_lt {s : Pmm} {p : ℕ} (hp : p < s.pageCount) :
    (p*pageSize + 0*pageSize) % addressSpace = p*pageSize := by
  have hlt := Nat.mul_le_mul_right pageSize hp.le
  have hcount := s.pageCount_lt
  rw [Nat.zero_mul, Nat.add_zero]
  exact Nat.mod_eq_of_lt (by omega)

/-- The page that was found is marked, and the call returns. -/
lemma PmmTasks.step_allocPage (hown : m.Owned) (h : m.step (.allocPage t) = some n) :
    ∃ p < m.pmm.pageCount, m.call t = .marking (p*pageSize) 1 0 ∧
      n = m.assign t (pmmAllocPage m.pmm (p*pageSize)) .idle (⟨p*pageSize, 1⟩ :: m.live t) := by
  have hsingle := hown.call t
  unfold step at h
  cases hcall : m.call t with
  | marking adr pages done =>
    rw [hcall] at hsingle
    obtain ⟨rfl, rfl, p, hp, rfl⟩ := hsingle
    simp only [hcall, Nat.zero_add, if_true, page_lt hp] at h
    exact ⟨p, hp, rfl, (Option.some.inj h).symm⟩
  | idle | freeing adr pages done | halted =>
    simp only [hcall, reduceCtorEq] at h

/-- The page that was given back is freed, and the call returns. -/
lemma PmmTasks.step_freePage (hown : m.Owned) (h : m.step (.freePage t) = some n) :
    ∃ p < m.pmm.pageCount, m.call t = .freeing (p*pageSize) 1 0 ∧
      n = m.assign t (pmmFreePage m.pmm (p*pageSize)) .idle (m.live t) := by
  have hsingle := hown.call t
  unfold step at h
  cases hcall : m.call t with
  | freeing adr pages done =>
    rw [hcall] at hsingle
    obtain ⟨rfl, rfl, p, hp, rfl⟩ := hsingle
    simp only [hcall, Nat.zero_add, if_true, page_lt hp] at h
    simp only [assign, Function.update_eq_self]
    exact ⟨p, hp, rfl, (Option.some.inj h).symm⟩
  | idle | marking adr pages done | halted =>
    simp only [hcall, reduceCtorEq] at h

end Steps

section Preservation
variable {ι : Type} [DecidableEq ι] {m n : PmmTasks ι} {t : ι} (hown : m.Owned)

omit [DecidableEq ι] in
lemma PmmTasks.Owned.start (s : Pmm) : (PmmTasks.start s : PmmTasks ι).Owned where
  call _ := trivial
  live _ _ hr := by cases hr
  liveUsed _ _ hr := by cases hr
  freeingUsed _ _ _ _ h := by cases h
  separate := Separate.empty

include hown

/-- What a step has to provide for the task that makes it, and for the pages of the others. -/
lemma PmmTasks.Owned.assign {s : Pmm} {c : PmmCall} {l : List PageRange}
    (hcount : s.pageCount = m.pmm.pageCount) (hcall : c.Single m.pmm.pageCount)
    (hlive : ∀ r ∈ l, r.SinglePage m.pmm.pageCount ∧ s.used r.firstPage = true)
    (hfreeing : ∀ adr pages done, c = .freeing adr pages done → s.used (adr / pageSize) = true)
    (hothers : ∀ u, u ≠ t → ∀ p ∈ m.held u, m.pmm.used p = true → s.used p = true)
    (hsep : Separate (Function.update m.held t (c.held ++ l.map PageRange.firstPage))) :
    (m.assign t s c l).Owned := by
  refine ⟨fun u => ?_, fun u r hr => ?_, fun u r hr => ?_, fun u adr pages done hu => ?_, ?_⟩
  · change PmmCall.Single s.pageCount (Function.update m.call t c u)
    rw [hcount, Function.update_apply]
    split_ifs
    · exact hcall
    · exact hown.call u
  · change r.SinglePage s.pageCount
    change r ∈ Function.update m.live t l u at hr
    rw [Function.update_apply] at hr
    rw [hcount]
    split_ifs at hr
    · exact (hlive r hr).1
    · exact hown.live u r hr
  · change s.used r.firstPage = true
    change r ∈ Function.update m.live t l u at hr
    by_cases hut : u = t
    · rw [hut, Function.update_self] at hr
      exact (hlive r hr).2
    · rw [Function.update_of_ne hut] at hr
      exact hothers u hut _ (List.mem_append_right _ (List.mem_map_of_mem hr)) (hown.liveUsed u r hr)
  · change s.used (adr / pageSize) = true
    change Function.update m.call t c u = _ at hu
    by_cases hut : u = t
    · rw [hut, Function.update_self] at hu
      exact hfreeing adr pages done hu
    · rw [Function.update_of_ne hut] at hu
      have hmem : adr / pageSize ∈ m.held u := by
        rw [held, hu]
        exact List.mem_append_left _ (List.mem_singleton.mpr rfl)
      exact hothers u hut _ hmem (hown.freeingUsed u adr pages done hu)
  · rw [held_assign]
    exact hsep

omit [DecidableEq ι] in
/-- A free page is held by nobody, unless it is promised. -/
lemma PmmTasks.Owned.notMem_held {p : ℕ} (hfree : m.pmm.used p = false)
    (hpromised : ∀ u pages done, m.call u ≠ .marking (p*pageSize) pages done) (u : ι) :
    p ∉ m.held u := by
  intro hp
  rcases List.mem_append.mp hp with hp | hp
  · cases hcall : m.call u with
    | marking adr pages done =>
      have hsingle := hown.call u
      rw [hcall] at hp hsingle
      obtain ⟨-, -, q, -, rfl⟩ := hsingle
      obtain rfl : p = q := (List.mem_singleton.mp hp).trans (firstPage_single q)
      exact hpromised u pages done hcall
    | freeing adr pages done =>
      rw [hcall] at hp
      have hused := hown.freeingUsed u adr pages done hcall
      rw [← List.mem_singleton.mp hp, hfree] at hused
      cases hused
    | idle | halted =>
      rw [hcall] at hp
      cases hp
  · obtain ⟨r, hr, rfl⟩ := List.mem_map.mp hp
    have hused := hown.liveUsed u r hr
    rw [hfree] at hused
    cases hused

lemma PmmTasks.Owned.scan (hidle : m.call t = .idle) {i : ℕ} (hfirst : FirstFree m.pmm i)
    (htimely : ∀ u pages done, m.call u ≠ .marking (i*pageSize) pages done) :
    (m.assign t m.pmm (.marking (i*pageSize) 1 0) (m.live t)).Owned := by
  refine hown.assign rfl ⟨rfl, rfl, i, hfirst.inside, rfl⟩
    (fun r hr => ⟨hown.live t r hr, hown.liveUsed t r hr⟩) nofun (fun _ _ _ _ h => h) ?_
  have htake := hown.separate.take (t := t) (hown.notMem_held hfirst.free htimely)
  rw [held_idle hidle] at htake
  have hpage : (PmmCall.marking (i*pageSize) 1 0).held = [i] :=
    congrArg (fun p => [p]) (firstPage_single i)
  rw [hpage]
  exact htake

lemma PmmTasks.Owned.halt (hidle : m.call t = .idle) :
    (m.assign t m.pmm .halted (m.live t)).Owned := by
  refine hown.assign rfl trivial (fun r hr => ⟨hown.live t r hr, hown.liveUsed t r hr⟩) nofun
    (fun _ _ _ _ h => h) ?_
  have hsame : PmmCall.halted.held ++ (m.live t).map PageRange.firstPage = m.held t :=
    (held_idle hidle).symm
  rw [hsame, Function.update_eq_self]
  exact hown.separate

lemma PmmTasks.Owned.allocPage {p : ℕ} (hp : p < m.pmm.pageCount)
    (hcall : m.call t = .marking (p*pageSize) 1 0) :
    (m.assign t (pmmAllocPage m.pmm (p*pageSize)) .idle (⟨p*pageSize, 1⟩ :: m.live t)).Owned := by
  have hpage : p*pageSize / pageSize = p := firstPage_single p
  refine hown.assign rfl trivial (fun r hr => ?_) nofun (fun u _ k _ hk => ?_) ?_
  · rcases List.mem_cons.mp hr with rfl | hr
    · exact ⟨⟨p, hp, rfl⟩, by simp [PageRange.firstPage]⟩
    · exact ⟨hown.live t r hr, by simp [hown.liveUsed t r hr]⟩
  · simp [hk]
  · have hsame : PmmCall.idle.held ++ (⟨p*pageSize, 1⟩ :: m.live t).map PageRange.firstPage =
        m.held t := by
      rw [held, hcall]
      rfl
    rw [hsame, Function.update_eq_self]
    exact hown.separate

lemma PmmTasks.Owned.giveBack (hidle : m.call t = .idle) {r : PageRange} (hr : r ∈ m.live t) :
    (m.assign t m.pmm (.freeing r.adr r.pages 0) ((m.live t).erase r)).Owned := by
  obtain ⟨p, hp, hrp⟩ := hown.live t r hr
  have hused := hown.liveUsed t r hr
  refine hown.assign rfl ?_ (fun q hq => ?_) (fun adr pages done h => ?_) (fun _ _ _ _ h => h) ?_
  · rw [hrp]
    exact ⟨rfl, rfl, p, hp, rfl⟩
  · have hq := List.mem_of_mem_erase hq
    exact ⟨hown.live t q hq, hown.liveUsed t q hq⟩
  · cases h
    exact hused
  · -- the pages are the same, with that of the range in front
    have hperm : (r.firstPage :: ((m.live t).erase r).map PageRange.firstPage).Perm (m.held t) := by
      rw [held_idle hidle]
      exact ((List.perm_cons_erase hr).map PageRange.firstPage).symm
    exact hown.separate.keep (hperm.nodup_iff.mpr (hown.separate.nodup t)) hperm.subset

lemma PmmTasks.Owned.freePage {p : ℕ} (hcall : m.call t = .freeing (p*pageSize) 1 0) :
    (m.assign t (pmmFreePage m.pmm (p*pageSize)) .idle (m.live t)).Owned := by
  have hpage : p*pageSize / pageSize = p := firstPage_single p
  have hheld : m.held t = p :: (m.live t).map PageRange.firstPage := by
    rw [held, hcall]
    exact congrArg (· :: _) hpage
  have hnodup := hown.separate.nodup t
  rw [hheld, List.nodup_cons] at hnodup
  refine hown.assign rfl trivial (fun r hr => ⟨hown.live t r hr, ?_⟩) nofun (fun u hut k hk hused => ?_) ?_
  · have hne : r.firstPage ≠ p := fun h => hnodup.1 (h ▸ List.mem_map_of_mem hr)
    simp [hpage, hne, hown.liveUsed t r hr]
  · have hne : k ≠ p := by
      rintro rfl
      exact hown.separate.apart u t hut hk (hheld ▸ List.mem_cons_self)
    simp [hpage, hne, hused]
  · exact hown.separate.keep hnodup.2 (hheld ▸ List.subset_cons_self _ _)

/-- Timely steps keep what is held apart. -/
lemma PmmTasks.Owned.step {a : PmmAction ι} (hsingle : a.SinglePage) (htimely : a.Timely m)
    (h : m.step a = some n) : n.Owned := by
  cases a with
  | scan t pages =>
    obtain rfl : pages = 1 := hsingle
    obtain ⟨hidle, ⟨i, hfirst, rfl⟩ | rfl⟩ := step_scan Nat.one_pos h
    · exact hown.scan hidle hfirst (htimely i hfirst)
    · exact hown.halt hidle
  | allocPage t =>
    obtain ⟨p, hp, hcall, rfl⟩ := step_allocPage hown h
    exact hown.allocPage hp hcall
  | giveBack t r =>
    obtain ⟨hidle, hr, rfl⟩ := step_giveBack h
    exact hown.giveBack hidle hr
  | freePage t =>
    obtain ⟨p, -, hcall, rfl⟩ := step_freePage hown h
    exact hown.freePage hcall

omit [DecidableEq ι] in
/-- Live ranges share no page. -/
lemma PmmTasks.Owned.liveDisjoint : m.LiveDisjoint := by
  have hdisjoint : ∀ {t u r q}, r ∈ m.live t → q ∈ m.live u → r.firstPage ≠ q.firstPage →
      r.Disjoint q := by
    intro t u r q hr hq hne k hk hk'
    obtain ⟨p, -, rfl⟩ := hown.live t r hr
    obtain ⟨p', -, rfl⟩ := hown.live u q hq
    rw [firstPage_single, firstPage_single] at hne
    exact hne (((covers_single p k).mp hk).symm.trans ((covers_single p' k).mp hk'))
  have hmem : ∀ {t r}, r ∈ m.live t → r.firstPage ∈ m.held t := fun hr =>
    List.mem_append_right _ (List.mem_map_of_mem hr)
  refine ⟨fun t => ?_, fun t u htu r hr q hq => hdisjoint hr hq fun heq => ?_⟩
  · have hnodup := (List.nodup_append.mp (hown.separate.nodup t)).2.1
    exact (List.pairwise_map.mp hnodup).imp_of_mem fun hr hq hne => hdisjoint hr hq hne
  · exact hown.separate.apart t u htu (hmem hr) (heq ▸ hmem hq)

end Preservation

section Runs
variable {ι : Type} [DecidableEq ι]

/-- Steps of the tasks, in any order, for single pages. -/
abbrev PmmTasks.Run : PmmTasks ι → List (PmmAction ι) → PmmTasks ι → Prop :=
  GuardedRun (fun _ a => a.SinglePage) step

lemma PmmTasks.step_scan_of_first {m : PmmTasks ι} {t : ι} (hidle : m.call t = .idle) {i : ℕ}
    (hfirst : FirstFree m.pmm i) : m.step (.scan t 1) =
      some (m.assign t m.pmm (.marking (i*pageSize) 1 0) (m.live t)) := by
  have hscan : pmallocScan m.pmm 1 0 m.pmm.pageCount = some i := by
    rw [pmallocScan_eq_some m.pmm 1 Nat.one_pos]
    exact ⟨Nat.zero_le i, by have := hfirst.inside; omega, hfirst.free,
      fun k _ hk => hfirst.first k hk⟩
  simp only [step, hidle, hscan, assign, Function.update_eq_self]

lemma PmmTasks.step_allocPage_of_marking {m : PmmTasks ι} {t : ι} {i : ℕ} (hi : i < m.pmm.pageCount)
    (hcall : m.call t = .marking (i*pageSize) 1 0) : m.step (.allocPage t) =
      some (m.assign t (pmmAllocPage m.pmm (i*pageSize)) .idle (⟨i*pageSize, 1⟩ :: m.live t)) := by
  simp only [step, hcall, page_lt hi, Nat.zero_add, if_true, assign]

/-- After an untimely scan two tasks have been promised the same page; when both have marked it, both
own it. -/
lemma PmmTasks.untimely_scan {m : PmmTasks ι} {t u : ι} (hidle : m.call t = .idle) {i : ℕ}
    (hfirst : FirstFree m.pmm i) (hcall : m.call u = .marking (i*pageSize) 1 0) :
    ∃ n, m.Run [.scan t 1, .allocPage u, .allocPage t] n ∧ ¬ n.LiveDisjoint := by
  have htu : u ≠ t := by
    rintro rfl
    rw [hidle] at hcall
    cases hcall
  have hcall₁ : (m.assign t m.pmm (.marking (i*pageSize) 1 0) (m.live t)).call u =
      .marking (i*pageSize) 1 0 :=
    (Function.update_of_ne htu _ _).trans hcall
  have hmark := step_allocPage_of_marking (by exact hfirst.inside) hcall₁
  have hmark' := step_allocPage_of_marking (t := t) (i := i) (m := PmmTasks.assign
    (m.assign t m.pmm (.marking (i*pageSize) 1 0) (m.live t)) u (pmmAllocPage m.pmm (i*pageSize)) .idle
    (⟨i*pageSize, 1⟩ :: (m.assign t m.pmm (.marking (i*pageSize) 1 0) (m.live t)).live u))
    (by exact hfirst.inside) (by simp [assign, htu.symm])
  refine ⟨_, .cons rfl (step_scan_of_first hidle hfirst) (.cons trivial hmark
    (.cons trivial hmark' (.nil _))), fun hdisjoint => ?_⟩
  refine hdisjoint.apart u t htu ⟨i*pageSize, 1⟩ (by simp [assign, htu]) ⟨i*pageSize, 1⟩
    (by simp [assign]) i ?_ ?_
  · exact (covers_single i i).mpr rfl
  · exact (covers_single i i).mpr rfl

/-- In every run whose scans are all timely no two live ranges share a page; and from a state that
such a run reaches, every scan that is not timely can be followed by steps that make two live ranges
share one. -/
theorem pmalloc_tasks_sound (s : Pmm) (actions : List (PmmAction ι)) (m : PmmTasks ι)
    (h : GuardedRun (fun m a => a.SinglePage ∧ a.Timely m) PmmTasks.step (.start s) actions m) :
    m.LiveDisjoint ∧ ∀ t, m.call t = .idle → ¬ (PmmAction.scan t 1).Timely m →
      ∃ rest n, m.Run rest n ∧ ¬ n.LiveDisjoint := by
  have hown : m.Owned :=
    h.invariant (fun _ _ _ hown ok next => hown.step ok.1 ok.2 next) (.start s)
  refine ⟨hown.liveDisjoint, fun t hidle huntimely => ?_⟩
  simp only [PmmAction.Timely, not_forall, not_not] at huntimely
  obtain ⟨i, hfirst, u, pages, done, hcall⟩ := huntimely
  have hsingle := hown.call u
  rw [hcall] at hsingle
  obtain ⟨rfl, rfl, -⟩ := hsingle
  obtain ⟨n, hrun, hshared⟩ := PmmTasks.untimely_scan hidle hfirst hcall
  exact ⟨_, n, hrun, hshared⟩

/-- One task takes a page and another one takes the next. -/
theorem pmalloc_tasks_sound_two_pages : ∃ m : PmmTasks Bool,
    m.LiveDisjoint ∧ m.live false = [⟨0, 1⟩] ∧ m.call true = .marking (1*pageSize) 1 0 := by
  have hfirst : FirstFree (pmmAllocPage fourFreePages (0*pageSize)) 1 :=
    ⟨by decide, by decide, by decide⟩
  have hscan := PmmTasks.step_scan_of_first (m := .start fourFreePages) (t := false) rfl
    fourFreePages_first
  have hmark := PmmTasks.step_allocPage_of_marking (m := PmmTasks.assign (.start fourFreePages) false
    fourFreePages (.marking (0*pageSize) 1 0) []) (t := false) (i := 0) (by decide) rfl
  have hscan' := PmmTasks.step_scan_of_first (m := PmmTasks.assign (PmmTasks.assign
    (.start fourFreePages) false fourFreePages (.marking (0*pageSize) 1 0) []) false
    (pmmAllocPage fourFreePages (0*pageSize)) .idle [⟨0*pageSize, 1⟩]) (t := true) rfl hfirst
  refine ⟨_, (pmalloc_tasks_sound fourFreePages [.scan false 1, .allocPage false, .scan true 1] _
    (.cons ⟨rfl, nofun⟩ hscan (.cons ⟨trivial, trivial⟩ hmark
      (.cons ⟨rfl, fun i _ u => ?_⟩ hscan' (.nil _))))).1, ?_, rfl⟩
  · cases u <;> exact nofun
  · rfl

/-- Two tasks are both given the first page. -/
theorem pmalloc_tasks_share_page :
    ¬ ∀ (ι : Type) [DecidableEq ι] (s : Pmm) (actions : List (PmmAction ι)) (m : PmmTasks ι),
      PmmTasks.Run (.start s) actions m → m.LiveDisjoint := by
  intro claim
  have hscan := PmmTasks.step_scan_of_first (m := .start fourFreePages) (t := false) rfl
    fourFreePages_first
  obtain ⟨n, hrun, hshared⟩ := PmmTasks.untimely_scan (m := PmmTasks.assign (.start fourFreePages)
    false fourFreePages (.marking (0*pageSize) 1 0) []) (t := true) (u := false) rfl
    fourFreePages_first rfl
  have hfirst : (PmmAction.scan false 1).SinglePage := rfl
  exact hshared (claim Bool fourFreePages _ n (.cons hfirst hscan hrun))

end Runs

end Open98.Mm
