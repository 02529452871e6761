import Open98.Library.Run
import Open98.Mm.Pmm

/-! Runs of the page allocator: which ranges are live, when an allocation is sound, and what
holds of the live ranges in every state that a run of sound allocations reaches. -/
namespace Open98.Mm
open Open98.Library

/-- A range of pages as its owner knows it: the address `pmalloc` returned and the number of
pages asked for. -/
structure PageRange where
  adr : ℕ
  pages : ℕ
  deriving DecidableEq, Repr

/-- Page number `k` lies in the range. -/
def PageRange.Covers (r : PageRange) (k : ℕ) : Prop :=
  r.adr / pageSize ≤ k ∧ k < r.adr / pageSize + r.pages

instance (r : PageRange) (k : ℕ) : Decidable (r.Covers k) := inferInstanceAs (Decidable (_ ∧ _))

def PageRange.Disjoint (r q : PageRange) : Prop := ∀ k, r.Covers k → ¬ q.Covers k

lemma PageRange.Disjoint.symm {r q : PageRange} (h : r.Disjoint q) : q.Disjoint r :=
  fun k hq hr => h k hr hq

/-- The range is page-aligned and ends below the limit. -/
structure PageRange.Inside (r : PageRange) (limit : ℕ) : Prop where
  aligned : r.adr % pageSize = 0
  below : r.adr + r.pages*pageSize ≤ limit

/-- Inside the limit the pages of a range are the pages that the marking loops touch. -/
lemma PageRange.Inside.touched {r : PageRange} {limit : ℕ} (h : r.Inside limit)
    (hlimit : limit < addressSpace) (k : ℕ) :
    (∃ i < r.pages, touchedPage r.adr i = k) ↔ r.Covers k := by
  obtain ⟨p, hp⟩ : ∃ p, r.adr = p*pageSize := ⟨r.adr / pageSize, by
    have := Nat.div_add_mod r.adr pageSize
    rw [h.aligned] at this
    rw [Nat.mul_comm]
    omega⟩
  have hdiv : r.adr / pageSize = p := by rw [hp]; exact Nat.mul_div_cancel _ (by decide)
  have hbelow : (p + r.pages)*pageSize ≤ limit := by rw [Nat.add_mul, ← hp]; exact h.below
  have htouch : ∀ i < r.pages, touchedPage r.adr i = p+i := by
    intro i hi
    rw [hp]
    apply touchedPage_of_fits
    have : (p+i)*pageSize ≤ (p + r.pages)*pageSize := Nat.mul_le_mul_right _ (by omega)
    omega
  unfold PageRange.Covers
  rw [hdiv]
  constructor
  · rintro ⟨i, hi, rfl⟩
    rw [htouch i hi]
    omega
  · rintro ⟨hle, hlt⟩
    exact ⟨k-p, by omega, by rw [htouch _ (by omega)]; omega⟩

/-- What a caller of `pmalloc` relies on. -/
structure SoundAlloc (s : Pmm) (r : PageRange) (t : Pmm) : Prop where
  inside : r.Inside s.highestPage
  clear : ∀ k, r.Covers k → s.used k = false
  marks : ∀ k, t.used k = true ↔ r.Covers k ∨ s.used k = true

/-- The pages from the first free page on suffice for the request: all of them are free and
below the highest page. -/
def Fits (s : Pmm) (pages : ℕ) : Prop :=
  ∀ i, FirstFree s i → i+pages ≤ s.pageCount ∧ ∀ k, i ≤ k → k < i+pages → s.used k = false

lemma FirstFree.unique {s : Pmm} {i j : ℕ} (hi : FirstFree s i) (hj : FirstFree s j) : i = j := by
  by_contra hne
  rcases Nat.lt_or_gt_of_ne hne with h | h
  · have := hj.first i h
    simp [hi.free] at this
  · have := hi.first j h
    simp [hj.free] at this

lemma le_pageCount_iff (s : Pmm) (n : ℕ) : n ≤ s.pageCount ↔ n*pageSize ≤ s.highestPage :=
  Nat.le_div_iff_mul_le (by decide)

/-- A successful call is sound exactly when the request fits at the first free page: the scan
never looks at the pages behind it. -/
theorem pmalloc_sound_iff {s t : Pmm} {pages adr : ℕ} (hpages : 0 < pages)
    (h : pmalloc s pages = some (adr, t)) : SoundAlloc s ⟨adr, pages⟩ t ↔ Fits s pages := by
  obtain ⟨i, hfirst, rfl, rfl⟩ := (pmalloc_eq_some s pages hpages adr t).mp h
  have hdiv : i*pageSize / pageSize = i := Nat.mul_div_cancel _ (by decide)
  constructor
  · intro hs j hj
    obtain rfl := hfirst.unique hj
    have hb := hs.inside.below
    simp only [← Nat.add_mul] at hb
    refine ⟨(le_pageCount_iff s _).mpr hb, fun k hle hlt => hs.clear k ?_⟩
    simp only [PageRange.Covers, hdiv]
    exact ⟨hle, hlt⟩
  · intro hf
    obtain ⟨hcount, hclear⟩ := hf i hfirst
    have hin : PageRange.Inside ⟨i*pageSize, pages⟩ s.highestPage :=
      ⟨Nat.mul_mod_left _ _, by
        simp only [← Nat.add_mul]
        exact (le_pageCount_iff s _).mp hcount⟩
    refine ⟨hin, fun k hk => ?_, fun k => ?_⟩
    · simp only [PageRange.Covers, hdiv] at hk
      exact hclear k hk.1 hk.2
    · rw [used_pmmAllocPages, hin.touched s.highestPage_lt]

/-- The allocator together with the ranges that are in use. -/
structure PmmMachine where
  pmm : Pmm
  live : List PageRange

inductive PmmOp
  | pmalloc (pages : ℕ)
  | pmmFreePages (r : PageRange)
  deriving DecidableEq, Repr

/-- Callers ask for at least one page and give back what they own. -/
def PmmOp.Allowed (m : PmmMachine) : PmmOp → Prop
  | pmalloc pages => 0 < pages
  | pmmFreePages r => r ∈ m.live

instance (m : PmmMachine) : (o : PmmOp) → Decidable (o.Allowed m)
  | .pmalloc pages => inferInstanceAs (Decidable (0 < pages))
  | .pmmFreePages r => inferInstanceAs (Decidable (r ∈ m.live))

/-- Requests fit at the first free page. -/
def PmmOp.Fitting (m : PmmMachine) : PmmOp → Prop
  | pmalloc pages => Fits m.pmm pages
  | pmmFreePages _ => True

def PmmMachine.step (m : PmmMachine) : PmmOp → Option PmmMachine
  | .pmalloc pages =>
    (Mm.pmalloc m.pmm pages).map fun (adr, s) => ⟨s, ⟨adr, pages⟩ :: m.live⟩
  | .pmmFreePages r => some ⟨Mm.pmmFreePages m.pmm r.adr r.pages, m.live.erase r⟩

/-- Live ranges lie in memory, own pages that are marked used, and share none. -/
structure LiveInvariant (m : PmmMachine) : Prop where
  inside : ∀ r ∈ m.live, r.Inside m.pmm.highestPage
  marked : ∀ r ∈ m.live, ∀ k, r.Covers k → m.pmm.used k = true
  disjoint : m.live.Pairwise PageRange.Disjoint

lemma LiveInvariant.alloc {m : PmmMachine} (inv : LiveInvariant m) {r : PageRange} {t : Pmm}
    (hlimit : t.highestPage = m.pmm.highestPage) (hs : SoundAlloc m.pmm r t) :
    LiveInvariant ⟨t, r :: m.live⟩ := by
  refine ⟨fun q hq => ?_, fun q hq k hk => ?_, List.pairwise_cons.mpr ⟨fun q hq k hr hk => ?_, inv.disjoint⟩⟩
  · rw [hlimit]
    rcases List.mem_cons.mp hq with rfl | hq
    · exact hs.inside
    · exact inv.inside q hq
  · rcases List.mem_cons.mp hq with rfl | hq
    · exact (hs.marks k).mpr (.inl hk)
    · exact (hs.marks k).mpr (.inr (inv.marked q hq k hk))
  · -- the new pages were free, those of `q` were not
    have hfree := hs.clear k hr
    simp [inv.marked q hq k hk] at hfree

lemma LiveInvariant.free {m : PmmMachine} (inv : LiveInvariant m) {r : PageRange} (hr : r ∈ m.live) :
    LiveInvariant ⟨pmmFreePages m.pmm r.adr r.pages, m.live.erase r⟩ := by
  have hpair : (r :: m.live.erase r).Pairwise PageRange.Disjoint :=
    (List.perm_cons_erase hr).pairwise inv.disjoint fun h => h.symm
  obtain ⟨hdisj, hrest⟩ := List.pairwise_cons.mp hpair
  refine ⟨fun q hq => ?_, fun q hq k hk => ?_, hrest⟩
  · simpa using inv.inside q (List.mem_of_mem_erase hq)
  · refine (used_pmmFreePages _ _ _ _).mpr ⟨fun i hi ht => ?_, inv.marked q (List.mem_of_mem_erase hq) k hk⟩
    have hrk := ((inv.inside r hr).touched m.pmm.highestPage_lt k).mp ⟨i, hi, ht⟩
    exact hdisj q hq k hrk hk

lemma LiveInvariant.step {m n : PmmMachine} {o : PmmOp} (inv : LiveInvariant m) (ha : o.Allowed m)
    (hf : o.Fitting m) (h : m.step o = some n) : LiveInvariant n := by
  cases o with
  | pmalloc pages =>
    simp only [PmmMachine.step, Option.map_eq_some_iff] at h
    obtain ⟨⟨adr, t⟩, hp, rfl⟩ := h
    obtain ⟨i, _, rfl, rfl⟩ := (pmalloc_eq_some m.pmm pages ha adr t).mp hp
    exact inv.alloc (by simp) ((pmalloc_sound_iff ha hp).mpr hf)
  | pmmFreePages r =>
    simp only [PmmMachine.step, Option.some.injEq] at h
    subst h
    exact inv.free ha

/-- A machine that has handed out nothing yet. -/
def PmmMachine.start (s : Pmm) : PmmMachine := ⟨s, []⟩

lemma LiveInvariant.start (s : Pmm) : LiveInvariant (.start s) :=
  ⟨by simp [PmmMachine.start], by simp [PmmMachine.start], List.Pairwise.nil⟩

/-- In every run whose requests all fit at the first free page, no two live ranges share a
page, and the next call is sound exactly when its request fits as well. -/
theorem pmalloc_runs_sound (s : Pmm) (ops : List PmmOp) (m : PmmMachine)
    (h : GuardedRun (fun m o => o.Allowed m ∧ o.Fitting m) PmmMachine.step (.start s) ops m) :
    m.live.Pairwise PageRange.Disjoint ∧
      ∀ pages adr t, 0 < pages → pmalloc m.pmm pages = some (adr, t) →
        (SoundAlloc m.pmm ⟨adr, pages⟩ t ↔ Fits m.pmm pages) := by
  have hinv : LiveInvariant m :=
    h.invariant (fun _ _ _ inv ok next => inv.step ok.1 ok.2 next) (.start s)
  exact ⟨hinv.disjoint, fun pages adr t hpages hp => pmalloc_sound_iff hpages hp⟩

/-- Four free pages. -/
def fourFreePages : Pmm := ⟨fun _ => 0, 4*pageSize, by decide⟩

lemma fourFreePages_first : FirstFree fourFreePages 0 :=
  ⟨by decide, by decide, by omega⟩

theorem pmalloc_runs_sound_two_pages :
    ∃ m, PmmMachine.step (.start fourFreePages) (.pmalloc 2) = some m ∧
      m.live.Pairwise PageRange.Disjoint := by
  have hfits : Fits fourFreePages 2 := by
    intro i hi
    obtain rfl := hi.unique fourFreePages_first
    exact ⟨by decide, fun k _ _ => by simp [Pmm.used, bitTest_eq, fourFreePages]⟩
  exact ⟨_, rfl, (pmalloc_runs_sound fourFreePages [.pmalloc 2] _
    (.cons ⟨by decide, hfits⟩ rfl (.nil _))).1⟩

/-- Two single pages are taken, the first is given back, and a request for two pages is then
served with the free page and the page behind it that is still in use. -/
theorem pmalloc_two_pages_overlaps :
    ¬ ∀ (s : Pmm) (ops : List PmmOp) (m : PmmMachine),
      GuardedRun (fun m o => o.Allowed m) PmmMachine.step (.start s) ops m →
        m.live.Pairwise PageRange.Disjoint := by
  intro claim
  have hrun := claim fourFreePages
    [.pmalloc 1, .pmalloc 1, .pmmFreePages ⟨0, 1⟩, .pmalloc 2] _
    (.cons (by decide) rfl (.cons (by decide) rfl (.cons (by decide) rfl
      (.cons (by decide) rfl (.nil _)))))
  have hshared := (List.pairwise_cons.mp hrun).1 ⟨pageSize, 1⟩ (by decide)
  exact hshared 1 (by decide) (by decide)

end Open98.Mm
