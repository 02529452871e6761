import Mathlib.Logic.Function.Basic
import Open98.Library.Run
import Open98.NtDef

/-! The locks of `ke/mutex.c`. Both functions take the lock word by value, so what they compare, set
and clear is their own copy of it. -/
namespace Open98.Ke
open Open98.Library

/-- `DEFINE_LOCK`: a static variable without an initial value. -/
def defineLock : UCHAR := 0

/-- Where a task is; `Mutex` is the argument of the function that it is in. -/
inductive Pc
  | outside
  | swapping (Mutex : UCHAR)
  | spinning (Mutex : UCHAR)
  | inside
  | releasing (Mutex : UCHAR)
  deriving DecidableEq, Repr

/-- `__sync_bool_compare_and_swap`: whether the word was the old one, and the word after it. -/
def compareAndSwap (word old new : UCHAR) : Bool × UCHAR :=
  if word = old then (true, new) else (false, word)

/-- One step of a task that brackets its critical section with `KeTryAcquireMutex( lock )` and
`KeReleaseMutex( lock )`. -/
def Pc.next (lock : UCHAR) : Pc → Pc
  | outside => swapping lock
  | swapping Mutex =>
    match compareAndSwap Mutex 0 1 with
    | (true, _) => inside
    | (false, Mutex) => spinning Mutex
  | spinning Mutex => if Mutex ≠ 0 then spinning Mutex else swapping Mutex
  | inside => releasing lock
  | releasing _ => outside

/-- The lock word in memory, and the tasks. -/
structure Tasks (ι : Type) where
  lock : UCHAR
  pc : ι → Pc

namespace Tasks
variable {ι : Type}

def start : Tasks ι := ⟨defineLock, fun _ => .outside⟩

variable [DecidableEq ι]

/-- Task `t` makes a step. No step writes the lock word: both functions write their argument. -/
def step (m : Tasks ι) (t : ι) : Option (Tasks ι) :=
  some { m with pc := Function.update m.pc t ((m.pc t).next m.lock) }

/-- The steps of the tasks in the order of a schedule. -/
abbrev Run : Tasks ι → List ι → Tasks ι → Prop := GuardedRun (fun _ _ => True) step

/-- At most one task is between the return of its `KeTryAcquireMutex` and its `KeReleaseMutex`. -/
def Exclusive (m : Tasks ι) : Prop := ∀ t u, m.pc t = .inside → m.pc u = .inside → t = u

lemma lock_of_run {m : Tasks ι} {schedule : List ι} (h : Run start schedule m) :
    m.lock = defineLock := by
  refine h.invariant (I := fun m => m.lock = defineLock) (fun s t u hs _ hstep => ?_) rfl
  rw [← Option.some.inj hstep]
  exact hs

/-- Whatever the others do, a task that wants to enter is inside after two steps. -/
lemma enters {m : Tasks ι} (hlock : m.lock = defineLock) {t : ι} (hout : m.pc t = .outside) :
    Run m [t, t] { m with pc := Function.update m.pc t .inside } := by
  have hcall : step m t = some { m with pc := Function.update m.pc t (.swapping defineLock) } := by
    rw [step, hout, hlock]
    rfl
  refine .cons trivial hcall (.cons trivial ?_ (.nil _))
  simp [step, Pc.next, compareAndSwap, defineLock]

/-- Two tasks can be inside at the same time. -/
lemma both_enter {t u : ι} (htu : t ≠ u) :
    ∃ m, Run start [t, t, u, u] m ∧ m.pc t = .inside ∧ m.pc u = .inside := by
  have hfirst : Run start [t, t] _ := enters rfl rfl
  have hout : Function.update (start : Tasks ι).pc t .inside u = .outside :=
    Function.update_of_ne htu.symm _ _
  exact ⟨_, hfirst.append (enters (lock_of_run hfirst) hout), by simp [htu], by simp⟩

/-- The lock excludes nobody: mutual exclusion holds in every reachable state exactly when there is
at most one task. -/
theorem exclusive_iff (ι : Type) [DecidableEq ι] :
    (∀ (schedule : List ι) (m : Tasks ι), Run start schedule m → Exclusive m) ↔
      ∀ t u : ι, t = u := by
  constructor
  · intro h t u
    by_contra htu
    obtain ⟨m, hrun, ht, hu⟩ := both_enter htu
    exact htu (h _ m hrun t u ht hu)
  · intro h _ _ _ t u _ _
    exact h t u

theorem two_tasks_inside :
    ¬ ∀ (ι : Type) [DecidableEq ι] (schedule : List ι) (m : Tasks ι), Run start schedule m →
      Exclusive m := by
  intro claim
  obtain ⟨m, hrun, ht, hu⟩ := both_enter (show false ≠ true by decide)
  exact absurd (claim Bool _ m hrun _ _ ht hu) (by decide)

end Tasks

end Open98.Ke
