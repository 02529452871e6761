import Open98.Hal.Idt
import Open98.Library.Search

/-! The scheduler of `ps/sched.c`. Every tick of the timer calls it with the registers of the
interrupted context. Debug output is left out. -/
namespace Open98.Ps
open Open98.Library Open98.Hal

def maxTasks : ℕ := 64

/-- `TASK_STOPPED`, `TASK_RUNNING` and `TASK_NO_INIT`. -/
inductive TaskStatus
  | stopped
  | running
  | noInit
  deriving DecidableEq, Repr

structure KSystemTask where
  pid : ℕ
  status : TaskStatus
  regs : InterruptRegisters
  pageMap : PVOID
  flags : UCHAR

/-- The memory from `tasks` on, one task after another. -/
abbrev Tasks := ℕ → KSystemTask

/-- The two static variables of the scheduler. -/
structure Scheduler where
  tasks : Tasks
  iTaskCount : ℕ

section Model

/-- The first slot with the status among the given number of slots from `k` on. -/
def firstWith (status : TaskStatus) (tasks : Tasks) (k left : ℕ) : Option ℕ :=
  firstIn (fun k => (tasks k).status = status) k left

/-- The loop over `j` behind the slot `i` that was running; its last iteration starts again from
slot 0. -/
def stoppedAfter (tasks : Tasks) (i : ℕ) : (j left : ℕ) → Option ℕ
  | _, 0 => none
  | j, left+1 =>
    if (tasks j).status = .stopped then some j
    else if j = maxTasks-1 then firstWith .stopped tasks 0 (i+1)
    else stoppedAfter tasks i (j+1) left

/-- The slot's task is stopped, with these registers. -/
def saveTask (tasks : Tasks) (i : ℕ) (regs : InterruptRegisters) : Tasks :=
  Function.update tasks i { tasks i with status := .stopped, regs := regs }

/-- The loop over `i`, with `iNext` at its end. Behind the last slot the loop over `j` makes no turn,
and the loop over `i` goes on. -/
def pickNext (regs : InterruptRegisters) : (i left : ℕ) → Tasks → Tasks × ℕ
  | _, 0, tasks => (tasks, 0)
  | i, left+1, tasks =>
    if (tasks i).status = .running then
      match stoppedAfter (saveTask tasks i regs) i (i+1) (maxTasks - (i+1)) with
      | some iNext => (saveTask tasks i regs, iNext)
      | none => pickNext regs (i+1) left (saveTask tasks i regs)
    else pickNext regs (i+1) left tasks

/-- The slot's task is marked as the running one. -/
def runTask (tasks : Tasks) (i : ℕ) : Tasks :=
  Function.update tasks i { tasks i with status := .running }

/-- The slot whose registers `pop_regs` is called with, if it is. -/
def psScheduleThreads (s : Scheduler) (regs : InterruptRegisters) : Scheduler × Option ℕ :=
  if s.iTaskCount = 0 then (s, none)
  else
    let (tasks, iNext) := if 1 < s.iTaskCount then pickNext regs 0 maxTasks s.tasks else (s.tasks, 0)
    if (tasks iNext).status ≠ .running then ({ s with tasks := runTask tasks iNext }, some iNext)
    else ({ s with tasks := tasks }, none)

def psLoadTask (s : Scheduler) (task : KSystemTask) : Scheduler :=
  match firstWith .noInit s.tasks 0 maxTasks with
  | some i => {
      tasks := Function.update s.tasks i { task with status := .stopped }
      iTaskCount := s.iTaskCount + 1 }
  | none => s

/-- `junk` is what the allocated memory holds; the count is 0 from the start. -/
def psThreadsInit (junk : Tasks) : Scheduler where
  tasks i := if i < maxTasks then { junk i with status := .noInit } else junk i
  iTaskCount := 0

end Model

section Loops
variable {tasks : Tasks} {regs : InterruptRegisters} {i : ℕ}

@[simp] lemma saveTask_status (r : ℕ) : (saveTask tasks i regs r).status =
    if r = i then .stopped else (tasks r).status := by
  simp only [saveTask, Function.update_apply]
  split_ifs <;> rfl

@[simp] lemma saveTask_regs (r : ℕ) : (saveTask tasks i regs r).regs =
    if r = i then regs else (tasks r).regs := by
  simp only [saveTask, Function.update_apply]
  split_ifs <;> rfl

@[simp] lemma runTask_status (r : ℕ) : (runTask tasks i r).status =
    if r = i then .running else (tasks r).status := by
  simp only [runTask, Function.update_apply]
  split_ifs <;> rfl

@[simp] lemma runTask_regs (r : ℕ) : (runTask tasks i r).regs = (tasks r).regs := by
  simp only [runTask, Function.update_apply]
  split_ifs with h
  · rw [h]
  · rfl

lemma firstWith_succ {status : TaskStatus} (k left : ℕ) : firstWith status tasks k (left+1) =
    if (tasks k).status = status then some k else firstWith status tasks (k+1) left := rfl

/-- The loop over `j` looks behind the slot first, and then from slot 0 up to it; behind the last slot
it does neither. -/
lemma stoppedAfter_eq {j left : ℕ} (hj : j + left = maxTasks) : stoppedAfter tasks i j left =
    (firstWith .stopped tasks j left).or
      (if left = 0 then none else firstWith .stopped tasks 0 (i+1)) := by
  induction left generalizing j with
  | zero => rfl
  | succ left ih =>
    have hmax : maxTasks = 64 := rfl
    rw [stoppedAfter, firstWith_succ j left, if_neg (Nat.succ_ne_zero left)]
    by_cases hstop : (tasks j).status = .stopped
    · rw [if_pos hstop, if_pos hstop]
      rfl
    · rw [if_neg hstop, if_neg hstop]
      by_cases hlast : j = maxTasks-1
      · obtain rfl : left = 0 := by omega
        rw [if_pos hlast]
        rfl
      · rw [if_neg hlast, ih (by omega), if_neg (by omega)]

/-- Without a running task the loop over `i` chooses slot 0. -/
lemma pickNext_idle {left : ℕ} (hidle : ∀ k, i ≤ k → k < i+left → (tasks k).status ≠ .running) :
    pickNext regs i left tasks = (tasks, 0) := by
  induction left generalizing i with
  | zero => rfl
  | succ left ih =>
    rw [pickNext, if_neg (hidle i le_rfl (by omega))]
    exact ih fun k hk hlt => hidle k (by omega) (by omega)

/-- The loop over `i` comes to the first running task. -/
lemma pickNext_running {left r : ℕ} (hle : i ≤ r) (hlt : r < i+left)
    (hrunning : (tasks r).status = .running)
    (hbefore : ∀ k, i ≤ k → k < r → (tasks k).status ≠ .running) :
    pickNext regs i left tasks =
      match stoppedAfter (saveTask tasks r regs) r (r+1) (maxTasks - (r+1)) with
      | some iNext => (saveTask tasks r regs, iNext)
      | none => pickNext regs (r+1) (i+left - (r+1)) (saveTask tasks r regs) := by
  induction left generalizing i with
  | zero => omega
  | succ left ih =>
    by_cases hir : i = r
    · subst hir
      rw [pickNext, if_pos hrunning, show i + (left+1) - (i+1) = left by omega]
    · rw [pickNext, if_neg (hbefore i le_rfl (by omega)), ih (by omega) (by omega)
        fun k hk hkr => hbefore k (by omega) hkr]
      rw [show i + 1 + left = i + (left+1) by omega]

/-- Whatever the table looks like, the slot that is chosen is not marked running. -/
lemma pickNext_not_running {left : ℕ} (hi : i + left = maxTasks)
    (hbefore : ∀ k < i, (tasks k).status ≠ .running) :
    ((pickNext regs i left tasks).1 (pickNext regs i left tasks).2).status ≠ .running := by
  induction left generalizing i tasks with
  | zero => exact hbefore 0 (by unfold maxTasks at hi; omega)
  | succ left ih =>
    rw [pickNext]
    split_ifs with hrunning
    · have hstopped : ∀ {k n left}, firstWith .stopped (saveTask tasks i regs) k left = some n →
          (saveTask tasks i regs n).status ≠ .running := by
        intro k n left h
        rw [(firstIn_eq_some.mp h).2.2.1]
        decide
      have hsaved : ∀ k < i+1, (saveTask tasks i regs k).status ≠ .running := by
        intro k hk
        rw [saveTask_status]
        split_ifs with hki
        · decide
        · exact hbefore k (by omega)
      have hrest := ih (show i+1 + left = maxTasks by omega) hsaved
      cases hnext : stoppedAfter (saveTask tasks i regs) i (i+1) (maxTasks - (i+1)) with
      | none => exact hrest
      | some n =>
        rw [stoppedAfter_eq (by omega), Option.or_eq_some_iff] at hnext
        rcases hnext with hnext | ⟨-, hnext⟩
        · exact hstopped hnext
        · split_ifs at hnext
          exact hstopped hnext
    · refine ih (by omega) fun k hk => ?_
      by_cases hki : k = i
      · rwa [hki]
      · exact hbefore k (by omega)

end Loops

/-- With two tasks or more every tick leaves through `pop_regs`, whatever the table looks like. -/
theorem psScheduleThreads_switches {s : Scheduler} (hmany : 1 < s.iTaskCount)
    (regs : InterruptRegisters) : ∃ i, (psScheduleThreads s regs).2 = some i := by
  have hnot : ((pickNext regs 0 maxTasks s.tasks).1 (pickNext regs 0 maxTasks s.tasks).2).status ≠
      .running := pickNext_not_running rfl fun k hk => absurd hk (Nat.not_lt_zero k)
  refine ⟨(pickNext regs 0 maxTasks s.tasks).2, ?_⟩
  simp only [psScheduleThreads, if_neg (show s.iTaskCount ≠ 0 by omega), if_pos hmany, if_pos hnot]

end Open98.Ps
