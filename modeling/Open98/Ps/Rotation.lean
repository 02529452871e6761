import Open98.Library.RoundRobin
import Open98.Ps.Sched

/-! The scheduler takes the loaded tasks in turns: the table is always a circle of slots of which at
most one is running, and a tick moves on to the next slot of it. -/
namespace Open98.Ps
open Open98.Library Open98.Hal

/-- The first slots hold the loaded tasks, of which only the current one is running. -/
structure Rotation (s : Scheduler) (current : Option ℕ) : Prop where
  count_le : s.iTaskCount ≤ maxTasks
  current_lt : ∀ r, current = some r → r < s.iTaskCount
  loaded : ∀ i < s.iTaskCount,
    (s.tasks i).status = if current = some i then .running else .stopped
  rest : ∀ i, s.iTaskCount ≤ i → i < maxTasks → (s.tasks i).status = .noInit

/-- The table once the interrupted context is in the slot of the current task, if there is one. -/
def saveCurrent (tasks : Tasks) (current : Option ℕ) (regs : InterruptRegisters) : Tasks :=
  match current with
  | none => tasks
  | some r => saveTask tasks r regs

section SaveCurrent
variable {tasks : Tasks} {current : Option ℕ} {regs : InterruptRegisters}

lemma saveCurrent_status (i : ℕ) : (saveCurrent tasks current regs i).status =
    if current = some i then .stopped else (tasks i).status := by
  cases current with
  | none => rfl
  | some r => simp [saveCurrent, eq_comm]

lemma saveCurrent_regs (i : ℕ) : (saveCurrent tasks current regs i).regs =
    if current = some i then regs else (tasks i).regs := by
  cases current with
  | none => rfl
  | some r => simp [saveCurrent, eq_comm]

end SaveCurrent

namespace Rotation
variable {s : Scheduler} {current : Option ℕ} (h : Rotation s current)
include h

lemma status_running {i : ℕ} (hi : i < maxTasks) :
    (s.tasks i).status = .running ↔ current = some i := by
  by_cases hlt : i < s.iTaskCount
  · rw [h.loaded i hlt]
    split_ifs with hcur
    · simp [hcur]
    · simp [hcur]
  · rw [h.rest i (by omega) hi]
    constructor
    · intro hrun
      cases hrun
    · intro hcur
      exact absurd (h.current_lt i hcur) hlt

/-- The slot that the scheduler finds running is the current one. -/
lemma firstWith_running : firstWith .running s.tasks 0 maxTasks = current := by
  cases current with
  | none =>
    refine firstIn_eq_none.mpr fun k _ hk => ?_
    rw [h.status_running (by omega)]
    exact Option.some_ne_none k ∘ Eq.symm
  | some r =>
    have hr : r < maxTasks := lt_of_lt_of_le (h.current_lt r rfl) h.count_le
    refine firstIn_eq_some.mpr ⟨Nat.zero_le r, by omega, (h.status_running hr).mpr rfl, ?_⟩
    intro k _ hk
    rw [h.status_running (by omega)]
    intro heq
    exact absurd (Option.some.inj heq) (by omega)

/-- With the interrupted context saved, every loaded task is stopped. -/
lemma saveCurrent_stopped (regs : InterruptRegisters) {i : ℕ} (hi : i < s.iTaskCount) :
    (saveCurrent s.tasks current regs i).status = .stopped := by
  rw [saveCurrent_status, h.loaded i hi]
  split_ifs <;> rfl

lemma saveCurrent_rest (regs : InterruptRegisters) {i : ℕ} (hi : s.iTaskCount ≤ i)
    (hlt : i < maxTasks) : (saveCurrent s.tasks current regs i).status = .noInit := by
  have hcur : current ≠ some i := fun hcur => absurd (h.current_lt i hcur) (by omega)
  rw [saveCurrent_status, if_neg hcur, h.rest i hi hlt]

/-- A search for a stopped task from a loaded slot on finds that slot. -/
lemma firstWith_stopped_loaded (regs : InterruptRegisters) {k left : ℕ} (hk : k < s.iTaskCount)
    (hleft : 0 < left) : firstWith .stopped (saveCurrent s.tasks current regs) k left = some k := by
  obtain ⟨left, rfl⟩ := Nat.exists_eq_succ_of_ne_zero hleft.ne'
  rw [Nat.succ_eq_add_one, firstWith_succ, if_pos (h.saveCurrent_stopped regs hk)]

/-- The loops choose the cyclic successor, also from the last slot of a full table. -/
lemma pickNext_eq (hmany : 1 < s.iTaskCount) (regs : InterruptRegisters) :
    pickNext regs 0 maxTasks s.tasks =
      (saveCurrent s.tasks current regs, successor s.iTaskCount current) := by
  have hmax : maxTasks = 64 := rfl
  cases current with
  | none =>
    apply pickNext_idle
    intro k _ hk
    rw [Ne, h.status_running (by omega)]
    exact Option.some_ne_none k ∘ Eq.symm
  | some r =>
    have hr := h.current_lt r rfl
    have hle := h.count_le
    have hrunning : ∀ k < maxTasks, (s.tasks k).status = .running → k = r := by
      intro k hk hrun
      exact Option.some.inj ((h.status_running hk).mp hrun).symm
    rw [pickNext_running (Nat.zero_le r) (by omega) ((h.status_running (by omega)).mpr rfl)
      fun k _ hk hrun => absurd (hrunning k (by omega) hrun) (by omega)]
    have hsave : saveTask s.tasks r regs = saveCurrent s.tasks (some r) regs := rfl
    rw [Nat.zero_add, hsave, stoppedAfter_eq (by omega)]
    by_cases hnext : r+1 < s.iTaskCount
    · -- the slot behind holds a loaded task
      rw [h.firstWith_stopped_loaded regs hnext (by omega), successor, Nat.mod_eq_of_lt hnext]
      rfl
    · have hlast : r+1 = s.iTaskCount := by omega
      have hbehind : firstWith .stopped (saveCurrent s.tasks (some r) regs) (r+1)
          (maxTasks - (r+1)) = none := by
        refine firstIn_eq_none.mpr fun k hk hlt => ?_
        rw [h.saveCurrent_rest regs (by omega) (by omega)]
        exact TaskStatus.noConfusion
      rw [hbehind, successor, hlast, Nat.mod_self, Option.none_or]
      by_cases hfull : maxTasks - s.iTaskCount = 0
      · rw [if_pos hfull, hfull]
        rfl
      · rw [if_neg hfull, h.firstWith_stopped_loaded regs (by omega) (by omega)]

/-- A task is its own successor only when it is the only one. -/
lemma current_eq_successor :
    current = some (successor s.iTaskCount current) ↔ s.iTaskCount = 1 ∧ current = some 0 := by
  cases current with
  | none => simp
  | some r =>
    have hr := h.current_lt r rfl
    rw [Option.some.injEq, Option.some.injEq, successor]
    by_cases hlast : r+1 < s.iTaskCount
    · rw [Nat.mod_eq_of_lt hlast]
      omega
    · rw [show r+1 = s.iTaskCount by omega, Nat.mod_self]
      omega

/-- A tick that finds the successor running already changes nothing and returns. -/
lemma schedule_stays (hcur : current = some (successor s.iTaskCount current))
    (regs : InterruptRegisters) : psScheduleThreads s regs = (s, none) := by
  obtain ⟨hone, hzero⟩ := h.current_eq_successor.mp hcur
  have hrun : (s.tasks 0).status = .running := (h.status_running (by decide)).mpr hzero
  rw [psScheduleThreads, if_neg (by omega), if_neg (by omega)]
  simp [hrun]

/-- Every other tick saves the interrupted context in the current slot and switches to the
successor. -/
lemma schedule_switches (hn : 0 < s.iTaskCount)
    (hcur : current ≠ some (successor s.iTaskCount current)) (regs : InterruptRegisters) :
    psScheduleThreads s regs =
      ({ s with tasks := runTask (saveCurrent s.tasks current regs) (successor s.iTaskCount current) },
        some (successor s.iTaskCount current)) := by
  have hstopped := h.saveCurrent_stopped regs (successor_lt hn current)
  by_cases hmany : 1 < s.iTaskCount
  · simp [psScheduleThreads, hn.ne', hmany, h.pickNext_eq hmany, hstopped]
  · obtain rfl : current = none := by
      cases current with
      | none => rfl
      | some r =>
        have hr := h.current_lt r rfl
        exact absurd (show some r = _ by rw [successor, show r = 0 by omega]; simp; omega) hcur
    have hfirst : (s.tasks 0).status = .stopped := hstopped
    simp [psScheduleThreads, hn.ne', hmany, hfirst, saveCurrent, successor]

/-- After a tick the successor is the current slot. -/
theorem schedule (hn : 0 < s.iTaskCount) (regs : InterruptRegisters) :
    (psScheduleThreads s regs).1.iTaskCount = s.iTaskCount ∧
      Rotation (psScheduleThreads s regs).1 (some (successor s.iTaskCount current)) := by
  by_cases hcur : current = some (successor s.iTaskCount current)
  · rw [h.schedule_stays hcur, ← hcur]
    exact ⟨rfl, h⟩
  · rw [h.schedule_switches hn hcur]
    refine ⟨rfl, h.count_le, ?_, ?_, ?_⟩
    · intro r hr
      rw [← Option.some.inj hr]
      exact successor_lt hn current
    · intro i hi
      simp only [runTask_status, h.saveCurrent_stopped regs hi, Option.some.injEq, eq_comm]
    · intro i hi hlt
      have hlt' := successor_lt hn current
      simp only [runTask_status, if_neg (show i ≠ successor s.iTaskCount current by
        have : s.iTaskCount ≤ i := hi
        omega)]
      exact h.saveCurrent_rest regs hi hlt

/-- The first free slot is the one behind the loaded tasks. -/
lemma firstWith_noInit (hfree : s.iTaskCount < maxTasks) :
    firstWith .noInit s.tasks 0 maxTasks = some s.iTaskCount := by
  refine firstIn_eq_some.mpr ⟨Nat.zero_le _, by omega, h.rest _ le_rfl hfree, ?_⟩
  intro k _ hk
  rw [h.loaded k hk]
  split_ifs <;> simp

lemma firstWith_noInit_full (hfull : s.iTaskCount = maxTasks) :
    firstWith .noInit s.tasks 0 maxTasks = none := by
  refine firstIn_eq_none.mpr fun k _ hk => ?_
  rw [h.loaded k (by omega)]
  split_ifs <;> simp

lemma psLoadTask_eq (hfree : s.iTaskCount < maxTasks) (task : KSystemTask) : psLoadTask s task =
    { tasks := Function.update s.tasks s.iTaskCount { task with status := .stopped }
      iTaskCount := s.iTaskCount + 1 } := by
  rw [psLoadTask, h.firstWith_noInit hfree]

/-- In a full table nothing changes. -/
lemma psLoadTask_full (hfull : s.iTaskCount = maxTasks) (task : KSystemTask) :
    psLoadTask s task = s := by
  rw [psLoadTask, h.firstWith_noInit_full hfull]

theorem load (task : KSystemTask) : Rotation (psLoadTask s task) current := by
  have hle := h.count_le
  by_cases hfull : s.iTaskCount = maxTasks
  · rwa [h.psLoadTask_full hfull]
  · rw [h.psLoadTask_eq (by omega)]
    refine ⟨by dsimp only; omega, fun r hr => Nat.lt_succ_of_lt (h.current_lt r hr), ?_, ?_⟩
    · intro i hi
      by_cases hnew : i = s.iTaskCount
      · have hcur : current ≠ some i := fun hcur => absurd (h.current_lt i hcur) (by omega)
        rw [if_neg hcur, hnew]
        simp
      · dsimp only at hi ⊢
        rw [Function.update_of_ne hnew, h.loaded i (by omega)]
    · intro i hi hlt
      dsimp only at hi ⊢
      rw [Function.update_of_ne (by omega), h.rest i (by omega) hlt]

end Rotation

lemma rotation_psThreadsInit (junk : Tasks) : Rotation (psThreadsInit junk) none where
  count_le := Nat.zero_le _
  current_lt _ hr := nomatch hr
  loaded _ hi := absurd hi (Nat.not_lt_zero _)
  rest i _ hi := by simp [psThreadsInit, hi]

section Runs

/-- What may happen once `PsThreadsInit` has returned. -/
inductive Event
  | load (task : KSystemTask)
  | tick (regs : InterruptRegisters)

def Scheduler.step (s : Scheduler) : Event → Scheduler
  | .load task => psLoadTask s task
  | .tick regs => (psScheduleThreads s regs).1

def Scheduler.run (s : Scheduler) (es : List Event) : Scheduler := es.foldl step s

/-- The tasks that the events load. -/
def loads (es : List Event) : List KSystemTask :=
  es.filterMap fun
    | .load task => some task
    | .tick _ => none

/-- What of a task the scheduler never changes. -/
def KSystemTask.identity (task : KSystemTask) : ℕ × PVOID × UCHAR :=
  (task.pid, task.pageMap, task.flags)

def Scheduler.running (s : Scheduler) : Option ℕ := firstWith .running s.tasks 0 maxTasks

/-- Of the loaded tasks this one runs, and the others are stopped. -/
def Scheduler.OnlyRunning (s : Scheduler) (r : ℕ) : Prop :=
  r < s.iTaskCount ∧ ∀ i < s.iTaskCount, (s.tasks i).status = if i = r then .running else .stopped

/-- The slots that a row of ticks switches to. -/
def switches : Scheduler → List InterruptRegisters → List (Option ℕ)
  | _, [] => []
  | s, regs :: window =>
    (psScheduleThreads s regs).2 :: switches (psScheduleThreads s regs).1 window

/-- The slots hold the tasks of the queue, in its order. -/
structure Queue (s : Scheduler) (queue : List KSystemTask) : Prop where
  count : s.iTaskCount = queue.length
  rotation : Rotation s s.running
  holds : ∀ i task, queue[i]? = some task → (s.tasks i).identity = task.identity

@[simp] lemma saveCurrent_identity {tasks : Tasks} {current : Option ℕ} {regs : InterruptRegisters}
    (i : ℕ) : (saveCurrent tasks current regs i).identity = (tasks i).identity := by
  cases current with
  | none => rfl
  | some r =>
    simp only [saveCurrent, saveTask, Function.update_apply]
    split_ifs with h
    · rw [h]
      rfl
    · rfl

@[simp] lemma runTask_identity {tasks : Tasks} {r : ℕ} (i : ℕ) :
    (runTask tasks r i).identity = (tasks i).identity := by
  simp only [runTask, Function.update_apply]
  split_ifs with h
  · rw [h]
    rfl
  · rfl

namespace Rotation
variable {s : Scheduler} {current : Option ℕ} (h : Rotation s current)
include h

lemma schedule_identity (regs : InterruptRegisters) (i : ℕ) :
    ((psScheduleThreads s regs).1.tasks i).identity = (s.tasks i).identity := by
  by_cases hn : s.iTaskCount = 0
  · rw [psScheduleThreads, if_pos hn]
  · by_cases hcur : current = some (successor s.iTaskCount current)
    · rw [h.schedule_stays hcur]
    · simp [h.schedule_switches (Nat.pos_of_ne_zero hn) hcur]

/-- A row of ticks takes the turns one after another. -/
lemma switches_eq (hmany : 1 < s.iTaskCount) (window : List InterruptRegisters) :
    switches s window = (turns s.iTaskCount current window.length).map some := by
  induction window generalizing s current with
  | nil => rfl
  | cons regs window ih =>
    have hcur : current ≠ some (successor s.iTaskCount current) := by
      intro hcur
      have hone := (h.current_eq_successor.mp hcur).1
      omega
    obtain ⟨hcount, hnext⟩ := h.schedule (by omega) regs
    rw [switches, ih hnext (by omega), hcount, h.schedule_switches (by omega) hcur]
    rfl

end Rotation

lemma Queue.load {s : Scheduler} {all : List KSystemTask} (h : Queue s (all.take maxTasks))
    (task : KSystemTask) : Queue (psLoadTask s task) ((all ++ [task]).take maxTasks) := by
  have hload := h.rotation.load task
  have hcount := h.count
  rw [List.length_take] at hcount
  rw [← hload.firstWith_running] at hload
  by_cases hfree : s.iTaskCount < maxTasks
  · have hall : all.length < maxTasks := by omega
    have htake : (all ++ [task]).take maxTasks = all ++ [task] := by
      rw [List.take_of_length_le]
      rw [List.length_append]
      exact hall
    have hqueue := h.holds
    rw [List.take_of_length_le hall.le] at hqueue
    rw [htake]
    refine ⟨?_, hload, ?_⟩
    · rw [h.rotation.psLoadTask_eq hfree, List.length_append]
      dsimp only [List.length_singleton]
      omega
    · intro i t ht
      rw [h.rotation.psLoadTask_eq hfree]
      dsimp only
      rcases Nat.lt_trichotomy i all.length with hi | hi | hi
      · rw [List.getElem?_append_left hi] at ht
        rw [Function.update_of_ne (by omega)]
        exact hqueue i t ht
      · subst hi
        simp only [List.getElem?_concat_length, Option.some.injEq] at ht
        rw [show s.iTaskCount = all.length by omega, Function.update_self, ht]
        rfl
      · have hlen : (all ++ [task]).length ≤ i := by
          rw [List.length_append]
          exact hi
        rw [List.getElem?_eq_none hlen] at ht
        cases ht
  · have hfull : s.iTaskCount = maxTasks := by omega
    rw [h.rotation.psLoadTask_full hfull, List.take_append_of_le_length (by omega)]
    exact h

lemma Queue.schedule {s : Scheduler} {queue : List KSystemTask} (h : Queue s queue)
    (regs : InterruptRegisters) : Queue (psScheduleThreads s regs).1 queue := by
  by_cases hn : s.iTaskCount = 0
  · rw [psScheduleThreads, if_pos hn]
    exact h
  · obtain ⟨hcount, hnext⟩ := h.rotation.schedule (Nat.pos_of_ne_zero hn) regs
    rw [← hnext.firstWith_running] at hnext
    refine ⟨hcount.trans h.count, hnext, fun i task htask => ?_⟩
    rw [h.rotation.schedule_identity]
    exact h.holds i task htask

/-- In every run the slots hold the loaded tasks. -/
theorem queue_run (junk : Tasks) (es : List Event) :
    Queue ((psThreadsInit junk).run es) ((loads es).take maxTasks) := by
  induction es using List.reverseRecOn with
  | nil =>
    have hstart := rotation_psThreadsInit junk
    rw [← hstart.firstWith_running] at hstart
    exact ⟨rfl, hstart, fun i task htask => by cases htask⟩
  | append_singleton es e ih =>
    rw [Scheduler.run, List.foldl_append]
    cases e with
    | load task =>
      rw [loads, List.filterMap_append]
      exact ih.load task
    | tick regs =>
      rw [loads, List.filterMap_append, List.filterMap_cons_none rfl, List.filterMap_nil,
        List.append_nil]
      exact ih.schedule regs

end Runs

/-- Whatever is loaded between the ticks (of more than 64 tasks only the first 64 find a slot), the
loaded tasks take turns. -/
theorem psThreadsInit_rotates (junk : Tasks) (es : List Event) :
    let s := (psThreadsInit junk).run es
    let queue := (loads es).take maxTasks
    (s.iTaskCount = queue.length ∧
      (∀ i task, queue[i]? = some task →
        (s.tasks i).status ≠ .noInit ∧ (s.tasks i).identity = task.identity) ∧
      ∀ i, s.iTaskCount ≤ i → i < maxTasks → (s.tasks i).status = .noInit) ∧
    (0 < s.iTaskCount → ∀ regs,
      (psScheduleThreads s regs).1.OnlyRunning (successor s.iTaskCount s.running)) ∧
    (1 < s.iTaskCount → ∀ window : List InterruptRegisters, window.length = s.iTaskCount →
      ∀ i < s.iTaskCount, (switches s window).count (some i) = 1) := by
  intro s queue
  have h : Queue s queue := queue_run junk es
  refine ⟨⟨h.count, ?_, h.rotation.rest⟩, ?_, ?_⟩
  · intro i task htask
    obtain ⟨hi, -⟩ := List.getElem?_eq_some_iff.mp htask
    refine ⟨?_, h.holds i task htask⟩
    rw [h.rotation.loaded i (h.count ▸ hi)]
    split_ifs <;> simp
  · intro hn regs
    obtain ⟨hcount, hnext⟩ := h.rotation.schedule hn regs
    refine ⟨hnext.current_lt _ rfl, fun i hi => ?_⟩
    rw [hnext.loaded i hi]
    simp only [Option.some.injEq, eq_comm]
  · intro hmany window hlength i hi
    rw [h.rotation.switches_eq hmany, hlength,
      List.count_map_of_injective _ _ (Option.some_injective ℕ)]
    exact count_turns (by omega) _ hi

end Open98.Ps
