import Open98.Ps.Rotation

/-! Timer interrupts from the processor's side: which context is interrupted, which one goes on, and
where the scheduler keeps the others. -/
namespace Open98.Ps
open Open98.Library Open98.Hal

structure Kernel where
  sched : Scheduler
  ulTick : ULONG64

/-- `KiUpdateTick`. What it draws when the scheduler returns is left out. -/
def kiUpdateTick : KiInterruptHandler Kernel := fun k regs =>
  match psScheduleThreads k.sched regs with
  | (sched, some task) => (⟨sched, k.ulTick + 1⟩, .popRegs task)
  | (sched, none) => (⟨sched, k.ulTick + 1⟩, .returned)

/-- The table of handlers once `HalInitPIT` has registered the timer. -/
def halInitPIT (interruptHandlers : ℕ → Option (KiInterruptHandler Kernel)) :
    ℕ → Option (KiInterruptHandler Kernel) :=
  Function.update interruptHandlers IRQ0 (some kiUpdateTick)

/-- The kernel, and the slot of the task that the processor executes. It is no task's code as long as
no tick has switched to one. -/
structure Machine where
  kernel : Kernel
  onCpu : Option ℕ

/-- Any context may load a task, and a timer interrupt finds the processor in any state. Before it
restores the registers the kernel has used them for itself. -/
inductive MachineEvent
  | load (task : KSystemTask)
  | irq0 (c : Cpu) (scratch : Gpr → ULONG64)

/-- What an outside observer sees of the tasks. -/
inductive Observed
  | loaded (task : ℕ) (c : Cpu)
  | preempted (task : ℕ) (c : Cpu)
  | resumed (task : ℕ) (c : Cpu)

namespace Machine

/-- The boot code, with the tasks' table just allocated. -/
def boot (junk : Tasks) (ulTick : ULONG64) : Machine := ⟨⟨psThreadsInit junk, ulTick⟩, none⟩

section Model
variable (interruptHandlers : ℕ → Option (KiInterruptHandler Kernel))

def step (m : Machine) : MachineEvent → Machine × List Observed
  | .load task =>
    ({ m with kernel := { m.kernel with sched := psLoadTask m.kernel.sched task } },
      match firstWith .noInit m.kernel.sched.tasks 0 maxTasks with
      | some i => [.loaded i task.regs.cpu]
      | none => [])
  | .irq0 c scratch =>
    match halIRQHandler (halInitPIT interruptHandlers) m.kernel
      (InterruptRegisters.ofWords (irq0 c)) with
    | (kernel, _, .returned) => ({ m with kernel := kernel }, [])
    | (kernel, _, .popRegs i) =>
      ({ kernel := kernel, onCpu := some i },
        (m.onCpu.toList.map fun r => .preempted r c) ++
          [.resumed i (popRegs scratch (kernel.sched.tasks i).regs.words)])

/-- The machine after the events, and all that was observed. -/
def run (m : Machine) (es : List MachineEvent) : Machine × List Observed :=
  es.foldl (fun (m, seen) e => ((m.step interruptHandlers e).1, seen ++
    (m.step interruptHandlers e).2)) (m, [])

end Model
end Machine

/-- The context that a task was last seen in: the one that it was loaded with, or the one in which it
was last preempted. -/
def lastContext (task : ℕ) (seen : List Observed) : Option Cpu :=
  seen.foldl (fun known o => match o with
    | .loaded i c => if i = task then some c else known
    | .preempted i c => if i = task then some c else known
    | .resumed _ _ => known) none

/-- Every task is resumed in the context that it was last seen in. -/
def Faithful (seen : List Observed) : Prop :=
  ∀ before task c after, seen = before ++ .resumed task c :: after → lastContext task before = some c

section Observations
variable {seen : List Observed} {task i : ℕ} {c : Cpu}

lemma lastContext_loaded : lastContext task (seen ++ [.loaded i c]) =
    if i = task then some c else lastContext task seen := by
  rw [lastContext, List.foldl_append]
  rfl

lemma lastContext_preempted : lastContext task (seen ++ [.preempted i c]) =
    if i = task then some c else lastContext task seen := by
  rw [lastContext, List.foldl_append]
  rfl

lemma lastContext_resumed : lastContext task (seen ++ [.resumed i c]) = lastContext task seen := by
  rw [lastContext, List.foldl_append]
  rfl

lemma Faithful.concat {o : Observed} (h : Faithful seen)
    (ho : ∀ task c, o = .resumed task c → lastContext task seen = some c) :
    Faithful (seen ++ [o]) := by
  intro before task c after heq
  cases after using List.reverseRecOn with
  | nil =>
    obtain ⟨rfl, hlast⟩ := List.append_inj' heq rfl
    exact ho task c (List.singleton_inj.mp hlast)
  | append_singleton after last =>
    rw [← List.cons_append, ← List.append_assoc] at heq
    exact h before task c after (List.append_inj' heq rfl).1

/-- The context that is interrupted becomes the last one of the task that it belongs to. -/
lemma lastContext_preempted_toList (onCpu : Option ℕ) :
    lastContext task (seen ++ onCpu.toList.map fun r => .preempted r c) =
      if onCpu = some task then some c else lastContext task seen := by
  cases onCpu with
  | none => simp
  | some r => simp [lastContext_preempted]

lemma Faithful.preempted (h : Faithful seen) (onCpu : Option ℕ) :
    Faithful (seen ++ onCpu.toList.map fun r => .preempted r c) := by
  cases onCpu with
  | none => simpa using h
  | some r => exact h.concat fun _ _ => Observed.noConfusion

end Observations

section Steps
variable {interruptHandlers : ℕ → Option (KiInterruptHandler Kernel)}

/-- The handler's record of the interrupted context. -/
lemma cpu_ofWords_irq0 (c : Cpu) : (InterruptRegisters.ofWords (irq0 c)).cpu = c :=
  cpu_ofWords_irqCommonStub 0 32 c

/-- The timer's line is served by the scheduler. The interrupt is acknowledged only if that
returns. -/
lemma halIRQHandler_irq0 (k : Kernel) (c : Cpu) :
    halIRQHandler (halInitPIT interruptHandlers) k (InterruptRegisters.ofWords (irq0 c)) =
      match psScheduleThreads k.sched (InterruptRegisters.ofWords (irq0 c)) with
      | (sched, some i) => (⟨sched, k.ulTick + 1⟩, [], .popRegs i)
      | (sched, none) => (⟨sched, k.ulTick + 1⟩, [(PIC1_COMMAND, PIC_EOI)], .returned) := by
  have hline : (InterruptRegisters.ofWords (irq0 c)).intNo.toNat = IRQ0 := rfl
  rw [halIRQHandler, hline, halInitPIT, Function.update_self]
  dsimp only
  rw [kiUpdateTick]
  cases psScheduleThreads k.sched (InterruptRegisters.ofWords (irq0 c)) with
  | mk sched next =>
    cases next <;> rfl

namespace Machine
variable {m : Machine} {c : Cpu} {scratch : Gpr → ULONG64} {sched : Scheduler}

lemma step_returned
    (h : psScheduleThreads m.kernel.sched (InterruptRegisters.ofWords (irq0 c)) = (sched, none)) :
    m.step interruptHandlers (.irq0 c scratch) =
      ({ m with kernel := ⟨sched, m.kernel.ulTick + 1⟩ }, []) := by
  rw [step, halIRQHandler_irq0, h]

/-- After a switch the processor goes on with what the slot of the chosen task holds. -/
lemma step_switched {i : ℕ}
    (h : psScheduleThreads m.kernel.sched (InterruptRegisters.ofWords (irq0 c)) = (sched, some i)) :
    m.step interruptHandlers (.irq0 c scratch) = (⟨⟨sched, m.kernel.ulTick + 1⟩, some i⟩,
      (m.onCpu.toList.map fun r => .preempted r c) ++ [.resumed i (sched.tasks i).regs.cpu]) := by
  rw [step, halIRQHandler_irq0, h]
  dsimp only
  rw [popRegs_words]

/-- Unless the task on the processor is its own successor, the successor goes on with what its slot
holds once the interrupted context is saved. -/
lemma step_turn (h : Rotation m.kernel.sched m.onCpu) (hn : 0 < m.kernel.sched.iTaskCount)
    (hcur : m.onCpu ≠ some (successor m.kernel.sched.iTaskCount m.onCpu)) (c : Cpu)
    (scratch : Gpr → ULONG64) :
    let next := successor m.kernel.sched.iTaskCount m.onCpu
    let saved := saveCurrent m.kernel.sched.tasks m.onCpu (InterruptRegisters.ofWords (irq0 c))
    m.step interruptHandlers (.irq0 c scratch) =
      (⟨⟨{ m.kernel.sched with tasks := runTask saved next }, m.kernel.ulTick + 1⟩, some next⟩,
        (m.onCpu.toList.map fun r => .preempted r c) ++ [.resumed next (saved next).regs.cpu]) := by
  intro next saved
  rw [step_switched (h.schedule_switches hn hcur _), runTask_regs]

end Machine

/-- The slots hold the contexts that the tasks were last seen in. -/
structure Tracks (m : Machine) (seen : List Observed) : Prop where
  rotation : Rotation m.kernel.sched m.onCpu
  kept : ∀ i < m.kernel.sched.iTaskCount,
    lastContext i seen = some (m.kernel.sched.tasks i).regs.cpu
  faithful : Faithful seen

variable {m : Machine} {seen : List Observed}

lemma Tracks.load (h : Tracks m seen) (task : KSystemTask) :
    Tracks (m.step interruptHandlers (.load task)).1
      (seen ++ (m.step interruptHandlers (.load task)).2) := by
  have hle := h.rotation.count_le
  have hload := h.rotation.load task
  rw [Machine.step]
  by_cases hfull : m.kernel.sched.iTaskCount = maxTasks
  · rw [h.rotation.firstWith_noInit_full hfull, h.rotation.psLoadTask_full hfull, List.append_nil]
    exact h
  · rw [h.rotation.firstWith_noInit (by omega)]
    refine ⟨hload, ?_, h.faithful.concat fun _ _ => Observed.noConfusion⟩
    rw [h.rotation.psLoadTask_eq (by omega)]
    intro i hi
    dsimp only at hi ⊢
    rw [lastContext_loaded]
    by_cases hnew : m.kernel.sched.iTaskCount = i
    · rw [if_pos hnew, hnew, Function.update_self]
    · rw [if_neg hnew, Function.update_of_ne (Ne.symm hnew), h.kept i (by omega)]

lemma Tracks.irq0 (h : Tracks m seen) (c : Cpu) (scratch : Gpr → ULONG64) :
    Tracks (m.step interruptHandlers (.irq0 c scratch)).1
      (seen ++ (m.step interruptHandlers (.irq0 c scratch)).2) := by
  by_cases hn : m.kernel.sched.iTaskCount = 0
  · have hreturned : psScheduleThreads m.kernel.sched (InterruptRegisters.ofWords (Hal.irq0 c)) =
        (m.kernel.sched, none) := by rw [psScheduleThreads, if_pos hn]
    rw [Machine.step_returned hreturned, List.append_nil]
    exact ⟨h.rotation, h.kept, h.faithful⟩
  by_cases hcur : m.onCpu = some (successor m.kernel.sched.iTaskCount m.onCpu)
  · rw [Machine.step_returned (h.rotation.schedule_stays hcur _), List.append_nil]
    exact ⟨h.rotation, h.kept, h.faithful⟩
  · have hnext := (h.rotation.schedule (Nat.pos_of_ne_zero hn)
      (InterruptRegisters.ofWords (Hal.irq0 c))).2
    rw [h.rotation.schedule_switches (Nat.pos_of_ne_zero hn) hcur] at hnext
    have hkept : ∀ i < m.kernel.sched.iTaskCount,
        lastContext i (seen ++ m.onCpu.toList.map fun r => .preempted r c) =
          some (saveCurrent m.kernel.sched.tasks m.onCpu
            (InterruptRegisters.ofWords (Hal.irq0 c)) i).regs.cpu := by
      intro i hi
      rw [lastContext_preempted_toList, saveCurrent_regs]
      split_ifs with hi'
      · rw [cpu_ofWords_irq0]
      · exact h.kept i hi
    rw [Machine.step_turn h.rotation (Nat.pos_of_ne_zero hn) hcur, ← List.append_assoc]
    refine ⟨hnext, fun i hi => ?_, (h.faithful.preempted m.onCpu).concat ?_⟩
    · rw [lastContext_resumed, hkept i hi, runTask_regs]
    · intro task c' heq
      injection heq with htask hc
      rw [← htask, hkept _ (successor_lt (Nat.pos_of_ne_zero hn) _), ← hc]

theorem tracks_run (junk : Tasks) (ulTick : ULONG64) (es : List MachineEvent) :
    Tracks ((Machine.boot junk ulTick).run interruptHandlers es).1
      ((Machine.boot junk ulTick).run interruptHandlers es).2 := by
  induction es using List.reverseRecOn with
  | nil =>
    refine ⟨rotation_psThreadsInit junk, fun i hi => absurd hi (Nat.not_lt_zero i), ?_⟩
    intro before task c after heq
    cases before <;> cases heq
  | append_singleton es e ih =>
    rw [Machine.run, List.foldl_append]
    cases e with
    | load task => exact ih.load task
    | irq0 c scratch => exact ih.irq0 c scratch

end Steps

/-- Whatever is loaded, and whatever the registers hold when the timer interrupts, every task goes on
exactly where it was interrupted. -/
theorem taskContexts_preserved (interruptHandlers : ℕ → Option (KiInterruptHandler Kernel))
    (junk : Tasks) (ulTick : ULONG64) (es : List MachineEvent) :
    Faithful ((Machine.boot junk ulTick).run interruptHandlers es).2 :=
  (tracks_run junk ulTick es).faithful

end Open98.Ps
