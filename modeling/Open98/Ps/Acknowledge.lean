import Open98.Ps.Contexts

/-! Acknowledging the timer's interrupts. The controller is told of the end of an interrupt by the code
behind the handler, which a switch to another task never comes back to. -/
namespace Open98.Ps
open Open98.Hal

/-- The kernel and its interrupt controller, which delivers no further timer interrupt as long as one
is in service. -/
structure Wired where
  kernel : Kernel
  inService : Bool

section Model
variable (interruptHandlers : ℕ → Option (KiInterruptHandler Kernel))

namespace Wired

def load (w : Wired) (task : KSystemTask) : Wired :=
  { w with kernel := { w.kernel with sched := psLoadTask w.kernel.sched task } }

/-- A timer interrupt is delivered. Next to the new state, how often its end was written to the
controller before the processor left it. -/
def deliver (w : Wired) (c : Cpu) : Wired × ℕ :=
  let (kernel, writes, _) := halIRQHandler (halInitPIT interruptHandlers) w.kernel
    (InterruptRegisters.ofWords (irq0 c))
  let ends := writes.count (PIC1_COMMAND, PIC_EOI)
  (⟨kernel, ends = 0⟩, ends)

/-- Every timer interrupt of the events is delivered and acknowledged exactly once. -/
def Acknowledged : Wired → List MachineEvent → Prop
  | _, [] => True
  | w, .load task :: es => Acknowledged (w.load task) es
  | w, .irq0 c _ :: es => w.inService = false ∧ (w.deliver interruptHandlers c).2 = 1 ∧
      Acknowledged (w.deliver interruptHandlers c).1 es

end Wired

/-- There is nothing to switch to: no task is loaded, or only the one that is running. -/
def Scheduler.Quiet (s : Scheduler) : Prop :=
  s.iTaskCount = 0 ∨ s.iTaskCount = 1 ∧ (s.tasks 0).status = .running

instance : DecidablePred Scheduler.Quiet := fun s =>
  inferInstanceAs (Decidable (s.iTaskCount = 0 ∨ s.iTaskCount = 1 ∧ (s.tasks 0).status = .running))

/-- Every timer interrupt of the events finds the scheduler quiet. -/
def QuietTicks : Kernel → List MachineEvent → Prop
  | _, [] => True
  | k, .load task :: es => QuietTicks { k with sched := psLoadTask k.sched task } es
  | k, .irq0 c _ :: es => k.sched.Quiet ∧
      QuietTicks (halIRQHandler (halInitPIT interruptHandlers) k (InterruptRegisters.ofWords (irq0 c))).1 es

end Model

section Delivery
variable {interruptHandlers : ℕ → Option (KiInterruptHandler Kernel)}

/-- A tick returns to its caller only in a quiet state, whatever the table looks like. -/
lemma psScheduleThreads_returns_iff (s : Scheduler) (regs : InterruptRegisters) :
    (psScheduleThreads s regs).2 = none ↔ s.Quiet := by
  rcases Nat.lt_trichotomy s.iTaskCount 1 with hn | hone | hmany
  · have hzero : s.iTaskCount = 0 := by omega
    simp [psScheduleThreads, Scheduler.Quiet, hzero]
  · rw [psScheduleThreads, if_neg (by omega), if_neg (by omega), Scheduler.Quiet]
    by_cases hrun : (s.tasks 0).status = .running
    · simp [hone, hrun]
    · simp [hone, hrun]
  · obtain ⟨i, hi⟩ := psScheduleThreads_switches hmany regs
    rw [hi, Scheduler.Quiet]
    constructor
    · intro h
      cases h
    · omega

/-- The interrupt is acknowledged once if the scheduler is quiet, and else never. -/
lemma count_writes (k : Kernel) (c : Cpu) :
    (halIRQHandler (halInitPIT interruptHandlers) k (InterruptRegisters.ofWords (irq0 c))).2.1.count
      (PIC1_COMMAND, PIC_EOI) = if k.sched.Quiet then 1 else 0 := by
  have hreturns := psScheduleThreads_returns_iff k.sched (InterruptRegisters.ofWords (irq0 c))
  rw [halIRQHandler_irq0]
  cases h : psScheduleThreads k.sched (InterruptRegisters.ofWords (irq0 c)) with
  | mk sched next =>
    rw [h] at hreturns
    cases next with
    | none =>
      rw [if_pos (hreturns.mp rfl)]
      rfl
    | some i =>
      rw [if_neg fun hquiet => Option.some_ne_none i (hreturns.mpr hquiet)]
      rfl

lemma Wired.deliver_eq (w : Wired) (c : Cpu) : w.deliver interruptHandlers c =
    (⟨(halIRQHandler (halInitPIT interruptHandlers) w.kernel (InterruptRegisters.ofWords (irq0 c))).1,
      !w.kernel.sched.Quiet⟩, if w.kernel.sched.Quiet then 1 else 0) := by
  simp only [deliver, count_writes]
  split_ifs with hquiet
  · simp [hquiet]
  · simp [hquiet]

end Delivery

/-- From every state of the kernel, and for every order of loads and timer interrupts: each interrupt
is delivered and acknowledged exactly once if and only if each finds the scheduler quiet. -/
theorem acknowledged_iff (interruptHandlers : ℕ → Option (KiInterruptHandler Kernel)) (k : Kernel)
    (es : List MachineEvent) :
    Wired.Acknowledged interruptHandlers ⟨k, false⟩ es ↔ QuietTicks interruptHandlers k es := by
  induction es generalizing k with
  | nil => rfl
  | cons e es ih =>
    cases e with
    | load task => exact ih _
    | irq0 c scratch =>
      rw [Wired.Acknowledged, QuietTicks, Wired.deliver_eq]
      dsimp only
      split_ifs with hquiet
      · simp [hquiet, ih]
      · simp [hquiet]

/-- The first switch leaves the controller waiting. -/
theorem switch_not_acknowledged :
    ¬ ∀ (interruptHandlers : ℕ → Option (KiInterruptHandler Kernel)) (k : Kernel)
      (es : List MachineEvent), Wired.Acknowledged interruptHandlers ⟨k, false⟩ es := by
  intro claim
  let task : KSystemTask := ⟨0, .stopped, InterruptRegisters.ofWords [], 0, 0⟩
  let k : Kernel := ⟨psLoadTask (psThreadsInit fun _ => task) task, 0⟩
  obtain ⟨-, hends, -⟩ := claim (fun _ => none) k [.irq0 ⟨fun _ => 0, 0, 0, 0, 0, 0⟩ fun _ => 0]
  have hquiet : ¬ k.sched.Quiet := by
    intro hquiet
    rcases hquiet with hzero | ⟨-, hrun⟩
    · cases hzero
    · cases hrun
  rw [Wired.deliver_eq, if_neg hquiet] at hends
  cases hends

end Open98.Ps
