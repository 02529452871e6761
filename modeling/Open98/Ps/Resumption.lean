import Mathlib.Data.Finset.Card
import Open98.Ps.Contexts

/-! Which interrupted contexts the scheduler keeps. It saves one only if it finds a slot that is marked
running, so the context that was interrupted before the first switch is lost. -/
namespace Open98.Ps
open Open98.Library Open98.Hal

section Model
variable (interruptHandlers : ℕ → Option (KiInterruptHandler Kernel))

/-- Some further ticks resume the task in this context. -/
def Machine.Resumable (m : Machine) (task : ℕ) (c : Cpu) : Prop :=
  ∃ ticks : List (Cpu × (Gpr → ULONG64)), .resumed task c ∈
    (m.run interruptHandlers (ticks.map fun (c, scratch) => .irq0 c scratch)).2

/-- A tick that switches has the interrupted context in a loaded slot from which it can be resumed. -/
def Machine.KeepsContext (m : Machine) : Prop :=
  ∀ c scratch i, (psScheduleThreads m.kernel.sched (InterruptRegisters.ofWords (irq0 c))).2 = some i →
    let next := (m.step interruptHandlers (.irq0 c scratch)).1
    ∃ slot < next.kernel.sched.iTaskCount, (next.kernel.sched.tasks slot).regs.cpu = c ∧
      next.Resumable interruptHandlers slot c

/-- No task is loaded, or one is marked running. -/
def Scheduler.CanSave (s : Scheduler) : Prop :=
  s.iTaskCount = 0 ∨ ∃ r < maxTasks, (s.tasks r).status = .running

end Model

section Resuming
variable {interruptHandlers : ℕ → Option (KiInterruptHandler Kernel)} {m : Machine} {c : Cpu}

lemma Machine.foldl_eq (es : List MachineEvent) (seen : List Observed) :
    es.foldl (fun (m, seen) e => ((m.step interruptHandlers e).1, seen ++
      (m.step interruptHandlers e).2)) (m, seen) =
        ((m.run interruptHandlers es).1, seen ++ (m.run interruptHandlers es).2) := by
  induction es generalizing m seen with
  | nil => simp [run]
  | cons e es ih =>
    rw [List.foldl_cons, run, List.foldl_cons]
    dsimp only
    rw [ih, ih, List.nil_append, List.append_assoc]

lemma Machine.run_cons (e : MachineEvent) (es : List MachineEvent) :
    m.run interruptHandlers (e :: es) = (((m.step interruptHandlers e).1.run interruptHandlers es).1,
      (m.step interruptHandlers e).2 ++ ((m.step interruptHandlers e).1.run interruptHandlers es).2) := by
  rw [run, List.foldl_cons]
  exact foldl_eq es _

lemma Machine.run_append (es more : List MachineEvent) : (m.run interruptHandlers (es ++ more)).1 =
    ((m.run interruptHandlers es).1.run interruptHandlers more).1 := by
  rw [run, List.foldl_append, foldl_eq es, foldl_eq more]

/-- One tick later. -/
lemma Machine.Resumable.tick {task : ℕ} {d : Cpu} {scratch : Gpr → ULONG64}
    (h : (m.step interruptHandlers (.irq0 d scratch)).1.Resumable interruptHandlers task c) :
    m.Resumable interruptHandlers task c := by
  obtain ⟨ticks, hseen⟩ := h
  refine ⟨(d, scratch) :: ticks, ?_⟩
  rw [List.map_cons, Machine.run_cons]
  exact List.mem_append_right _ hseen

/-- What a turn leaves: the successor on the processor, and every slot's context as it was, but for the
interrupted one, which is saved. -/
structure Turn (m next : Machine) (c : Cpu) : Prop where
  onCpu : next.onCpu = some (successor m.kernel.sched.iTaskCount m.onCpu)
  rotation : Rotation next.kernel.sched next.onCpu
  count : next.kernel.sched.iTaskCount = m.kernel.sched.iTaskCount
  cpu : ∀ i, (next.kernel.sched.tasks i).regs.cpu =
    if m.onCpu = some i then c else (m.kernel.sched.tasks i).regs.cpu

variable (h : Rotation m.kernel.sched m.onCpu) (hn : 0 < m.kernel.sched.iTaskCount)
  (hcur : m.onCpu ≠ some (successor m.kernel.sched.iTaskCount m.onCpu))
include h hn hcur

lemma turn_step (c : Cpu) (scratch : Gpr → ULONG64) :
    Turn m (m.step interruptHandlers (.irq0 c scratch)).1 c := by
  have hnext := (h.schedule hn (InterruptRegisters.ofWords (irq0 c))).2
  rw [h.schedule_switches hn hcur] at hnext
  rw [Machine.step_turn h hn hcur]
  refine ⟨rfl, hnext, rfl, fun i => ?_⟩
  rw [runTask_regs, saveCurrent_regs]
  split_ifs with hi
  · rw [cpu_ofWords_irq0]
  · rfl

/-- The successor is resumed at once. -/
lemma resumable_successor (c : Cpu) (scratch : Gpr → ULONG64) {r : ℕ}
    (hr : successor m.kernel.sched.iTaskCount m.onCpu = r) :
    m.Resumable interruptHandlers r (m.kernel.sched.tasks r).regs.cpu := by
  refine ⟨[(c, scratch)], ?_⟩
  subst hr
  rw [List.map_singleton, Machine.run_cons, Machine.step_turn h hn hcur, saveCurrent_regs,
    if_neg hcur]
  simp

omit hn hcur in
/-- A task gives way when another one is loaded. -/
lemma gives_way {r cur : ℕ} (hcpu : m.onCpu = some cur) (hr : r < m.kernel.sched.iTaskCount)
    (hne : cur ≠ r) : m.onCpu ≠ some (successor m.kernel.sched.iTaskCount m.onCpu) := by
  intro hcur
  obtain ⟨hone, hzero⟩ := h.current_eq_successor.mp hcur
  have hlt := h.current_lt cur hcpu
  omega

omit hcur in
/-- A task that is not on the processor has its turn after as many ticks as it is places away. -/
lemma resumable_of_distance (c : Cpu) (scratch : Gpr → ULONG64) {r cur d : ℕ}
    (hcpu : m.onCpu = some cur) (hr : r < m.kernel.sched.iTaskCount) (hne : cur ≠ r)
    (hd : (cur+1 + d) % m.kernel.sched.iTaskCount = r) :
    m.Resumable interruptHandlers r (m.kernel.sched.tasks r).regs.cpu := by
  induction d generalizing m cur with
  | zero =>
    apply resumable_successor h hn (gives_way h hcpu hr hne) c scratch
    rw [hcpu]
    exact hd
  | succ d ih =>
    have hcur := gives_way h hcpu hr hne
    by_cases hsucc : successor m.kernel.sched.iTaskCount m.onCpu = r
    · exact resumable_successor h hn hcur c scratch hsucc
    · have hturn : Turn m (m.step interruptHandlers (.irq0 c scratch)).1 c :=
        turn_step h hn hcur c scratch
      have hregs := hturn.cpu r
      rw [hcpu, if_neg (fun heq => hne (Option.some.inj heq))] at hregs
      rw [← hregs]
      apply Machine.Resumable.tick
      refine ih hturn.rotation (hturn.count ▸ hn) hturn.onCpu (hturn.count ▸ hr) hsucc ?_
      rw [hturn.count, hcpu, successor, Nat.add_assoc, Nat.mod_add_mod, Nat.add_comm 1 d]
      exact hd

omit hcur in
/-- So every task that is not on the processor can be resumed. -/
lemma resumable (c : Cpu) (scratch : Gpr → ULONG64) {r cur : ℕ} (hcpu : m.onCpu = some cur)
    (hr : r < m.kernel.sched.iTaskCount) (hne : cur ≠ r) :
    m.Resumable interruptHandlers r (m.kernel.sched.tasks r).regs.cpu := by
  have hlt := h.current_lt cur hcpu
  refine resumable_of_distance h hn c scratch (d := m.kernel.sched.iTaskCount - (cur+1) + r) hcpu hr
    hne ?_
  rw [show cur+1 + (m.kernel.sched.iTaskCount - (cur+1) + r) = m.kernel.sched.iTaskCount + r by omega,
    Nat.add_mod_left, Nat.mod_eq_of_lt hr]

end Resuming

section Keeping
variable {interruptHandlers : ℕ → Option (KiInterruptHandler Kernel)} {m : Machine}

/-- There is always a context that no loaded slot holds. -/
lemma exists_cpu_ne (tasks : Tasks) {n : ℕ} (hn : n ≤ maxTasks) :
    ∃ c : Cpu, ∀ i < n, (tasks i).regs.cpu ≠ c := by
  let rips : Finset ULONG64 := (Finset.range n).image fun i => (tasks i).regs.rip
  let many : Finset ULONG64 := (Finset.range 65).image (BitVec.ofNat 64)
  have hmany : many.card = 65 := by
    rw [Finset.card_image_of_injOn, Finset.card_range]
    intro i hi j hj heq
    have hi' := Finset.mem_range.mp hi
    have hj' := Finset.mem_range.mp hj
    have hnat := congrArg BitVec.toNat heq
    simp only [BitVec.toNat_ofNat] at hnat
    omega
  have hcard : rips.card < many.card := by
    have hle : rips.card ≤ (Finset.range n).card := Finset.card_image_le
    rw [Finset.card_range] at hle
    have hmax : maxTasks = 64 := rfl
    omega
  obtain ⟨rip, -, hrip⟩ := Finset.exists_mem_notMem_of_card_lt_card hcard
  refine ⟨⟨fun _ => 0, rip, 0, 0, 0, 0⟩, fun i hi heq => hrip ?_⟩
  exact Finset.mem_image.mpr ⟨i, Finset.mem_range.mpr hi, congrArg Cpu.rip heq⟩

lemma canSave_iff (h : Rotation m.kernel.sched m.onCpu) :
    m.kernel.sched.CanSave ↔ m.kernel.sched.iTaskCount = 0 ∨ m.onCpu ≠ none := by
  apply or_congr_right
  constructor
  · intro ⟨r, hr, hrun⟩
    rw [(h.status_running hr).mp hrun]
    exact Option.some_ne_none r
  · intro hcpu
    obtain ⟨r, hr⟩ := Option.ne_none_iff_exists'.mp hcpu
    have hlt : r < maxTasks := lt_of_lt_of_le (h.current_lt r hr) h.count_le
    exact ⟨r, hlt, (h.status_running hlt).mpr hr⟩

/-- The next tick keeps every context that it can interrupt exactly when it switches from a task or
nothing is loaded. -/
lemma keepsContext_iff (h : Rotation m.kernel.sched m.onCpu) :
    m.KeepsContext interruptHandlers ↔ m.kernel.sched.CanSave := by
  rw [canSave_iff h]
  constructor
  · intro hkeeps
    by_contra hnot
    rw [not_or, not_ne_iff] at hnot
    obtain ⟨hn, hnone⟩ := hnot
    have hpos := Nat.pos_of_ne_zero hn
    have hcur : m.onCpu ≠ some (successor m.kernel.sched.iTaskCount m.onCpu) := by
      rw [hnone]
      exact (Option.some_ne_none _).symm
    obtain ⟨c, hc⟩ := exists_cpu_ne m.kernel.sched.tasks h.count_le
    have hturn : Turn m (m.step interruptHandlers (.irq0 c fun _ => 0)).1 c :=
      turn_step h hpos hcur c _
    have hswitch := congrArg Prod.snd (h.schedule_switches hpos hcur
      (InterruptRegisters.ofWords (irq0 c)))
    obtain ⟨slot, hslot, hcpu, -⟩ := hkeeps c (fun _ => 0) _ hswitch
    rw [hturn.cpu, hnone, if_neg (Option.some_ne_none slot).symm] at hcpu
    exact hc slot (hturn.count ▸ hslot) hcpu
  · intro hsave c scratch i hi
    rcases hsave with hn | hsome
    · rw [psScheduleThreads, if_pos hn] at hi
      cases hi
    · obtain ⟨r, hr⟩ := Option.ne_none_iff_exists'.mp hsome
      have hpos : 0 < m.kernel.sched.iTaskCount := Nat.zero_lt_of_lt (h.current_lt r hr)
      have hcur : m.onCpu ≠ some (successor m.kernel.sched.iTaskCount m.onCpu) := by
        intro hcur
        rw [h.schedule_stays hcur] at hi
        cases hi
      have hturn : Turn m (m.step interruptHandlers (.irq0 c scratch)).1 c :=
        turn_step h hpos hcur c scratch
      have hregs := hturn.cpu r
      rw [if_pos hr] at hregs
      have hlt : r < (m.step interruptHandlers (.irq0 c scratch)).1.kernel.sched.iTaskCount := by
        rw [hturn.count]
        exact h.current_lt r hr
      have hne : successor m.kernel.sched.iTaskCount m.onCpu ≠ r := by
        intro heq
        rw [heq] at hcur
        exact hcur hr
      have hresumable : (m.step interruptHandlers (.irq0 c scratch)).1.Resumable interruptHandlers r _ :=
        resumable hturn.rotation (Nat.zero_lt_of_lt hlt) c scratch hturn.onCpu hlt hne
      rw [hregs] at hresumable
      exact ⟨r, hlt, hregs, hresumable⟩

/-- Once a task is on the processor there is always one. -/
lemma onCpu_step (e : MachineEvent) (hcpu : m.onCpu ≠ none) :
    (m.step interruptHandlers e).1.onCpu ≠ none := by
  cases e with
  | load task => exact hcpu
  | irq0 c scratch =>
    cases h : psScheduleThreads m.kernel.sched (InterruptRegisters.ofWords (irq0 c)) with
    | mk sched next =>
      cases next with
      | none => rwa [Machine.step_returned h]
      | some i =>
        rw [Machine.step_switched h]
        exact Option.some_ne_none i

lemma onCpu_run (es : List MachineEvent) (hcpu : m.onCpu ≠ none) :
    (m.run interruptHandlers es).1.onCpu ≠ none := by
  induction es using List.reverseRecOn with
  | nil => exact hcpu
  | append_singleton es e ih =>
    rw [Machine.run, List.foldl_append]
    exact onCpu_step e ih

end Keeping

/-- In whatever state the machine is, the next tick keeps the interrupted context exactly when no task
is loaded or one is running. So only the first tick that finds a loaded task loses one. -/
theorem contexts_kept_iff (interruptHandlers : ℕ → Option (KiInterruptHandler Kernel)) (junk : Tasks)
    (ulTick : ULONG64) (es : List MachineEvent) :
    let run es := ((Machine.boot junk ulTick).run interruptHandlers es).1
    ((run es).KeepsContext interruptHandlers ↔ (run es).kernel.sched.CanSave) ∧
      ∀ c scratch more, 0 < (run es).kernel.sched.iTaskCount →
        (run (es ++ .irq0 c scratch :: more)).kernel.sched.CanSave := by
  intro run
  have htracks : ∀ es, Tracks (run es) ((Machine.boot junk ulTick).run interruptHandlers es).2 :=
    tracks_run junk ulTick
  refine ⟨keepsContext_iff (htracks es).rotation, fun c scratch more hn => ?_⟩
  refine (canSave_iff (htracks _).rotation).mpr (Or.inr ?_)
  have hfirst : ((run es).step interruptHandlers (.irq0 c scratch)).1.onCpu ≠ none := by
    by_cases hcpu : (run es).onCpu = none
    · have hcur : (run es).onCpu ≠ some (successor (run es).kernel.sched.iTaskCount (run es).onCpu) := by
        rw [hcpu]
        exact (Option.some_ne_none _).symm
      rw [(turn_step (htracks es).rotation hn hcur c scratch).onCpu]
      exact Option.some_ne_none _
    · exact onCpu_step _ hcpu
  change ((Machine.boot junk ulTick).run interruptHandlers
    (es ++ .irq0 c scratch :: more)).1.onCpu ≠ none
  rw [Machine.run_append, Machine.run_cons]
  exact onCpu_run more hfirst

/-- The first tick after the first task is loaded: the boot code is interrupted, and its context is
nowhere. -/
theorem boot_context_lost :
    ¬ ∀ (interruptHandlers : ℕ → Option (KiInterruptHandler Kernel)) (junk : Tasks) (ulTick : ULONG64)
      (es : List MachineEvent),
      ((Machine.boot junk ulTick).run interruptHandlers es).1.KeepsContext interruptHandlers := by
  intro claim
  let task : KSystemTask := ⟨0, .stopped, InterruptRegisters.ofWords [], 0, 0⟩
  have hkeeps := claim (fun _ => none) (fun _ => task) 0 [.load task]
  have hsave := (keepsContext_iff (tracks_run (fun _ => task) 0 [.load task]).rotation).mp hkeeps
  rw [canSave_iff (tracks_run (fun _ => task) 0 [.load task]).rotation] at hsave
  rcases hsave with hn | hcpu
  · cases hn
  · exact hcpu rfl

end Open98.Ps
