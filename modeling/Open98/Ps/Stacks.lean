import Mathlib.Data.Set.BooleanAlgebra
import Mathlib.Order.CompletePartialOrder
import Mathlib.Order.Interval.Set.Basic
import Open98.Ps.Sched

/-! `PspCreateThread` of `ps/ps.c`, and where the stacks of the tasks lie that it creates. The new page map
and the memory from `malloc` are arguments. -/
namespace Open98.Ps

section Model

/-- `STACK_SIZE`. -/
def stackSize : ℕ := 0x10000

/-- What a call gets: the routine, the contents of the memory for the task, the address of the memory for
the stack, and the page map. -/
structure ThreadCall where
  lpThread : ULONG64
  junk : KSystemTask
  stack : PVOID
  pageMap : PVOID

/-- The scheduler together with the counter of the process ids. -/
structure Threads where
  iPidCount : ℕ
  scheduler : Scheduler

/-- The task that is filled in; the stack's address is made a `UINT`, to which the size is added. -/
def newTask (pid : ℕ) (c : ThreadCall) : KSystemTask := { c.junk with
  flags := 0b10
  pid := pid
  regs := { c.junk.regs with
    rip := c.lpThread
    rflags := (1 <<< 9) ||| (1 <<< 1)
    cs := 0x28
    ss := 0x30
    rsp := (c.stack.setWidth 32 + (0x10000 : UINT)).setWidth 64 }
  pageMap := c.pageMap }

def pspCreateThread (s : Threads) (c : ThreadCall) : Threads where
  iPidCount := s.iPidCount + 1
  scheduler := psLoadTask s.scheduler (newTask s.iPidCount c)

end Model

section Stacks

/-- The tasks that a sequence of calls creates, the first one with this id. -/
def created : (pid : ℕ) → List ThreadCall → List KSystemTask
  | _, [] => []
  | pid, c :: cs => newTask pid c :: created (pid+1) cs

/-- These are the tasks that are loaded into the scheduler. -/
lemma foldl_pspCreateThread (s : Threads) (calls : List ThreadCall) :
    (calls.foldl pspCreateThread s).scheduler = (created s.iPidCount calls).foldl psLoadTask s.scheduler := by
  induction calls generalizing s with
  | nil => rfl
  | cons c cs ih => exact ih (pspCreateThread s c)

/-- The addresses below the stack pointer that a task starts with. -/
def KSystemTask.stack (t : KSystemTask) : Set ℕ := Set.Ico (t.regs.rsp.toNat - stackSize) t.regs.rsp.toNat

/-- The memory that has been allocated for a stack. -/
def ThreadCall.block (c : ThreadCall) : Set ℕ := Set.Ico c.stack.toNat (c.stack.toNat + stackSize)

/-- Each task starts at the end of the memory for its stack, and the stacks are apart. -/
structure StacksExact (pid : ℕ) (calls : List ThreadCall) : Prop where
  exact : List.Forall₂ (fun c t => t.regs.rsp.toNat = c.stack.toNat + stackSize ∧ t.stack = c.block) calls
    (created pid calls)
  apart : (created pid calls).Pairwise fun t t' => Disjoint t.stack t'.stack

variable {pid : ℕ} {calls : List ThreadCall} {c : ThreadCall}

lemma newTask_rsp (pid : ℕ) (c : ThreadCall) :
    (newTask pid c).regs.rsp.toNat = (c.stack.toNat + stackSize) % 2^32 := by
  have hsize : (0x10000 : UINT).toNat = stackSize := rfl
  have hlt : (c.stack.toNat + stackSize) % 2^32 < 2^64 := lt_trans (Nat.mod_lt _ (by decide)) (by decide)
  simp only [newTask, BitVec.toNat_setWidth, BitVec.toNat_add, hsize]
  rw [Nat.mod_add_mod, Nat.mod_eq_of_lt hlt]

lemma newTask_exact_iff (pid : ℕ) (c : ThreadCall) :
    ((newTask pid c).regs.rsp.toNat = c.stack.toNat + stackSize ∧ (newTask pid c).stack = c.block) ↔
      c.stack.toNat + stackSize < 2^32 := by
  rw [KSystemTask.stack, newTask_rsp]
  constructor
  · intro ⟨hrsp, _⟩
    omega
  · intro hlt
    rw [Nat.mod_eq_of_lt hlt, Nat.add_sub_cancel]
    exact ⟨rfl, rfl⟩

lemma created_exact_iff (pid : ℕ) (calls : List ThreadCall) :
    List.Forall₂ (fun c t => t.regs.rsp.toNat = c.stack.toNat + stackSize ∧ t.stack = c.block) calls
      (created pid calls) ↔ ∀ c ∈ calls, c.stack.toNat + stackSize < 2^32 := by
  induction calls generalizing pid with
  | nil => exact iff_of_true .nil (by simp)
  | cons c cs ih => rw [created, List.forall₂_cons, newTask_exact_iff, ih, List.forall_mem_cons]

/-- Stacks that are the blocks of their calls lie as far apart as these. -/
lemma pairwise_stacks {tasks : List KSystemTask}
    (hexact : List.Forall₂ (fun c t => t.regs.rsp.toNat = c.stack.toNat + stackSize ∧ t.stack = c.block) calls tasks)
    (hapart : calls.Pairwise fun c c' => Disjoint c.block c'.block) :
    tasks.Pairwise fun t t' => Disjoint t.stack t'.stack := by
  have hsame : tasks.map KSystemTask.stack = calls.map ThreadCall.block := by
    induction hexact with
    | nil => rfl
    | cons h _ ih => rw [List.map_cons, List.map_cons, h.2, ih hapart.of_cons]
  rw [← List.pairwise_map (f := ThreadCall.block) (R := Disjoint), ← hsame, List.pairwise_map] at hapart
  exact hapart

/-- The tasks have their stacks where they have been allocated if and only if these end below 2^32: with
addresses in the higher half, only if there is none. -/
theorem stacksExact_iff (pid : ℕ) (hapart : calls.Pairwise fun c c' => Disjoint c.block c'.block) :
    (StacksExact pid calls ↔ ∀ c ∈ calls, c.stack.toNat + stackSize < 2^32) ∧
      ((∀ c ∈ calls, 2^63 ≤ c.stack.toNat) → (StacksExact pid calls ↔ calls = [])) := by
  have hiff : StacksExact pid calls ↔ ∀ c ∈ calls, c.stack.toNat + stackSize < 2^32 := by
    rw [← created_exact_iff pid]
    exact ⟨fun h => h.exact, fun h => ⟨h, pairwise_stacks h hapart⟩⟩
  refine ⟨hiff, fun hhigh => hiff.trans ⟨fun hlow => ?_, ?_⟩⟩
  · cases calls with
    | nil => rfl
    | cons c cs =>
      have hc := hhigh c (by simp)
      have hend := hlow c (by simp)
      omega
  · rintro rfl
    simp

/-- A call that gets memory at an address. -/
def callAt (stack : PVOID) : ThreadCall where
  lpThread := 0
  junk := ⟨0, .noInit, .ofWords [], 0, 0⟩
  stack := stack
  pageMap := 0

/-- Two stacks in low memory. -/
theorem stacksExact_iff_low : StacksExact 0 [callAt 0x100000, callAt 0x110000] := by
  refine (stacksExact_iff 0 ?_).1.mpr (by decide)
  rw [List.pairwise_pair, Set.disjoint_iff_forall_ne]
  rintro a ⟨_, ha⟩ b ⟨hb, _⟩ rfl
  exact absurd (lt_of_le_of_lt hb ha) (by decide)

/-- A stack in the higher half: the task starts with a pointer into low memory. -/
theorem stack_pointer_cut : (newTask 0 (callAt 0xffff800000100000)).regs.rsp = 0x110000 ∧
    ¬ StacksExact 0 [callAt 0xffff800000100000] := by
  refine ⟨by decide, fun h => ?_⟩
  have hend := (created_exact_iff 0 _).mp h.exact _ (List.mem_singleton_self _)
  exact absurd hend (by decide)

end Stacks

end Open98.Ps
