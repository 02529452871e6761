import Open98.Library.SaveArea
import Open98.NtDef

/-! Hardware interrupts: the stubs of `hal/idt/idt.asm`, `pop_regs` of `ps/ps.asm`, and
`HalIRQHandler` of `hal/idt/idt.c`. A stack is the list of its 64-bit words from the stack pointer
on. -/
namespace Open98.Hal
open Open98.Library

inductive Gpr
  | rax | rbx | rcx | rdx | rsi | rdi | rbp
  | r8 | r9 | r10 | r11 | r12 | r13 | r14 | r15
  deriving DecidableEq, Repr

/-- What a context consists of when it is interrupted. -/
structure Cpu where
  gpr : Gpr → ULONG64
  rip : ULONG64
  cs : ULONG64
  rflags : ULONG64
  rsp : ULONG64
  ss : ULONG64

structure InterruptRegisters where
  r15 : ULONG64
  r14 : ULONG64
  r13 : ULONG64
  r12 : ULONG64
  r11 : ULONG64
  r10 : ULONG64
  r9 : ULONG64
  r8 : ULONG64
  rbp : ULONG64
  rdi : ULONG64
  rsi : ULONG64
  rdx : ULONG64
  rcx : ULONG64
  rbx : ULONG64
  rax : ULONG64
  intNo : ULONG64
  errorCode : ULONG64
  rip : ULONG64
  cs : ULONG64
  rflags : ULONG64
  rsp : ULONG64
  ss : ULONG64
  deriving DecidableEq

namespace InterruptRegisters

/-- The packed record in memory. -/
def words (r : InterruptRegisters) : List ULONG64 :=
  [r.r15, r.r14, r.r13, r.r12, r.r11, r.r10, r.r9, r.r8, r.rbp, r.rdi, r.rsi, r.rdx, r.rcx, r.rbx,
    r.rax, r.intNo, r.errorCode, r.rip, r.cs, r.rflags, r.rsp, r.ss]

/-- The record that lies at the start of the words. -/
def ofWords (w : List ULONG64) : InterruptRegisters where
  r15 := w.getD 0 0
  r14 := w.getD 1 0
  r13 := w.getD 2 0
  r12 := w.getD 3 0
  r11 := w.getD 4 0
  r10 := w.getD 5 0
  r9 := w.getD 6 0
  r8 := w.getD 7 0
  rbp := w.getD 8 0
  rdi := w.getD 9 0
  rsi := w.getD 10 0
  rdx := w.getD 11 0
  rcx := w.getD 12 0
  rbx := w.getD 13 0
  rax := w.getD 14 0
  intNo := w.getD 15 0
  errorCode := w.getD 16 0
  rip := w.getD 17 0
  cs := w.getD 18 0
  rflags := w.getD 19 0
  rsp := w.getD 20 0
  ss := w.getD 21 0

def gpr (r : InterruptRegisters) : Gpr → ULONG64
  | .rax => r.rax
  | .rbx => r.rbx
  | .rcx => r.rcx
  | .rdx => r.rdx
  | .rsi => r.rsi
  | .rdi => r.rdi
  | .rbp => r.rbp
  | .r8 => r.r8
  | .r9 => r.r9
  | .r10 => r.r10
  | .r11 => r.r11
  | .r12 => r.r12
  | .r13 => r.r13
  | .r14 => r.r14
  | .r15 => r.r15

/-- The context that the record describes. -/
def cpu (r : InterruptRegisters) : Cpu := ⟨r.gpr, r.rip, r.cs, r.rflags, r.rsp, r.ss⟩

end InterruptRegisters

section Stubs

/-- What the processor pushes on an interrupt, on top of the stack. -/
def interruptFrame (c : Cpu) : List ULONG64 := [c.rip, c.cs, c.rflags, c.rsp, c.ss]

/-- The registers in the order in which `__pusha` pushes them. -/
def pusha : List Gpr :=
  [.rax, .rbx, .rcx, .rdx, .rsi, .rdi, .rbp, .r8, .r9, .r10, .r11, .r12, .r13, .r14, .r15]

/-- The order of `__popa` and of the pops of `pop_regs`. -/
def popa : List Gpr :=
  [.r15, .r14, .r13, .r12, .r11, .r10, .r9, .r8, .rbp, .rdi, .rsi, .rdx, .rcx, .rbx, .rax]

/-- The stack when `irq_common_stub` calls `HalIRQHandler`, for a line whose stub pushes these two
numbers. -/
def irqCommonStub (errorCode intNo : ULONG64) (c : Cpu) : List ULONG64 :=
  pushAll pusha c.gpr (intNo :: errorCode :: interruptFrame c)

/-- `irq0`. -/
def irq0 (c : Cpu) : List ULONG64 := irqCommonStub 0 32 c

def iretq (gpr : Gpr → ULONG64) (stack : List ULONG64) : Cpu :=
  ⟨gpr, stack.getD 0 0, stack.getD 1 0, stack.getD 2 0, stack.getD 3 0, stack.getD 4 0⟩

/-- The pops, `add rsp, 16` and `iretq`, with these values in the registers before them. -/
def popRegs (scratch : Gpr → ULONG64) (stack : List ULONG64) : Cpu :=
  let (gpr, stack) := popAll popa scratch stack
  iretq gpr (stack.drop 2)

/-- The end of `irq_common_stub` is the same code. -/
def irqCommonStubEnd (scratch : Gpr → ULONG64) (stack : List ULONG64) : Cpu := popRegs scratch stack

lemma mem_pusha (r : Gpr) : r ∈ pusha := by
  cases r <;> decide

lemma popa_eq : popa = pusha.reverse := rfl

/-- The pops undo the pushes, whatever the registers hold in between. -/
theorem irqCommonStubEnd_irqCommonStub (errorCode intNo : ULONG64) (scratch : Gpr → ULONG64)
    (c : Cpu) : irqCommonStubEnd scratch (irqCommonStub errorCode intNo c) = c := by
  rw [irqCommonStubEnd, popRegs, irqCommonStub, popa_eq, popAll_pushAll (by decide) mem_pusha]
  rfl

/-- `pop_regs` sets up the context that the record describes. -/
theorem popRegs_words (scratch : Gpr → ULONG64) (r : InterruptRegisters) :
    popRegs scratch r.words = r.cpu := by
  have hnodup : popa.Nodup := by decide
  have hpop := popAll_map hnodup scratch r.gpr
    [r.intNo, r.errorCode, r.rip, r.cs, r.rflags, r.rsp, r.ss]
  have hall : (fun x => if x ∈ popa then r.gpr x else scratch x) = r.gpr := by
    funext x
    rw [if_pos (popa_eq ▸ List.mem_reverse.mpr (mem_pusha x))]
  rw [hall] at hpop
  have hwords : r.words = popa.map r.gpr ++
      [r.intNo, r.errorCode, r.rip, r.cs, r.rflags, r.rsp, r.ss] := rfl
  rw [popRegs, hwords, hpop]
  rfl

/-- The record that the handler is given describes the interrupted context. -/
theorem cpu_ofWords_irqCommonStub (errorCode intNo : ULONG64) (c : Cpu) :
    (InterruptRegisters.ofWords (irqCommonStub errorCode intNo c)).cpu = c := by
  obtain ⟨gpr, rip, cs, rflags, rsp, ss⟩ := c
  have hgpr : (InterruptRegisters.ofWords
      (irqCommonStub errorCode intNo ⟨gpr, rip, cs, rflags, rsp, ss⟩)).gpr = gpr := by
    funext r
    cases r <;> rfl
  rw [InterruptRegisters.cpu, hgpr]
  rfl

end Stubs

section Handler

def PIC1_COMMAND : ℕ := 0x20
def PIC2_COMMAND : ℕ := 0xA0
def PIC_EOI : ℕ := 0x20
def IRQ0 : ℕ := 32
def IRQ8 : ℕ := 40

/-- How a call comes to an end: it returns, or it leaves for good through `pop_regs`, with the
registers of this task. -/
inductive Exit
  | returned
  | popRegs (task : ℕ)
  deriving DecidableEq, Repr

/-- A `KiInterruptHandler`, over the state of the kernel. -/
abbrev KiInterruptHandler (σ : Type) := σ → InterruptRegisters → σ × Exit

/-- The state, the port writes and the way the call ends. What stands behind a call of `pop_regs` is
never reached. -/
def halIRQHandler {σ : Type} (interruptHandlers : ℕ → Option (KiInterruptHandler σ)) (s : σ)
    (regs : InterruptRegisters) : σ × List (ℕ × ℕ) × Exit :=
  let (s, exit) := match interruptHandlers regs.intNo.toNat with
    | some handler => handler s regs
    | none => (s, .returned)
  match exit with
  | .popRegs task => (s, [], .popRegs task)
  | .returned =>
    (s, (if IRQ8 ≤ regs.intNo.toNat then [(PIC2_COMMAND, PIC_EOI)] else []) ++
      [(PIC1_COMMAND, PIC_EOI)], .returned)

end Handler

end Open98.Hal
