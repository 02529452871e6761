import Open98.Hal.Idt
import Open98.Lib.PrintfNumbers

/-! The message of `KeBugCheck` in `ke/panic.c`. -/
namespace Open98.Ke
open Library Lib Hal

section Message

/-- The title in front of the first directive, in parts. -/
def titleParts : List String :=
  ["A problem has been detected ", "and open98 has been shutdown ", "to prevent damage to ", "your computer.\r\n\r\n",
    "If this is the first time ", "you've seen this ", "Stop error screen\r\n", "restart your computer. ",
    "If this screen appears again, ", "follow\r\n", "these steps:\r\n\r\n", "Check for viruses on your ",
    "computer. Remove any newly ", "installed\r\n", "hard drives or hard drive ", "controllers. Check your hard ",
    "drive\r\n", "to make sure it is properly ", "configured and terminated.\r\n", "Run CHKDSK /F to check for ",
    "hard drive corruption, and ", "then\r\n", "restart your computer.\r\n\r\n", "Technical information:\r\n\r\n",
    "*** STOP: "]

def titleText : List UCHAR := titleParts.flatMap fun part => part.toList.map chr

/-- `"%p (%p, %p, %p, %p)"`. -/
def title : List UCHAR :=
  titleText ++ [chr '%', chr 'p'] ++ [chr ' ', chr '('] ++ [chr '%', chr 'p'] ++ [chr ',', chr ' '] ++
    [chr '%', chr 'p'] ++ [chr ',', chr ' '] ++ [chr '%', chr 'p'] ++ [chr ',', chr ' '] ++ [chr '%', chr 'p'] ++ [chr ')']

/-- The arguments of `sprintf`. -/
def stopArgs (reg : InterruptRegisters) (behind : Args) : Args
  | 0 => reg.intNo
  | 1 => reg.errorCode
  | 2 => reg.rip
  | 3 => reg.cs
  | 4 => reg.rflags
  | k+5 => behind k

lemma titleText_facts : chr '%' ∉ titleText ∧ titleText.length = 539 := by decide +kernel

/-- What the screen says: the number of the interrupt, and in brackets the error code, `rip`, `cs` and the
flags. -/
def stopText (reg : InterruptRegisters) : List UCHAR :=
  titleText ++ pointerShown reg.intNo ++ [chr ' ', chr '('] ++ pointerShown reg.errorCode ++ [chr ',', chr ' '] ++
    pointerShown reg.rip ++ [chr ',', chr ' '] ++ pointerShown reg.cs ++ [chr ',', chr ' '] ++
      pointerShown reg.rflags ++ [chr ')']

variable {float : FloatText} {mem : Readable} (reg : InterruptRegisters) (behind : Args)

lemma formatText_title : formatText float mem title (stopArgs reg behind) = some (stopText reg, behind) := by
  have hopen : ∀ va, formatText float mem [chr ' ', chr '('] va = some ([chr ' ', chr '('], va) :=
    formatText_literal (by decide)
  have hcomma : ∀ va, formatText float mem [chr ',', chr ' '] va = some ([chr ',', chr ' '], va) :=
    formatText_literal (by decide)
  have hclose : ∀ va, formatText float mem [chr ')'] va = some ([chr ')'], va) := formatText_literal (by decide)
  have hpointer : ∀ va, formatText float mem [chr '%', chr 'p'] va = some (pointerShown (va 0), va.rest) :=
    formatText_pointer
  have hbegin : formatText float mem titleText (stopArgs reg behind) = some (titleText, stopArgs reg behind) :=
    formatText_literal titleText_facts.1 _
  have h₁ := formatText_both hbegin (hpointer _)
  have h₂ := formatText_both (formatText_both h₁ (hopen _)) (hpointer _)
  have h₃ := formatText_both (formatText_both h₂ (hcomma _)) (hpointer _)
  have h₄ := formatText_both (formatText_both h₃ (hcomma _)) (hpointer _)
  have h₅ := formatText_both (formatText_both h₄ (hcomma _)) (hpointer _)
  exact formatText_both h₅ (hclose _)

lemma length_stopText : (stopText reg).length ≤ 638 := by
  have htitle := titleText_facts.2
  have h₁ := length_pointerShown reg.intNo
  have h₂ := length_pointerShown reg.errorCode
  have h₃ := length_pointerShown reg.rip
  have h₄ := length_pointerShown reg.cs
  have h₅ := length_pointerShown reg.rflags
  simp only [stopText, List.length_append, List.length_cons, List.length_nil]
  omega

/-- Whatever the registers hold, the message with its NUL fits into 639 of the bytes of `StopCode`, and no other
byte is written. -/
theorem sprintf_stopCode (float : FloatText) (mem : Readable) (stopCode : Buffer) :
    ∃ b, sprintf float mem (some stopCode) title (stopArgs reg behind) =
        some (some b, BitVec.ofNat 32 (stopText reg).length) ∧
      (∀ j < (stopText reg).length, b j = (stopText reg).getD j 0) ∧ b (stopText reg).length = 0 ∧
        ∀ j, 639 ≤ j → b j = stopCode j := by
  have hlen := length_stopText reg
  have hsize : unlimited.toNat = 2^64 - 1 := rfl
  refine ⟨holding (stopText reg) unlimited.toNat stopCode, ?_, fun j hj => ?_, ?_, fun j hj => ?_⟩
  · rw [sprintf, snprintf_eq, formatText_title]
    rfl
  · rw [holding, if_pos ⟨by omega, hj⟩]
  · rw [holding, if_neg (by omega), if_pos (.inr ⟨by omega, rfl⟩)]
  · rw [holding, if_neg (by omega), if_neg (by omega)]

end Message

end Open98.Ke
