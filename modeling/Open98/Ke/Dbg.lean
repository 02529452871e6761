import Open98.Lib.PrintfParse
import Open98.Library.Polling

/-! The debug output of `ke/dbg.c`. The transmitter counts the accesses to its ports; its status is given for each
of them, and what is written to it is listed with the time of the access. -/
namespace Open98.Ke
open Library Lib

section Model

structure Transmitter where
  time : ℕ
  sent : List (ℕ × UCHAR)

variable (status : ℕ → UCHAR)

/-- `inb( 0xE9 + 5 ) & 0x20`. -/
def Ready (t : ℕ) : Prop := status t &&& 0x20#8 ≠ 0#8

instance (t : ℕ) : Decidable (Ready status t) := inferInstanceAs (Decidable (_ ≠ _))

def isTransmitEmpty (s : Transmitter) : Bool × Transmitter := (Ready status s.time, { s with time := s.time + 1 })

/-- `outb( 0xE9, c )`. -/
def outb (c : UCHAR) (s : Transmitter) : Transmitter := ⟨s.time + 1, s.sent ++ [(s.time, c)]⟩

def serialPrintc (fuel : ℕ) (c : UCHAR) (s : Transmitter) : Result Transmitter := do
  let s ← pollUntil .hang (isTransmitEmpty status) fuel s
  return outb c s

/-- `"[KRNL] "`. -/
def krnl : List UCHAR := [chr '[', chr 'K', chr 'R', chr 'N', chr 'L', chr ']', chr ' ']

def dbgPrintFmt (float : FloatText) (mem : Readable) (fuel : ℕ) (fmt : List UCHAR) (args : Args) (s : Transmitter) :
    Option (Result Transmitter) := do
  let (r, _, args) ← vfctprintf float mem (fun c r => r >>= serialPrintc status fuel c) krnl args (.ok s)
  let (r, _, args) ← vfctprintf float mem (fun c r => r >>= serialPrintc status fuel c) fmt args r
  let (r, _, _) ← vfctprintf float mem (fun c r => r >>= serialPrintc status fuel c) [chr '\n'] args r
  return r

end Model

section Sending
variable {status : ℕ → UCHAR} {s s' s'' : Transmitter} {cs cs' : List UCHAR}

/-- The characters are sent one after the other, each at an access right behind one that found the transmitter
ready. -/
def Sends (status : ℕ → UCHAR) (s : Transmitter) (cs : List UCHAR) (s' : Transmitter) : Prop :=
  s.time ≤ s'.time ∧ ∃ new : List (ℕ × UCHAR), s'.sent = s.sent ++ new ∧ new.map Prod.snd = cs ∧
    (∀ e ∈ new, s.time < e.1 ∧ e.1 < s'.time ∧ Ready status (e.1 - 1)) ∧ new.Pairwise fun e e' => e.1 < e'.1

lemma Sends.nil (status : ℕ → UCHAR) (s : Transmitter) : Sends status s [] s :=
  ⟨le_rfl, [], (List.append_nil _).symm, rfl, by simp, .nil⟩

lemma Sends.append (h : Sends status s cs s') (h' : Sends status s' cs' s'') : Sends status s (cs ++ cs') s'' := by
  obtain ⟨htime, new, hsent, hbytes, hready, horder⟩ := h
  obtain ⟨htime', new', hsent', hbytes', hready', horder'⟩ := h'
  refine ⟨htime.trans htime', new ++ new', ?_, ?_, ?_, ?_⟩
  · rw [hsent', hsent, List.append_assoc]
  · rw [List.map_append, hbytes, hbytes']
  · intro e he
    rcases List.mem_append.mp he with he | he
    · obtain ⟨hlow, hhigh, hr⟩ := hready e he
      exact ⟨hlow, hhigh.trans_le htime', hr⟩
    · obtain ⟨hlow, hhigh, hr⟩ := hready' e he
      exact ⟨htime.trans_lt hlow, hhigh, hr⟩
  · refine List.pairwise_append.mpr ⟨horder, horder', fun e he e' he' => ?_⟩
    exact (hready e he).2.1.trans (hready' e' he').1

/-- The transmitter becomes ready again and again. -/
def KeepsReady (status : ℕ → UCHAR) : Prop := ∀ t, ∃ t', t ≤ t' ∧ Ready status t'

lemma isTransmitEmpty_answers (h : KeepsReady status) (s : Transmitter) : ∃ t, s.time ≤ t ∧ Ready status t ∧
    Answers (fun n => pollUntil Fault.hang (isTransmitEmpty status) n s) ⟨t+1, s.sent⟩ := by
  obtain ⟨T, hT, hready⟩ := h s.time
  induction hleft : T - s.time generalizing s with
  | zero =>
    obtain rfl : T = s.time := by omega
    refine ⟨s.time, le_rfl, hready, 1, fun n hn => ?_⟩
    obtain ⟨n, rfl⟩ : ∃ k, n = k+1 := ⟨n-1, by omega⟩
    exact if_pos (decide_eq_true hready)
  | succ left ih =>
    by_cases hnow : Ready status s.time
    · refine ⟨s.time, le_rfl, hnow, 1, fun n hn => ?_⟩
      obtain ⟨n, rfl⟩ : ∃ k, n = k+1 := ⟨n-1, by omega⟩
      exact if_pos (decide_eq_true hnow)
    · obtain ⟨t, ht, htr, N, hN⟩ :=
        ih ⟨s.time + 1, s.sent⟩ (show s.time + 1 ≤ T by omega) (show T - (s.time + 1) = left by omega)
      refine ⟨t, (Nat.le_succ _).trans ht, htr, N+1, fun n hn => ?_⟩
      obtain ⟨n, rfl⟩ : ∃ k, n = k+1 := ⟨n-1, by omega⟩
      dsimp only
      rw [pollUntil, isTransmitEmpty, decide_eq_false hnow, if_neg Bool.false_ne_true]
      exact hN n (Nat.le_of_succ_le_succ hn)

lemma serialPrintc_answers (h : KeepsReady status) (c : UCHAR) (s : Transmitter) :
    ∃ s', Answers (fun fuel => serialPrintc status fuel c s) s' ∧ Sends status s [c] s' := by
  obtain ⟨t, ht, hready, hpoll⟩ := isTransmitEmpty_answers h s
  refine ⟨outb c ⟨t+1, s.sent⟩, hpoll.bind (.const _), ?_, [(t+1, c)], rfl, rfl, fun e he => ?_, List.pairwise_singleton _ _⟩
  · change s.time ≤ t+1+1
    omega
  · obtain rfl := List.mem_singleton.mp he
    exact ⟨Nat.lt_succ_of_le ht, Nat.lt_succ_self _, hready⟩

/-- The characters of a text, through the output function of `vfctprintf`. -/
def printAll (status : ℕ → UCHAR) (fuel : ℕ) (cs : List UCHAR) (r : Result Transmitter) : Result Transmitter :=
  cs.foldl (fun r c => r >>= serialPrintc status fuel c) r

lemma printAll_bind (fuel : ℕ) (cs : List UCHAR) (r : Result Transmitter) :
    printAll status fuel cs r = r >>= fun s => printAll status fuel cs (.ok s) := by
  cases r with
  | ok s => rfl
  | error e =>
    rw [error_bind, printAll]
    induction cs with
    | nil => rfl
    | cons c cs ih => exact ih

lemma printAll_answers (h : KeepsReady status) (cs : List UCHAR) (s : Transmitter) :
    ∃ s', Answers (fun fuel => printAll status fuel cs (.ok s)) s' ∧ Sends status s cs s' := by
  induction cs generalizing s with
  | nil => exact ⟨s, .const s, .nil status s⟩
  | cons c cs ih =>
    obtain ⟨s₁, hfirst, hsends⟩ := serialPrintc_answers h c s
    obtain ⟨s₂, hrest, hsends'⟩ := ih s₁
    refine ⟨s₂, ?_, hsends.append hsends'⟩
    have hcons : (fun fuel => printAll status fuel (c :: cs) (.ok s)) =
        fun fuel => serialPrintc status fuel c s >>= fun s => printAll status fuel cs (.ok s) := by
      funext fuel
      exact printAll_bind fuel cs _
    rw [hcons]
    exact hfirst.bind hrest

end Sending

section Messages
variable {status : ℕ → UCHAR} {float : FloatText} {mem : Readable} {fmt text : List UCHAR} {args args' : Args}

lemma vfctprintf_printAll (fuel : ℕ) (htext : formatText float mem fmt args = some (text, args'))
    (r : Result Transmitter) : vfctprintf float mem (fun c r => r >>= serialPrintc status fuel c) fmt args r =
      some (printAll status fuel (text.filter (· ≠ 0)) r, BitVec.ofNat 32 text.length, args') := by
  rw [vfctprintf_eq, htext]
  rfl

end Messages

end Open98.Ke
