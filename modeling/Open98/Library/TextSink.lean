import Mathlib.Data.List.Basic
import Mathlib.Logic.Function.Iterate

/-! Writers that pass a text to an output function one character at a time. The function is told the position
of the character and the size of what it writes to. -/
namespace Open98.Library

variable {α σ : Type*}

abbrev Out (α σ : Type*) := α → (idx maxlen : ℕ) → σ → σ

/-- What is written to, and the position of the next character. -/
structure Written (σ : Type*) where
  sink : σ
  idx : ℕ

/-- `out( c, buffer, idx++, maxlen )`. -/
def put (out : Out α σ) (maxlen : ℕ) (c : α) (s : Written σ) : Written σ := ⟨out c s.idx maxlen s.sink, s.idx+1⟩

def emit (out : Out α σ) (maxlen : ℕ) (text : List α) (s : Written σ) : Written σ :=
  text.foldl (fun s c => put out maxlen c s) s

/-- The loop that pads with a character until the given number has been written since `start`. -/
def fillTo (out : Out α σ) (maxlen : ℕ) (c : α) (start width : ℕ) : (rounds : ℕ) → Written σ → Written σ
  | 0, s => s
  | n+1, s => if s.idx - start < width then fillTo out maxlen c start width n (put out maxlen c s) else s

section Emission
variable (out : Out α σ) (maxlen : ℕ)

@[simp] lemma emit_nil (s : Written σ) : emit out maxlen [] s = s := rfl

@[simp] lemma emit_cons (c : α) (text : List α) (s : Written σ) :
    emit out maxlen (c :: text) s = emit out maxlen text (put out maxlen c s) := rfl

lemma emit_append (text more : List α) (s : Written σ) :
    emit out maxlen (text ++ more) s = emit out maxlen more (emit out maxlen text s) := List.foldl_append

@[simp] lemma put_idx (c : α) (s : Written σ) : (put out maxlen c s).idx = s.idx + 1 := rfl

@[simp] lemma emit_idx (text : List α) (s : Written σ) : (emit out maxlen text s).idx = s.idx + text.length := by
  induction text generalizing s with
  | nil => rfl
  | cons c text ih => rw [emit_cons, ih, put_idx, List.length_cons, Nat.add_assoc, Nat.add_comm 1]

lemma iterate_put (c : α) (n : ℕ) (s : Written σ) :
    (put out maxlen c)^[n] s = emit out maxlen (List.replicate n c) s := by
  induction n generalizing s with
  | zero => rfl
  | succ n ih => rw [Function.iterate_succ_apply, ih, List.replicate_succ, emit_cons]

lemma fillTo_eq (c : α) {start width k rounds : ℕ} {s : Written σ} (hidx : s.idx = start + k)
    (hrounds : width ≤ k + rounds) :
    fillTo out maxlen c start width rounds s = emit out maxlen (List.replicate (width - k) c) s := by
  induction rounds generalizing k s with
  | zero =>
    rw [fillTo, Nat.sub_eq_zero_of_le (by omega), List.replicate_zero, emit_nil]
  | succ n ih =>
    rw [fillTo, hidx, Nat.add_sub_cancel_left]
    split_ifs with hk
    · have hnext : (put out maxlen c s).idx = start + (k+1) := by rw [put_idx, hidx, Nat.add_assoc]
      rw [ih hnext (by omega), show width - k = width - (k+1) + 1 by omega, List.replicate_succ, emit_cons]
    · rw [Nat.sub_eq_zero_of_le (Nat.le_of_not_lt hk)]
      rfl

end Emission

section Sinks

/-- An array of `maxlen` characters; what does not fit is dropped. -/
def bounded : Out α (ℕ → α) := fun c idx maxlen b => if idx < maxlen then Function.update b idx c else b

/-- A function that is called with each character, and not told its position; some are left out. -/
def listener (keep : α → Bool) (f : α → σ → σ) : Out α σ := fun c _ _ s => if keep c then f c s else s

lemma emit_bounded (maxlen : ℕ) (text : List α) (b : ℕ → α) (k j : ℕ) :
    (emit bounded maxlen text ⟨b, k⟩).sink j =
      if k ≤ j ∧ j < maxlen then text[j-k]?.getD (b j) else b j := by
  induction text generalizing b k with
  | nil => simp
  | cons c text ih =>
    rw [emit_cons, put, ih, bounded]
    dsimp only
    by_cases hk : k < maxlen
    · rw [if_pos hk]
      rcases Nat.lt_trichotomy j k with hlt | rfl | hgt
      · rw [Function.update_of_ne (Nat.ne_of_lt hlt), if_neg (by omega), if_neg (by omega)]
      · rw [if_neg (by omega), if_pos ⟨Nat.le_refl _, hk⟩, Function.update_self, Nat.sub_self, List.getElem?_cons_zero]
        rfl
      · rw [Function.update_of_ne (Nat.ne_of_gt hgt), show j - k = j - (k+1) + 1 by omega, List.getElem?_cons_succ]
        simp only [Nat.succ_le_of_lt hgt, Nat.le_of_lt hgt]
    · rw [if_neg hk, if_neg (by omega), if_neg (by omega)]

lemma emit_listener (keep : α → Bool) (f : α → σ → σ) (maxlen : ℕ) (text : List α) (s : Written σ) :
    (emit (listener keep f) maxlen text s).sink = (text.filter keep).foldl (fun s c => f c s) s.sink := by
  induction text generalizing s with
  | nil => rfl
  | cons c text ih =>
    rw [emit_cons, ih]
    cases hkeep : keep c <;> simp [put, listener, hkeep]

end Sinks

end Open98.Library
