import Mathlib.Data.Nat.Digits.Defs
import Mathlib.Order.Monotone.Basic
import Mathlib.Tactic.GCongr
import Mathlib.Tactic.Ring

/-! The digits of a number in one base, read in another base. -/
namespace Open98.Library

section Reread
variable {p q k n m : ℕ}

def reread (p q n : ℕ) : ℕ := Nat.ofDigits q (Nat.digits p n)

@[simp] lemma reread_zero : reread p q 0 = 0 := by simp [reread]

lemma reread_step (hp : 1 < p) (n : ℕ) : reread p q n = n % p + q * reread p q (n / p) := by
  cases n with
  | zero => simp
  | succ n => rw [reread, Nat.digits_def' hp (Nat.succ_pos n), Nat.ofDigits_cons, reread]

lemma reread_of_lt (hp : 1 < p) (h : n < p) : reread p q n = n := by
  rw [reread_step hp, Nat.mod_eq_of_lt h, Nat.div_eq_of_lt h]
  simp

/-- The lower digits and the upper digits. -/
lemma reread_split (hp : 1 < p) (k n : ℕ) :
    reread p q n = reread p q (n % p^k) + q^k * reread p q (n / p^k) := by
  induction k generalizing n with
  | zero => simp [Nat.mod_one]
  | succ k ih =>
    have hmod : n % p^(k+1) % p = n % p := Nat.mod_mod_of_dvd n (dvd_pow_self p (Nat.succ_ne_zero k))
    have hdiv : n % p^(k+1) / p = n / p % p^k := by rw [pow_succ, mul_comm, Nat.mod_mul_right_div_self]
    rw [reread_step hp n, reread_step hp (n % p^(k+1)), hmod, hdiv, ih (n / p), Nat.div_div_eq_div_mul, ← pow_succ']
    ring

lemma reread_add (hp : 1 < p) (h : n < p^k) (m : ℕ) : reread p q (n + p^k * m) = reread p q n + q^k * reread p q m := by
  have hpos : 0 < p^k := pow_pos (by omega) k
  rw [reread_split hp k, Nat.add_mul_mod_self_left, Nat.mod_eq_of_lt h, Nat.add_mul_div_left _ _ hpos,
    Nat.div_eq_of_lt h, Nat.zero_add]

/-- Every digit is `p` at most. -/
lemma reread_le (hp : 0 < p) (h : n < (p+1)^k) : q * reread (p+1) (q+1) n + p ≤ p * (q+1)^k := by
  induction k generalizing n with
  | zero =>
    obtain rfl : n = 0 := by simpa using h
    simp
  | succ k ih =>
    have hupper := ih (n := n / (p+1)) (Nat.div_lt_of_lt_mul (by rwa [← pow_succ']))
    have hdigit : n % (p+1) ≤ p := Nat.le_of_lt_succ (Nat.mod_lt n (Nat.succ_pos p))
    calc q * reread (p+1) (q+1) n + p
      _ = q * (n % (p+1)) + (q+1) * (q * reread (p+1) (q+1) (n / (p+1))) + p := by
        rw [reread_step (by omega) n]
        ring
      _ ≤ q * p + (q+1) * (q * reread (p+1) (q+1) (n / (p+1))) + p := by gcongr
      _ = (q+1) * (q * reread (p+1) (q+1) (n / (p+1)) + p) := by ring
      _ ≤ (q+1) * (p * (q+1)^k) := by gcongr
      _ = p * (q+1)^(k+1) := by ring

lemma reread_pos (hp : 1 < p) (hq : 0 < q) (h : 0 < n) : 0 < reread p q n := by
  induction n using Nat.strong_induction_on with
  | _ n ih =>
    rw [reread_step hp]
    by_cases hlt : n < p
    · rw [Nat.mod_eq_of_lt hlt]
      omega
    · have hupper := ih (n / p) (Nat.div_lt_self h hp) (Nat.div_pos (by omega) (by omega))
      exact Nat.add_pos_right _ (Nat.mul_pos hq hupper)

/-- Reading in a larger base keeps the order. -/
lemma reread_strictMono (hp : 1 < p) (hpq : p ≤ q) : StrictMono (reread p q) := by
  intro n m h
  induction m using Nat.strong_induction_on generalizing n with
  | _ m ih =>
    have hn := Nat.div_add_mod n p
    have hm := Nat.div_add_mod m p
    have hdigit : n % p < p := Nat.mod_lt n (by omega)
    rw [reread_step hp n, reread_step hp m]
    rcases Nat.lt_or_eq_of_le (Nat.div_le_div_right (c := p) h.le) with hlt | heq
    · have hupper := ih (m / p) (Nat.div_lt_self (by omega) hp) hlt
      calc n % p + q * reread p q (n / p)
        _ < q * (reread p q (n / p) + 1) := by rw [Nat.mul_add_one]; omega
        _ ≤ q * reread p q (m / p) := Nat.mul_le_mul_left q hupper
        _ ≤ m % p + q * reread p q (m / p) := Nat.le_add_left _ _
    · rw [heq] at hn ⊢
      omega

lemma ofDigits_eq_reread (hp : 1 < p) {digits : List ℕ} (h : ∀ d ∈ digits, d < p) :
    Nat.ofDigits q digits = reread p q (Nat.ofDigits p digits) := by
  induction digits with
  | nil => simp
  | cons d digits ih =>
    have hd := h d List.mem_cons_self
    rw [reread_step hp, Nat.ofDigits_cons, Nat.ofDigits_cons, Nat.add_mul_mod_self_left, Nat.mod_eq_of_lt hd,
      Nat.add_mul_div_left _ _ (by omega), Nat.div_eq_of_lt hd, Nat.zero_add,
      ih fun e he => h e (List.mem_cons_of_mem _ he)]

/-- Digits of the smaller base are digits of the larger one. -/
lemma reread_reread (hp : 1 < p) (hpq : p ≤ q) (n : ℕ) : reread q p (reread p q n) = n := by
  have hdigits : ∀ d ∈ Nat.digits p n, d < q := fun d hd => (Nat.digits_lt_base hp hd).trans_le hpq
  rw [reread.eq_def p q n, ← ofDigits_eq_reread (hp.trans_le hpq) hdigits, Nat.ofDigits_digits]

end Reread

end Open98.Library
