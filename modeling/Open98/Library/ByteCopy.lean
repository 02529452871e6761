import Mathlib.Logic.Function.Basic
import Mathlib.Data.Nat.Notation
import Mathlib.Tactic.Common

/-! Copying cells of a memory one after another, from one sequence of places to another. -/
namespace Open98.Library

variable {A β : Type*} [DecidableEq A]

/-- The memory after the first cells have been copied. -/
def copyThrough (m : A → β) (dst src : ℕ → A) : ℕ → A → β
  | 0 => m
  | n+1 => Function.update (copyThrough m dst src n) (dst n) (copyThrough m dst src n (src n))

section Effect
variable {m m' : A → β} {dst src : ℕ → A} {n i : ℕ} {x : A}

/-- Places that nothing is copied to keep what they hold. -/
theorem copyThrough_of_ne (h : ∀ j < n, dst j ≠ x) : copyThrough m dst src n x = m x := by
  induction n with
  | zero => rfl
  | succ n ih =>
    rw [copyThrough, Function.update_of_ne (h n (Nat.lt_succ_self n)).symm]
    exact ih fun j hj => h j (Nat.lt_succ_of_lt hj)

/-- Distinct places apart from the sources get what the sources held. -/
theorem copyThrough_dst (hinj : ∀ j < n, ∀ k < n, dst j = dst k → j = k)
    (hapart : ∀ j < n, ∀ k < n, dst j ≠ src k) (hi : i < n) :
    copyThrough m dst src n (dst i) = m (src i) := by
  induction n with
  | zero => cases hi
  | succ n ih =>
    rw [copyThrough]
    by_cases hin : i = n
    · subst hin
      rw [Function.update_self]
      exact copyThrough_of_ne fun j hj => hapart j (Nat.lt_succ_of_lt hj) i (Nat.lt_succ_self i)
    · have hne : dst i ≠ dst n := fun h => hin (hinj i hi n (Nat.lt_succ_self n) h)
      rw [Function.update_of_ne hne]
      exact ih (fun j hj k hk => hinj j (Nat.lt_succ_of_lt hj) k (Nat.lt_succ_of_lt hk))
        (fun j hj k hk => hapart j (Nat.lt_succ_of_lt hj) k (Nat.lt_succ_of_lt hk)) (by omega)

/-- A place that nothing is copied from does not matter for the other places. -/
theorem copyThrough_congr (hsrc : ∀ j < n, src j ≠ x) (h : ∀ y, y ≠ x → m y = m' y) :
    ∀ y, y ≠ x → copyThrough m dst src n y = copyThrough m' dst src n y := by
  induction n with
  | zero => exact h
  | succ n ih =>
    intro y hy
    have ih := ih fun j hj => hsrc j (Nat.lt_succ_of_lt hj)
    rw [copyThrough, copyThrough, ih _ (hsrc n (Nat.lt_succ_self n)), Function.update_apply,
      Function.update_apply, ih y hy]

end Effect

end Open98.Library
