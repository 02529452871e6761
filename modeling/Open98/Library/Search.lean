import Mathlib.Data.Nat.Notation
import Mathlib.Order.Basic

/-! Linear search through a range of numbers. -/
namespace Open98.Library

variable {p : ℕ → Prop} [DecidablePred p]

/-- The first number with the property among the given number of them from `i` on. -/
def firstIn (p : ℕ → Prop) [DecidablePred p] : ℕ → ℕ → Option ℕ
  | _, 0 => none
  | i, left+1 => if p i then some i else firstIn p (i+1) left

theorem firstIn_eq_some {i left r : ℕ} : firstIn p i left = some r ↔
    i ≤ r ∧ r < i+left ∧ p r ∧ ∀ k, i ≤ k → k < r → ¬ p k := by
  induction left generalizing i with
  | zero =>
    simp only [firstIn, reduceCtorEq, false_iff]
    omega
  | succ left ih =>
    by_cases hi : p i
    · simp only [firstIn, if_pos hi, Option.some.injEq]
      constructor
      · intro h
        subst h
        exact ⟨Nat.le_refl i, by omega, hi, fun k hk hlt => by omega⟩
      · intro ⟨hle, _, _, hbefore⟩
        by_contra hne
        exact hbefore i (Nat.le_refl i) (by omega) hi
    · simp only [firstIn, if_neg hi, ih]
      constructor
      · intro ⟨hle, hlt, hr, hbefore⟩
        refine ⟨by omega, by omega, hr, fun k hk hkr => ?_⟩
        by_cases hki : k = i
        · rwa [hki]
        · exact hbefore k (by omega) hkr
      · intro ⟨hle, hlt, hr, hbefore⟩
        have hne : i ≠ r := fun h => hi (h ▸ hr)
        exact ⟨by omega, by omega, hr, fun k hk hkr => hbefore k (by omega) hkr⟩

theorem firstIn_eq_none {i left : ℕ} : firstIn p i left = none ↔ ∀ k, i ≤ k → k < i+left → ¬ p k := by
  induction left generalizing i with
  | zero =>
    simp only [firstIn, true_iff]
    omega
  | succ left ih =>
    by_cases hi : p i
    · simp only [firstIn, if_pos hi, reduceCtorEq, false_iff]
      exact fun h => h i (Nat.le_refl i) (by omega) hi
    · simp only [firstIn, if_neg hi, ih]
      constructor
      · intro h k hk hlt
        by_cases hki : k = i
        · rwa [hki]
        · exact h k (by omega) (by omega)
      · intro h k hk hlt
        exact h k (by omega) (by omega)

end Open98.Library
