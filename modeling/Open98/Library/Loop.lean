import Mathlib.Data.Option.Basic
import Mathlib.Order.Nat

/-! Counting loops with a body that may fail to return, and the rules for them. -/
namespace Open98.Library

variable {S : Type*}

/-- The rounds of the loop `for ( i = start; i < limit; i += step )`. -/
def rounds (start limit step : ℕ) : ℕ := (limit - start + (step - 1)) / step

/-- The given number of rounds with counter values from `i` on. -/
def loopFrom (body : S → ℕ → Option S) (step : ℕ) : ℕ → ℕ → S → Option S
  | 0, _, s => some s
  | n+1, i, s => (body s i).bind fun t => loopFrom body step n (i + step) t

namespace Loop
variable {body : S → ℕ → Option S} {step n i : ℕ} {s t : S}

/-- What every round brings about holds between the first and the last state. -/
theorem rel {R : S → S → Prop} (refl : ∀ s, R s s) (trans : ∀ s t u, R s t → R t u → R s u)
    (hbody : ∀ s i t, body s i = some t → R s t) (h : loopFrom body step n i s = some t) : R s t := by
  induction n generalizing i s with
  | zero =>
    cases h
    exact refl _
  | succ n ih =>
    simp only [loopFrom, Option.bind_eq_some_iff] at h
    obtain ⟨u, hu, h⟩ := h
    exact trans s u t (hbody s i u hu) (ih h)

/-- An invariant that counts the rounds. The step may use that the rest of the loop returns. -/
theorem invariant {I : ℕ → S → Prop} (h : loopFrom body step n i s = some t) (hs : I 0 s)
    (hstep : ∀ k u v, k < n → I k u → body u (i + k*step) = some v →
      loopFrom body step (n-(k+1)) (i + (k+1)*step) v = some t → I (k+1) v) : I n t := by
  suffices hsuff : ∀ m k u, k + m = n → I k u → loopFrom body step m (i + k*step) u = some t → I n t by
    exact hsuff n 0 s (Nat.zero_add n) hs (by simpa using h)
  intro m
  induction m with
  | zero =>
    intro k u hk hI h
    cases h
    exact hk ▸ hI
  | succ m ih =>
    intro k u hk hI h
    simp only [loopFrom, Option.bind_eq_some_iff] at h
    obtain ⟨v, hv, h⟩ := h
    rw [Nat.add_assoc, ← Nat.succ_mul] at h
    refine ih (k+1) v (by omega) (hstep k u v (by omega) hI hv ?_) h
    rwa [show n-(k+1) = m by omega]

/-- A loop returns if every round can be paid for: `fuel` is what a state has left, and a round
takes at most `cost` of it. -/
theorem returns (fuel : S → ℕ) (cost : ℕ)
    (hbody : ∀ s i, cost ≤ fuel s → ∃ t, body s i = some t ∧ fuel s ≤ fuel t + cost)
    (hfuel : n*cost ≤ fuel s) :
    ∃ t, loopFrom body step n i s = some t ∧ fuel s ≤ fuel t + n*cost := by
  induction n generalizing i s with
  | zero => exact ⟨s, rfl, by omega⟩
  | succ n ih =>
    rw [Nat.succ_mul] at hfuel ⊢
    obtain ⟨u, hu, hfu⟩ := hbody s i (by omega)
    obtain ⟨t, ht, hft⟩ := ih (s := u) (i := i + step) (by omega)
    refine ⟨t, ?_, by omega⟩
    rw [loopFrom, hu, Option.bind_some, ht]

end Loop
end Open98.Library
