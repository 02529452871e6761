import Mathlib.Order.Basic
import Mathlib.Order.Nat

/-! Loops that wait for a device, with a bound on the number of polls. -/
namespace Open98.Library

section Bounds
universe u v
variable {ε : Type v} {α β : Type u} {f : ℕ → Except ε α} {g : ℕ → α → Except ε β} {a : α} {b : β}

/-- The call returns if it may poll often enough, and what it returns does not depend on the bound. -/
def Answers (f : ℕ → Except ε α) (a : α) : Prop := ∃ N, ∀ n, N ≤ n → f n = .ok a

lemma Answers.const (a : α) : Answers (fun _ => (.ok a : Except ε α)) a := ⟨0, fun _ _ => rfl⟩

lemma Answers.bind (hf : Answers f a) (hg : Answers (fun n => g n a) b) : Answers (fun n => f n >>= g n) b := by
  obtain ⟨N, hN⟩ := hf
  obtain ⟨M, hM⟩ := hg
  refine ⟨max N M, fun n hn => ?_⟩
  dsimp only
  rw [hN n ((le_max_left N M).trans hn)]
  exact hM n ((le_max_right N M).trans hn)

end Bounds

section Polling
variable {S ε : Type*} {poll : S → Bool × S} {hang : ε} {I : S → Prop} {T : ℕ} {s : S}

/-- Polls until the answer is yes. -/
def pollUntil (hang : ε) (poll : S → Bool × S) : ℕ → S → Except ε S
  | 0, _ => .error hang
  | n+1, s => if (poll s).1 then .ok (poll s).2 else pollUntil hang poll n (poll s).2

/-- The loop ends if the answer is yes from some time on, and what every poll keeps holds at its end. -/
theorem pollUntil_answers (clock : S → ℕ) (hs : I s)
    (hstep : ∀ s, I s → I (poll s).2 ∧ clock s < clock (poll s).2)
    (hyes : ∀ s, I s → T ≤ clock s → (poll s).1 = true) : ∃ t, Answers (fun n => pollUntil hang poll n s) t ∧ I t := by
  induction hleft : T - clock s using Nat.strong_induction_on generalizing s with
  | _ left ih =>
    obtain ⟨hnext, hlt⟩ := hstep s hs
    by_cases hdone : (poll s).1 = true
    · refine ⟨(poll s).2, ⟨1, fun n hn => ?_⟩, hnext⟩
      obtain ⟨n, rfl⟩ : ∃ k, n = k+1 := ⟨n-1, by omega⟩
      exact if_pos hdone
    · have hearly : clock s < T := not_le.mp fun hle => hdone (hyes s hs hle)
      obtain ⟨t, ⟨N, hN⟩, ht⟩ := ih (T - clock (poll s).2) (by omega) hnext rfl
      refine ⟨t, ⟨N+1, fun n hn => ?_⟩, ht⟩
      obtain ⟨n, rfl⟩ : ∃ k, n = k+1 := ⟨n-1, by omega⟩
      dsimp only
      rw [pollUntil, if_neg hdone]
      exact hN n (Nat.le_of_succ_le_succ hn)

end Polling

end Open98.Library
