import Mathlib.Logic.Relation

/-! Finite runs of a partial transition function whose operations are guarded. A run that
gets stuck (a call that never returns) has no final state, so every statement about final
states is a statement about the states that are really reached. -/
namespace Open98.Library

variable {S O : Type*}

/-- The operations `os` succeed one after another from `s`, end in `t`, and each of them met
the guard `ok` in the state in which it was started. -/
inductive GuardedRun (ok : S → O → Prop) (step : S → O → Option S) : S → List O → S → Prop
  | nil (s) : GuardedRun ok step s [] s
  | cons {s t u o os} (guard : ok s o) (next : step s o = some t)
      (tail : GuardedRun ok step t os u) : GuardedRun ok step s (o :: os) u

namespace GuardedRun
variable {ok : S → O → Prop} {step : S → O → Option S}

/-- The first operation of a run leads to a known state. -/
theorem cons_iff {s t u : S} {o : O} {os : List O} (next : step s o = some t) :
    GuardedRun ok step s (o :: os) u ↔ ok s o ∧ GuardedRun ok step t os u := by
  constructor
  · intro h
    cases h with
    | cons guard next' tail =>
      obtain rfl := Option.some.inj (next.symm.trans next')
      exact ⟨guard, tail⟩
  · exact fun ⟨guard, tail⟩ => .cons guard next tail

/-- What every guarded step preserves, every guarded run preserves. -/
theorem invariant {I : S → Prop} (hstep : ∀ s o t, I s → ok s o → step s o = some t → I t)
    {s t : S} {os : List O} (h : GuardedRun ok step s os t) (hs : I s) : I t := by
  induction h with
  | nil s => exact hs
  | cons guard next tail ih => exact ih (hstep _ _ _ hs guard next)

theorem append {s t u : S} {os ps : List O} (h : GuardedRun ok step s os t)
    (h' : GuardedRun ok step t ps u) : GuardedRun ok step s (os ++ ps) u := by
  induction h with
  | nil s => exact h'
  | cons guard next tail ih => exact .cons guard next (ih h')

/-- A run passes through a state behind each of its beginnings. -/
theorem split {s u : S} {os ps : List O} (h : GuardedRun ok step s (os ++ ps) u) :
    ∃ t, GuardedRun ok step s os t ∧ GuardedRun ok step t ps u := by
  induction os generalizing s with
  | nil => exact ⟨s, .nil s, h⟩
  | cons o os ih =>
    cases h with
    | cons guard next tail =>
      obtain ⟨t, hhead, htail⟩ := ih tail
      exact ⟨t, .cons guard next hhead, htail⟩

/-- A run simulated step by step is simulated as a whole: `R` relates the reached state to the
value that folding the operations over the abstract state gives. -/
theorem simulates {A : Type*} {R : S → A → Prop} {absStep : A → O → A}
    (hstep : ∀ s a o t, R s a → ok s o → step s o = some t → R t (absStep a o))
    {s t : S} {os : List O} (h : GuardedRun ok step s os t) {a : A} (hs : R s a) :
    R t (os.foldl absStep a) := by
  induction h generalizing a with
  | nil s => exact hs
  | cons guard next tail ih => exact ih (hstep _ _ _ _ hs guard next)

end GuardedRun
end Open98.Library
