import Mathlib.Data.List.Nodup
import Mathlib.Logic.Function.Basic

/-! Who holds what: families of lists in which nothing occurs twice. -/
namespace Open98.Library

variable {ι α : Type*}

/-- Nobody holds a thing twice, and no two hold the same thing. -/
structure Separate (held : ι → List α) : Prop where
  nodup : ∀ t, (held t).Nodup
  apart : ∀ t u, t ≠ u → (held t).Disjoint (held u)

namespace Separate
variable {held : ι → List α} {t : ι} {l : List α}

theorem empty : Separate fun _ : ι => ([] : List α) :=
  ⟨fun _ => List.nodup_nil, fun _ _ _ => List.disjoint_nil_left _⟩

variable [DecidableEq ι]

/-- Only what `t` holds changes. -/
theorem update (h : Separate held) (hl : l.Nodup) (hothers : ∀ u, u ≠ t → l.Disjoint (held u)) :
    Separate (Function.update held t l) := by
  refine ⟨fun u => ?_, fun u w huw => ?_⟩
  · by_cases hu : u = t
    · rw [hu, Function.update_self]
      exact hl
    · rw [Function.update_of_ne hu]
      exact h.nodup u
  · by_cases hu : u = t
    · rw [hu, Function.update_self, Function.update_of_ne (hu ▸ huw.symm)]
      exact hothers w (hu ▸ huw.symm)
    · rw [Function.update_of_ne hu]
      by_cases hw : w = t
      · rw [hw, Function.update_self]
        exact List.disjoint_comm.mp (hothers u hu)
      · rw [Function.update_of_ne hw]
        exact h.apart u w huw

/-- A thing that nobody holds can be taken. -/
theorem take (h : Separate held) {x : α} (hx : ∀ u, x ∉ held u) :
    Separate (Function.update held t (x :: held t)) :=
  h.update (List.nodup_cons.mpr ⟨hx t, h.nodup t⟩) fun u hut =>
    List.disjoint_cons_left.mpr ⟨hx u, h.apart t u hut.symm⟩

/-- What is held can be reordered and given up. -/
theorem keep (h : Separate held) (hl : l.Nodup) (hsub : l ⊆ held t) :
    Separate (Function.update held t l) :=
  h.update hl fun u hut => List.disjoint_of_subset_left hsub (h.apart t u hut.symm)

end Separate
end Open98.Library
