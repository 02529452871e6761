import Mathlib.Data.List.Perm.Basic

/-! Rows of cells that grow at the end, and in which only free cells are written over. -/
namespace Open98.Library

section Overwrite
variable {α : Type*} {free : α → Prop}

/-- Every cell that was not free is as it was. -/
inductive Overwrites (free : α → Prop) : List α → List α → Prop
  | nil (after) : Overwrites free [] after
  | cons {t s before after} (cell : free t ∨ s = t) (tail : Overwrites free before after) :
      Overwrites free (t :: before) (s :: after)

namespace Overwrites

lemma refl (row : List α) : Overwrites free row row := by
  induction row with
  | nil => exact .nil []
  | cons t row ih => exact .cons (.inr rfl) ih

lemma append {before after : List α} (h : Overwrites free before after) (more : List α) :
    Overwrites free before (after ++ more) := by
  induction h with
  | nil after => exact .nil _
  | cons cell tail ih => exact .cons cell ih

/-- What was free at a place is free there at first. -/
lemma head {t s : α} {before after : List α} (h : Overwrites free (t :: before) (s :: after))
    (hs : free s) : free t := by
  cases h with
  | cons cell tail =>
    rcases cell with ht | rfl
    · exact ht
    · exact hs

lemma tail {t s : α} {before after : List α} (h : Overwrites free (t :: before) (s :: after)) :
    Overwrites free before after := by
  cases h with
  | cons cell tail => exact tail

/-- Free cells in a row are written over. -/
lemma write {before pre run new post : List α} (h : Overwrites free before (pre ++ run ++ post))
    (hfree : ∀ s ∈ run, free s) (hlen : new.length = run.length) :
    Overwrites free before (pre ++ new ++ post) := by
  induction pre generalizing before with
  | nil =>
    induction run generalizing before new with
    | nil =>
      obtain rfl := List.length_eq_zero_iff.mp hlen
      exact h
    | cons r run ih =>
      cases new with
      | nil => cases hlen
      | cons s new =>
        cases before with
        | nil => exact .nil _
        | cons t before =>
          have ht := h.head (hfree r (by simp))
          exact .cons (.inl ht) (ih (fun x hx => hfree x (List.mem_cons_of_mem _ hx))
            (Nat.succ.inj hlen) h.tail)
  | cons p pre ih =>
    cases h with
    | nil => exact .nil _
    | cons cell tail => exact .cons cell (ih tail)

end Overwrites

variable (free) (counted : α → Prop) [DecidablePred free] [DecidablePred counted]

/-- The counted cells whose places were free, or behind the end. -/
def written : List α → List α → List α
  | _, [] => []
  | [], s :: after => if counted s then s :: written [] after else written [] after
  | t :: before, s :: after =>
    if counted s ∧ free t then s :: written before after else written before after

variable {free counted}

lemma written_self (hcounted : ∀ s, counted s → ¬ free s) (row : List α) :
    written free counted row row = [] := by
  induction row with
  | nil => rfl
  | cons t row ih =>
    rw [written, if_neg fun h => hcounted t h.1 h.2]
    exact ih

/-- Cells that do not count are put behind the end. -/
lemma written_append (before after : List α) {more : List α} (hmore : ∀ s ∈ more, ¬ counted s) :
    written free counted before (after ++ more) = written free counted before after := by
  have hnone : ∀ before, written free counted before more = [] := by
    induction more with
    | nil => intro before; cases before <;> rfl
    | cons s more ih =>
      have hs := hmore s (by simp)
      have htail := ih fun x hx => hmore x (List.mem_cons_of_mem _ hx)
      intro before
      cases before with
      | nil => rw [written, if_neg hs, htail]
      | cons t before => rw [written, if_neg fun h => hs h.1, htail]
  induction after generalizing before with
  | nil =>
    rw [List.nil_append, hnone]
    cases before <;> rfl
  | cons s after ih =>
    cases before with
    | nil => rw [List.cons_append, written, written, ih]
    | cons t before => rw [List.cons_append, written, written, ih]

/-- Among the cells that are written over free ones in a row, the counted ones are added. -/
lemma written_write (hcounted : ∀ s, counted s → ¬ free s) {before pre run new post : List α}
    (h : Overwrites free before (pre ++ run ++ post)) (hfree : ∀ s ∈ run, free s)
    (hlen : new.length = run.length) :
    (written free counted before (pre ++ new ++ post)).Perm
      (new.filter counted ++ written free counted before (pre ++ run ++ post)) := by
  induction pre generalizing before with
  | nil =>
    induction run generalizing before new with
    | nil =>
      obtain rfl := List.length_eq_zero_iff.mp hlen
      exact .refl _
    | cons r run ih =>
      cases new with
      | nil => cases hlen
      | cons s new =>
        have hr := hfree r (by simp)
        have hrun : ∀ x ∈ run, free x := fun x hx => hfree x (List.mem_cons_of_mem _ hx)
        have hnot : ¬ counted r := fun hc => hcounted r hc hr
        cases before with
        | nil =>
          have htail := ih hrun (Nat.succ.inj hlen) (.nil _)
          simp only [List.nil_append, List.cons_append, written, if_neg hnot, List.filter_cons,
            decide_eq_true_eq] at htail ⊢
          split_ifs
          · exact htail.cons s
          · exact htail
        | cons t before =>
          have ht := h.head hr
          have htail := ih hrun (Nat.succ.inj hlen) h.tail
          simp only [List.nil_append, List.cons_append, written, ht, and_true, if_neg hnot,
            List.filter_cons, decide_eq_true_eq] at htail ⊢
          split_ifs
          · exact htail.cons s
          · exact htail
  | cons p pre ih =>
    have hmiddle : ∀ xs : List α, (p :: (new.filter counted ++ xs)).Perm (new.filter counted ++ p :: xs) :=
      fun xs => List.perm_middle.symm
    cases before with
    | nil =>
      have htail := ih (.nil _)
      simp only [List.cons_append, written] at htail ⊢
      split_ifs
      · exact (htail.cons p).trans (hmiddle _)
      · exact htail
    | cons t before =>
      have htail := ih h.tail
      simp only [List.cons_append, written] at htail ⊢
      split_ifs
      · exact (htail.cons p).trans (hmiddle _)
      · exact htail

end Overwrite

end Open98.Library
