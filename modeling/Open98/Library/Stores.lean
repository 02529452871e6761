import Mathlib.Data.List.Range
import Mathlib.Data.Set.Function
import Mathlib.Logic.Function.Basic

/-! A memory after a loop each of whose turns stores one value at one place. -/
namespace Open98.Library

section Assign
variable {ι α V : Type*} [DecidableEq α] {place : ι → α} {value value' : ι → V} {l : List ι} {m m' : α → V}
  {a : α} {i : ι}

def assign (place : ι → α) (value : ι → V) (l : List ι) (m : α → V) : α → V :=
  l.foldl (fun m i => Function.update m (place i) (value i)) m

@[simp] lemma assign_nil : assign place value [] m = m := rfl

@[simp] lemma assign_cons : assign place value (i :: l) m =
    assign place value l (Function.update m (place i) (value i)) := rfl

lemma assign_append (l l' : List ι) : assign place value (l ++ l') m =
    assign place value l' (assign place value l m) := List.foldl_append

/-- Where nothing is stored, nothing changes. -/
lemma assign_of_forall_ne (h : ∀ i ∈ l, place i ≠ a) : assign place value l m a = m a := by
  induction l generalizing m with
  | nil => rfl
  | cons i l ih =>
    rw [assign_cons, ih fun j hj => h j (List.mem_cons_of_mem _ hj)]
    exact Function.update_of_ne (h i List.mem_cons_self).symm _ _

lemma assign_apply_congr (h : m a = m' a) : assign place value l m a = assign place value l m' a := by
  induction l generalizing m m' with
  | nil => exact h
  | cons i l ih =>
    rw [assign_cons, assign_cons]
    apply ih
    rw [Function.update_apply, Function.update_apply, h]

/-- Only the turns at a place count there. -/
lemma assign_filter : assign place value l m a = assign place value (l.filter (place · = a)) m a := by
  induction l generalizing m with
  | nil => rfl
  | cons i l ih =>
    by_cases hi : place i = a
    · rw [List.filter_cons_of_pos (by simpa using hi), assign_cons, assign_cons, ih]
    · rw [List.filter_cons_of_neg (by simpa using hi), assign_cons, ← ih]
      exact assign_apply_congr (Function.update_of_ne (Ne.symm hi) _ _)

lemma assign_of_forall_eq {v : V} (h : ∀ i ∈ l, place i = a → value i = v) (ha : m a = v ∨ ∃ i ∈ l, place i = a) :
    assign place value l m a = v := by
  induction l generalizing m with
  | nil =>
    obtain ha | ⟨i, hi, -⟩ := ha
    · exact ha
    · cases hi
  | cons i l ih =>
    rw [assign_cons]
    refine ih (fun j hj => h j (List.mem_cons_of_mem _ hj)) ?_
    by_cases hia : place i = a
    · left
      rw [← hia, Function.update_self]
      exact h i List.mem_cons_self hia
    · rw [Function.update_of_ne (Ne.symm hia)]
      refine ha.imp_right ?_
      rintro ⟨j, hj, hja⟩
      rcases List.mem_cons.mp hj with rfl | hj
      · exact absurd hja hia
      · exact ⟨j, hj, hja⟩

/-- Different turns store at different places. -/
lemma assign_of_mem (hinj : Set.InjOn place {i | i ∈ l}) (hi : i ∈ l) :
    assign place value l m (place i) = value i :=
  assign_of_forall_eq (fun _ hj hji => congrArg value (hinj hj hi hji)) (.inr ⟨i, hi, rfl⟩)

lemma assign_congr (h : ∀ i ∈ l, value i = value' i) : assign place value l m = assign place value' l m := by
  induction l generalizing m with
  | nil => rfl
  | cons i l ih =>
    rw [assign_cons, assign_cons, h i List.mem_cons_self]
    exact ih fun j hj => h j (List.mem_cons_of_mem _ hj)

/-- What has been saved is put back. -/
lemma assign_restore (hvalue : ∀ i ∈ l, value i = m' (place i)) (hframe : ∀ a, (∀ i ∈ l, place i ≠ a) → m a = m' a) :
    assign place value l m = m' := by
  funext a
  by_cases ha : ∃ i ∈ l, place i = a
  · exact assign_of_forall_eq (fun i hi hia => hia ▸ hvalue i hi) (.inr ha)
  · push Not at ha
    rw [assign_of_forall_ne ha, hframe a ha]

/-- One value after another, from a place on. -/
lemma assign_range (value : ℕ → V) (m : ℕ → V) (d n a : ℕ) : assign (fun i => d + i) value (List.range n) m a =
    if d ≤ a ∧ a < d + n then value (a - d) else m a := by
  split_ifs with ha
  · have hvalue : assign (fun i => d + i) value (List.range n) m (d + (a - d)) = value (a - d) :=
      assign_of_mem (fun i _ j _ h => Nat.add_left_cancel h) (List.mem_range.mpr (by omega))
    rwa [Nat.add_sub_cancel' ha.1] at hvalue
  · refine assign_of_forall_ne fun i hi => ?_
    have := List.mem_range.mp hi
    omega

end Assign

end Open98.Library
