import Mathlib.Data.List.Nodup
import Mathlib.Logic.Function.Basic

/-! Saving registers by pushing them one after another, and restoring them by popping. The stack is
a list with its top in front. -/
namespace Open98.Library

variable {R W : Type*}

/-- Pushes, in this order. -/
def pushAll (order : List R) (file : R → W) (stack : List W) : List W :=
  order.foldl (fun stack r => file r :: stack) stack

theorem pushAll_eq (order : List R) (file : R → W) (stack : List W) :
    pushAll order file stack = order.reverse.map file ++ stack := by
  induction order generalizing stack with
  | nil => rfl
  | cons r order ih =>
    change pushAll order file (file r :: stack) = _
    rw [ih]
    simp

variable [DecidableEq R]

/-- Pops, in this order; a pop from an empty stack changes nothing. -/
def popAll : List R → (R → W) → List W → (R → W) × List W
  | r :: order, file, w :: stack => popAll order (Function.update file r w) stack
  | _, file, stack => (file, stack)

/-- Popping what lies on the stack in this order sets the registers to it, and no others. -/
theorem popAll_map {order : List R} (hnodup : order.Nodup) (file saved : R → W) (stack : List W) :
    popAll order file (order.map saved ++ stack) =
      (fun r => if r ∈ order then saved r else file r, stack) := by
  induction order generalizing file with
  | nil =>
    cases stack <;> rfl
  | cons r order ih =>
    obtain ⟨hr, hnodup⟩ := List.nodup_cons.mp hnodup
    rw [List.map_cons, List.cons_append, popAll, ih hnodup]
    congr 1
    funext x
    by_cases hx : x ∈ order
    · simp [hx]
    · by_cases hxr : x = r
      · simp [hxr, hr]
      · simp [hx, hxr]

/-- Popping in the reverse order of the pushes brings all registers back, if all were pushed. -/
theorem popAll_pushAll {order : List R} (hnodup : order.Nodup) (hall : ∀ r, r ∈ order)
    (file saved : R → W) (stack : List W) :
    popAll order.reverse file (pushAll order saved stack) = (saved, stack) := by
  rw [pushAll_eq, popAll_map (List.nodup_reverse.mpr hnodup)]
  congr 1
  funext r
  rw [if_pos (List.mem_reverse.mpr (hall r))]

end Open98.Library
