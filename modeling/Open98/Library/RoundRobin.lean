import Mathlib.Data.List.Nodup
import Mathlib.Data.List.Rotate

/-! Taking turns in a circle of `n` places. -/
namespace Open98.Library

/-- Whose turn comes next; the first turn is place 0's. -/
def successor (n : ℕ) : Option ℕ → ℕ
  | none => 0
  | some r => (r+1) % n

theorem successor_lt {n : ℕ} (hn : 0 < n) (cur : Option ℕ) : successor n cur < n := by
  cases cur with
  | none => exact hn
  | some r => exact Nat.mod_lt _ hn

/-- The next turns, as many as are asked for. -/
def turns (n : ℕ) : Option ℕ → ℕ → List ℕ
  | _, 0 => []
  | cur, k+1 => successor n cur :: turns n (some (successor n cur)) k

variable {n : ℕ} (hn : 0 < n)
include hn

theorem turns_eq (cur : Option ℕ) (k : ℕ) :
    turns n cur k = (List.range k).map fun i => (successor n cur + i) % n := by
  induction k generalizing cur with
  | zero => rfl
  | succ k ih =>
    rw [turns, ih, List.range_succ_eq_map, List.map_cons, List.map_map]
    congr 1
    · exact (Nat.mod_eq_of_lt (successor_lt hn cur)).symm
    · apply List.map_congr_left
      intro i _
      change ((successor n cur + 1) % n + i) % n = (successor n cur + (i+1)) % n
      rw [Nat.mod_add_mod, Nat.add_assoc, Nat.add_comm 1 i]

/-- As many turns as places are each place's turn, in some order. -/
theorem turns_perm (cur : Option ℕ) : (turns n cur n).Perm (List.range n) := by
  have hrotate : turns n cur n = (List.range n).rotate (successor n cur) := by
    rw [turns_eq hn]
    apply List.ext_getElem
    · simp
    · intro i _ _
      simp [List.getElem_rotate, Nat.add_comm]
  rw [hrotate]
  exact List.rotate_perm _ _

/-- Among as many turns as places every place has exactly one. -/
theorem count_turns (cur : Option ℕ) {r : ℕ} (hr : r < n) : (turns n cur n).count r = 1 := by
  rw [(turns_perm hn cur).count_eq]
  exact List.count_eq_one_of_mem List.nodup_range (List.mem_range.mpr hr)

end Open98.Library
