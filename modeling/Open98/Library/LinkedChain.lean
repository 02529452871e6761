import Mathlib.Data.List.Nodup
import Mathlib.Logic.Function.Basic

/-! Linked lists stored in a table: the cell of each element holds the next element, the cell of
the last one holds an end mark. -/
namespace Open98.Library

variable {α : Type*}

/-- Following the table from `c` visits exactly the elements of the list, and the cell of the
last one holds an end mark. -/
inductive Links (next : α → α) (stop : α → Prop) : α → List α → Prop
  | last {c} (h : stop (next c)) : Links next stop c [c]
  | link {c l} (h : ¬ stop (next c)) (tail : Links next stop (next c) l) :
      Links next stop c (c :: l)

namespace Links
variable {next next' : α → α} {stop : α → Prop} {c : α} {l m : List α}

theorem eq_cons (h : Links next stop c l) : ∃ t, l = c :: t := by
  cases h with
  | last _ => exact ⟨[], rfl⟩
  | link _ _ => exact ⟨_, rfl⟩

theorem ne_nil (h : Links next stop c l) : l ≠ [] := by
  obtain ⟨t, rfl⟩ := h.eq_cons
  simp

theorem head_mem (h : Links next stop c l) : c ∈ l := by
  obtain ⟨t, rfl⟩ := h.eq_cons
  simp

/-- A list ends with its first element, or goes on from the one that its cell names. -/
theorem step (h : Links next stop c (c :: l)) :
    (stop (next c) ∧ l = []) ∨ (¬ stop (next c) ∧ Links next stop (next c) l) := by
  cases h with
  | last hstop => exact .inl ⟨hstop, rfl⟩
  | link hgo tail => exact .inr ⟨hgo, tail⟩

/-- Induction along a list whose elements all have a property. -/
theorem induct {p : α → Prop} {motive : α → List α → Prop}
    (last : ∀ c, p c → stop (next c) → motive c [c])
    (link : ∀ c l, p c → ¬ stop (next c) → Links next stop (next c) l → (∀ x ∈ l, p x) →
      motive (next c) l → motive c (c :: l))
    (h : Links next stop c l) (hp : ∀ x ∈ l, p x) : motive c l := by
  induction h with
  | last hstop => exact last _ (hp _ (List.mem_singleton_self _)) hstop
  | link hgo tail ih =>
    obtain ⟨hc, hl⟩ := List.forall_mem_cons.mp hp
    exact link _ _ hc hgo tail hl (ih hl)

/-- The table determines the list. -/
theorem unique (h : Links next stop c l) (hm : Links next stop c m) : l = m := by
  induction h generalizing m with
  | last hstop =>
    cases hm with
    | last _ => rfl
    | link hgo _ => exact absurd hstop hgo
  | link hgo _ ih =>
    cases hm with
    | last hstop => exact absurd hstop hgo
    | link _ tail => rw [ih tail]

/-- Every element of the list starts a part of it. -/
theorem suffix (h : Links next stop c l) {x : α} (hx : x ∈ l) :
    ∃ a b, l = a ++ b ∧ Links next stop x b := by
  induction h with
  | last hstop =>
    obtain rfl := List.mem_singleton.mp hx
    exact ⟨[], _, rfl, last hstop⟩
  | link hgo tail ih =>
    rcases List.mem_cons.mp hx with rfl | hx
    · exact ⟨[], _, rfl, link hgo tail⟩
    · obtain ⟨a, b, rfl, hb⟩ := ih hx
      exact ⟨_ :: a, b, rfl, hb⟩

/-- Behind every element but the last stands the one its cell names. -/
theorem getElem?_succ (h : Links next stop c l) {i : ℕ} {x : α} (hx : l[i]? = some x)
    (hi : i+1 < l.length) : l[i+1]? = some (next x) ∧ ¬ stop (next x) := by
  induction h generalizing i with
  | last hstop => simp at hi
  | link hgo tail ih =>
    cases i with
    | zero =>
      obtain rfl := Option.some.inj hx
      obtain ⟨t, rfl⟩ := tail.eq_cons
      exact ⟨rfl, hgo⟩
    | succ i => exact ih hx (by simpa using hi)

/-- A list that ends has no cycle. -/
theorem nodup (h : Links next stop c l) : l.Nodup := by
  induction h with
  | last _ => simp
  | @link c l hgo tail ih =>
    refine List.nodup_cons.mpr ⟨fun hc => ?_, ih⟩
    obtain ⟨a, b, rfl, hb⟩ := tail.suffix hc
    have heq := hb.unique (link hgo tail)
    have hlen := congrArg List.length heq
    simp at hlen
    omega

/-- Only the cells of the list matter. -/
theorem congr (h : Links next stop c l) (heq : ∀ x ∈ l, next' x = next x) :
    Links next' stop c l := by
  induction h with
  | @last c hstop => exact last (by rwa [heq c (by simp)])
  | @link c l hgo tail ih =>
    have hc := heq c (by simp)
    refine link (by rwa [hc]) ?_
    rw [hc]
    exact ih fun x hx => heq x (List.mem_cons_of_mem _ hx)

/-- The last cell of a list is the one that holds an end mark. -/
theorem stop_getLast (h : Links next stop c l) : stop (next (l.getLast h.ne_nil)) := by
  induction h with
  | last hstop => exact hstop
  | link hgo tail ih => rwa [List.getLast_cons tail.ne_nil]

variable [DecidableEq α]

/-- A cell outside the list may be overwritten. -/
theorem update_of_notMem (h : Links next stop c l) {x : α} (hx : x ∉ l) (v : α) :
    Links (Function.update next x v) stop c l :=
  h.congr fun _ hy => Function.update_of_ne (ne_of_mem_of_not_mem hy hx) _ _

/-- An element whose cell holds an end mark is appended by writing it into the last cell. -/
theorem snoc (h : Links next stop c l) {x : α} (hx : x ∉ l) (hend : stop (next x))
    (hgo : ¬ stop x) : Links (Function.update next (l.getLast h.ne_nil) x) stop c (l ++ [x]) := by
  induction h with
  | @last c hstop =>
    have hxc : x ≠ c := by simpa using hx
    have hcell : Function.update next c x c = x := Function.update_self _ _ _
    refine link (by simpa [hcell] using hgo) ?_
    simp only [List.getLast_singleton, hcell]
    exact last (by rwa [Function.update_of_ne hxc])
  | @link c l hgoc tail ih =>
    have hne : c ≠ l.getLast tail.ne_nil := by
      have hnodup := (link hgoc tail).nodup
      exact fun hcl => (List.nodup_cons.mp hnodup).1 (hcl ▸ List.getLast_mem _)
    have hlast : (c :: l).getLast (by simp) = l.getLast tail.ne_nil := List.getLast_cons _
    have hcell : Function.update next (l.getLast tail.ne_nil) x c = next c :=
      Function.update_of_ne hne _ _
    simp only [hlast]
    refine link (by rwa [hcell]) ?_
    rw [hcell]
    exact ih fun hxl => hx (List.mem_cons_of_mem _ hxl)

end Links
end Open98.Library
