import Mathlib.Data.List.Basic

/-! Doubly linked lists: every element names the one behind it and the one in front of it. -/
namespace Open98.Library

section Linked
variable {α : Type*} {next prev next' prev' : α → α} {before before' after after' c : α} {l l₁ l₂ : List α}

/-- The elements are linked both ways, with `before` in front of the first and `after` behind the last. -/
def Linked (next prev : α → α) : α → List α → α → Prop
  | _, [], _ => True
  | before, x :: l, after => prev x = before ∧ next x = l.headD after ∧ Linked next prev x l after

lemma headD_append (l₁ l₂ : List α) (after : α) : (l₁ ++ l₂).headD after = l₁.headD (l₂.headD after) := by
  cases l₁ with
  | nil => rfl
  | cons x l₁ => rfl

/-- What is behind a list of values, and what is in front of it: one of them, or nothing. -/
lemma headD_cases {β : Type*} (f : β → α) (l : List β) (d : α) :
    (l.map f).headD d = d ∧ l = [] ∨ ∃ x, l.head? = some x ∧ x ∈ l ∧ (l.map f).headD d = f x := by
  cases l with
  | nil => exact .inl ⟨rfl, rfl⟩
  | cons x l => exact .inr ⟨x, rfl, List.mem_cons_self, rfl⟩

lemma getLastD_cases {β : Type*} (f : β → α) (l : List β) (d : α) :
    (l.map f).getLastD d = d ∧ l = [] ∨ ∃ x, l.getLast? = some x ∧ x ∈ l ∧ (l.map f).getLastD d = f x := by
  rcases List.eq_nil_or_concat l with rfl | ⟨l, x, rfl⟩
  · exact .inl ⟨rfl, rfl⟩
  · exact .inr ⟨x, by simp, by simp, by simp⟩

/-- Two lists in a row: each ends where the other begins. -/
lemma linked_append : Linked next prev before (l₁ ++ l₂) after ↔
    Linked next prev before l₁ (l₂.headD after) ∧ Linked next prev (l₁.getLastD before) l₂ after := by
  induction l₁ generalizing before with
  | nil => exact ⟨fun h => ⟨trivial, h⟩, And.right⟩
  | cons x l₁ ih =>
    have hlast : (x :: l₁).getLastD before = l₁.getLastD x := List.getLastD_cons
    rw [List.cons_append, Linked, Linked, ih, headD_append, hlast, and_assoc, and_assoc]

namespace Linked

/-- Only the links of the elements matter. -/
lemma congr (h : Linked next prev before l after) (hnext : ∀ x ∈ l, next' x = next x)
    (hprev : ∀ x ∈ l, prev' x = prev x) : Linked next' prev' before l after := by
  induction l generalizing before with
  | nil => trivial
  | cons x l ih =>
    obtain ⟨hbefore, hbehind, hrest⟩ := h
    refine ⟨(hprev x List.mem_cons_self).trans hbefore, (hnext x List.mem_cons_self).trans hbehind, ?_⟩
    exact ih hrest (fun y hy => hnext y (List.mem_cons_of_mem _ hy)) fun y hy => hprev y (List.mem_cons_of_mem _ hy)

/-- Another element is put behind the last one. -/
lemma relink_last (h : Linked next prev before l after) (hnodup : l.Nodup) (hprev : ∀ x ∈ l, prev' x = prev x)
    (hnext : ∀ x ∈ l, l.getLast? ≠ some x → next' x = next x) (hlast : ∀ x, l.getLast? = some x → next' x = after') :
    Linked next' prev' before l after' := by
  induction l generalizing before with
  | nil => trivial
  | cons x l ih =>
    obtain ⟨hbefore, hbehind, hrest⟩ := h
    obtain ⟨hx, hnodup⟩ := List.nodup_cons.mp hnodup
    refine ⟨(hprev x List.mem_cons_self).trans hbefore, ?_⟩
    cases l with
    | nil => exact ⟨hlast x rfl, trivial⟩
    | cons y l =>
      have hend : (x :: y :: l).getLast? = (y :: l).getLast? := List.getLast?_cons_cons
      rw [hend] at hnext hlast
      have hne : (y :: l).getLast? ≠ some x := fun heq => hx (List.mem_of_getLast? heq)
      refine ⟨(hnext x List.mem_cons_self hne).trans hbehind, ?_⟩
      exact ih hrest hnodup (fun z hz => hprev z (List.mem_cons_of_mem _ hz))
        (fun z hz => hnext z (List.mem_cons_of_mem _ hz)) hlast

/-- Another element is put in front of the first one. -/
lemma relink_head (h : Linked next prev before l after) (hnodup : l.Nodup) (hnext : ∀ x ∈ l, next' x = next x)
    (hprev : ∀ x ∈ l, l.head? ≠ some x → prev' x = prev x) (hhead : ∀ x, l.head? = some x → prev' x = before') :
    Linked next' prev' before' l after := by
  cases l with
  | nil => trivial
  | cons x l =>
    obtain ⟨-, hbehind, hrest⟩ := h
    obtain ⟨hx, -⟩ := List.nodup_cons.mp hnodup
    refine ⟨hhead x rfl, (hnext x List.mem_cons_self).trans hbehind, ?_⟩
    refine hrest.congr (fun y hy => hnext y (List.mem_cons_of_mem _ hy)) fun y hy => ?_
    refine hprev y (List.mem_cons_of_mem _ hy) fun heq => ?_
    exact hx (Option.some.inj heq ▸ hy)

/-- Two lists in a row after the links between them have changed. -/
lemma rejoin (h : Linked next prev before l₁ after') (h' : Linked next prev before' l₂ after) (hnodup : (l₁ ++ l₂).Nodup)
    {a b : α} (hnext : ∀ x ∈ l₁ ++ l₂, l₁.getLast? ≠ some x → next' x = next x)
    (hprev : ∀ x ∈ l₁ ++ l₂, l₂.head? ≠ some x → prev' x = prev x) (hlast : ∀ x, l₁.getLast? = some x → next' x = a)
    (hhead : ∀ x, l₂.head? = some x → prev' x = b) :
    Linked next' prev' before l₁ a ∧ Linked next' prev' b l₂ after := by
  obtain ⟨hnodup₁, hnodup₂, hapart⟩ := List.nodup_append.mp hnodup
  constructor
  · refine h.relink_last hnodup₁ (fun x hx => hprev x (List.mem_append_left _ hx) fun heq => ?_)
      (fun x hx => hnext x (List.mem_append_left _ hx)) hlast
    exact hapart x hx x (List.mem_of_head? heq) rfl
  · refine h'.relink_head hnodup₂ (fun x hx => hnext x (List.mem_append_right _ hx) fun heq => ?_)
      (fun x hx => hprev x (List.mem_append_right _ hx)) hhead
    exact hapart x (List.mem_of_getLast? heq) x hx rfl

/-- An element is linked in. -/
theorem insert (h : Linked next prev before (l₁ ++ l₂) after) (hnodup : (l₁ ++ l₂).Nodup)
    (hnext : ∀ x ∈ l₁ ++ l₂, l₁.getLast? ≠ some x → next' x = next x)
    (hprev : ∀ x ∈ l₁ ++ l₂, l₂.head? ≠ some x → prev' x = prev x) (hlast : ∀ x, l₁.getLast? = some x → next' x = c)
    (hhead : ∀ x, l₂.head? = some x → prev' x = c) (hcprev : prev' c = l₁.getLastD before)
    (hcnext : next' c = l₂.headD after) : Linked next' prev' before (l₁ ++ c :: l₂) after := by
  obtain ⟨h₁, h₂⟩ := linked_append.mp h
  obtain ⟨h₁, h₂⟩ := h₁.rejoin h₂ hnodup hnext hprev hlast hhead
  exact linked_append.mpr ⟨h₁, hcprev, hcnext, h₂⟩

/-- An element is taken out. -/
theorem remove (h : Linked next prev before (l₁ ++ c :: l₂) after) (hnodup : (l₁ ++ l₂).Nodup)
    (hnext : ∀ x ∈ l₁ ++ l₂, l₁.getLast? ≠ some x → next' x = next x)
    (hprev : ∀ x ∈ l₁ ++ l₂, l₂.head? ≠ some x → prev' x = prev x)
    (hlast : ∀ x, l₁.getLast? = some x → next' x = l₂.headD after)
    (hhead : ∀ x, l₂.head? = some x → prev' x = l₁.getLastD before) : Linked next' prev' before (l₁ ++ l₂) after := by
  obtain ⟨h₁, -, -, h₂⟩ := linked_append.mp h
  exact linked_append.mpr (h₁.rejoin h₂ hnodup hnext hprev hlast hhead)

/-- What the links of an element name. -/
lemma links (h : Linked next prev before (l₁ ++ c :: l₂) after) :
    prev c = l₁.getLastD before ∧ next c = l₂.headD after := by
  obtain ⟨-, hprev, hnext, -⟩ := linked_append.mp h
  exact ⟨hprev, hnext⟩

end Linked

end Linked

end Open98.Library
