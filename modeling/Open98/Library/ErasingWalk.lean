import Mathlib.Data.Finset.Card
import Open98.Library.LinkedChain

/-! Walks through a table whose cells name the next one: walks that only look, and walks that erase the
cells they come through. The latter end on every finite table. -/
namespace Open98.Library

variable {α : Type*}

/-- The first cells that a walk looks at; it ends behind a cell whose value makes it stop. -/
def walked (next : α → α) (stop : α → Prop) [DecidablePred stop] : ℕ → α → List α
  | 0, _ => []
  | n+1, c => c :: if stop (next c) then [] else walked next stop n (next c)

/-- The first cells that an erasing walk erases; it ends before a number it does not go to. -/
def erased [DecidableEq α] (go : α → Prop) [DecidablePred go] (z : α) : ℕ → (α → α) → α → List α
  | 0, _, _ => []
  | n+1, next, c => if go c then c :: erased go z n (Function.update next c z) (next c) else []

/-- The cells that following the table comes to. -/
inductive Reached (next : α → α) (go : α → Prop) (start : α) : α → Prop
  | start (h : go start) : Reached next go start start
  | next {c} (h : Reached next go start c) (hgo : go (next c)) : Reached next go start (next c)

section Walks
variable {next : α → α} {stop : α → Prop} [DecidablePred stop] {n : ℕ} {c : α} {l : List α}

/-- A walk that has ended has followed a linked list. -/
theorem links_walked (h : (walked next stop n c).length < n) : Links next stop c (walked next stop n c) := by
  induction n generalizing c with
  | zero => exact absurd h (Nat.not_lt_zero _)
  | succ n ih =>
    rw [walked, List.length_cons] at h
    rw [walked]
    by_cases hstop : stop (next c)
    · rw [if_pos hstop]
      exact .last hstop
    · rw [if_neg hstop] at h ⊢
      exact .link hstop (ih (Nat.lt_of_succ_lt_succ h))

/-- A walk along a linked list looks at its elements in order. -/
theorem Links.walked (h : Links next stop c l) (n : ℕ) : walked next stop n c = l.take n := by
  induction h generalizing n with
  | last hstop =>
    cases n with
    | zero => rfl
    | succ n => rw [Library.walked, if_pos hstop, List.take_succ_cons, List.take_nil]
  | link hgo tail ih =>
    cases n with
    | zero => rfl
    | succ n => rw [Library.walked, if_neg hgo, ih, List.take_succ_cons]

/-- The walk comes to an element whose cell makes it stop. -/
def Ends (next : α → α) (stop : α → Prop) (c : α) : Prop := ∃ l, Links next stop c l

omit [DecidablePred stop] in
theorem ends_iff : Ends next stop c ↔ stop (next c) ∨ Ends next stop (next c) := by
  constructor
  · rintro ⟨l, h⟩
    cases h with
    | last hstop => exact .inl hstop
    | link _ tail => exact .inr ⟨_, tail⟩
  · rintro (hstop | ⟨l, h⟩)
    · exact ⟨[c], .last hstop⟩
    · by_cases hstop : stop (next c)
      · exact ⟨[c], .last hstop⟩
      · exact ⟨c :: l, .link hstop h⟩

omit [DecidablePred stop] in
/-- A walk that stays where it is does not end. -/
theorem not_ends_of_fixed (hfixed : next c = c) (hgo : ¬ stop c) : ¬ Ends next stop c := by
  rintro ⟨l, h⟩
  obtain ⟨t, rfl⟩ := h.eq_cons
  rcases h.step with ⟨hstop, -⟩ | ⟨-, htail⟩
  · exact hgo (hfixed ▸ hstop)
  · rw [hfixed] at htail
    have hlen := congrArg List.length (h.unique htail)
    exact absurd hlen (Nat.succ_ne_self _)

/-- The walk comes to the element `x`. -/
def ComesTo (next : α → α) (stop : α → Prop) [DecidablePred stop] (c x : α) : Prop :=
  ∃ n, x ∈ walked next stop n c

theorem ComesTo.start : ComesTo next stop c c := ⟨1, List.mem_cons_self⟩

theorem ComesTo.link {x : α} (hgo : ¬ stop (next c)) (h : ComesTo next stop (next c) x) : ComesTo next stop c x := by
  obtain ⟨n, hn⟩ := h
  refine ⟨n+1, ?_⟩
  rw [Library.walked, if_neg hgo]
  exact List.mem_cons_of_mem c hn

/-- Induction towards an element that the walk comes to. -/
theorem ComesTo.induct {x : α} {motive : α → Prop} (here : motive x)
    (link : ∀ c, ¬ stop (next c) → motive (next c) → motive c) (h : ComesTo next stop c x) : motive c := by
  obtain ⟨n, hn⟩ := h
  induction n generalizing c with
  | zero => exact absurd hn List.not_mem_nil
  | succ n ih =>
    rw [Library.walked, List.mem_cons] at hn
    rcases hn with rfl | hn
    · exact here
    · by_cases hstop : stop (next c)
      · rw [if_pos hstop] at hn
        exact absurd hn List.not_mem_nil
      · rw [if_neg hstop] at hn
        exact link c hstop (ih hn)

end Walks

section Erasing
variable [DecidableEq α] {next : α → α} {go : α → Prop} [DecidablePred go] {n : ℕ} {c z x : α} {l : List α}

theorem go_of_mem_erased (h : x ∈ erased go z n next c) : go x := by
  induction n generalizing next c with
  | zero => exact absurd h List.not_mem_nil
  | succ n ih =>
    rw [erased] at h
    by_cases hgo : go c
    · rw [if_pos hgo] at h
      cases List.mem_cons.mp h with
      | inl heq => exact heq ▸ hgo
      | inr hmem => exact ih hmem
    · rw [if_neg hgo] at h
      exact absurd h List.not_mem_nil

/-- An erasing walk along a linked list erases its elements in order. -/
theorem Links.erased {stop : α → Prop} (h : Links next stop c l) (hgo : ∀ y ∈ l, go y)
    (hstop : ∀ y, stop y → ¬ go y) (n : ℕ) :
    erased go z n next c = l.take n := by
  induction l generalizing next c n with
  | nil => exact absurd rfl h.ne_nil
  | cons d t ih =>
    obtain ⟨t', ht'⟩ := h.eq_cons
    obtain ⟨rfl, rfl⟩ := List.cons.inj ht'
    have hnotMem := (List.nodup_cons.mp h.nodup).1
    cases n with
    | zero => rfl
    | succ n =>
      rw [Library.erased, if_pos (hgo d List.mem_cons_self), List.take_succ_cons]
      cases h with
      | last hend =>
        cases n with
        | zero => rfl
        | succ n => rw [Library.erased, if_neg (hstop _ hend), List.take_nil]
      | link _ tail => rw [ih (tail.update_of_notMem hnotMem z) (fun y hy => hgo y (List.mem_cons_of_mem d hy))]

end Erasing

section Reached
variable {next : α → α} {go : α → Prop} {start z c : α}

theorem go_of_reached (h : Reached next go start c) : go c := by
  cases h with
  | start hgo => exact hgo
  | next _ hgo => exact hgo

/-- A walk does not come anywhere when it does not start. -/
theorem not_reached (h : ¬ go start) : ¬ Reached next go start c := by
  intro hreached
  induction hreached with
  | start hgo => exact h hgo
  | next _ _ ih => exact ih

variable [DecidableEq α]

/-- Erasing the first cell changes nothing about where the rest of the walk comes. -/
theorem reached_erase (hz : ¬ go z) (hgo : go start) : Reached next go start c ↔
    c = start ∨ Reached (Function.update next start z) go (next start) c := by
  constructor
  · intro h
    induction h with
    | start _ => exact .inl rfl
    | @next c _ hnext ih =>
      by_cases hc : c = start
      · subst hc
        exact .inr (.start hnext)
      · have hcell : Function.update next start z c = next c := Function.update_of_ne hc _ _
        have hreached := ih.resolve_left hc
        rw [← hcell] at hnext ⊢
        exact .inr (.next hreached hnext)
  · intro h
    cases h with
    | inl hc =>
      rw [hc]
      exact .start hgo
    | inr h =>
      induction h with
      | start hnext => exact .next (.start hgo) hnext
      | @next c _ hnext ih =>
        have hc : c ≠ start := by
          intro heq
          rw [heq, Function.update_self] at hnext
          exact hz hnext
        rw [Function.update_of_ne hc] at hnext ⊢
        exact .next ih hnext

/-- A walk that has ended has erased the cells that following the table comes to. -/
theorem mem_erased_iff [DecidablePred go] (hz : ¬ go z) {n : ℕ} (h : (erased go z n next start).length < n) :
    c ∈ erased go z n next start ↔ Reached next go start c := by
  induction n generalizing next start with
  | zero => exact absurd h (Nat.not_lt_zero _)
  | succ n ih =>
    rw [erased] at h ⊢
    by_cases hgo : go start
    · rw [if_pos hgo] at h ⊢
      rw [List.length_cons] at h
      rw [List.mem_cons, reached_erase hz hgo, ih (Nat.lt_of_succ_lt_succ h)]
    · rw [if_neg hgo]
      exact iff_of_false List.not_mem_nil (not_reached hgo)

/-- An erasing walk comes through every cell once, but for the last one it comes to. -/
theorem length_erased_le [DecidablePred go] (hz : ¬ go z) {n : ℕ} (cells : Finset α)
    (hcells : ∀ y, Reached next go start y → y ∈ cells) :
    (erased go z n next start).length ≤ (cells.filter fun y => next y ≠ z).card + 1 := by
  induction n generalizing next start with
  | zero => exact Nat.zero_le _
  | succ n ih =>
    rw [erased]
    by_cases hgo : go start
    · rw [if_pos hgo, List.length_cons]
      by_cases hc : next start = z
      · -- the cell has been erased before, or was never a link
        have hlast : erased go z n (Function.update next start z) (next start) = [] := by
          rw [hc]
          cases n with
          | zero => rfl
          | succ n => rw [erased, if_neg hz]
        rw [hlast, List.length_nil]
        exact Nat.le_add_left _ _
      · have hcells' : ∀ y, Reached (Function.update next start z) go (next start) y → y ∈ cells :=
          fun y hy => hcells y ((reached_erase hz hgo).mpr (.inr hy))
        have hrest := ih hcells'
        have hfilter : (cells.filter fun y => Function.update next start z y ≠ z) =
            (cells.filter fun y => next y ≠ z).erase start := by
          ext y
          by_cases hy : y = start
          · simp [hy]
          · simp [hy]
        have hmem : start ∈ cells.filter fun y => next y ≠ z := Finset.mem_filter.mpr ⟨hcells start (.start hgo), hc⟩
        have hcard := Finset.card_erase_add_one hmem
        rw [hfilter] at hrest
        omega
    · rw [if_neg hgo]
      exact Nat.zero_le _

end Reached

end Open98.Library
