import Mathlib.Data.Set.Insert
import Open98.Library.LinkedChain

/-! Families of linked lists in one table. The lists share no cell, and together they take up all
the cells in use. -/
namespace Open98.Library

variable {α : Type*}

/-- The lists `chain s` for `s` in `S` partition the cells in use. -/
structure ChainFamily (next : α → α) (stop : α → Prop) (used S : Set α) (chain : α → List α) :
    Prop where
  links : ∀ s ∈ S, Links next stop s (chain s)
  mem_used : ∀ c, c ∈ used ↔ ∃ s ∈ S, c ∈ chain s
  disjoint : ∀ s ∈ S, ∀ t ∈ S, ∀ c, c ∈ chain s → c ∈ chain t → s = t

namespace ChainFamily
variable {next next' : α → α} {stop : α → Prop} {used S : Set α} {chain : α → List α}

theorem used_of_mem (h : ChainFamily next stop used S chain) {s c : α} (hs : s ∈ S)
    (hc : c ∈ chain s) : c ∈ used :=
  (h.mem_used c).mpr ⟨s, hs, hc⟩

/-- The first cells are in use themselves. -/
theorem start_used (h : ChainFamily next stop used S chain) {s : α} (hs : s ∈ S) : s ∈ used :=
  h.used_of_mem hs (h.links s hs).head_mem

/-- A cell in use lies on exactly one list. -/
theorem existsUnique (h : ChainFamily next stop used S chain) {c : α} (hc : c ∈ used) :
    ∃! s, s ∈ S ∧ c ∈ chain s := by
  obtain ⟨s, hs, hcs⟩ := (h.mem_used c).mp hc
  exact ⟨s, ⟨hs, hcs⟩, fun t ⟨ht, hct⟩ => h.disjoint t ht s hs c hct hcs⟩

variable [DecidableEq α]

/-- An unused cell is appended to one of the lists. -/
theorem append (h : ChainFamily next stop used S chain) {d x e : α} (hd : d ∈ S) (hx : x ∉ used)
    (hend : stop e) (hgo : ¬ stop x) :
    ChainFamily
      (Function.update (Function.update next x e) ((chain d).getLast (h.links d hd).ne_nil) x) stop
      (insert x used) S (Function.update chain d (chain d ++ [x])) := by
  have hfresh : ∀ s ∈ S, x ∉ chain s := fun s hs hxs => hx (h.used_of_mem hs hxs)
  have hlast := List.getLast_mem (h.links d hd).ne_nil
  refine ⟨fun s hs => ?_, fun c => ?_, fun s hs t ht c hcs hct => ?_⟩
  · by_cases hsd : s = d
    · subst hsd
      rw [Function.update_self]
      exact ((h.links s hs).update_of_notMem (hfresh s hs) e).snoc (hfresh s hs)
        (by rwa [Function.update_self]) hgo
    · rw [Function.update_of_ne hsd]
      refine (h.links s hs).congr fun c hc => ?_
      have hcl : c ≠ (chain d).getLast (h.links d hd).ne_nil :=
        fun hcl => hsd (h.disjoint s hs d hd c hc (hcl ▸ hlast))
      have hcx : c ≠ x := fun hcx => hfresh s hs (hcx ▸ hc)
      rw [Function.update_of_ne hcl, Function.update_of_ne hcx]
  · rw [Set.mem_insert_iff, h.mem_used]
    constructor
    · intro hc
      rcases hc with rfl | ⟨s, hs, hcs⟩
      · exact ⟨d, hd, by simp⟩
      · refine ⟨s, hs, ?_⟩
        by_cases hsd : s = d
        · subst hsd
          rw [Function.update_self]
          exact List.mem_append_left _ hcs
        · rwa [Function.update_of_ne hsd]
    · intro ⟨s, hs, hcs⟩
      by_cases hsd : s = d
      · subst hsd
        rw [Function.update_self, List.mem_append, List.mem_singleton] at hcs
        exact hcs.symm.imp_right fun hcs => ⟨s, hs, hcs⟩
      · rw [Function.update_of_ne hsd] at hcs
        exact .inr ⟨s, hs, hcs⟩
  · -- only the list of `d` has the new cell, and the old cells are where they were
    have hold : ∀ r ∈ S, c ∈ Function.update chain d (chain d ++ [x]) r → c ≠ x → c ∈ chain r := by
      intro r _ hcr hcx
      by_cases hrd : r = d
      · subst hrd
        rw [Function.update_self, List.mem_append, List.mem_singleton] at hcr
        exact hcr.resolve_right hcx
      · rwa [Function.update_of_ne hrd] at hcr
    have hnew : ∀ r ∈ S, c ∈ Function.update chain d (chain d ++ [x]) r → c = x → r = d := by
      intro r hr hcr hcx
      by_contra hrd
      rw [Function.update_of_ne hrd] at hcr
      exact hfresh r hr (hcx ▸ hcr)
    by_cases hcx : c = x
    · rw [hnew s hs hcs hcx, hnew t ht hct hcx]
    · exact h.disjoint s hs t ht c (hold s hs hcs hcx) (hold t ht hct hcx)

/-- A list of unused cells is added. -/
theorem insert (h : ChainFamily next stop used S chain) {f : α} {l : List α}
    (hl : Links next' stop f l) (hfree : ∀ c ∈ l, c ∉ used) (hkeep : ∀ c ∈ used, next' c = next c) :
    ChainFamily next' stop (used ∪ {c | c ∈ l}) (Insert.insert f S) (Function.update chain f l) := by
  have hfS : ∀ s ∈ S, s ≠ f := fun s hs hsf => hfree f hl.head_mem (hsf ▸ h.start_used hs)
  have hother : ∀ s ∈ S, Function.update chain f l s = chain s :=
    fun s hs => Function.update_of_ne (hfS s hs) _ _
  refine ⟨fun s hs => ?_, fun c => ?_, fun s hs t ht c hcs hct => ?_⟩
  · rcases hs with rfl | hs
    · rwa [Function.update_self]
    · rw [hother s hs]
      exact (h.links s hs).congr fun c hc => hkeep c (h.used_of_mem hs hc)
  · rw [Set.mem_union, h.mem_used]
    constructor
    · intro hc
      rcases hc with ⟨s, hs, hcs⟩ | hc
      · exact ⟨s, .inr hs, by rwa [hother s hs]⟩
      · exact ⟨f, .inl rfl, by rwa [Function.update_self]⟩
    · intro ⟨s, hs, hcs⟩
      rcases hs with rfl | hs
      · rw [Function.update_self] at hcs
        exact .inr hcs
      · rw [hother s hs] at hcs
        exact .inl ⟨s, hs, hcs⟩
  · rcases hs with rfl | hs <;> rcases ht with rfl | ht
    · rfl
    · rw [Function.update_self] at hcs
      rw [hother t ht] at hct
      exact absurd (h.used_of_mem ht hct) (hfree c hcs)
    · rw [Function.update_self] at hct
      rw [hother s hs] at hcs
      exact absurd (h.used_of_mem hs hcs) (hfree c hct)
    · rw [hother s hs] at hcs
      rw [hother t ht] at hct
      exact h.disjoint s hs t ht c hcs hct

omit [DecidableEq α] in
/-- A list is taken away, whatever its cells hold then. -/
theorem remove (h : ChainFamily next stop used S chain) {f : α} (hf : f ∈ S)
    (hkeep : ∀ c, c ∉ chain f → next' c = next c) :
    ChainFamily next' stop (used \ {c | c ∈ chain f}) (S \ {f}) chain := by
  refine ⟨fun s ⟨hs, hsf⟩ => ?_, fun c => ?_, fun s ⟨hs, _⟩ t ⟨ht, _⟩ c hcs hct =>
    h.disjoint s hs t ht c hcs hct⟩
  · exact (h.links s hs).congr fun c hc => hkeep c fun hcf => hsf (h.disjoint s hs f hf c hc hcf)
  · constructor
    · intro ⟨hc, hcf⟩
      obtain ⟨s, hs, hcs⟩ := (h.mem_used c).mp hc
      exact ⟨s, ⟨hs, fun hsf => hcf (by rwa [← Set.mem_singleton_iff.mp hsf])⟩, hcs⟩
    · intro ⟨s, ⟨hs, hsf⟩, hcs⟩
      exact ⟨h.used_of_mem hs hcs, fun hcf => hsf (h.disjoint s hs f hf c hcs hcf)⟩

end ChainFamily
end Open98.Library
