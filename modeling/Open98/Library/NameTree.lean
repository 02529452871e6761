import Mathlib.Data.List.Nodup
import Mathlib.Data.Set.Insert

/-! Trees of directories: each directory lists its entries, an entry stands for a node of its own,
and the entries that are directories list entries in turn. -/
namespace Open98.Library

/-- How entries name nodes: the node of the root directory, the node of an entry, and which entries
are directories. -/
structure Naming (α E : Type*) where
  root : α
  node : E → α
  isDir : E → Prop

namespace Naming
variable {α E : Type*} (N : Naming α E)

/-- The directories that are reached from the root. -/
inductive Live (sets : α → List E) : α → Prop
  | root : Live sets N.root
  | sub {d e} (hd : Live sets d) (he : e ∈ sets d) (hdir : N.isDir e) : Live sets (N.node e)

/-- The nodes of the tree: the root and the nodes of the entries of its directories. -/
def Nodes (sets : α → List E) : Set α := {s | s = N.root ∨ ∃ d e, N.Live sets d ∧ e ∈ sets d ∧ N.node e = s}

/-- No node stands in two places. -/
structure Tree (sets : α → List E) : Prop where
  nodup : ∀ d, N.Live sets d → ((sets d).map N.node).Nodup
  parent : ∀ d d' e e', N.Live sets d → N.Live sets d' → e ∈ sets d → e' ∈ sets d' →
    N.node e = N.node e' → d = d'
  notRoot : ∀ d e, N.Live sets d → e ∈ sets d → N.node e ≠ N.root

section Basic
variable {N} {sets sets' : α → List E} {d : α}

theorem Live.mem_nodes (h : N.Live sets d) : d ∈ N.Nodes sets := by
  cases h with
  | root => exact .inl rfl
  | sub hd he _ => exact .inr ⟨_, _, hd, he, rfl⟩

theorem Live.node_mem (h : N.Live sets d) {e : E} (he : e ∈ sets d) : N.node e ∈ N.Nodes sets :=
  .inr ⟨d, e, h, he, rfl⟩

/-- Two entries of one directory with the same node are the same entry. -/
theorem Tree.eq_of_node (t : N.Tree sets) (hd : N.Live sets d) {e e' : E} (he : e ∈ sets d)
    (he' : e' ∈ sets d) (heq : N.node e = N.node e') : e = e' :=
  List.inj_on_of_nodup_map (t.nodup d hd) he he' heq

/-- The node of an entry is that of a directory only if the entry is one itself. -/
theorem Tree.isDir_of_live (t : N.Tree sets) (hd : N.Live sets d) {e : E} (he : e ∈ sets d)
    (hlive : N.Live sets (N.node e)) : N.isDir e := by
  generalize hs : N.node e = s at hlive
  cases hlive with
  | root => exact absurd hs (t.notRoot d e hd he)
  | @sub d' e' hd' he' hdir =>
    obtain rfl := t.parent d d' e e' hd hd' he he' hs
    rwa [t.eq_of_node hd he he' hs]

/-- No directory is an entry of itself. -/
theorem Tree.node_ne (t : N.Tree sets) (hd : N.Live sets d) {e : E} (he : e ∈ sets d) : N.node e ≠ d := by
  induction hd generalizing e with
  | root => exact t.notRoot N.root e .root he
  | @sub d₀ e₀ hd₀ he₀ hdir ih =>
    intro heq
    exact ih he₀ (t.parent _ d₀ e e₀ (hd₀.sub he₀ hdir) hd₀ he he₀ heq)

/-- Directories whose lists agree with those of a tree are reached in the same way. -/
theorem live_congr (h : ∀ d, N.Live sets d → sets' d = sets d) {d : α} :
    N.Live sets' d ↔ N.Live sets d := by
  constructor
  · intro hd
    induction hd with
    | root => exact .root
    | sub _ he hdir ih => exact ih.sub (h _ ih ▸ he) hdir
  · intro hd
    induction hd with
    | root => exact .root
    | sub hd he hdir ih => exact ih.sub (by rwa [h _ hd]) hdir

theorem nodes_congr (h : ∀ d, N.Live sets d → sets' d = sets d) : N.Nodes sets' = N.Nodes sets := by
  ext s
  refine or_congr_right (exists_congr fun d => exists_congr fun e => ?_)
  rw [live_congr h]
  exact and_congr_right fun hd => by rw [h d hd]

theorem Tree.congr (t : N.Tree sets) (h : ∀ d, N.Live sets d → sets' d = sets d) : N.Tree sets' where
  nodup d hd := by
    rw [live_congr h] at hd
    rw [h d hd]
    exact t.nodup d hd
  parent d d' e e' hd hd' he he' heq := by
    rw [live_congr h] at hd hd'
    rw [h d hd] at he
    rw [h d' hd'] at he'
    exact t.parent d d' e e' hd hd' he he' heq
  notRoot d e hd he := by
    rw [live_congr h] at hd
    rw [h d hd] at he
    exact t.notRoot d e hd he

end Basic

/-- One directory has got a new entry, for a node that was not in the tree; a new directory is
empty. -/
structure Inserts (sets sets' : α → List E) (d : α) (e : E) (l₁ l₂ : List E) : Prop where
  live : N.Live sets d
  before : sets d = l₁ ++ l₂
  after : sets' d = l₁ ++ e :: l₂
  others : ∀ d', N.Live sets d' → d' ≠ d → sets' d' = sets d'
  new : N.isDir e → sets' (N.node e) = []
  fresh : N.node e ∉ N.Nodes sets

namespace Inserts
variable {N} {sets sets' : α → List E} {d : α} {e : E} {l₁ l₂ : List E}
  (h : N.Inserts sets sets' d e l₁ l₂)
include h

theorem mem_after {d' : α} (hd' : N.Live sets d') {e' : E} :
    e' ∈ sets' d' ↔ e' ∈ sets d' ∨ (d' = d ∧ e' = e) := by
  by_cases hdd : d' = d
  · subst hdd
    rw [h.before, h.after]
    simp only [List.mem_append, List.mem_cons, true_and]
    tauto
  · rw [h.others d' hd' hdd]
    simp [hdd]

theorem live_iff {d' : α} : N.Live sets' d' ↔ N.Live sets d' ∨ (N.isDir e ∧ d' = N.node e) := by
  constructor
  · intro hd'
    induction hd' with
    | root => exact .inl .root
    | @sub d₀ e₀ _ he₀ hdir ih =>
      rcases ih with hd₀ | ⟨hdir', rfl⟩
      · rcases (h.mem_after hd₀).mp he₀ with he₀ | ⟨_, rfl⟩
        · exact .inl (hd₀.sub he₀ hdir)
        · exact .inr ⟨hdir, rfl⟩
      · rw [h.new hdir'] at he₀
        exact absurd he₀ List.not_mem_nil
  · have hold : ∀ d', N.Live sets d' → N.Live sets' d' := by
      intro d' hd'
      induction hd' with
      | root => exact .root
      | sub hd he hdir ih => exact ih.sub ((h.mem_after hd).mpr (.inl he)) hdir
    intro hd'
    rcases hd' with hd' | ⟨hdir, rfl⟩
    · exact hold d' hd'
    · exact (hold d h.live).sub ((h.mem_after h.live).mpr (.inr ⟨rfl, rfl⟩)) hdir

/-- The entries of the new tree are the old ones and the new one. -/
theorem entry_iff {d' : α} {e' : E} : (N.Live sets' d' ∧ e' ∈ sets' d') ↔
    (N.Live sets d' ∧ e' ∈ sets d') ∨ (d' = d ∧ e' = e) := by
  rw [h.live_iff]
  constructor
  · intro ⟨hd', he'⟩
    rcases hd' with hd' | ⟨hdir, rfl⟩
    · exact ((h.mem_after hd').mp he').imp_left fun he' => ⟨hd', he'⟩
    · rw [h.new hdir] at he'
      exact absurd he' List.not_mem_nil
  · intro hd'
    rcases hd' with ⟨hd', he'⟩ | ⟨rfl, rfl⟩
    · exact ⟨.inl hd', (h.mem_after hd').mpr (.inl he')⟩
    · exact ⟨.inl h.live, (h.mem_after h.live).mpr (.inr ⟨rfl, rfl⟩)⟩

theorem nodes : N.Nodes sets' = Insert.insert (N.node e) (N.Nodes sets) := by
  ext s
  simp only [Nodes, Set.mem_ofPred_eq, Set.mem_insert_iff]
  constructor
  · intro hs
    rcases hs with hs | ⟨d', e', hd', he', hs⟩
    · exact .inr (.inl hs)
    · rcases h.entry_iff.mp ⟨hd', he'⟩ with ⟨hd', he'⟩ | ⟨_, rfl⟩
      · exact .inr (.inr ⟨d', e', hd', he', hs⟩)
      · exact .inl hs.symm
  · intro hs
    rcases hs with rfl | hs | ⟨d', e', hd', he', hs⟩
    · obtain ⟨hd, he⟩ := h.entry_iff.mpr (.inr ⟨rfl, rfl⟩)
      exact .inr ⟨d, e, hd, he, rfl⟩
    · exact .inl hs
    · obtain ⟨hd', he'⟩ := h.entry_iff.mpr (.inl ⟨hd', he'⟩)
      exact .inr ⟨d', e', hd', he', hs⟩

/-- A set of nodes that gets the new one as well is in the new tree if it was in the old one. -/
theorem subset_iff {S : Set α} (hS : N.node e ∉ S) :
    Insert.insert (N.node e) S ⊆ N.Nodes sets' ↔ S ⊆ N.Nodes sets := by
  rw [h.nodes]
  constructor
  · intro hsub s hs
    exact (hsub (Set.mem_insert_of_mem _ hs)).resolve_left (ne_of_mem_of_not_mem hs hS)
  · exact fun hsub => Set.insert_subset_insert hsub

theorem tree (t : N.Tree sets) : N.Tree sets' where
  nodup d' hd' := by
    rcases h.live_iff.mp hd' with hd' | ⟨hdir, rfl⟩
    · by_cases hdd : d' = d
      · subst hdd
        have hold := t.nodup d' hd'
        rw [h.before, List.map_append] at hold
        rw [h.after, List.map_append, List.map_cons, List.nodup_middle, List.nodup_cons]
        refine ⟨fun hmem => h.fresh ?_, hold⟩
        rw [← List.map_append, ← h.before] at hmem
        obtain ⟨e', he', heq⟩ := List.mem_map.mp hmem
        exact .inr ⟨d', e', hd', he', heq⟩
      · rw [h.others d' hd' hdd]
        exact t.nodup d' hd'
    · rw [h.new hdir]
      exact List.nodup_nil
  parent d₁ d₂ e₁ e₂ hd₁ hd₂ he₁ he₂ heq := by
    rcases h.entry_iff.mp ⟨hd₁, he₁⟩ with ⟨hd₁, he₁⟩ | ⟨rfl, rfl⟩ <;>
      rcases h.entry_iff.mp ⟨hd₂, he₂⟩ with ⟨hd₂, he₂⟩ | ⟨rfl, rfl⟩
    · exact t.parent d₁ d₂ e₁ e₂ hd₁ hd₂ he₁ he₂ heq
    · exact absurd (heq ▸ hd₁.node_mem he₁) h.fresh
    · exact absurd (heq ▸ hd₂.node_mem he₂) h.fresh
    · rfl
  notRoot d' e' hd' he' heq := by
    rcases h.entry_iff.mp ⟨hd', he'⟩ with ⟨hd', he'⟩ | ⟨rfl, rfl⟩
    · exact t.notRoot d' e' hd' he' heq
    · exact h.fresh (.inl heq)

omit h in
/-- Only the lists of the tree's own directories matter. -/
theorem of_congr {sets₁ : α → List E} (hsame : ∀ d, N.Live sets d → sets₁ d = sets d)
    (h : N.Inserts sets₁ sets' d e l₁ l₂) : N.Inserts sets sets' d e l₁ l₂ := by
  have hd := (live_congr hsame).mp h.live
  refine ⟨hd, by rw [← hsame d hd, h.before], h.after, fun d' hd' hne => ?_, h.new, ?_⟩
  · rw [h.others d' ((live_congr hsame).mpr hd') hne, hsame d' hd']
  · rw [← nodes_congr hsame]
    exact h.fresh

end Inserts

/-- One directory has lost an entry, and the tree what was below it. -/
structure Drops (sets sets' : α → List E) (d : α) (e : E) (l₁ l₂ : List E) : Prop where
  live : N.Live sets d
  before : sets d = l₁ ++ e :: l₂
  after : sets' d = l₁ ++ l₂
  others : ∀ d', N.Live sets d' → d' ≠ d → sets' d' = sets d'

namespace Drops
variable {N} {sets sets' : α → List E} {d : α} {e : E} {l₁ l₂ : List E}
  (h : N.Drops sets sets' d e l₁ l₂) (t : N.Tree sets)
include h

theorem mem_before : e ∈ sets d := by
  rw [h.before]
  simp

include t

theorem mem_after {d' : α} (hd' : N.Live sets d') {e' : E} :
    e' ∈ sets' d' ↔ e' ∈ sets d' ∧ N.node e' ≠ N.node e := by
  by_cases hdd : d' = d
  · subst hdd
    have hnodup := t.nodup d' hd'
    rw [h.before, List.map_append, List.map_cons, List.nodup_middle, List.nodup_cons,
      ← List.map_append] at hnodup
    rw [h.before, h.after]
    constructor
    · intro he'
      refine ⟨?_, fun heq => hnodup.1 (heq ▸ List.mem_map_of_mem he')⟩
      simp only [List.mem_append, List.mem_cons] at he' ⊢
      tauto
    · intro ⟨he', hne⟩
      have hee : e' ≠ e := fun hee => hne (hee ▸ rfl)
      simp only [List.mem_append, List.mem_cons, hee, false_or] at he' ⊢
      exact he'
  · rw [h.others d' hd' hdd]
    refine (and_iff_left_of_imp fun he' heq => hdd ?_).symm
    exact t.parent d' d e' e hd' h.live he' h.mem_before heq

theorem live_of {d' : α} (hd' : N.Live sets' d') : N.Live sets d' ∧ d' ≠ N.node e := by
  induction hd' with
  | root => exact ⟨.root, (t.notRoot d e h.live h.mem_before).symm⟩
  | sub _ he₀ hdir ih =>
    obtain ⟨he₀, hne⟩ := (h.mem_after t ih.1).mp he₀
    exact ⟨ih.1.sub he₀ hdir, hne⟩

theorem entry_of {d' : α} {e' : E} (hd' : N.Live sets' d') (he' : e' ∈ sets' d') :
    (N.Live sets d' ∧ e' ∈ sets d') ∧ N.node e' ≠ N.node e := by
  obtain ⟨hd', -⟩ := h.live_of t hd'
  obtain ⟨he', hne⟩ := (h.mem_after t hd').mp he'
  exact ⟨⟨hd', he'⟩, hne⟩

theorem nodes_subset : N.Nodes sets' ⊆ N.Nodes sets \ {N.node e} := by
  intro s hs
  rcases hs with rfl | ⟨d', e', hd', he', rfl⟩
  · exact ⟨.inl rfl, (t.notRoot d e h.live h.mem_before).symm⟩
  · obtain ⟨⟨hd', he'⟩, hne⟩ := h.entry_of t hd' he'
    exact ⟨.inr ⟨d', e', hd', he', rfl⟩, hne⟩

theorem tree : N.Tree sets' where
  nodup d' hd' := by
    have hold := (h.live_of t hd').1
    by_cases hdd : d' = d
    · subst hdd
      have hnodup := t.nodup d' hold
      rw [h.before, List.map_append, List.map_cons, List.nodup_middle, List.nodup_cons] at hnodup
      rw [h.after, List.map_append]
      exact hnodup.2
    · rw [h.others d' hold hdd]
      exact t.nodup d' hold
  parent d₁ d₂ e₁ e₂ hd₁ hd₂ he₁ he₂ heq := by
    obtain ⟨⟨hd₁, he₁⟩, _⟩ := h.entry_of t hd₁ he₁
    obtain ⟨⟨hd₂, he₂⟩, _⟩ := h.entry_of t hd₂ he₂
    exact t.parent d₁ d₂ e₁ e₂ hd₁ hd₂ he₁ he₂ heq
  notRoot d' e' hd' he' := by
    obtain ⟨⟨hd', he'⟩, _⟩ := h.entry_of t hd' he'
    exact t.notRoot d' e' hd' he'

/-- What the entry listed as a directory is in the tree no more. -/
theorem below (hdir : N.isDir e) {e' : E} (he' : e' ∈ sets (N.node e)) : N.node e' ∉ N.Nodes sets' := by
  have hlive : N.Live sets (N.node e) := h.live.sub h.mem_before hdir
  intro hmem
  rcases hmem with hroot | ⟨d'', e'', hd'', he'', heq⟩
  · exact t.notRoot _ e' hlive he' hroot
  · obtain ⟨⟨hlive'', hin⟩, -⟩ := h.entry_of t hd'' he''
    exact (h.live_of t hd'').2 (t.parent d'' (N.node e) e'' e' hlive'' hlive hin he' heq)

end Drops

/-- One directory has lost an entry, which was not a directory with entries of its own. -/
structure Removes (sets sets' : α → List E) (d : α) (e : E) (l₁ l₂ : List E) : Prop where
  live : N.Live sets d
  before : sets d = l₁ ++ e :: l₂
  after : sets' d = l₁ ++ l₂
  others : ∀ d', N.Live sets d' → d' ≠ d → sets' d' = sets d'
  empty : N.isDir e → sets (N.node e) = []

namespace Removes
variable {N} {sets sets' : α → List E} {d : α} {e : E} {l₁ l₂ : List E}
  (h : N.Removes sets sets' d e l₁ l₂) (t : N.Tree sets)
include h

theorem drops : N.Drops sets sets' d e l₁ l₂ := ⟨h.live, h.before, h.after, h.others⟩

include t

theorem live_iff {d' : α} : N.Live sets' d' ↔ N.Live sets d' ∧ d' ≠ N.node e := by
  constructor
  · exact h.drops.live_of t
  · intro ⟨hd', hne⟩
    induction hd' with
    | root => exact .root
    | @sub d₀ e₀ hd₀ he₀ hdir ih =>
      refine (ih fun hd₀e => ?_).sub ((h.drops.mem_after t hd₀).mpr ⟨he₀, hne⟩) hdir
      -- the removed directory is not on the way to another one, as it has no entries
      subst hd₀e
      rw [h.empty (t.isDir_of_live h.live h.drops.mem_before hd₀)] at he₀
      exact absurd he₀ List.not_mem_nil

/-- The entries of the new tree are the old ones but for the removed one. -/
theorem entry_iff {d' : α} {e' : E} : (N.Live sets' d' ∧ e' ∈ sets' d') ↔
    (N.Live sets d' ∧ e' ∈ sets d') ∧ N.node e' ≠ N.node e := by
  constructor
  · intro ⟨hd', he'⟩
    exact h.drops.entry_of t hd' he'
  · intro ⟨⟨hd', he'⟩, hne⟩
    refine ⟨(h.live_iff t).mpr ⟨hd', fun hd'e => ?_⟩, (h.drops.mem_after t hd').mpr ⟨he', hne⟩⟩
    subst hd'e
    rw [h.empty (t.isDir_of_live h.live h.drops.mem_before hd')] at he'
    exact absurd he' List.not_mem_nil

theorem nodes : N.Nodes sets' = N.Nodes sets \ {N.node e} := by
  apply Set.Subset.antisymm (h.drops.nodes_subset t)
  intro s ⟨hs, hne⟩
  rcases hs with rfl | ⟨d', e', hd', he', rfl⟩
  · exact .inl rfl
  · obtain ⟨hd', he'⟩ := (h.entry_iff t).mpr ⟨⟨hd', he'⟩, hne⟩
    exact .inr ⟨d', e', hd', he', rfl⟩

end Removes

/-- Without the node of a dropped entry, the nodes are all in the new tree if and only if they were in the
old one and the entry listed nothing. -/
theorem Drops.subset_iff {N : Naming α E} {sets sets' : α → List E} {d : α} {e : E} {l₁ l₂ : List E}
    (h : N.Drops sets sets' d e l₁ l₂) (t : N.Tree sets) {S : Set α} (hS : N.Nodes sets ⊆ S) :
    S \ {N.node e} ⊆ N.Nodes sets' ↔ S ⊆ N.Nodes sets ∧ (N.isDir e → sets (N.node e) = []) := by
  constructor
  · intro hsub
    refine ⟨fun s hs => ?_, fun hdir => List.eq_nil_iff_forall_not_mem.mpr fun e' he' => ?_⟩
    · by_cases hse : s = N.node e
      · exact hse ▸ h.live.node_mem h.mem_before
      · exact (h.nodes_subset t (hsub ⟨hs, hse⟩)).1
    · have hlive := h.live.sub h.mem_before hdir
      exact h.below t hdir he' (hsub ⟨hS (hlive.node_mem he'), t.node_ne hlive he'⟩)
  · intro ⟨hsub, hempty⟩
    have removes : N.Removes sets sets' d e l₁ l₂ := ⟨h.live, h.before, h.after, h.others, hempty⟩
    rw [removes.nodes t]
    exact fun s hs => ⟨hsub hs.1, hs.2⟩

end Naming
end Open98.Library
