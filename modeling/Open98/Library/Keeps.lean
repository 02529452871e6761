import Mathlib.Control.Basic

/-! What a partial stateful computation preserves. A computation that never ends has no final
state, so the rules are those of partial correctness. -/
namespace Open98.Library

variable {σ α β : Type}

/-- Whenever `x` starts in a state with `I` and ends, it ends in a state with `I`. -/
def Keeps (I : σ → Prop) (x : StateT σ Option α) : Prop :=
  ∀ s a t, I s → x s = some (a, t) → I t

section Run
variable {s t : σ}

theorem run_pure_eq_some {a b : α} :
    (pure a : StateT σ Option α) s = some (b, t) ↔ a = b ∧ s = t := by
  change some (a, s) = some (b, t) ↔ _
  rw [Option.some.injEq, Prod.mk.injEq]

/-- A finished sequence of two computations has an intermediate state. -/
theorem run_bind_eq_some {x : StateT σ Option α} {f : α → StateT σ Option β} {b : β} :
    (x >>= f) s = some (b, t) ↔ ∃ a u, x s = some (a, u) ∧ f a u = some (b, t) := by
  simp [Bind.bind, StateT.bind, Option.bind_eq_some_iff]

theorem run_get_eq_some {g : σ} :
    (get : StateT σ Option σ) s = some (g, t) ↔ s = g ∧ s = t := by
  simp [get, getThe, MonadStateOf.get, StateT.get]

theorem run_modify_eq_some {f : σ → σ} {a : PUnit} :
    (modify f : StateT σ Option PUnit) s = some (a, t) ↔ f s = t := by
  simp [modify, modifyGet, MonadStateOf.modifyGet, StateT.modifyGet]

end Run

namespace Keeps
variable {I : σ → Prop}

theorem ofPure (a : α) : Keeps I (pure a : StateT σ Option α) := by
  intro s b t hs h
  obtain ⟨-, rfl⟩ := run_pure_eq_some.mp h
  exact hs

theorem ofBind {x : StateT σ Option α} {f : α → StateT σ Option β} (hx : Keeps I x)
    (hf : ∀ a, Keeps I (f a)) : Keeps I (x >>= f) := by
  intro s b t hs h
  obtain ⟨a, u, hxu, hft⟩ := run_bind_eq_some.mp h
  exact hf a u b t (hx s a u hs hxu) hft

theorem ofIte {p : Prop} [Decidable p] {x y : StateT σ Option α} (hx : Keeps I x)
    (hy : Keeps I y) : Keeps I (if p then x else y) := by
  split
  · exact hx
  · exact hy

theorem ofGet : Keeps I (get : StateT σ Option σ) := by
  intro s a t hs h
  obtain ⟨-, rfl⟩ := run_get_eq_some.mp h
  exact hs

theorem ofModify {f : σ → σ} (hf : ∀ s, I s → I (f s)) :
    Keeps I (modify f : StateT σ Option PUnit) := by
  intro s a t hs h
  obtain rfl := run_modify_eq_some.mp h
  exact hf s hs

/-- A computation that never ends keeps everything. -/
theorem ofNone : Keeps I (fun _ => none : StateT σ Option α) := by
  intro s a t _ h
  cases h

/-- The rule for a computation whose value is dropped. -/
theorem final {x : StateT σ Option α} (hx : Keeps I x) {s t : σ} (hs : I s)
    (h : (x s).map Prod.snd = some t) : I t := by
  obtain ⟨⟨a, u⟩, hxu, rfl⟩ := Option.map_eq_some_iff.mp h
  exact hx s a u hs hxu

end Keeps
end Open98.Library
