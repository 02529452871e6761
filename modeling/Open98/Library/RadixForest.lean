import Open98.Library.RadixTree
import Mathlib.Data.Set.Insert

/-! Several radix trees in one memory. Their top tables have equal entries at some indices, so
that they share what hangs below these, and have no other table in common. -/
namespace Open98.Library.Radix

variable {P I E : Type*}

/-- The path starts with one of the indices. -/
def Within (shared : Set I) (a : List I) : Prop := ∃ k ∈ a.head?, k ∈ shared

section Within
variable {shared : Set I} {a b : List I} {i : I}

@[simp] theorem not_within_nil : ¬ Within shared ([] : List I) := by simp [Within]

@[simp] theorem within_cons : Within shared (i :: a) ↔ i ∈ shared := by simp [Within]

theorem Within.append (h : Within shared a) : Within shared (a ++ b) := by
  cases a with
  | nil => simp at h
  | cons k a => simpa using h

theorem within_snoc (ha : a ≠ []) : Within shared (a ++ [i]) ↔ Within shared a := by
  cases a with
  | nil => exact (ha rfl).elim
  | cons k a => simp

end Within

/-- The top tables agree on the shared indices, these lead to tables, and two paths of at most
`d` steps to one table are the same path, from the same root or through a shared index. -/
structure Forest (child : E → Option P) (mem : P → I → E) (roots : Set P) (shared : Set I)
    (d : ℕ) : Prop where
  agree : ∀ r ∈ roots, ∀ r' ∈ roots, ∀ i ∈ shared, mem r i = mem r' i
  populated : ∀ r ∈ roots, ∀ i ∈ shared, child (mem r i) ≠ none
  reach : ∀ r ∈ roots, ∀ r' ∈ roots, ∀ a b t, a.length ≤ d → b.length ≤ d →
    walk child mem r a = some t → walk child mem r' b = some t → a = b ∧ (r = r' ∨ Within shared a)

variable {child : E → Option P} {mem mem' : P → I → E} {roots : Set P} {shared : Set I} {d : ℕ}
  {r r' p q : P} {a b : List I} {i : I} {e : E}

/-- A walk is not changed by changes in tables that it does not read. -/
theorem walk_congr (b : List I) (r : P)
    (h : ∀ c t, c.length < b.length → walk child mem r c = some t → mem' t = mem t) :
    walk child mem' r b = walk child mem r b := by
  induction b generalizing r with
  | nil => rfl
  | cons j b ih =>
    rw [walk_cons, walk_cons, h [] r (by simp) rfl]
    cases hc : child (mem r j) with
    | none => rfl
    | some q =>
      refine ih q fun c t hlen hwalk => h (j :: c) t (by simpa using hlen) ?_
      rw [walk_cons, hc]
      exact hwalk

/-- A single tree whose top table leads on at the shared indices. -/
theorem Separate.forest (sep : Separate child mem r d) (hpop : ∀ i ∈ shared, child (mem r i) ≠ none) :
    Forest child mem {r} shared d := by
  refine ⟨?_, ?_, ?_⟩
  · rintro _ rfl _ rfl i _
    rfl
  · rintro _ rfl
    exact hpop
  · rintro _ rfl _ rfl a b t ha hb hwa hwb
    exact ⟨sep a b t ha hb hwa hwb, .inl rfl⟩

namespace Forest

theorem separate (h : Forest child mem roots shared d) (hr : r ∈ roots) : Separate child mem r d :=
  fun a b t ha hb hwa hwb => (h.reach r hr r hr a b t ha hb hwa hwb).1

/-- Below a shared index all roots walk to the same tables. -/
theorem walk_eq (h : Forest child mem roots shared d) (hr : r ∈ roots) (hr' : r' ∈ roots)
    (ha : Within shared a) : walk child mem r' a = walk child mem r a := by
  cases a with
  | nil => simp at ha
  | cons k a =>
    rw [within_cons] at ha
    rw [walk_cons, walk_cons, h.agree r hr r' hr' k ha]

/-- Behind a shared index all roots have the same entries. -/
theorem lookup_eq (h : Forest child mem roots shared d) (hr : r ∈ roots) (hr' : r' ∈ roots)
    (zero : E) (j : I) (ha : Within shared (a ++ [j])) :
    lookup child mem zero r' a j = lookup child mem zero r a j := by
  cases a with
  | nil =>
    rw [List.nil_append, within_cons] at ha
    exact h.agree r' hr' r hr j ha
  | cons k a =>
    rw [List.cons_append, within_cons] at ha
    unfold lookup
    rw [h.walk_eq hr hr' (within_cons.mpr ha)]

/-- An empty entry below a root is not a shared entry of a top table. -/
theorem not_top_of_empty (h : Forest child mem roots shared d) (hr : r ∈ roots) (hd : a.length ≤ d)
    (hw : walk child mem r a = some p) (hempty : child (mem p i) = none) (hi : i ∈ shared) :
    p ∉ roots := by
  intro hp
  obtain ⟨rfl, _⟩ := h.reach r hr p hp a [] p hd (Nat.zero_le d) hw rfl
  exact h.populated p hp i hi hempty

/-- The walk that a change shows in. -/
theorem walk_of_shows (h : Forest child mem roots shared d) (hr : r ∈ roots) (hr' : r' ∈ roots)
    (hw : walk child mem r a = some p) (hs : r' = r ∨ Within shared a) :
    walk child mem r' a = some p := by
  rcases hs with rfl | hs
  · exact hw
  · rw [h.walk_eq hr hr' hs, hw]

/-- A table that a change does not show in is not reached. -/
theorem not_reached (h : Forest child mem roots shared d) (hr : r ∈ roots) (hr' : r' ∈ roots)
    (hd : a.length ≤ d) (hw : walk child mem r a = some p) (hs : ¬(r' = r ∨ Within shared a)) :
    Detached child mem r' d p := by
  intro c hc hwc
  obtain ⟨_, hsame⟩ := h.reach r hr r' hr' a c p hd hc hw hwc
  exact hs (hsame.imp_left Eq.symm)

/-- Walks and top entries that stay as they are keep the forest. -/
theorem of_walk_eq (h : Forest child mem roots shared d)
    (htop : ∀ r ∈ roots, ∀ i ∈ shared, mem' r i = mem r i)
    (hwalk : ∀ r ∈ roots, ∀ b, b.length ≤ d → walk child mem' r b = walk child mem r b) :
    Forest child mem' roots shared d := by
  refine ⟨fun r hr r' hr' i hi => ?_, fun r hr i hi => ?_, fun r hr r' hr' a b t ha hb hwa hwb => ?_⟩
  · rw [htop r hr i hi, htop r' hr' i hi, h.agree r hr r' hr' i hi]
  · rw [htop r hr i hi]
    exact h.populated r hr i hi
  · rw [hwalk r hr a ha] at hwa
    rw [hwalk r' hr' b hb] at hwb
    exact h.reach r hr r' hr' a b t ha hb hwa hwb

/-- The forest depends on the tables that its roots reach and on nothing else. -/
theorem congr (h : Forest child mem roots shared d)
    (hmem : ∀ r ∈ roots, ∀ a t, a.length ≤ d → walk child mem r a = some t → mem' t = mem t) :
    Forest child mem' roots shared d := by
  refine h.of_walk_eq (fun r hr i _ => ?_) fun r hr b hb => ?_
  · rw [hmem r hr [] r (Nat.zero_le d) rfl]
  · exact walk_congr b r fun c t hc hw => hmem r hr c t (hc.le.trans hb) hw

/-- A blank table is hung into an empty entry below a root: it hangs there in every root that
shares the entry. -/
theorem attach_of_shows (h : Forest child mem roots shared d) (hr : r ∈ roots) (hr' : r' ∈ roots)
    (hat : Attach child mem r d a i p q e) (hq : ∀ r ∈ roots, Detached child mem r d q)
    (hs : r' = r ∨ Within shared (a ++ [i])) : Attach child mem r' d a i p q e := by
  refine ⟨h.separate hr', hat.short, ?_, hat.empty, hat.refers, hq r' hr', hat.blank⟩
  refine h.walk_of_shows hr hr' hat.at_path (hs.imp_right fun hin => ?_)
  by_cases hnil : a = []
  · subst hnil
    obtain rfl : r = p := Option.some.inj hat.at_path
    have hi : i ∈ shared := by simpa using hin
    exact (h.populated r hr i hi hat.empty).elim
  · exact (within_snoc hnil).mp hin

/-- The other roots do not see it. -/
theorem not_reached_of_attach (h : Forest child mem roots shared d) (hr : r ∈ roots) (hr' : r' ∈ roots)
    (hat : Attach child mem r d a i p q e) (hs : ¬(r' = r ∨ Within shared (a ++ [i]))) :
    Detached child mem r' d p :=
  h.not_reached hr hr' hat.short.le hat.at_path fun hc => hs (hc.imp_right Within.append)

section Write
variable [DecidableEq P] [DecidableEq I]

/-- Writing into a table at depth `d` keeps the forest, and changes what the roots see that the
path is shared with. -/
theorem write_leaf (h : Forest child mem roots shared d) (hr : r ∈ roots) (hd : a.length = d)
    (hpos : 0 < d) (ha : walk child mem r a = some p) :
    Forest child (write mem p i e) roots shared d ∧
      (∀ r' ∈ roots, ∀ b, b.length ≤ d → walk child (write mem p i e) r' b = walk child mem r' b) ∧
      ∀ r' ∈ roots, ¬(r' = r ∨ Within shared a) → ∀ zero b j, b.length ≤ d →
        lookup child (write mem p i e) zero r' b j = lookup child mem zero r' b j := by
  have hwalk : ∀ r' ∈ roots, ∀ b, b.length ≤ d →
      walk child (write mem p i e) r' b = walk child mem r' b := by
    intro r' hr' b hb
    by_cases hs : r' = r ∨ Within shared a
    · exact walk_write_leaf (h.separate hr') hd (h.walk_of_shows hr hr' ha hs) hb
    · exact walk_write_detached (h.not_reached hr hr' hd.le ha hs) hb
  refine ⟨h.of_walk_eq (fun r' hr' k _ => ?_) hwalk, hwalk, fun r' hr' hs zero b j hb => ?_⟩
  · refine write_of_ne (fun hp => ?_) _ _ _
    subst hp
    obtain ⟨rfl, _⟩ := h.reach r hr r' hr' a [] r' hd.le (Nat.zero_le d) ha rfl
    simp at hd
    omega
  · exact lookup_write_detached (h.not_reached hr hr' hd.le ha hs) zero hb j

theorem walk_cases (h : Forest child mem roots shared d) (hr : r ∈ roots) (hr' : r' ∈ roots)
    (hat : Attach child mem r d a i p q e) (hq : ∀ r ∈ roots, Detached child mem r d q)
    (hb : b.length ≤ d) {t : P} (hw : walk child (write mem p i e) r' b = some t) :
    ((r' = r ∨ Within shared b) ∧ b = a ++ [i] ∧ t = q) ∨ walk child mem r' b = some t := by
  by_cases hs : r' = r ∨ Within shared (a ++ [i])
  · rcases (h.attach_of_shows hr hr' hat hq hs).walk_cases hb hw with ⟨rfl, rfl⟩ | hold
    · exact .inl ⟨hs, rfl, rfl⟩
    · exact .inr hold
  · right
    rwa [walk_write_detached (h.not_reached_of_attach hr hr' hat hs) hb] at hw

/-- Hanging in a blank table keeps the forest. -/
theorem attach (h : Forest child mem roots shared d) (hr : r ∈ roots)
    (hat : Attach child mem r d a i p q e) (hq : ∀ r ∈ roots, Detached child mem r d q) :
    Forest child (write mem p i e) roots shared d := by
  have htop : ∀ r' ∈ roots, ∀ k ∈ shared, write mem p i e r' k = mem r' k := by
    intro r' hr' k hk
    by_cases hki : k = i
    · subst hki
      refine write_of_ne (fun hp => ?_) _ _ _
      subst hp
      exact h.not_top_of_empty hr hat.short.le hat.at_path hat.empty hk hr'
    · exact write_of_ne_index hki _ _ _
  refine ⟨fun r1 hr1 r2 hr2 k hk => ?_, fun r1 hr1 k hk => ?_, fun r1 hr1 r2 hr2 b c t hb hc hwb hwc => ?_⟩
  · rw [htop r1 hr1 k hk, htop r2 hr2 k hk, h.agree r1 hr1 r2 hr2 k hk]
  · rw [htop r1 hr1 k hk]
    exact h.populated r1 hr1 k hk
  · rcases h.walk_cases hr hr1 hat hq hb hwb with ⟨hs1, rfl, rfl⟩ | hb'
    · rcases h.walk_cases hr hr2 hat hq hc hwc with ⟨hs2, rfl, _⟩ | hc'
      · refine ⟨rfl, ?_⟩
        rcases hs1 with rfl | hs1
        · exact hs2.imp_left Eq.symm
        · exact .inr hs1
      · exact (hq r2 hr2 c hc hc').elim
    · rcases h.walk_cases hr hr2 hat hq hc hwc with ⟨_, rfl, rfl⟩ | hc'
      · exact (hq r1 hr1 b hb hb').elim
      · exact h.reach r1 hr1 r2 hr2 b c t hb hc hb' hc'

/-- Hanging in a blank table changes no entry of a table at depth `d`. -/
theorem attach_lookup_leaf (h : Forest child mem roots shared d) (hr : r ∈ roots) (hr' : r' ∈ roots)
    (hat : Attach child mem r d a i p q e) (hq : ∀ r ∈ roots, Detached child mem r d q) {zero : E}
    (hblank : ∀ j, mem q j = zero) (hb : b.length = d) (j : I) :
    lookup child (write mem p i e) zero r' b j = lookup child mem zero r' b j := by
  by_cases hs : r' = r ∨ Within shared (a ++ [i])
  · exact (h.attach_of_shows hr hr' hat hq hs).lookup_eq hblank hb j
  · exact lookup_write_detached (h.not_reached_of_attach hr hr' hat hs) zero hb.le j

end Write

/-- A new top table that holds the shared entries and no others is a further root. -/
theorem insert (h : Forest child mem roots shared d) (hr : r ∈ roots)
    (hq : ∀ r ∈ roots, Detached child mem r d q) (hmem : ∀ t, t ≠ q → mem' t = mem t)
    (hshared : ∀ i ∈ shared, mem' q i = mem r i) (hblank : ∀ i, i ∉ shared → child (mem' q i) = none) :
    Forest child mem' (insert q roots) shared d := by
  have hkeep : Forest child mem' roots shared d := h.congr fun r' hr' c t hc hw =>
    hmem t fun heq => hq r' hr' c hc (heq ▸ hw)
  have hq' : ∀ r' ∈ roots, Detached child mem' r' d q := by
    intro r' hr' c hc hw
    refine hq r' hr' c hc ?_
    rwa [walk_congr c r' fun b t hb hwb => hmem t fun heq => hq r' hr' b (hb.le.trans hc) (heq ▸ hwb)] at hw
  have htop : ∀ r' ∈ roots, mem' r' = mem r' := fun r' hr' =>
    hmem r' fun heq => hq r' hr' [] (Nat.zero_le d) (heq ▸ rfl)
  -- a walk from the new root stays there or goes through a shared index, as from `r`
  have hnew : ∀ a t, walk child mem' q a = some t →
      (a = [] ∧ t = q) ∨ (Within shared a ∧ walk child mem' r a = some t) := by
    intro a t hw
    cases a with
    | nil => exact .inl ⟨rfl, (Option.some.inj hw).symm⟩
    | cons k a =>
      right
      by_cases hk : k ∈ shared
      · refine ⟨within_cons.mpr hk, ?_⟩
        rwa [walk_cons, hshared k hk, ← htop r hr, ← walk_cons] at hw
      · simp [hblank k hk] at hw
  have hcross : ∀ r' ∈ roots, ∀ a b t, a.length ≤ d → b.length ≤ d → walk child mem' q a = some t →
      walk child mem' r' b = some t → a = b ∧ Within shared a := by
    intro r' hr' a b t ha hb hwa hwb
    rcases hnew a t hwa with ⟨_, rfl⟩ | ⟨hin, hwa'⟩
    · exact (hq' r' hr' b hb hwb).elim
    · exact ⟨(hkeep.reach r hr r' hr' a b t ha hb hwa' hwb).1, hin⟩
  refine ⟨?_, ?_, ?_⟩
  · rintro r1 (rfl | hr1) r2 (rfl | hr2) k hk
    · rfl
    · rw [hshared k hk, htop r2 hr2, h.agree r hr r2 hr2 k hk]
    · rw [hshared k hk, htop r1 hr1, h.agree r1 hr1 r hr k hk]
    · exact hkeep.agree r1 hr1 r2 hr2 k hk
  · rintro r1 (rfl | hr1) k hk
    · rw [hshared k hk]
      exact h.populated r hr k hk
    · exact hkeep.populated r1 hr1 k hk
  · rintro r1 (rfl | hr1) r2 (rfl | hr2) a b t ha hb hwa hwb
    · rcases hnew a t hwa with ⟨rfl, rfl⟩ | ⟨hin, hwa'⟩
      · rcases hnew b t hwb with ⟨rfl, _⟩ | ⟨_, hwb'⟩
        · exact ⟨rfl, .inl rfl⟩
        · exact (hq' r hr b hb hwb').elim
      · exact ⟨(hcross r hr b a t hb ha hwb hwa').1.symm, .inl rfl⟩
    · obtain ⟨heq, hin⟩ := hcross r2 hr2 a b t ha hb hwa hwb
      exact ⟨heq, .inr hin⟩
    · obtain ⟨rfl, hin⟩ := hcross r1 hr1 b a t hb ha hwb hwa
      exact ⟨rfl, .inr hin⟩
    · exact hkeep.reach r1 hr1 r2 hr2 a b t ha hb hwa hwb

end Forest
end Open98.Library.Radix
