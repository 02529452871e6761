import Mathlib.Data.List.Basic
import Mathlib.Order.Nat

/-! Radix trees whose tables live in a memory of entries. A table is a place `P`, its entries
are addressed by an index `I`, and `child` says which table an entry refers to. Every table is
assumed to be reached along one path only; then writing one entry changes one subtree. -/
namespace Open98.Library.Radix

variable {P I E : Type*}

/-- The table that the path leads to from table `p`. -/
def walk (child : E → Option P) (mem : P → I → E) : P → List I → Option P
  | p, [] => some p
  | p, i :: is => (child (mem p i)).bind fun q => walk child mem q is

variable {child : E → Option P} {mem : P → I → E}

@[simp] theorem walk_nil (p : P) : walk child mem p [] = some p := rfl

@[simp] theorem walk_cons (p : P) (i : I) (is : List I) :
    walk child mem p (i :: is) = (child (mem p i)).bind fun q => walk child mem q is := rfl

theorem walk_append (p : P) (a b : List I) :
    walk child mem p (a ++ b) = (walk child mem p a).bind fun q => walk child mem q b := by
  induction a generalizing p with
  | nil => rfl
  | cons i a ih =>
    simp only [List.cons_append, walk_cons, Option.bind_assoc]
    congr 1
    funext q
    exact ih q

theorem walk_snoc {p q : P} {a : List I} (h : walk child mem p a = some q) (i : I) :
    walk child mem p (a ++ [i]) = child (mem q i) := by
  simp [walk_append, h]

/-- The entry that the last table of the path holds at index `i`; the default value where the
path does not lead to a table. -/
def lookup (child : E → Option P) (mem : P → I → E) (zero : E) (root : P) (a : List I) (i : I) : E :=
  (walk child mem root a).elim zero fun t => mem t i

/-- Paths of at most `d` steps that lead to the same table are equal. -/
def Separate (child : E → Option P) (mem : P → I → E) (root : P) (d : ℕ) : Prop :=
  ∀ a b t, a.length ≤ d → b.length ≤ d →
    walk child mem root a = some t → walk child mem root b = some t → a = b

/-- No path of at most `d` steps leads to the table. -/
def Detached (child : E → Option P) (mem : P → I → E) (root : P) (d : ℕ) (q : P) : Prop :=
  ∀ a, a.length ≤ d → walk child mem root a ≠ some q

theorem not_snoc_prefix_of_length_le {a b : List I} {i : I} (h : b.length ≤ a.length) : ¬ a ++ [i] <+: b := by
  intro hpre
  have := hpre.length_le
  simp at this
  omega

theorem Separate.of_walk_eq {mem' : P → I → E} {root : P} {d : ℕ} (sep : Separate child mem root d)
    (h : ∀ b, b.length ≤ d → walk child mem' root b = walk child mem root b) :
    Separate child mem' root d := fun b c t hb hc h1 h2 =>
  sep b c t hb hc (by rw [← h b hb, h1]) (by rw [← h c hc, h2])

section Write
variable [DecidableEq P] [DecidableEq I]

def write (mem : P → I → E) (p : P) (i : I) (e : E) : P → I → E :=
  fun q j => if q = p ∧ j = i then e else mem q j

@[simp] theorem write_same (p : P) (i : I) (e : E) : write mem p i e p i = e := by simp [write]

theorem write_of_ne {p q : P} (h : q ≠ p) (i j : I) (e : E) : write mem p i e q j = mem q j := by
  simp [write, h]

theorem write_of_ne_index {i j : I} (h : j ≠ i) (p q : P) (e : E) :
    write mem p i e q j = mem q j := by simp [write, h]

/-- A walk that does not use the written entry is not changed. -/
theorem walk_write_of_avoids {p : P} {i : I} {e : E} (b : List I) (r : P)
    (h : ∀ c j, c ++ [j] <+: b → walk child mem r c = some p → j ≠ i) :
    walk child (write mem p i e) r b = walk child mem r b := by
  induction b generalizing r with
  | nil => rfl
  | cons j b ih =>
    have hentry : write mem p i e r j = mem r j := by
      by_cases hr : r = p
      · subst hr
        exact write_of_ne_index (h [] j (by simp) rfl) _ _ _
      · exact write_of_ne hr _ _ _
    simp only [walk_cons, hentry]
    cases hc : child (mem r j) with
    | none => rfl
    | some q =>
      refine ih q fun c k hpre hwalk => h (j :: c) k ?_ ?_
      · simpa using hpre
      · simpa [hc] using hwalk

/-- Writing an entry that refers to the same table as before changes no walk. -/
theorem walk_write_of_child_eq {p : P} {i : I} {e : E} (h : child e = child (mem p i)) (b : List I)
    (r : P) : walk child (write mem p i e) r b = walk child mem r b := by
  induction b generalizing r with
  | nil => rfl
  | cons j b ih =>
    have hentry : child (write mem p i e r j) = child (mem r j) := by
      unfold write
      split_ifs with hc
      · rw [hc.1, hc.2, h]
      · rfl
    simp only [walk_cons, hentry]
    congr 1
    funext q
    exact ih q

variable {root p q : P} {d : ℕ} {a : List I} {i : I} {e : E}

/-- Writing an entry of the table at the end of path `a` changes no walk that does not go on
from `a` through that entry. -/
theorem walk_write (sep : Separate child mem root d) (hd : a.length ≤ d)
    (ha : walk child mem root a = some p) {b : List I} (hb : b.length ≤ d+1)
    (hpre : ¬ a ++ [i] <+: b) :
    walk child (write mem p i e) root b = walk child mem root b := by
  refine walk_write_of_avoids b root fun c j hc hwalk hj => hpre ?_
  have hlen := hc.length_le
  simp only [List.length_append, List.length_singleton] at hlen
  have hca := sep c a p (by omega) hd hwalk ha
  rwa [← hca, ← hj]

/-- Writing into a table at depth `d` changes no walk of at most `d` steps. -/
theorem walk_write_leaf (sep : Separate child mem root d) (hd : a.length = d)
    (ha : walk child mem root a = some p) {b : List I} (hb : b.length ≤ d) :
    walk child (write mem p i e) root b = walk child mem root b :=
  walk_write sep hd.le ha (by omega) (not_snoc_prefix_of_length_le (by omega))

/-- Writing into a table that no path leads to changes no walk. -/
theorem walk_write_detached (hp : Detached child mem root d p) {b : List I} (hb : b.length ≤ d) :
    walk child (write mem p i e) root b = walk child mem root b := by
  refine walk_write_of_avoids b root fun c j hc hwalk => ?_
  have hlen := hc.length_le
  simp only [List.length_append, List.length_singleton] at hlen
  exact (hp c (by omega) hwalk).elim

/-- A write that changes no walk changes the one entry. -/
theorem lookup_write_of_walk_eq (sep : Separate child mem root d) (hd : a.length ≤ d)
    (ha : walk child mem root a = some p)
    (hwalk : ∀ b, b.length ≤ d → walk child (write mem p i e) root b = walk child mem root b)
    (zero : E) {b : List I} (hb : b.length ≤ d) (j : I) :
    lookup child (write mem p i e) zero root b j =
      if b = a ∧ j = i then e else lookup child mem zero root b j := by
  unfold lookup
  rw [hwalk b hb]
  cases hw : walk child mem root b with
  | none =>
    have hne : b ≠ a := by rintro rfl; simp [ha] at hw
    simp [hne]
  | some t =>
    by_cases hba : b = a
    · subst hba
      obtain rfl : t = p := Option.some.inj (hw.symm.trans ha)
      simp [write]
    · have htp : t ≠ p := fun h => hba (sep b a t hb hd hw (by rw [ha, h]))
      simp [hba, write_of_ne htp]

/-- Writing an entry of a leaf table changes that entry of the map and no other. -/
theorem lookup_write_leaf (sep : Separate child mem root d) (hd : a.length = d)
    (ha : walk child mem root a = some p) (zero : E) {b : List I} (hb : b.length ≤ d) (j : I) :
    lookup child (write mem p i e) zero root b j =
      if b = a ∧ j = i then e else lookup child mem zero root b j :=
  lookup_write_of_walk_eq sep hd.le ha (fun _ hc => walk_write_leaf sep hd ha hc) zero hb j

/-- Writing an entry above the leaf tables that refers to the same table as before changes
nothing of the map. -/
theorem lookup_write_of_child_eq (sep : Separate child mem root d) (hd : a.length < d)
    (ha : walk child mem root a = some p) (h : child e = child (mem p i)) (zero : E) {b : List I}
    (hb : b.length = d) (j : I) :
    lookup child (write mem p i e) zero root b j = lookup child mem zero root b j := by
  rw [lookup_write_of_walk_eq sep hd.le ha (fun c _ => walk_write_of_child_eq h c root) zero hb.le,
    if_neg fun hc => ?_]
  rw [hc.1] at hb
  omega

/-- Writing into a detached table changes nothing of the map. -/
theorem lookup_write_detached (hp : Detached child mem root d p) (zero : E) {b : List I}
    (hb : b.length ≤ d) (j : I) :
    lookup child (write mem p i e) zero root b j = lookup child mem zero root b j := by
  unfold lookup
  rw [walk_write_detached hp hb]
  cases hw : walk child mem root b with
  | none => rfl
  | some t =>
    have htp : t ≠ p := fun h => hp b hb (by rw [hw, h])
    simp [write_of_ne htp]

/-- The situation in which a new table `q` is hung into entry `i` of the table `p`: the entry
was empty, the path to `p` can still grow, and `q` is unused and has no entries. -/
structure Attach (child : E → Option P) (mem : P → I → E) (root : P) (d : ℕ) (a : List I)
    (i : I) (p q : P) (e : E) : Prop where
  sep : Separate child mem root d
  short : a.length < d
  at_path : walk child mem root a = some p
  empty : child (mem p i) = none
  refers : child e = some q
  unused : Detached child mem root d q
  blank : ∀ j, child (mem q j) = none

namespace Attach

omit [DecidableEq P] [DecidableEq I] in
lemma ne (h : Attach child mem root d a i p q e) : q ≠ p := by
  rintro rfl
  exact h.unused a h.short.le h.at_path

omit [DecidableEq P] [DecidableEq I] in
/-- Before the write no path goes through the entry. -/
lemma walk_before (h : Attach child mem root d a i p q e) (rest : List I) :
    walk child mem root (a ++ [i] ++ rest) = none := by
  simp [walk_append, h.at_path, h.empty]

lemma walk_path (h : Attach child mem root d a i p q e) :
    walk child (write mem p i e) root a = some p := by
  rw [walk_write h.sep h.short.le h.at_path (by have := h.short; omega)
    (not_snoc_prefix_of_length_le le_rfl), h.at_path]

/-- After the write the new table is at the end of the extended path. -/
theorem walk_new (h : Attach child mem root d a i p q e) :
    walk child (write mem p i e) root (a ++ [i]) = some q := by
  rw [walk_snoc h.walk_path, write_same, h.refers]

/-- Nothing hangs below the new table. -/
lemma walk_below (h : Attach child mem root d a i p q e) (j : I) (rest : List I) :
    walk child (write mem p i e) root (a ++ [i] ++ j :: rest) = none := by
  rw [walk_append, h.walk_new]
  simp [write_of_ne h.ne, h.blank]

/-- A table reached after the write was reached before, unless it is the new one. -/
lemma walk_cases (h : Attach child mem root d a i p q e) {b : List I} (hb : b.length ≤ d) {t : P}
    (hw : walk child (write mem p i e) root b = some t) :
    (b = a ++ [i] ∧ t = q) ∨ walk child mem root b = some t := by
  by_cases hpre : a ++ [i] <+: b
  · obtain ⟨rest, rfl⟩ := hpre
    cases rest with
    | nil =>
      rw [List.append_nil] at hw ⊢
      exact .inl ⟨rfl, Option.some.inj (hw.symm.trans h.walk_new)⟩
    | cons j rest =>
      rw [h.walk_below j rest] at hw
      cases hw
  · right
    rwa [walk_write h.sep h.short.le h.at_path (by omega) hpre] at hw

/-- Hanging in a new table keeps the tables separate. -/
theorem separate (h : Attach child mem root d a i p q e) :
    Separate child (write mem p i e) root d := by
  intro b c t hb hc hwb hwc
  rcases h.walk_cases hb hwb with ⟨rfl, rfl⟩ | hb'
  · rcases h.walk_cases hc hwc with ⟨rfl, _⟩ | hc'
    · rfl
    · exact (h.unused c hc hc').elim
  · rcases h.walk_cases hc hwc with ⟨rfl, rfl⟩ | hc'
    · exact (h.unused b hb hb').elim
    · exact h.sep b c t hb hc hb' hc'

/-- Hanging in a blank table changes the entry that it hangs in, and nothing else. -/
theorem lookup_write (h : Attach child mem root d a i p q e) {zero : E} (hblank : ∀ j, mem q j = zero)
    {b : List I} (hb : b.length ≤ d) (j : I) :
    lookup child (write mem p i e) zero root b j =
      if b = a ∧ j = i then e else lookup child mem zero root b j := by
  unfold lookup
  by_cases hpre : a ++ [i] <+: b
  · obtain ⟨rest, rfl⟩ := hpre
    have hne : a ++ [i] ++ rest ≠ a := fun heq => by
      have := congrArg List.length heq
      simp at this
    rw [h.walk_before rest, if_neg fun hc => hne hc.1]
    cases rest with
    | nil =>
      rw [List.append_nil, h.walk_new]
      simp [write_of_ne h.ne, hblank]
    | cons k rest =>
      rw [h.walk_below k rest]
      rfl
  · rw [walk_write h.sep h.short.le h.at_path (by omega) hpre]
    cases hw : walk child mem root b with
    | none =>
      have hne : b ≠ a := by
        rintro rfl
        simp [h.at_path] at hw
      rw [if_neg fun hc => hne hc.1]
      rfl
    | some t =>
      by_cases hba : b = a
      · subst hba
        obtain rfl : t = p := Option.some.inj (hw.symm.trans h.at_path)
        simp [write]
      · have htp : t ≠ p := by
          rintro rfl
          exact hba (h.sep b a t hb h.short.le hw h.at_path)
        simp [hba, write_of_ne htp]

/-- Hanging in a blank table changes nothing of the map. -/
theorem lookup_eq (h : Attach child mem root d a i p q e) {zero : E} (hblank : ∀ j, mem q j = zero)
    {b : List I} (hb : b.length = d) (j : I) :
    lookup child (write mem p i e) zero root b j = lookup child mem zero root b j := by
  rw [h.lookup_write hblank hb.le, if_neg fun hc => ?_]
  have hshort := h.short
  rw [hc.1] at hb
  omega

end Attach
end Write
end Open98.Library.Radix
