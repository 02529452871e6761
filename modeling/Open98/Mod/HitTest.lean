import Open98.Mod.Refresh

/-! `DwmAcquireCursorWindow` of `mod/wm.c`, and which title bar is visible at the pointer. -/
namespace Open98.Mod
open Drv NtUser Library

section Model

/-- The pointer is where a form can be taken hold of. The last comparison is one of `UINT`s. -/
def Grip (o : Object) (position : POINT) : Prop :=
  o.WindowType = 0 ∧ (o.X.toInt < position.X ∧ position.X < o.Width.toInt) ∧
    o.Y.toInt < position.Y ∧ toUINT position.Y < (o.Y + BitVec.ofNat 32 titleBarThickness).toNat

instance (o : Object) (position : POINT) : Decidable (Grip o position) := by
  unfold Grip
  infer_instance

/-- There is no return behind the loop. -/
def dwmAcquireCursorWindow (d : Dwm) (position : POINT) (noReturn : ℤ) : ℤ :=
  match firstIn (fun i : ℕ => Grip (d.windows i).toObject position) 0 d.iLastWindow with
  | some i => (d.windows i).WindowID
  | none => noReturn

/-- What `KiProcessMouse` does with the window while the left button is down. -/
def dragWindow (d : Dwm) (position : POINT) (winID : ℤ) : Dwm :=
  dwmSetWindowPos d winID (BitVec.ofInt 32 (position.X - 30)) (BitVec.ofInt 32 (position.Y - 7))

end Model

section Agreement
variable {d : Dwm} {position : POINT} {noReturn : ℤ} {i j : ℕ}

/-- The rectangle is painted at the pointer. -/
def Fill.At (f : Fill) (position : POINT) : Prop := (BitVec.ofInt 32 position.X, BitVec.ofInt 32 position.Y) ∈ f.turns

structure IsForm (d : Dwm) (i : ℕ) : Prop where
  lt : i < d.iLastWindow
  form : (d.windows i).WindowType = 0

/-- The title bar of a form is painted at the pointer, and no form that is painted later covers it. -/
structure Visible (d : Dwm) (position : POINT) (i : ℕ) : Prop extends IsForm d i where
  bar : (titleBar (d.windows i).toObject).At position
  uncovered : ∀ j, i < j → IsForm d j → ∀ f ∈ formFills (d.windows j).toObject, ¬ f.1.At position

/-- The form whose title bar is visible is found. Where none is visible, nothing is moved. -/
structure HitAgrees (d : Dwm) (position : POINT) (noReturn : ℤ) : Prop where
  visible : ∀ i, Visible d position i → dwmAcquireCursorWindow d position noReturn = i
  nowhere : (∀ i, ¬ Visible d position i) → ∀ i < d.iLastWindow,
    (dragWindow d position (dwmAcquireCursorWindow d position noReturn)).windows i = d.windows i

lemma titleBar_mem (o : Object) : (titleBar o, 0x000080) ∈ formFills o := by simp [formFills]

lemma Visible.le (h : Visible d position i) (h' : Visible d position j) : j ≤ i := by
  by_contra hlt
  exact h.uncovered j (by omega) h'.toIsForm _ (titleBar_mem _) h'.bar

/-- At most one title bar is visible. -/
lemma Visible.unique (h : Visible d position i) (h' : Visible d position j) : i = j :=
  le_antisymm (h'.le h) (h.le h')

/-- The first form in the table that can be taken hold of at the pointer. -/
structure FirstGrip (d : Dwm) (position : POINT) (i : ℕ) : Prop where
  lt : i < d.iLastWindow
  grip : Grip (d.windows i).toObject position
  first : ∀ j < i, ¬ Grip (d.windows j).toObject position

def NoGrip (d : Dwm) (position : POINT) : Prop := ∀ i < d.iLastWindow, ¬ Grip (d.windows i).toObject position

/-- The windows have their places in the table as numbers. -/
def Numbered (d : Dwm) : Prop := ∀ i < d.iLastWindow, (d.windows i).WindowID = i

/-- The table is numbered however it has been built. -/
lemma numbered_creations {s : Dwm} (h : s.iLastWindow = 0) (os : List Object) : Numbered (creations s os) := by
  intro i hi
  have holds := holds_creations h os
  have hlast := holds.last
  rw [holds.window i (by omega) _ (List.getElem?_eq_getElem (show i < os.length by omega))]

lemma Numbered.move (h : Numbered d) (m : Move) : Numbered (m.run d) := by
  intro i hi
  by_cases hzero : (d.windows m.WindowID).Width = 0
  · rw [run_wedged hzero] at hi ⊢
    exact h i hi
  · have hlast : (m.run d).iLastWindow = d.iLastWindow := by rw [Move.run, dwmSetWindowPos, if_neg hzero]
    have hid := h i (hlast ▸ hi)
    rw [run_windows hzero]
    by_cases him : (i : ℤ) = m.WindowID
    · rw [him] at hid ⊢
      rw [Function.update_self]
      exact hid
    · rwa [Function.update_of_ne him]

lemma dwmAcquireCursorWindow_cases (d : Dwm) (position : POINT) (noReturn : ℤ) :
    (∃ i, FirstGrip d position i ∧ dwmAcquireCursorWindow d position noReturn = (d.windows i).WindowID) ∨
      NoGrip d position ∧ dwmAcquireCursorWindow d position noReturn = noReturn := by
  rw [dwmAcquireCursorWindow]
  cases h : firstIn (fun i : ℕ => Grip (d.windows i).toObject position) 0 d.iLastWindow with
  | some i =>
    obtain ⟨-, hlt, hgrip, hfirst⟩ := firstIn_eq_some.mp h
    exact .inl ⟨i, ⟨by omega, hgrip, fun j hj => hfirst j j.zero_le hj⟩, rfl⟩
  | none =>
    rw [firstIn_eq_none] at h
    exact .inr ⟨fun i hi => h i i.zero_le (by omega), rfl⟩

/-- The window does not move: it is wedged, or where the pointer would take it. -/
def Rests (o : Object) (position : POINT) : Prop :=
  o.Width = 0 ∨ o.X = BitVec.ofInt 32 (position.X - 30) ∧ o.Y = BitVec.ofInt 32 (position.Y - 7)

lemma moved_eq_self_iff (w : KSystemWindow) (x y : INT) : w.moved x y = w ↔ w.X = x ∧ w.Y = y := by
  constructor
  · intro h
    exact ⟨congrArg (fun w => w.X) h.symm, congrArg (fun w => w.Y) h.symm⟩
  · rintro ⟨rfl, rfl⟩
    simp [KSystemWindow.moved]

lemma dragWindow_eq_iff (d : Dwm) (position : POINT) (winID i : ℤ) :
    (dragWindow d position winID).windows i = d.windows i ↔
      (winID = i → Rests (d.windows i).toObject position) := by
  rw [dragWindow, dwmSetWindowPos]
  split_ifs with hzero
  · refine iff_of_true rfl ?_
    rintro rfl
    exact .inl hzero
  · dsimp only
    by_cases hi : winID = i
    · subst hi
      rw [Function.update_self, moved_eq_self_iff, Rests]
      exact ⟨fun h _ => .inr h, fun h => (h rfl).resolve_left hzero⟩
    · rw [Function.update_of_ne (Ne.symm hi)]
      exact iff_of_true rfl fun h => absurd h hi

lemma FirstGrip.unique (h : FirstGrip d position i) (h' : FirstGrip d position j) : i = j := by
  rcases lt_trichotomy i j with hlt | heq | hgt
  · exact absurd h.grip (h'.first i hlt)
  · exact heq
  · exact absurd h'.grip (h.first j hgt)

/-- Exactly where hit testing agrees with painting: a visible title bar belongs to the first form that can be
taken hold of there, and where there is none, the form that is found, or the window whose number happens to be
left by the call, stays where it is. -/
theorem hitAgrees_iff (hnum : Numbered d) : HitAgrees d position noReturn ↔
    (∀ i, Visible d position i → FirstGrip d position i ∨ NoGrip d position ∧ noReturn = i) ∧
      ((∀ i, ¬ Visible d position i) →
        (∀ i, FirstGrip d position i → Rests (d.windows i).toObject position) ∧
        (NoGrip d position → ∀ i < d.iLastWindow, noReturn = i → Rests (d.windows i).toObject position)) := by
  have hsplit : HitAgrees d position noReturn ↔
      (∀ i, Visible d position i → dwmAcquireCursorWindow d position noReturn = i) ∧
        ((∀ i, ¬ Visible d position i) → ∀ i < d.iLastWindow,
          dwmAcquireCursorWindow d position noReturn = i → Rests (d.windows i).toObject position) := by
    simp only [← dragWindow_eq_iff]
    exact ⟨fun h => ⟨h.visible, h.nowhere⟩, fun h => ⟨h.1, h.2⟩⟩
  rw [hsplit]
  rcases dwmAcquireCursorWindow_cases d position noReturn with ⟨k, hk, heq⟩ | ⟨hnone, heq⟩
  · have hno : ¬ NoGrip d position := fun h => h k hk.lt hk.grip
    have hanswer : ∀ i : ℕ, dwmAcquireCursorWindow d position noReturn = i ↔ FirstGrip d position i := by
      intro i
      rw [heq, hnum k hk.lt, Nat.cast_inj]
      exact ⟨fun h => h ▸ hk, fun h => hk.unique h⟩
    simp only [hanswer, hno, false_and, or_false, false_implies, and_true]
    refine and_congr_right fun _ => forall_congr' fun _ => forall_congr' fun i => ?_
    exact ⟨fun h hi => h hi.lt hi, fun h _ => h⟩
  · have hfirst : ∀ i, ¬ FirstGrip d position i := fun i hi => hnone i hi.lt hi.grip
    simp only [heq, hnone, hfirst, false_or, true_and, false_implies, implies_true, true_implies]

/-- Two forms, the second one over the first. -/
def overlapping : Dwm := creations ⟨zeroWindows, 0, true⟩ [⟨0, 0, 0, 0, 100, 100, 0⟩, ⟨0, 0, 20, 0, 200, 100, 0⟩]

/-- The second title bar is visible from end to end. -/
lemma overlapping_visible {position : POINT}
    (h : (titleBar (overlapping.windows (1 : ℕ)).toObject).At position) : Visible overlapping position 1 := by
  refine ⟨⟨by decide, by decide⟩, h, fun j hj hform => ?_⟩
  have hlt : j < 2 := hform.lt
  omega

/-- The pointer on both. -/
theorem lower_form_found : ¬ HitAgrees overlapping ⟨50, 10⟩ 0 := by
  intro h
  exact absurd (h.visible 1 (overlapping_visible (mem_turns.mpr (by decide)))) (by decide)

/-- The pointer beside the first form. -/
theorem hitAgrees_iff_beside : HitAgrees overlapping ⟨150, 10⟩ 0 := by
  have hvisible : Visible overlapping ⟨150, 10⟩ 1 := overlapping_visible (mem_turns.mpr (by decide))
  refine (hitAgrees_iff (numbered_creations rfl _)).mpr ⟨fun i hi => .inl ?_, fun hnone => absurd hvisible (hnone 1)⟩
  rw [hi.unique hvisible]
  refine ⟨by decide, by decide, fun j hj => ?_⟩
  obtain rfl : j = 0 := by omega
  decide

end Agreement

end Open98.Mod
