import Mathlib.Data.List.Nodup
import Open98.Library.Stores
import Open98.NtUser.Cursor

/-! The pixels under the pointer: `NtSetCursorPos` leaves the picture that clearing the pointer uncovers as it
is. -/
namespace Open98.NtUser
open Library

section Passes
variable {s : Screen} {p : POINT} {c : Cursor} {l : List (ℕ × ℕ)}

/-- The place of a pixel of the pointer in the frame buffer. -/
def pointerOffset (s : Screen) (p : POINT) (xy : ℕ × ℕ) : ℕ :=
  s.offset (toUINT (wrapINT (p.X + xy.1))) (toUINT (wrapINT (p.Y + xy.2)))

/-- The place of a pixel of the pointer in `MouseCursorBuffer`. -/
def savedIndex (xy : ℕ × ℕ) : ℕ := xy.1 + xy.2 * 16

/-- The pixels of a bitmap that are drawn. -/
def marked (s : Screen) (ucCursor : ℕ → UCHAR) (p : POINT) : List (ℕ × ℕ) :=
  (pointerPixels s p).filter (bitmapBit ucCursor)

lemma mem_marked {ucCursor : ℕ → UCHAR} {xy : ℕ × ℕ} : xy ∈ marked s ucCursor p ↔
    xy ∈ pointerPixels s p ∧ bitmapBit ucCursor xy = true := List.mem_filter

lemma clearTurns_eq (ucCursor : ℕ → UCHAR) : (turns (clearTurn s ucCursor p) l c).1 = { c with
    framebuffer := assign (pointerOffset s p) (fun xy => c.mouseCursorBuffer (savedIndex xy))
      (l.filter (bitmapBit ucCursor)) c.framebuffer } := by
  induction l generalizing c with
  | nil => rfl
  | cons xy rest ih =>
    refine (ih (c := (clearTurn s ucCursor p c xy).1)).trans ?_
    by_cases hbit : bitmapBit ucCursor xy = true
    · rw [clearTurn, if_pos hbit, List.filter_cons_of_pos hbit]
      rfl
    · rw [clearTurn, if_neg hbit, List.filter_cons_of_neg hbit]

/-- Without saving. -/
lemma outlineTurns_eq (ucCursor : ℕ → UCHAR) (iColor : UINT) :
    (turns (drawTurn s ucCursor p false iColor) l c).1 = { c with
      framebuffer := assign (pointerOffset s p) (fun _ => iColor) (l.filter (bitmapBit ucCursor)) c.framebuffer } := by
  induction l generalizing c with
  | nil => rfl
  | cons xy rest ih =>
    refine (ih (c := (drawTurn s ucCursor p false iColor c xy).1)).trans ?_
    by_cases hbit : bitmapBit ucCursor xy = true
    · rw [drawTurn, if_pos hbit, List.filter_cons_of_pos hbit]
      rfl
    · rw [drawTurn, if_neg hbit, List.filter_cons_of_neg hbit]

/-- Each pixel is saved before it is drawn. -/
lemma insideTurns_eq (ucCursor : ℕ → UCHAR) (iColor : UINT) (hinj : Set.InjOn (pointerOffset s p) {xy | xy ∈ l})
    (hnodup : l.Nodup) :
    (turns (drawTurn s ucCursor p true iColor) l c).1 = { c with
      framebuffer := assign (pointerOffset s p) (fun _ => iColor) (l.filter (bitmapBit ucCursor)) c.framebuffer
      mouseCursorBuffer := assign savedIndex (fun xy => c.framebuffer (pointerOffset s p xy))
        (l.filter (bitmapBit ucCursor)) c.mouseCursorBuffer
      mouseCursorBufferAfter := assign savedIndex (fun _ => iColor) (l.filter (bitmapBit ucCursor))
        c.mouseCursorBufferAfter } := by
  induction l generalizing c with
  | nil => rfl
  | cons xy rest ih =>
    obtain ⟨hxy, hrest⟩ := List.nodup_cons.mp hnodup
    refine (ih (c := (drawTurn s ucCursor p true iColor c xy).1)
      (hinj.mono fun z hz => List.mem_cons_of_mem _ hz) hrest).trans ?_
    by_cases hbit : bitmapBit ucCursor xy = true
    · -- the pixels that are still to be saved have not been drawn
      have hsaved : ∀ z ∈ rest.filter (bitmapBit ucCursor),
          kiDrawPixel s c.framebuffer (toUINT (wrapINT (p.X + xy.1))) (toUINT (wrapINT (p.Y + xy.2))) iColor
            (pointerOffset s p z) = c.framebuffer (pointerOffset s p z) := by
        intro z hz
        have hmem := List.mem_of_mem_filter hz
        refine Function.update_of_ne (fun heq => hxy ?_) _ _
        have hzxy : z = xy := hinj (List.mem_cons_of_mem _ hmem) List.mem_cons_self heq
        exact hzxy ▸ hmem
      rw [drawTurn, if_pos hbit, List.filter_cons_of_pos hbit]
      simp only [if_true, assign_cons]
      rw [assign_congr hsaved]
      rfl
    · rw [drawTurn, if_neg hbit, List.filter_cons_of_neg hbit]

end Passes

section Places
variable {s : Screen} {p : POINT}

lemma pointerPixels_nodup (s : Screen) (p : POINT) : (pointerPixels s p).Nodup := by
  refine List.nodup_flatMap.mpr ⟨fun y _ => ?_, ?_⟩
  · refine List.nodup_range.map fun x x' h => ?_
    exact (Prod.mk.inj h).1
  · refine List.nodup_range.imp fun {y y'} hne => ?_
    refine List.disjoint_left.mpr fun xy hxy hxy' => ?_
    obtain ⟨x, -, rfl⟩ := List.mem_map.mp hxy
    obtain ⟨x', -, heq⟩ := List.mem_map.mp hxy'
    exact hne (Prod.mk.inj heq).2.symm

/-- A row fits into the pitch, so the place determines the pixel. -/
lemma place_injective (hs : s.Valid) {X X' Y Y' : ℤ} (hX : 0 ≤ X ∧ X < s.Width) (hX' : 0 ≤ X' ∧ X' < s.Width)
    (h : 4 * X + Y * s.Pitch = 4 * X' + Y' * s.Pitch) : X = X' ∧ Y = Y' := by
  have hpitch := hs.pitch
  have hXX' : 4 * X = 4 * X' := by
    have hmod : (4 * X + Y * s.Pitch) % s.Pitch = (4 * X' + Y' * s.Pitch) % s.Pitch := by rw [h]
    rwa [Int.add_mul_emod_self_right, Int.add_mul_emod_self_right, Int.emod_eq_of_lt (by omega) (by omega),
      Int.emod_eq_of_lt (by omega) (by omega)] at hmod
  refine ⟨by omega, ?_⟩
  have hYY' : Y * s.Pitch = Y' * s.Pitch := by omega
  exact mul_right_cancel₀ (by omega) hYY'

lemma pointerOffset_eq (hs : s.Valid) (hsmall : s.Height * s.Pitch ≤ 2^32) (hp : OnScreen s p) {xy : ℕ × ℕ}
    (h : xy ∈ pointerPixels s p) : (pointerOffset s p xy : ℤ) = 4 * (p.X + xy.1) + (p.Y + xy.2) * s.Pitch := by
  obtain ⟨⟨-, hX⟩, -, hY⟩ := mem_pointerPixels hs hp h
  have huiX := toUINT_pixel hp.left hX hs.widthINT
  have huiY := toUINT_pixel hp.top hY hs.heightINT
  obtain ⟨-, -, hoffset⟩ := (turn_fine hs hp h).2.2
  rw [pointerOffset, hoffset hsmall, huiX, huiY]

lemma pointerOffset_injOn (hs : s.Valid) (hsmall : s.Height * s.Pitch ≤ 2^32) (hp : OnScreen s p) :
    Set.InjOn (pointerOffset s p) {xy | xy ∈ pointerPixels s p} := by
  intro xy hxy xy' hxy' h
  have heq := congrArg (Nat.cast : ℕ → ℤ) h
  obtain ⟨⟨-, hX⟩, -⟩ := mem_pointerPixels hs hp hxy
  obtain ⟨⟨-, hX'⟩, -⟩ := mem_pointerPixels hs hp hxy'
  have hleft := hp.left
  rw [pointerOffset_eq hs hsmall hp hxy, pointerOffset_eq hs hsmall hp hxy'] at heq
  obtain ⟨hx, hy⟩ := place_injective hs ⟨by omega, hX⟩ ⟨by omega, hX'⟩ heq
  exact Prod.ext (by omega) (by omega)

lemma savedIndex_injOn (hs : s.Valid) (hp : OnScreen s p) :
    Set.InjOn savedIndex {xy | xy ∈ pointerPixels s p} := by
  intro xy hxy xy' hxy' h
  obtain ⟨⟨hx, -⟩, -⟩ := mem_pointerPixels hs hp hxy
  obtain ⟨⟨hx', -⟩, -⟩ := mem_pointerPixels hs hp hxy'
  rw [savedIndex, savedIndex] at h
  exact Prod.ext (by omega) (by omega)

/-- The outline is a part of the area. -/
lemma outline_inside : ∀ x < 16, ∀ y < 24, bitmapBit ucMousePointer (x, y) = true →
    bitmapBit ucMousePointerInside (x, y) = true := by
  decide +kernel

end Places

section Erased
variable {s : Screen} {c : Cursor} {p : POINT}

lemma kiClearCursor_eq (p : POINT) (h : c.bMouseDown = true) : (kiClearCursor s p c).1 = { c with
    framebuffer := assign (pointerOffset s p) (fun xy => c.mouseCursorBuffer (savedIndex xy))
      (marked s ucMousePointerInside p) c.framebuffer } := by
  rw [kiClearCursor, if_pos h, clearTurns_eq]
  rfl

/-- The picture without the pointer. -/
def uncovered (s : Screen) (c : Cursor) : ℕ → UINT := (kiClearCursor s c.pMousePositionOld c).1.framebuffer

lemma uncovered_of_not_drawn (h : c.bMouseDown = false) : uncovered s c = c.framebuffer := by
  rw [uncovered, kiClearCursor, h]
  rfl

lemma uncovered_eq (h : c.bMouseDown = true) : uncovered s c = assign (pointerOffset s c.pMousePositionOld)
    (fun xy => c.mouseCursorBuffer (savedIndex xy)) (marked s ucMousePointerInside c.pMousePositionOld)
      c.framebuffer := by
  rw [uncovered, kiClearCursor_eq _ h]

/-- Clearing does not depend on where the pointer goes next. -/
lemma kiClearCursor_framebuffer (s : Screen) (c : Cursor) (position : POINT) :
    (kiClearCursor s c.pMousePositionOld { c with kiMousePosition := position }).1.framebuffer = uncovered s c := by
  by_cases hdown : c.bMouseDown = true
  · rw [uncovered_eq hdown, kiClearCursor_eq (c := { c with kiMousePosition := position }) _ hdown]
  · rw [uncovered_of_not_drawn (Bool.eq_false_iff.mpr hdown), kiClearCursor, if_neg hdown]

lemma kiDrawCursor_outline (ucCursor : ℕ → UCHAR) (p : POINT) (iColor : UINT) (c : Cursor) :
    (kiDrawCursor s ucCursor p false iColor c).1 = { c with
      bMouseDown := true
      framebuffer := assign (pointerOffset s p) (fun _ => iColor) (marked s ucCursor p) c.framebuffer } := by
  rw [kiDrawCursor]
  dsimp only
  rw [outlineTurns_eq]
  rfl

lemma kiDrawCursor_inside (hs : s.Valid) (hsmall : s.Height * s.Pitch ≤ 2^32) (hp : OnScreen s p)
    (ucCursor : ℕ → UCHAR) (iColor : UINT) (c : Cursor) : (kiDrawCursor s ucCursor p true iColor c).1 = { c with
      bMouseDown := true
      framebuffer := assign (pointerOffset s p) (fun _ => iColor) (marked s ucCursor p) c.framebuffer
      mouseCursorBuffer := assign savedIndex (fun xy => c.framebuffer (pointerOffset s p xy))
        (marked s ucCursor p) c.mouseCursorBuffer
      mouseCursorBufferAfter := assign savedIndex (fun _ => iColor) (marked s ucCursor p)
        c.mouseCursorBufferAfter } := by
  rw [kiDrawCursor]
  dsimp only
  rw [insideTurns_eq _ _ (pointerOffset_injOn hs hsmall hp) (pointerPixels_nodup _ _)]
  rfl

/-- The pointer is drawn over a picture, and what is under it is saved. -/
structure DrawnOver (s : Screen) (p : POINT) (picture : ℕ → UINT) (c : Cursor) : Prop where
  drawn : c.bMouseDown = true
  old : c.pMousePositionOld = p
  saved : ∀ xy ∈ marked s ucMousePointerInside p, c.mouseCursorBuffer (savedIndex xy) = picture (pointerOffset s p xy)
  frame : ∀ k, (∀ xy ∈ marked s ucMousePointerInside p, pointerOffset s p xy ≠ k) → c.framebuffer k = picture k

lemma DrawnOver.uncovered {picture : ℕ → UINT} (h : DrawnOver s p picture c) : uncovered s c = picture := by
  rw [uncovered_eq h.drawn, h.old]
  exact assign_restore h.saved h.frame

lemma ntSetCursorPos_drawnOver (hs : s.Valid) (hsmall : s.Height * s.Pitch ≤ 2^32) {X Y : ℤ}
    (hp : OnScreen s ⟨X, Y⟩) (c : Cursor) : DrawnOver s ⟨X, Y⟩ (uncovered s c) (ntSetCursorPos s X Y c).1 := by
  have hpicture := kiClearCursor_framebuffer s c ⟨X, Y⟩
  refine ⟨rfl, congrArg Prod.snd (ntSetCursorPos_positions s X Y c), fun xy hxy => ?_, fun k hk => ?_⟩
  · simp only [ntSetCursorPos, kiDrawCursor_outline, kiDrawCursor_inside hs hsmall hp, hpicture]
    refine assign_of_mem ((savedIndex_injOn hs hp).mono fun z hz => ?_) hxy
    exact (mem_marked.mp hz).1
  · simp only [ntSetCursorPos, kiDrawCursor_outline, kiDrawCursor_inside hs hsmall hp, hpicture]
    rw [assign_of_forall_ne fun xy hxy => ?_, assign_of_forall_ne hk]
    obtain ⟨hmem, hbit⟩ := mem_marked.mp hxy
    obtain ⟨⟨hx, -⟩, hy, -⟩ := mem_pointerPixels hs hp hmem
    exact hk xy (mem_marked.mpr ⟨hmem, outline_inside xy.1 hx xy.2 hy hbit⟩)

/-- `NtSetCursorPos` does not change the picture without the pointer. -/
lemma uncovered_ntSetCursorPos (hs : s.Valid) (hsmall : s.Height * s.Pitch ≤ 2^32) {X Y : ℤ}
    (hp : OnScreen s ⟨X, Y⟩) (c : Cursor) : uncovered s (ntSetCursorPos s X Y c).1 = uncovered s c :=
  (ntSetCursorPos_drawnOver hs hsmall hp c).uncovered

end Erased

end Open98.NtUser
