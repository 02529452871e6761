import Mathlib.Algebra.Order.Group.Int
import Mathlib.Data.List.Basic
import Mathlib.Logic.Function.Basic
import Mathlib.Tactic.Linarith
import Mathlib.Tactic.Ring
import Open98.NtDef

/-! The mouse pointer of `ntuser/cursor.c`, drawn with the pixel functions of `drv/vbe.c`. The functions also
return their accesses, in order. -/
namespace Open98.NtUser

/-- `INT` arithmetic wraps around. -/
def wrapINT (n : ℤ) : ℤ := (n + 2^31) % 2^32 - 2^31

/-- A value as a `UINT`. -/
def toUINT (n : ℤ) : ℕ := (n % 2^32).toNat

structure POINT where
  X : ℤ
  Y : ℤ
  deriving DecidableEq, Repr

/-- `KiVBEData`; offsets into the frame buffer stand for addresses. -/
structure Screen where
  Width : ℤ
  Height : ℤ
  Pitch : ℤ

/-- The globals of `ntuser/cursor.c`, and the frame buffer. -/
structure Cursor where
  kiMousePosition : POINT
  pMousePositionOld : POINT
  bMouseDown : Bool
  mouseCursorBuffer : ℕ → UINT
  mouseCursorBufferAfter : ℕ → UINT
  framebuffer : ℕ → UINT

inductive Access
  | setCursorPos (kiMousePosition pMousePositionOld : POINT)
  | pixel (uiX uiY : ℕ)
  | cursorBuffer (i : ℕ)
  | bitmap (byte : ℕ)
  deriving DecidableEq, Repr

section Model

/-- `ulOffset`, computed as a `UINT`. -/
def Screen.offset (s : Screen) (uiX uiY : ℕ) : ℕ := (uiX * 4 + uiY * toUINT s.Pitch) % 2^32

def kiReadPixel (s : Screen) (framebuffer : ℕ → UINT) (uiX uiY : ℕ) : UINT := framebuffer (s.offset uiX uiY)

def kiDrawPixel (s : Screen) (framebuffer : ℕ → UINT) (uiX uiY : ℕ) (uiColor : UINT) : ℕ → UINT :=
  Function.update framebuffer (s.offset uiX uiY) uiColor

/-- The turns of the two loops over the pixels of the pointer; it is cut at the right and at the bottom. -/
def pointerPixels (s : Screen) (position : POINT) : List (ℕ × ℕ) :=
  let differenceX := wrapINT (s.Width - position.X)
  let differenceY := wrapINT (s.Height - position.Y)
  let xMax := if differenceX < 16 then differenceX else 16
  let yMax := if differenceY < 24 then differenceY else 24
  (List.range yMax.toNat).flatMap fun y => (List.range xMax.toNat).map fun x => (x, y)

/-- The byte of a bitmap with the bit of a pixel. -/
def bitmapByte (xy : ℕ × ℕ) : ℕ := (xy.2 * 16 + xy.1) / 8

/-- The bit of a pixel is set. -/
def bitmapBit (ucCursor : ℕ → UCHAR) (xy : ℕ × ℕ) : Bool :=
  (ucCursor (bitmapByte xy) &&& (0b10000000 >>> (xy.1 % 8))) ≠ 0

/-- One turn of the loops of `KiDrawCursor`. -/
def drawTurn (s : Screen) (ucCursor : ℕ → UCHAR) (pPosition : POINT) (bBack : Bool) (iColor : UINT)
    (c : Cursor) (xy : ℕ × ℕ) : Cursor × List Access :=
  if bitmapBit ucCursor xy then
    let uiX := toUINT (wrapINT (pPosition.X + xy.1))
    let uiY := toUINT (wrapINT (pPosition.Y + xy.2))
    let i := xy.1 + xy.2 * 16
    let c' := { c with framebuffer := kiDrawPixel s c.framebuffer uiX uiY iColor }
    if bBack then
      ({ c' with
        mouseCursorBuffer := Function.update c.mouseCursorBuffer i (kiReadPixel s c.framebuffer uiX uiY)
        mouseCursorBufferAfter := Function.update c.mouseCursorBufferAfter i iColor },
       [.bitmap (bitmapByte xy), .pixel uiX uiY, .cursorBuffer i, .pixel uiX uiY, .cursorBuffer i])
    else (c', [.bitmap (bitmapByte xy), .pixel uiX uiY])
  else (c, [.bitmap (bitmapByte xy)])

/-- One turn of the loops of `KiClearCursor`. -/
def clearTurn (s : Screen) (ucMousePointerInside : ℕ → UCHAR) (position : POINT) (c : Cursor) (xy : ℕ × ℕ) :
    Cursor × List Access :=
  if bitmapBit ucMousePointerInside xy then
    let uiX := toUINT (wrapINT (position.X + xy.1))
    let uiY := toUINT (wrapINT (position.Y + xy.2))
    let i := xy.1 + xy.2 * 16
    ({ c with framebuffer := kiDrawPixel s c.framebuffer uiX uiY (c.mouseCursorBuffer i) },
     [.bitmap (bitmapByte xy), .cursorBuffer i, .pixel uiX uiY])
  else (c, [.bitmap (bitmapByte xy)])

/-- The loops, from the given turns. -/
def turns (turn : Cursor → ℕ × ℕ → Cursor × List Access) : List (ℕ × ℕ) → Cursor → Cursor × List Access
  | [], c => (c, [])
  | xy :: rest, c =>
    let (c, log) := turn c xy
    let (c, more) := turns turn rest c
    (c, log ++ more)

def kiDrawCursor (s : Screen) (ucCursor : ℕ → UCHAR) (pPosition : POINT) (bBack : Bool) (iColor : UINT)
    (c : Cursor) : Cursor × List Access :=
  let (c, log) := turns (drawTurn s ucCursor pPosition bBack iColor) (pointerPixels s pPosition) c
  ({ c with bMouseDown := true }, log)

/-- The pointer's outline: two bytes a row; the rest of the array is zero. -/
def ucMousePointer (byte : ℕ) : UCHAR := [
  0b10000000, 0b00000000,
  0b11000000, 0b00000000,
  0b10100000, 0b00000000,
  0b10010000, 0b00000000,
  0b10001000, 0b00000000,
  0b10000100, 0b00000000,
  0b10000010, 0b00000000,
  0b10000001, 0b00000000,
  0b10000000, 0b10000000,
  0b10000000, 0b01000000,
  0b10000000, 0b00100000,
  0b10000001, 0b11110000,
  0b10001001, 0b00000000,
  0b10011001, 0b00000000,
  0b10100100, 0b10000000,
  0b11000100, 0b10000000,
  0b10000010, 0b01000000,
  0b00000010, 0b01000000,
  0b00000001, 0b00100000,
  0b00000001, 0b00100000,
  0b00000000, 0b11000000].getD byte 0

/-- The pointer's area. -/
def ucMousePointerInside (byte : ℕ) : UCHAR := [
  0b10000000, 0b00000000,
  0b11000000, 0b00000000,
  0b11100000, 0b00000000,
  0b11110000, 0b00000000,
  0b11111000, 0b00000000,
  0b11111100, 0b00000000,
  0b11111110, 0b00000000,
  0b11111111, 0b00000000,
  0b11111111, 0b10000000,
  0b11111111, 0b11000000,
  0b11111111, 0b11100000,
  0b11111111, 0b11110000,
  0b11111111, 0b00000000,
  0b11111111, 0b00000000,
  0b11100111, 0b10000000,
  0b11000111, 0b10000000,
  0b10000011, 0b11000000,
  0b00000011, 0b11000000,
  0b00000001, 0b11100000,
  0b00000001, 0b11100000,
  0b00000000, 0b11000000].getD byte 0

def kiClearCursor (s : Screen) (position : POINT) (c : Cursor) : Cursor × List Access :=
  if c.bMouseDown then turns (clearTurn s ucMousePointerInside position) (pointerPixels s position) c
  else (c, [])

def ntSetCursorPos (s : Screen) (X Y : ℤ) (c : Cursor) : Cursor × List Access :=
  let call := Access.setCursorPos c.kiMousePosition c.pMousePositionOld
  let c := { c with kiMousePosition := ⟨X, Y⟩ }
  let (c, cleared) := kiClearCursor s c.pMousePositionOld c
  let (c, inside) := kiDrawCursor s ucMousePointerInside ⟨X, Y⟩ true 0xFFFFFFFF c
  let (c, outline) := kiDrawCursor s ucMousePointer ⟨X, Y⟩ false 0x00000000 c
  ({ c with pMousePositionOld := c.kiMousePosition }, call :: (cleared ++ inside ++ outline))

end Model

section Positions
variable {s : Screen}

/-- The two positions. -/
def Cursor.positions (c : Cursor) : POINT × POINT := (c.kiMousePosition, c.pMousePositionOld)

lemma turns_positions {turn : Cursor → ℕ × ℕ → Cursor × List Access}
    (h : ∀ c xy, (turn c xy).1.positions = c.positions) (l : List (ℕ × ℕ)) (c : Cursor) :
    (turns turn l c).1.positions = c.positions := by
  induction l generalizing c with
  | nil => rfl
  | cons xy rest ih => exact (ih (turn c xy).1).trans (h c xy)

@[simp] lemma kiDrawCursor_positions (ucCursor : ℕ → UCHAR) (p : POINT) (bBack : Bool) (iColor : UINT) (c : Cursor) :
    (kiDrawCursor s ucCursor p bBack iColor c).1.positions = c.positions := by
  refine turns_positions (fun c xy => ?_) _ c
  rw [drawTurn]
  split_ifs <;> rfl

@[simp] lemma kiClearCursor_positions (p : POINT) (c : Cursor) :
    (kiClearCursor s p c).1.positions = c.positions := by
  rw [kiClearCursor]
  split_ifs
  · refine turns_positions (fun c xy => ?_) _ c
    rw [clearTurn]
    split_ifs <;> rfl
  · rfl

/-- Drawing leaves the positions alone. -/
lemma ntSetCursorPos_positions (s : Screen) (X Y : ℤ) (c : Cursor) :
    (ntSetCursorPos s X Y c).1.positions = (⟨X, Y⟩, ⟨X, Y⟩) := by
  have hposition : ∀ c' : Cursor, c'.positions = (⟨X, Y⟩, c.pMousePositionOld) →
      Cursor.positions { c' with pMousePositionOld := c'.kiMousePosition } = (⟨X, Y⟩, ⟨X, Y⟩) := by
    intro c' h
    have hX : c'.kiMousePosition = ⟨X, Y⟩ := congrArg Prod.fst h
    rw [Cursor.positions, hX]
  refine hposition _ ?_
  exact (kiDrawCursor_positions ucMousePointer _ false _ _).trans
    ((kiDrawCursor_positions ucMousePointerInside _ true _ _).trans (kiClearCursor_positions _ _))

end Positions

section OnScreen

/-- The sizes are `INT`s. -/
structure Screen.Sized (s : Screen) : Prop where
  width : 1 ≤ s.Width
  height : 1 ≤ s.Height
  widthINT : s.Width < 2^31
  heightINT : s.Height < 2^31

/-- A row of pixels fits into the pitch, an `INT` too. -/
structure Screen.Valid (s : Screen) : Prop extends s.Sized where
  pitch : 4 * s.Width ≤ s.Pitch
  pitchINT : s.Pitch < 2^31

structure OnScreen (s : Screen) (p : POINT) : Prop where
  left : 0 ≤ p.X
  right : p.X < s.Width
  top : 0 ≤ p.Y
  bottom : p.Y < s.Height

/-- A pixel has its row and its column on the screen and its four bytes in the frame buffer, where they
belong unless the frame buffer is larger than the offsets; the indices are in their arrays. -/
def Access.Fine (s : Screen) : Access → Prop
  | setCursorPos kiMousePosition pMousePositionOld => OnScreen s kiMousePosition ∧ OnScreen s pMousePositionOld
  | pixel uiX uiY => (uiX < s.Width ∧ uiY < s.Height) ∧ s.offset uiX uiY + 4 ≤ s.Height * s.Pitch ∧
      (s.Height * s.Pitch ≤ 2^32 → (s.offset uiX uiY : ℤ) = 4 * uiX + uiY * s.Pitch)
  | cursorBuffer i => i < 16 * 24
  | bitmap byte => byte < 2 * 24

variable {s : Screen} {p : POINT} {c : Cursor} {xy : ℕ × ℕ}

lemma pixel_fine (hs : s.Valid) {uiX uiY : ℕ} (hX : uiX < s.Width) (hY : uiY < s.Height) :
    (Access.pixel uiX uiY).Fine s := by
  obtain ⟨pitch, hpitch⟩ := Int.eq_ofNat_of_zero_le (show 0 ≤ s.Pitch by have := hs.width; have := hs.pitch; omega)
  have hUINT : toUINT s.Pitch = pitch := by
    have := hs.pitchINT
    rw [hpitch, toUINT]
    omega
  have hrow : ((uiX * 4 + uiY * pitch : ℕ) : ℤ) + 4 ≤ s.Height * s.Pitch := by
    have hbelow : ((uiY : ℤ) + 1) * s.Pitch ≤ s.Height * s.Pitch :=
      mul_le_mul_of_nonneg_right (by omega) (by omega)
    have := hs.pitch
    push_cast
    rw [← hpitch]
    linarith
  have hle : s.offset uiX uiY ≤ uiX * 4 + uiY * pitch := by
    rw [Screen.offset, hUINT]
    exact Nat.mod_le _ _
  refine ⟨⟨hX, hY⟩, by omega, fun hsmall => ?_⟩
  rw [Screen.offset, hUINT, Nat.mod_eq_of_lt (by omega), hpitch]
  push_cast
  ring

/-- The loops stay on the screen. -/
lemma mem_pointerPixels (hs : s.Valid) (hp : OnScreen s p) (h : xy ∈ pointerPixels s p) :
    (xy.1 < 16 ∧ p.X + xy.1 < s.Width) ∧ xy.2 < 24 ∧ p.Y + xy.2 < s.Height := by
  obtain ⟨x, y⟩ := xy
  have hX : wrapINT (s.Width - p.X) = s.Width - p.X := by
    have := hs.widthINT; have := hp.left; have := hp.right
    rw [wrapINT]
    omega
  have hY : wrapINT (s.Height - p.Y) = s.Height - p.Y := by
    have := hs.heightINT; have := hp.top; have := hp.bottom
    rw [wrapINT]
    omega
  simp only [pointerPixels, hX, hY, List.mem_flatMap, List.mem_map, List.mem_range, Prod.mk.injEq] at h
  obtain ⟨y', hy, x', hx, rfl, rfl⟩ := h
  dsimp only
  split_ifs at hx hy <;> omega

lemma toUINT_pixel {n W : ℤ} {k : ℕ} (hn : 0 ≤ n) (hlt : n + k < W) (hW : W < 2^31) :
    (toUINT (wrapINT (n + k)) : ℤ) = n + k := by
  rw [wrapINT, toUINT]
  omega

/-- The accesses for one pixel of the pointer. -/
lemma turn_fine (hs : s.Valid) (hp : OnScreen s p) (hxy : xy ∈ pointerPixels s p) :
    (Access.bitmap (bitmapByte xy)).Fine s ∧ (Access.cursorBuffer (xy.1 + xy.2 * 16)).Fine s ∧
      (Access.pixel (toUINT (wrapINT (p.X + xy.1))) (toUINT (wrapINT (p.Y + xy.2)))).Fine s := by
  obtain ⟨⟨hx, hX⟩, hy, hY⟩ := mem_pointerPixels hs hp hxy
  refine ⟨?_, ?_, pixel_fine hs ?_ ?_⟩
  · show bitmapByte xy < 48
    rw [bitmapByte]
    omega
  · show xy.1 + xy.2 * 16 < 384
    omega
  · rw [toUINT_pixel hp.left hX hs.widthINT]
    exact hX
  · rw [toUINT_pixel hp.top hY hs.heightINT]
    exact hY

/-- What the loops do for each pixel, they do for all. -/
lemma turns_fine {turn : Cursor → ℕ × ℕ → Cursor × List Access} {l : List (ℕ × ℕ)}
    (h : ∀ c, ∀ xy ∈ l, ∀ a ∈ (turn c xy).2, a.Fine s) (c : Cursor) : ∀ a ∈ (turns turn l c).2, a.Fine s := by
  induction l generalizing c with
  | nil => simp [turns]
  | cons xy rest ih =>
    intro a ha
    rcases List.mem_append.mp ha with ha | ha
    · exact h c xy (by simp) a ha
    · exact ih (fun c xy hxy => h c xy (List.mem_cons_of_mem _ hxy)) _ a ha

lemma kiDrawCursor_fine (hs : s.Valid) (hp : OnScreen s p) (ucCursor : ℕ → UCHAR) (bBack : Bool) (iColor : UINT)
    (c : Cursor) : ∀ a ∈ (kiDrawCursor s ucCursor p bBack iColor c).2, a.Fine s := by
  refine turns_fine (fun c xy hxy => ?_) c
  obtain ⟨hbitmap, hbuffer, hpixel⟩ := turn_fine hs hp hxy
  rw [drawTurn]
  split_ifs <;> simp [hbitmap, hbuffer, hpixel]

lemma kiClearCursor_fine (hs : s.Valid) (hp : OnScreen s p) (c : Cursor) :
    ∀ a ∈ (kiClearCursor s p c).2, a.Fine s := by
  rw [kiClearCursor]
  split_ifs
  · refine turns_fine (fun c xy hxy => ?_) c
    obtain ⟨hbitmap, hbuffer, hpixel⟩ := turn_fine hs hp hxy
    rw [clearTurn]
    split_ifs <;> simp [hbitmap, hbuffer, hpixel]
  · simp

/-- Moving the cursor on the screen. -/
lemma ntSetCursorPos_fine (hs : s.Valid) {X Y : ℤ} (hp : OnScreen s ⟨X, Y⟩) (hpos : OnScreen s c.kiMousePosition)
    (hold : OnScreen s c.pMousePositionOld) : ∀ a ∈ (ntSetCursorPos s X Y c).2, a.Fine s := by
  intro a ha
  rcases List.mem_cons.mp ha with rfl | ha
  · exact ⟨hpos, hold⟩
  · rcases List.mem_append.mp ha with ha | ha
    · rcases List.mem_append.mp ha with ha | ha
      · exact kiClearCursor_fine hs hold _ a ha
      · exact kiDrawCursor_fine hs hp _ _ _ _ a ha
    · exact kiDrawCursor_fine hs hp _ _ _ _ a ha

end OnScreen

end Open98.NtUser
