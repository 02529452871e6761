import Open98.Drv.Vbe
import Open98.Mod.Wm

/-! Drawing into `DwmAntiBuffer`: `mod/draw.c`, and the windows of `mod/wm.c`. The functions return what they
store, in order. -/
namespace Open98.Mod
open Drv NtUser

/-- The index of an element of `DwmAntiBuffer`, and the colour that is stored there. -/
abbrev Store := ℤ × UINT

/-- What is drawn with besides the windows: the font, the strings behind the addresses, and what a call leaves
that ends without a return. -/
structure Assets where
  kiDisplayFont : ℕ → UCHAR
  string : ℕ → List UCHAR
  noReturn : ℤ

section Model

/-- `iOffset`, computed as a `SIZE_T` and stored in an `INT`. -/
def antiIndex (s : Screen) (ix iy : ℤ) : ℤ := wrapINT (ix + s.Pitch / 4 * iy)

/-- The arguments of `DwmDrawFilled` without the colour. -/
structure Fill where
  uiXStart : UINT
  uiXEnd : UINT
  uiYStart : UINT
  uiYEnd : UINT

/-- The turns of the loops of `DwmDrawFilled`; the comparisons are of `UINT`s. -/
def Fill.turns (f : Fill) : List (INT × INT) :=
  (List.range (f.uiXEnd.toNat - f.uiXStart.toNat)).flatMap fun tx =>
    (List.range (f.uiYEnd.toNat - f.uiYStart.toNat)).map fun ty =>
      (f.uiXStart + BitVec.ofNat 32 tx, f.uiYStart + BitVec.ofNat 32 ty)

def dwmDrawFilled (s : Screen) (f : Fill) (uiColor : UINT) : List Store :=
  f.turns.map fun (iX, iY) => (antiIndex s iX.toInt iY.toInt, uiColor)

def dwmDisplayChar (s : Screen) (kiDisplayFont : ℕ → UCHAR) (cChararcter : UCHAR) (uiX uiY uiColor : UINT) :
    List Store :=
  (glyphTurns s kiDisplayFont cChararcter uiX uiY).filterMap fun (_, p) =>
    p.map fun (ix, iy) => (antiIndex s ix iy, uiColor)

def dwmDisplayString (s : Screen) (kiDisplayFont : ℕ → UCHAR) (pcString : List UCHAR) (uiX uiY uiColor : UINT) :
    List Store :=
  (displayed s uiX uiX uiY (pcString.take (2^31))).flatMap fun (c, iX, uiY) =>
    dwmDisplayChar s kiDisplayFont c iX uiY uiColor

def dwmPlotPixelOnWindow (s : Screen) (d : Dwm) (WindowID : ℤ) (X Y : INT) (HEX : UINT) : Store :=
  let X := X + (d.windows WindowID).X + 3#32
  let Y := Y + (d.windows WindowID).Y + BitVec.ofNat 32 titleBarThickness
  (antiIndex s X.toInt Y.toInt, HEX)

/-- The comparisons of the loops are of `INT`s. -/
def dwmDrawFilledWindow (s : Screen) (d : Dwm) (Parent : ℤ) (X XEnd Y YEnd : INT) (COLOR : UINT) : List Store :=
  (List.range (XEnd.toInt - X.toInt).toNat).flatMap fun tx =>
    (List.range (YEnd.toInt - Y.toInt).toNat).map fun ty =>
      dwmPlotPixelOnWindow s d Parent (X + BitVec.ofNat 32 tx) (Y + BitVec.ofNat 32 ty) COLOR

def titleBar (o : Object) : Fill where
  uiXStart := o.X + 3#32
  uiXEnd := o.Width - 3#32
  uiYStart := o.Y + 3#32
  uiYEnd := o.Y + BitVec.ofNat 32 titleBarThickness - 1#32

/-- The rectangles of a form. -/
def formFills (o : Object) : List (Fill × UINT) := [
  (⟨o.X, o.Width, o.Y, o.Height⟩, 0x000000),
  (⟨o.X, o.Width - 1#32, o.Y, o.Height - 1#32⟩, 0xDFDFDF),
  (⟨o.X + 1#32, o.Width - 1#32, o.Y + 1#32, o.Height - 1#32⟩, 0x808080),
  (⟨o.X + 1#32, o.Width - 2#32, o.Y + 1#32, o.Height - 2#32⟩, 0xFFFFFF),
  (⟨o.X + 2#32, o.Width - 2#32, o.Y + 2#32, o.Height - 2#32⟩, 0xC0C0C0),
  (titleBar o, 0x000080)]

def drawForm (s : Screen) (a : Assets) (o : Object) : List Store :=
  (formFills o).flatMap (fun (f, color) => dwmDrawFilled s f color) ++
    dwmDisplayString s a.kiDisplayFont (a.string o.Title) (o.X + 6#32) (o.Y + 3#32) 0xFFFFFF

/-- The place of the text in a part of a form; its coordinates are added twice. -/
def textPlace (d : Dwm) (o : Object) (parent : ℤ) : INT × INT :=
  (o.X + o.X + (d.windows parent).X, o.Y + o.Y + BitVec.ofNat 32 titleBarThickness + (d.windows parent).Y)

def drawLabel (s : Screen) (a : Assets) (d : Dwm) (o : Object) : List Store :=
  let place := textPlace d o (dwmGetWindowIDByParent d o.Parent a.noReturn)
  dwmDisplayString s a.kiDisplayFont (a.string o.Title) place.1 place.2 0x00000000

def drawButton (s : Screen) (a : Assets) (d : Dwm) (o : Object) : List Store :=
  let parent := dwmGetWindowIDByParent d o.Parent a.noReturn
  let place := textPlace d o parent
  dwmDrawFilledWindow s d parent o.X o.Width o.Y o.Height 0x00000000 ++
  dwmDrawFilledWindow s d parent (o.X + 1#32) (o.Width - 2#32) (o.Y + 1#32) (o.Height - 2#32) 0xFFFFFFFF ++
  dwmDrawFilledWindow s d parent (o.X + 2#32) (o.Width - 2#32) (o.Y + 2#32) (o.Height - 2#32) 0x808080 ++
  dwmDrawFilledWindow s d parent (o.X + 2#32) (o.Width - 3#32) (o.Y + 2#32) (o.Height - 3#32) 0xC0C0C0 ++
  dwmDisplayString s a.kiDisplayFont [0x4F, 0x4B] (place.1 + 3#32) (place.2 + 3#32) 0x00000000

/-- The frame and the area of a text box or a list view. -/
def drawBox (s : Screen) (d : Dwm) (parent : ℤ) (iStartX iEndX iStartY iEndY : INT) : List Store :=
  dwmDrawFilledWindow s d parent iStartX (iStartX + 1#32) iStartY iEndY 0x808080 ++
  dwmDrawFilledWindow s d parent (iStartX + 1#32) (iStartX + 2#32) (iStartY + 1#32) iEndY 0x000000 ++
  dwmDrawFilledWindow s d parent iStartX (iEndX - 1#32) iStartY (iStartY + 1#32) 0x808080 ++
  dwmDrawFilledWindow s d parent (iStartX + 1#32) (iEndX - 1#32) (iStartY + 1#32) (iStartY + 2#32) 0x000000 ++
  dwmDrawFilledWindow s d parent (iEndX - 1#32) iEndX iStartY iEndY 0xFFFFFF ++
  dwmDrawFilledWindow s d parent (iEndX - 2#32) (iEndX - 1#32) (iStartY + 1#32) (iEndY - 1#32) 0xC3C3C3 ++
  dwmDrawFilledWindow s d parent iStartX iEndX iEndY (iEndY + 1#32) 0xFFFFFF ++
  dwmDrawFilledWindow s d parent (iStartX + 2#32) (iEndX - 1#32) (iEndY - 1#32) iEndY 0xC3C3C3 ++
  dwmDrawFilledWindow s d parent (iStartX + 2#32) (iEndX - 2#32) (iStartY + 2#32) (iEndY - 1#32) 0xFFFFFF

/-- A text box is 20 pixels high. -/
def drawTextbox (s : Screen) (a : Assets) (d : Dwm) (o : Object) : List Store :=
  let parent := dwmGetWindowIDByParent d o.Parent a.noReturn
  let place := textPlace d o parent
  drawBox s d parent o.X o.Width o.Y (o.Y + 20#32) ++
    dwmDisplayString s a.kiDisplayFont (a.string o.Title) (place.1 + 4#32) (place.2 + 3#32) 0x00000000

def drawListview (s : Screen) (a : Assets) (d : Dwm) (o : Object) : List Store :=
  drawBox s d (dwmGetWindowIDByParent d o.Parent a.noReturn) o.X o.Width o.Y o.Height

/-- One turn of the loop over the windows. -/
def drawWindow (s : Screen) (a : Assets) (d : Dwm) (tempI : ℕ) : List Store :=
  let o := (d.windows tempI).toObject
  match o.WindowType.toNat with
  | 0 => drawForm s a o
  | 1 => drawLabel s a d o
  | 2 => drawButton s a d o
  | 3 => drawTextbox s a d o
  | 4 => drawListview s a d o
  | _ => []

end Model

section Filled
variable {f : Fill} {p : INT × INT}

/-- The pixels of a rectangle: from the start up to the end, which is left out. -/
lemma mem_turns : p ∈ f.turns ↔ (f.uiXStart ≤ p.1 ∧ p.1 < f.uiXEnd) ∧ f.uiYStart ≤ p.2 ∧ p.2 < f.uiYEnd := by
  have hstep : ∀ {start stop i : UINT}, (∃ t < stop.toNat - start.toNat, start + BitVec.ofNat 32 t = i) ↔
      start ≤ i ∧ i < stop := by
    intro start stop i
    rw [BitVec.le_def, BitVec.lt_def]
    constructor
    · rintro ⟨t, ht, rfl⟩
      have hsum : (start + BitVec.ofNat 32 t).toNat = start.toNat + t := by
        have := stop.isLt
        rw [BitVec.toNat_add, BitVec.toNat_ofNat]
        omega
      omega
    · rintro ⟨hle, hlt⟩
      refine ⟨i.toNat - start.toNat, by omega, ?_⟩
      bv_omega
  obtain ⟨x, y⟩ := p
  simp only [Fill.turns, List.mem_flatMap, List.mem_map, List.mem_range, Prod.mk.injEq]
  rw [← hstep, ← hstep]
  constructor
  · rintro ⟨tx, htx, ty, hty, hx, hy⟩
    exact ⟨⟨tx, htx, hx⟩, ty, hty, hy⟩
  · rintro ⟨⟨tx, htx, hx⟩, ty, hty, hy⟩
    exact ⟨tx, htx, ty, hty, hx, hy⟩

end Filled

end Open98.Mod
