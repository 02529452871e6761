import Open98.NtUser.Cursor

/-! The PS/2 mouse of `drv/mouse.c`: bytes become packets, and packets move the pointer. -/
namespace Open98.Drv
open NtUser

def ps2LeftButton : UCHAR := 0b00000001
def ps2XSign : UCHAR := 0b00010000
def ps2YSign : UCHAR := 0b00100000
def ps2XOverflow : UCHAR := 0b01000000
def ps2YOverflow : UCHAR := 0b10000000

/-- `KiMousePacket`, of which three bytes are used. -/
structure Packet where
  flags : UCHAR
  x : UCHAR
  y : UCHAR
  deriving DecidableEq, Repr

/-- The globals of the driver. `drags` holds the positions given to `DwmSetWindowPos` so far, and `accesses`
what the drawing of the pointer has accessed. -/
structure Mouse where
  kiMousePacket : Packet
  kiMouseCycle : ℕ
  bMousePacketReady : Bool
  bSkip : Bool
  bRefreshBuffer : Bool
  cursor : Cursor
  drags : List POINT
  accesses : List Access

section Model

def Packet.has (p : Packet) (flag : UCHAR) : Bool := p.flags &&& flag ≠ 0

/-- A negative movement's byte, subtracted from 256 and stored back. -/
def negated (negative : Bool) (b : UCHAR) : UCHAR := if negative then BitVec.ofNat 8 (256 - b.toNat) else b

/-- One coordinate, moved by a byte and by 255 on an overflow. -/
def moved (back overflow : Bool) (b : UCHAR) (n : ℤ) : ℤ :=
  if back then
    let n := wrapINT (n - b.toNat)
    if overflow then wrapINT (n - 255) else n
  else
    let n := wrapINT (n + b.toNat)
    if overflow then wrapINT (n + 255) else n

/-- One coordinate, put back on the screen. -/
def clamped (size n : ℤ) : ℤ :=
  let n := if n < 0 then 0 else n
  if n > size - 1 then size - 1 else n

/-- What `KiProcessMouse` makes of `KiMousePacket`. -/
def Packet.written (p : Packet) : Packet where
  flags := p.flags
  x := negated (p.has ps2XSign) p.x
  y := negated (p.has ps2YSign) p.y

/-- What `KiProcessMouse` makes of `KiMousePosition`; the vertical axis points up. -/
def Packet.position (s : Screen) (p : Packet) (position : POINT) : POINT where
  X := clamped s.Width (moved (p.has ps2XSign) (p.has ps2XOverflow) p.written.x position.X)
  Y := clamped s.Height (moved (!p.has ps2YSign) (p.has ps2YOverflow) p.written.y position.Y)

/-- The window under the pointer is moved while the left button is down. -/
def Packet.drag (s : Screen) (p : Packet) (position : POINT) : List POINT :=
  if p.has ps2LeftButton then
    [⟨wrapINT ((p.position s position).X - 30), wrapINT ((p.position s position).Y - 7)⟩]
  else []

def kiProcessMouse (s : Screen) (m : Mouse) : Mouse :=
  if !m.bMousePacketReady then m
  else
    let position := m.kiMousePacket.position s m.cursor.kiMousePosition
    let (cursor, log) := ntSetCursorPos s position.X position.Y { m.cursor with kiMousePosition := position }
    { m with
      kiMousePacket := m.kiMousePacket.written
      bMousePacketReady := false
      bRefreshBuffer := true
      cursor := { cursor with pMousePositionOld := cursor.kiMousePosition }
      drags := m.drags ++ m.kiMousePacket.drag s m.cursor.kiMousePosition
      accesses := m.accesses ++ log }

def kiHandlePS2Mouse (s : Screen) (m : Mouse) (ucData : UCHAR) : Mouse :=
  let m := kiProcessMouse s m
  if m.bSkip then { m with bSkip := false }
  else match m.kiMouseCycle with
    | 0 =>
      if m.bMousePacketReady then m
      else if ucData &&& 0b00001000 = 0 then m
      else { m with kiMousePacket.flags := ucData, kiMouseCycle := m.kiMouseCycle + 1 }
    | 1 =>
      if m.bMousePacketReady then m
      else { m with kiMousePacket.x := ucData, kiMouseCycle := m.kiMouseCycle + 1 }
    | 2 =>
      if m.bMousePacketReady then m
      else { m with kiMousePacket.y := ucData, bMousePacketReady := true, kiMouseCycle := 0 }
    | _ => m

/-- The globals before the first byte. -/
def Mouse.initial (framebuffer : ℕ → UINT) : Mouse where
  kiMousePacket := ⟨0, 0, 0⟩
  kiMouseCycle := 0
  bMousePacketReady := false
  bSkip := true
  bRefreshBuffer := false
  cursor := ⟨⟨0, 0⟩, ⟨0, 0⟩, false, fun _ => 0, fun _ => 0, framebuffer⟩
  drags := []
  accesses := []

end Model

section Movement
variable {s : Screen} {m : Mouse} {size n : ℤ}

/-- A processed packet sets both positions. -/
lemma kiProcessMouse_positions (hready : m.bMousePacketReady = true) :
    (kiProcessMouse s m).cursor.positions = (m.kiMousePacket.position s m.cursor.kiMousePosition,
      m.kiMousePacket.position s m.cursor.kiMousePosition) := by
  let position := m.kiMousePacket.position s m.cursor.kiMousePosition
  have h := congrArg Prod.fst (ntSetCursorPos_positions s position.X position.Y
    { m.cursor with kiMousePosition := position })
  rw [kiProcessMouse, hready]
  exact Prod.ext h h

lemma kiProcessMouse_position (hready : m.bMousePacketReady = true) :
    (kiProcessMouse s m).cursor.kiMousePosition = m.kiMousePacket.position s m.cursor.kiMousePosition :=
  congrArg Prod.fst (kiProcessMouse_positions hready)

/-- An overflow moves by 255 more. -/
def extension (overflow : Bool) : ℕ := if overflow then 255 else 0

/-- The value of a sign bit and a movement byte. -/
def delta (sign overflow : Bool) (b : UCHAR) : ℤ :=
  if sign then b.toNat - 256 - extension overflow else b.toNat + extension overflow

def clamp (n lo hi : ℤ) : ℤ := max lo (min n hi)

lemma clamped_moved_back (hn : 0 ≤ n) (hlt : n < size) (hsize : size < 2^31) (overflow : Bool) (b : UCHAR) :
    clamped size (moved true overflow b n) = max 0 (n - b.toNat - extension overflow) := by
  have hb := b.isLt
  cases overflow <;> simp only [clamped, moved, wrapINT, extension, Bool.false_eq_true, if_true, if_false] <;>
    split_ifs <;> omega

/-- A sum above the greatest `INT` wraps around, and the coordinate is put at zero. -/
lemma clamped_moved (hn : 0 ≤ n) (hlt : n < size) (hsize : size < 2^31) (overflow : Bool) (b : UCHAR) :
    clamped size (moved false overflow b n) =
      if n + b.toNat + extension overflow < 2^31 then min (n + b.toNat + extension overflow) (size - 1) else 0 := by
  have hb := b.isLt
  cases overflow <;> simp only [clamped, moved, wrapINT, extension, Bool.false_eq_true, if_true, if_false] <;>
    split_ifs <;> omega

lemma negated_toNat (b : UCHAR) : (negated true b).toNat = (256 - b.toNat) % 256 := by
  simp [negated]

lemma right_iff (hn : 0 ≤ n) (hlt : n < size) (hsize : size < 2^31) (overflow : Bool) (b : UCHAR) :
    clamped size (moved false overflow b n) = clamp (n + delta false overflow b) 0 (size - 1) ↔
      n + b.toNat + extension overflow < 2^31 := by
  have hext : extension overflow ≤ 255 := by cases overflow <;> simp [extension]
  have hb := b.isLt
  rw [clamped_moved hn hlt hsize, clamp, delta, if_neg Bool.false_ne_true]
  split_ifs <;> omega

/-- The byte zero means -256 under a sign bit, but its negation is zero. -/
lemma left_iff (hn : 0 ≤ n) (hlt : n < size) (hsize : size < 2^31) (overflow : Bool) (b : UCHAR) :
    clamped size (moved true overflow (negated true b) n) = clamp (n + delta true overflow b) 0 (size - 1) ↔
      b ≠ 0 ∨ n ≤ extension overflow := by
  have hb := b.isLt
  have hzero : b = 0 ↔ b.toNat = 0 := BitVec.toNat_eq
  rw [clamped_moved_back hn hlt hsize, negated_toNat, clamp, delta, if_pos rfl, Ne, hzero]
  by_cases h : b.toNat = 0
  · rw [h]
    omega
  · omega

lemma down_iff (hn : 0 ≤ n) (hlt : n < size) (hsize : size < 2^31) (overflow : Bool) (b : UCHAR) :
    clamped size (moved false overflow (negated true b) n) = clamp (n - delta true overflow b) 0 (size - 1) ↔
      n + ((256 - b.toNat) % 256 : ℕ) + extension overflow < 2^31 ∧
        (b = 0 → size - 1 ≤ n + extension overflow) := by
  have hext : extension overflow ≤ 255 := by cases overflow <;> simp [extension]
  have hb := b.isLt
  have hzero : b = 0 ↔ b.toNat = 0 := BitVec.toNat_eq
  rw [clamped_moved hn hlt hsize, negated_toNat, clamp, delta, if_pos rfl, hzero]
  by_cases h : b.toNat = 0
  · rw [h]
    split_ifs <;> omega
  · split_ifs <;> omega

lemma up (hn : 0 ≤ n) (hlt : n < size) (hsize : size < 2^31) (overflow : Bool) (b : UCHAR) :
    clamped size (moved true overflow b n) = clamp (n - delta false overflow b) 0 (size - 1) := by
  rw [clamped_moved_back hn hlt hsize, clamp, delta, if_neg Bool.false_ne_true]
  omega

/-- Exactly which packets move the pointer by their deltas. -/
theorem movesByDelta_iff (hs : s.Sized) (hp : OnScreen s m.cursor.kiMousePosition)
    (hready : m.bMousePacketReady = true) :
    let p := m.kiMousePacket
    let position := m.cursor.kiMousePosition
    let xOverflow := extension (p.has ps2XOverflow)
    let yOverflow := extension (p.has ps2YOverflow)
    (kiProcessMouse s m).cursor.kiMousePosition =
        ⟨clamp (position.X + delta (p.has ps2XSign) (p.has ps2XOverflow) p.x) 0 (s.Width - 1),
          clamp (position.Y - delta (p.has ps2YSign) (p.has ps2YOverflow) p.y) 0 (s.Height - 1)⟩ ↔
      (if p.has ps2XSign then p.x ≠ 0 ∨ position.X ≤ xOverflow else position.X + p.x.toNat + xOverflow < 2^31) ∧
      (p.has ps2YSign → position.Y + ((256 - p.y.toNat) % 256 : ℕ) + yOverflow < 2^31 ∧
        (p.y = 0 → s.Height - 1 ≤ position.Y + yOverflow)) := by
  intro p position xOverflow yOverflow
  rw [kiProcessMouse_position hready, Packet.position, POINT.mk.injEq]
  refine and_congr ?_ ?_
  · cases hsign : p.has ps2XSign
    · simpa [Packet.written, p, hsign, negated] using right_iff hp.left hp.right hs.widthINT _ p.x
    · simpa [Packet.written, p, hsign] using left_iff hp.left hp.right hs.widthINT _ p.x
  · cases hsign : p.has ps2YSign
    · simpa [Packet.written, p, hsign, negated] using up hp.top hp.bottom hs.heightINT _ p.y
    · simpa [Packet.written, p, hsign] using down_iff hp.top hp.bottom hs.heightINT _ p.y

/-- 256 to the left from (300, 200): the pointer stays. -/
theorem sign_with_zero_byte_stays :
    let p : Packet := ⟨0b00011000, 0, 0⟩
    let m := Mouse.initial fun _ => 0
    (kiProcessMouse ⟨640, 480, 2560⟩ { m with
        kiMousePacket := p, bMousePacketReady := true, cursor.kiMousePosition := ⟨300, 200⟩ }).cursor.kiMousePosition ≠
      ⟨clamp (300 + delta (p.has ps2XSign) (p.has ps2XOverflow) p.x) 0 (640 - 1),
        clamp (200 - delta (p.has ps2YSign) (p.has ps2YOverflow) p.y) 0 (480 - 1)⟩ := by
  intro p m
  rw [kiProcessMouse_position rfl]
  decide

/-- One to the left and two down. -/
theorem movesByDelta_iff_left_down :
    (kiProcessMouse ⟨640, 480, 2560⟩ { Mouse.initial (fun _ => 0) with
        kiMousePacket := ⟨0b00111000, 255, 254⟩
        bMousePacketReady := true
        cursor.kiMousePosition := ⟨300, 200⟩ }).cursor.kiMousePosition = ⟨299, 202⟩ :=
  (movesByDelta_iff ⟨by decide, by decide, by decide, by decide⟩ ⟨by decide, by decide, by decide, by decide⟩ rfl).mpr
    (by decide)

end Movement

end Open98.Drv
