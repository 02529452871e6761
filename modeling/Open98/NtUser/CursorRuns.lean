import Open98.Drv.Mouse

/-! The pointer over all runs of mouse bytes and refreshes. -/
namespace Open98.NtUser
open Drv

/-- `DwmRefreshBuffer` puts the composed picture into the frame buffer and draws the pointer again. -/
def dwmRefreshBuffer (s : Screen) (m : Mouse) (picture : ℕ → UINT) : Mouse :=
  if !m.bRefreshBuffer then m
  else
    let cursorPos := m.cursor.kiMousePosition
    let (cursor, log) := ntSetCursorPos s cursorPos.X cursorPos.Y { m.cursor with framebuffer := picture }
    { m with bRefreshBuffer := false, cursor := cursor, accesses := m.accesses ++ log }

/-- The interrupts that move or draw the pointer. -/
inductive Interrupt
  | mouse (ucData : UCHAR)
  | tick (picture : ℕ → UINT)

def Interrupt.handle (s : Screen) (m : Mouse) : Interrupt → Mouse
  | mouse ucData => kiHandlePS2Mouse s m ucData
  | tick picture => dwmRefreshBuffer s m picture

section OnScreen
variable {s : Screen} {m : Mouse}

/-- The invariant: both positions are on the screen, and so was every access. -/
structure Contained (s : Screen) (m : Mouse) : Prop where
  position : OnScreen s m.cursor.kiMousePosition
  old : OnScreen s m.cursor.pMousePositionOld
  fine : ∀ a ∈ m.accesses, a.Fine s

lemma clamped_onScreen {size : ℤ} (h : 1 ≤ size) (n : ℤ) : 0 ≤ clamped size n ∧ clamped size n < size := by
  simp only [clamped]
  split_ifs <;> omega

lemma position_onScreen (hs : s.Valid) (p : Packet) (position : POINT) : OnScreen s (p.position s position) := by
  obtain ⟨hleft, hright⟩ := clamped_onScreen hs.width
    (moved (p.has ps2XSign) (p.has ps2XOverflow) p.written.x position.X)
  obtain ⟨htop, hbottom⟩ := clamped_onScreen hs.height
    (moved (!p.has ps2YSign) (p.has ps2YOverflow) p.written.y position.Y)
  exact ⟨hleft, hright, htop, hbottom⟩

lemma onScreen_of_positions {c : Cursor} {p : POINT} (h : c.positions = (p, p)) (hp : OnScreen s p) :
    OnScreen s c.kiMousePosition ∧ OnScreen s c.pMousePositionOld := by
  obtain ⟨hposition, hold⟩ := Prod.mk.inj h
  exact ⟨hposition ▸ hp, hold ▸ hp⟩

/-- The invariant is kept by a call of `NtSetCursorPos`. -/
lemma Contained.set (h : Contained s m) (hs : s.Valid) {c : Cursor} (hc : OnScreen s c.kiMousePosition)
    (hold : OnScreen s c.pMousePositionOld) :
    ∀ a ∈ m.accesses ++ (ntSetCursorPos s c.kiMousePosition.X c.kiMousePosition.Y c).2, a.Fine s := by
  intro a ha
  rcases List.mem_append.mp ha with ha | ha
  · exact h.fine a ha
  · exact ntSetCursorPos_fine hs hc hc hold a ha

lemma Contained.processed (h : Contained s m) (hs : s.Valid) : Contained s (kiProcessMouse s m) := by
  cases hready : m.bMousePacketReady with
  | false =>
    rw [kiProcessMouse, hready]
    exact h
  | true =>
    have hposition := position_onScreen hs m.kiMousePacket m.cursor.kiMousePosition
    obtain ⟨hnew, hold⟩ := onScreen_of_positions (kiProcessMouse_positions (s := s) hready) hposition
    refine ⟨hnew, hold, ?_⟩
    rw [kiProcessMouse, hready]
    exact h.set hs (c := { m.cursor with kiMousePosition := m.kiMousePacket.position s m.cursor.kiMousePosition })
      hposition h.old

/-- Storing a byte draws nothing. -/
lemma kiHandlePS2Mouse_drawn (m : Mouse) (ucData : UCHAR) :
    (kiHandlePS2Mouse s m ucData).cursor = (kiProcessMouse s m).cursor ∧
      (kiHandlePS2Mouse s m ucData).accesses = (kiProcessMouse s m).accesses := by
  rw [kiHandlePS2Mouse]
  generalize kiProcessMouse s m = m
  by_cases hskip : m.bSkip = true
  · rw [if_pos hskip]
    exact ⟨rfl, rfl⟩
  · rw [if_neg hskip]
    split
    · split_ifs <;> exact ⟨rfl, rfl⟩
    · split_ifs <;> exact ⟨rfl, rfl⟩
    · split_ifs <;> exact ⟨rfl, rfl⟩
    · exact ⟨rfl, rfl⟩

lemma Contained.refreshed (h : Contained s m) (hs : s.Valid) (picture : ℕ → UINT) :
    Contained s (dwmRefreshBuffer s m picture) := by
  rw [dwmRefreshBuffer]
  split_ifs
  · exact h
  · let c := { m.cursor with framebuffer := picture }
    have hpositions := ntSetCursorPos_positions s c.kiMousePosition.X c.kiMousePosition.Y c
    obtain ⟨hposition, hold⟩ := onScreen_of_positions hpositions h.position
    exact ⟨hposition, hold, h.set hs (c := c) h.position h.old⟩

lemma Contained.handle (h : Contained s m) (hs : s.Valid) (i : Interrupt) : Contained s (i.handle s m) := by
  cases i with
  | mouse ucData =>
    obtain ⟨hcursor, haccesses⟩ := kiHandlePS2Mouse_drawn (s := s) m ucData
    obtain ⟨hposition, hold, hfine⟩ := h.processed hs
    refine ⟨?_, ?_, ?_⟩
    · exact hcursor ▸ hposition
    · exact hcursor ▸ hold
    · exact haccesses ▸ hfine
  | tick picture => exact h.refreshed hs picture

/-- The run lemma. -/
lemma Contained.run (h : Contained s m) (hs : s.Valid) (interrupts : List Interrupt) :
    Contained s (interrupts.foldl (Interrupt.handle s) m) := by
  induction interrupts generalizing m with
  | nil => exact h
  | cons i rest ih => exact ih (h.handle hs i)

/-- From the corner (0, 0), the pointer stays on the screen. -/
theorem drawing_onScreen (hs : s.Valid) (hposition : m.cursor.kiMousePosition = ⟨0, 0⟩)
    (hold : m.cursor.pMousePositionOld = ⟨0, 0⟩) (haccesses : m.accesses = []) (interrupts : List Interrupt) :
    ∀ a ∈ (interrupts.foldl (Interrupt.handle s) m).accesses, a.Fine s := by
  have hcorner : OnScreen s ⟨0, 0⟩ := by
    have := hs.width; have := hs.height
    exact ⟨le_refl _, by dsimp only; omega, le_refl _, by dsimp only; omega⟩
  have hstart : Contained s m := by
    refine ⟨hposition ▸ hcorner, hold ▸ hcorner, ?_⟩
    rw [haccesses]
    exact fun a ha => absurd ha List.not_mem_nil
  exact (hstart.run hs interrupts).fine

/-- A 1 × 1 screen; a packet to the right and up, the byte after it, and a tick. -/
theorem drawing_onScreen_corner :
    let s : Screen := ⟨1, 1, 4⟩
    s.Valid ∧ ∀ a ∈ ([Interrupt.mouse 0xFA, .mouse 0b00001000, .mouse 200, .mouse 7, .mouse 0, .tick fun _ => 0].foldl
      (Interrupt.handle s) (Mouse.initial fun _ => 0)).accesses, a.Fine s := by
  have hs : Screen.Valid ⟨1, 1, 4⟩ := ⟨⟨by decide, by decide, by decide, by decide⟩, by decide, by decide⟩
  exact ⟨hs, drawing_onScreen hs rfl rfl rfl _⟩

end OnScreen

end Open98.NtUser
