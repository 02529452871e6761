import Open98.Library.Stores
import Open98.Mod.Draw

/-! `DwmInitialize` and `DwmRefreshBuffer` of `mod/wm.c`: the windows are drawn into `DwmAntiBuffer`, which is
copied into the frame buffer. -/
namespace Open98.Mod
open Drv NtUser Library

/-- The window manager with its buffer and the pointer. -/
structure Desktop where
  dwm : Dwm
  dwmAntiBuffer : ℤ → UINT
  cursor : Cursor

section Model

/-- `DwmFramebufferSize`, in bytes. -/
def dwmFramebufferSize (s : Screen) : ℤ := wrapINT (s.Pitch / 4 * s.Height * 4)

/-- `DwmInitialize`, when it has got its buffer: no object has been created, and the buffer is filled with
zeros. There is memory on both sides of it. -/
def dwmInitialize (s : Screen) (windows : ℤ → KSystemWindow) (memory : ℤ → UINT) (cursor : Cursor) : Desktop where
  dwm := ⟨windows, 0, true⟩
  dwmAntiBuffer := fun i => if 0 ≤ i ∧ 4 * i < dwmFramebufferSize s then 0 else memory i
  cursor := cursor

/-- The loop over the background, up to the number of bytes. -/
def background (s : Screen) : List Store :=
  (List.range (dwmFramebufferSize s).toNat).map fun i : ℕ => ((i : ℤ), 0x00008080)

/-- Everything that is stored in `DwmAntiBuffer`. -/
def composition (s : Screen) (a : Assets) (d : Dwm) : List Store :=
  background s ++ (List.range d.iLastWindow).flatMap (drawWindow s a d)

def paint (stores : List Store) (buffer : ℤ → UINT) : ℤ → UINT := assign Prod.fst Prod.snd stores buffer

/-- The loop that copies: the bound is a `SIZE_T`, and the counter an `INT`. The offsets in the frame buffer are
multiples of four. -/
def blit (s : Screen) (anti : ℤ → UINT) (framebuffer : ℕ → UINT) (k : ℕ) : UINT :=
  let turns := min ((dwmFramebufferSize s % 2^64).toNat / 4) (2^31)
  if k % 4 = 0 ∧ k / 4 < turns then anti (k / 4 : ℕ) else framebuffer k

/-- `DwmRefreshBuffer`, and what it stores in `DwmAntiBuffer`. -/
def dwmRefreshBuffer (s : Screen) (a : Assets) (d : Desktop) : Desktop × List Store :=
  if !d.dwm.bRefreshBuffer then (d, [])
  else
    let stores := composition s a d.dwm
    let anti := paint stores d.dwmAntiBuffer
    let cursorPos := d.cursor.kiMousePosition
    let cursor := (ntSetCursorPos s cursorPos.X cursorPos.Y
      { d.cursor with framebuffer := blit s anti d.cursor.framebuffer }).1
    ({ dwm := { d.dwm with bRefreshBuffer := false }, dwmAntiBuffer := anti, cursor := cursor }, stores)

/-- The calls to the window manager. -/
inductive DwmCall
  | create (o : Object)
  | setWindowPos (m : Move)
  | refresh

def DwmCall.run (s : Screen) (a : Assets) (d : Desktop) : DwmCall → Desktop × List Store
  | create o => ({ d with dwm := (dwmCreateObject d.dwm o).dwm }, [])
  | setWindowPos m => ({ d with dwm := m.run d.dwm }, [])
  | refresh => dwmRefreshBuffer s a d

/-- What a sequence of calls stores in `DwmAntiBuffer`. -/
def storesOf (s : Screen) (a : Assets) : Desktop → List DwmCall → List Store
  | _, [] => []
  | d, call :: rest => (call.run s a d).2 ++ storesOf s a (call.run s a d).1 rest

end Model

section Bounds
variable {s : Screen} {a : Assets} {d : Desktop} {calls : List DwmCall}

/-- An element inside the allocated bytes. -/
def InBuffer (s : Screen) (w : Store) : Prop := 0 ≤ w.1 ∧ 4 * w.1 + 4 ≤ dwmFramebufferSize s

/-- The background alone goes beyond the buffer: its last turn. -/
lemma background_leaves (hsize : 0 < dwmFramebufferSize s) : ∃ w ∈ background s, ¬ InBuffer s w := by
  refine ⟨(dwmFramebufferSize s - 1, 0x00008080), ?_, fun h => ?_⟩
  · rw [background, List.mem_map]
    refine ⟨(dwmFramebufferSize s).toNat - 1, List.mem_range.mpr ?_, Prod.ext ?_ rfl⟩
    · omega
    · dsimp only
      omega
  · have hle := h.2
    dsimp only at hle
    omega

lemma refresh_leaves (hsize : 0 < dwmFramebufferSize s) (hflag : d.dwm.bRefreshBuffer = true) (a : Assets) :
    ∃ w ∈ (dwmRefreshBuffer s a d).2, ¬ InBuffer s w := by
  obtain ⟨w, hw, hout⟩ := background_leaves hsize
  refine ⟨w, ?_, hout⟩
  rw [dwmRefreshBuffer, hflag]
  exact List.mem_append_left _ hw

/-- The flag stays set until the first refresh. -/
lemma dwmCreateObject_flag {t : Dwm} (h : t.bRefreshBuffer = true) (o : Object) :
    (dwmCreateObject t o).dwm.bRefreshBuffer = true := by
  rw [dwmCreateObject]
  split_ifs
  · exact h
  · rfl

lemma move_flag {t : Dwm} (h : t.bRefreshBuffer = true) (m : Move) : (m.run t).bRefreshBuffer = true := by
  rw [Move.run, dwmSetWindowPos]
  split_ifs
  · exact h
  · rfl

lemma storesOf_inBuffer_iff (hsize : 0 < dwmFramebufferSize s) (hflag : d.dwm.bRefreshBuffer = true) :
    (∀ w ∈ storesOf s a d calls, InBuffer s w) ↔ DwmCall.refresh ∉ calls := by
  induction calls generalizing d with
  | nil => simp [storesOf]
  | cons call rest ih =>
    rw [storesOf, List.mem_cons, not_or]
    cases call with
    | create o =>
      rw [DwmCall.run, List.nil_append, ih (dwmCreateObject_flag hflag o)]
      simp
    | setWindowPos m =>
      rw [DwmCall.run, List.nil_append, ih (move_flag hflag m)]
      simp
    | refresh =>
      obtain ⟨w, hw, hout⟩ := refresh_leaves hsize hflag a
      refine iff_of_false (fun h => hout ?_) (by simp)
      exact h w (List.mem_append_left _ hw)

/-- Whatever is created and moved, every run in which the screen is refreshed stores beyond the buffer. -/
theorem refresh_inBuffer_iff (hsize : 0 < dwmFramebufferSize s) (windows : ℤ → KSystemWindow) (memory : ℤ → UINT)
    (cursor : Cursor) : (∀ w ∈ storesOf s a (dwmInitialize s windows memory cursor) calls, InBuffer s w) ↔
      DwmCall.refresh ∉ calls :=
  storesOf_inBuffer_iff hsize rfl

/-- The memory and the drawing material of the examples: all zeros. -/
def zeroWindows : ℤ → KSystemWindow := fun _ => ⟨⟨0, 0, 0, 0, 0, 0, 0⟩, 0⟩

def noAssets : Assets := ⟨fun _ => 0, fun _ => [], 0⟩

def bootCursor : Cursor := ⟨⟨0, 0⟩, ⟨0, 0⟩, false, fun _ => 0, fun _ => 0, fun _ => 0⟩

/-- 640 × 480, without a window. -/
theorem first_refresh_leaves : ¬ ∀ w ∈ storesOf ⟨640, 480, 2560⟩ noAssets
    (dwmInitialize ⟨640, 480, 2560⟩ zeroWindows (fun _ => 0) bootCursor) [.refresh], InBuffer ⟨640, 480, 2560⟩ w := by
  obtain ⟨w, hw, hout⟩ := refresh_leaves (s := ⟨640, 480, 2560⟩) (by decide)
    (d := dwmInitialize ⟨640, 480, 2560⟩ zeroWindows (fun _ => 0) bootCursor) rfl noAssets
  exact fun h => hout (h w (List.mem_append_left _ hw))

/-- A window that is created and not drawn, and the same window drawn. -/
theorem refresh_inBuffer_iff_created :
    (∀ w ∈ storesOf ⟨640, 480, 2560⟩ noAssets (dwmInitialize ⟨640, 480, 2560⟩ zeroWindows (fun _ => 0) bootCursor)
      [.create ⟨0, 0, 10, 10, 500, 300, 0⟩], InBuffer ⟨640, 480, 2560⟩ w) ∧
    ¬ ∀ w ∈ storesOf ⟨640, 480, 2560⟩ noAssets (dwmInitialize ⟨640, 480, 2560⟩ zeroWindows (fun _ => 0) bootCursor)
      [.create ⟨0, 0, 10, 10, 500, 300, 0⟩, .refresh], InBuffer ⟨640, 480, 2560⟩ w := by
  constructor
  · rw [refresh_inBuffer_iff (by decide)]
    simp
  · rw [refresh_inBuffer_iff (by decide)]
    simp

end Bounds

end Open98.Mod
