import Open98.Mod.Refresh
import Open98.NtUser.SavedUnder

/-! The pointer over the pictures of `DwmRefreshBuffer`: what clearing it leaves on the screen, in every run of
refreshes and moves. -/
namespace Open98.Mod
open Drv NtUser Library

section Model

/-- The windows change in any way, the screen is refreshed, or the pointer is moved. -/
inductive DesktopStep
  | windows (dwm : Dwm)
  | refresh
  | setCursorPos (X Y : ℤ)

def DesktopStep.run (s : Screen) (a : Assets) (d : Desktop) : DesktopStep → Desktop
  | windows dwm => { d with dwm := dwm }
  | refresh => (dwmRefreshBuffer s a d).1
  | setCursorPos X Y => { d with cursor := (ntSetCursorPos s X Y d.cursor).1 }

def runSteps (s : Screen) (a : Assets) (d : Desktop) (steps : List DesktopStep) : Desktop :=
  steps.foldl (DesktopStep.run s a) d

end Model

section Blit
variable {s : Screen}

/-- The frame buffer consists of whole pixels, and its size is an `INT`. -/
structure Framed (s : Screen) : Prop extends s.Valid where
  aligned : 4 ∣ s.Pitch
  small : s.Height * s.Pitch < 2^31

lemma Framed.dwmFramebufferSize_eq (hs : Framed s) : dwmFramebufferSize s = s.Height * s.Pitch := by
  have hsize : s.Pitch / 4 * s.Height * 4 = s.Height * s.Pitch := by
    rw [mul_right_comm, Int.ediv_mul_cancel hs.aligned, mul_comm]
  have hsmall := hs.small
  have hpos : 0 ≤ s.Height * s.Pitch := by
    have := hs.height; have := hs.width; have := hs.pitch
    exact mul_nonneg (by omega) (by omega)
  rw [dwmFramebufferSize, hsize, wrapINT]
  omega

/-- A pixel has the same place in both buffers. -/
lemma Framed.offset_eq (hs : Framed s) {x y : ℕ} (hx : x < s.Width) (hy : y < s.Height) :
    (s.offset x y : ℤ) = 4 * antiIndex s x y ∧ s.offset x y + 4 ≤ s.Height * s.Pitch := by
  obtain ⟨-, hle, hoffset⟩ := pixel_fine hs.toValid hx hy
  have hsmall := hs.small
  obtain ⟨q, hq⟩ := hs.aligned
  have hdiv : s.Pitch / 4 = q := by omega
  have hplace : (s.offset x y : ℤ) = 4 * (x + q * y) := by
    rw [hoffset (by omega), hq]
    ring
  refine ⟨?_, hle⟩
  rw [antiIndex, hdiv, wrapINT, hplace]
  omega

/-- The whole screen is copied. -/
lemma Framed.blit_offset (hs : Framed s) (anti : ℤ → UINT) (framebuffer : ℕ → UINT) {x y : ℕ} (hx : x < s.Width)
    (hy : y < s.Height) : blit s anti framebuffer (s.offset x y) = anti (antiIndex s x y) := by
  obtain ⟨hplace, hle⟩ := hs.offset_eq hx hy
  have hsmall := hs.small
  rw [blit, hs.dwmFramebufferSize_eq, if_pos (by omega)]
  congr 1
  omega

end Blit

section Transparency
variable {s : Screen} {a : Assets} {d : Desktop} {steps : List DesktopStep}

/-- The picture of the windows. -/
def picture (s : Screen) (a : Assets) (d : Desktop) : ℤ → UINT := paint (composition s a d.dwm) d.dwmAntiBuffer

/-- Clearing the pointer leaves the picture that was drawn at the last refresh. -/
def Transparent (s : Screen) (d : Desktop) : Prop := ∀ x y : ℕ, x < s.Width → y < s.Height →
  (kiClearCursor s d.cursor.kiMousePosition d.cursor).1.framebuffer (s.offset x y) = d.dwmAntiBuffer (antiIndex s x y)

/-- If the pointer is on the screen, then the new picture has under it the pixels that were saved when it was
drawn. -/
def Settles (s : Screen) (a : Assets) (d : Desktop) : Prop := d.cursor.bMouseDown = true →
  ∀ xy ∈ marked s ucMousePointerInside d.cursor.pMousePositionOld, d.cursor.mouseCursorBuffer (savedIndex xy) =
    picture s a d (antiIndex s (d.cursor.pMousePositionOld.X + xy.1) (d.cursor.pMousePositionOld.Y + xy.2))

/-- The pointer is on the screen, and was drawn where it is. -/
structure Pointed (s : Screen) (c : Cursor) : Prop where
  position : OnScreen s c.kiMousePosition
  old : c.bMouseDown = true → c.pMousePositionOld = c.kiMousePosition

def DesktopStep.OnScreen (s : Screen) : DesktopStep → Prop
  | setCursorPos X Y => NtUser.OnScreen s ⟨X, Y⟩
  | _ => True

lemma pointed_ntSetCursorPos {X Y : ℤ} (hp : OnScreen s ⟨X, Y⟩) (c : Cursor) :
    Pointed s (ntSetCursorPos s X Y c).1 := by
  obtain ⟨hposition, hold⟩ := Prod.mk.inj (ntSetCursorPos_positions s X Y c)
  exact ⟨hposition ▸ hp, fun _ => hold.trans hposition.symm⟩

lemma Pointed.step (h : Pointed s d.cursor) {step : DesktopStep} (hstep : step.OnScreen s) :
    Pointed s (step.run s a d).cursor := by
  cases step with
  | windows dwm => exact h
  | refresh =>
    rw [DesktopStep.run, dwmRefreshBuffer]
    split_ifs
    · exact h
    · exact pointed_ntSetCursorPos h.position _
  | setCursorPos X Y => exact pointed_ntSetCursorPos hstep _

lemma Pointed.run (h : Pointed s d.cursor) (hsteps : ∀ step ∈ steps, step.OnScreen s) :
    Pointed s (runSteps s a d steps).cursor := by
  induction steps generalizing d with
  | nil => exact h
  | cons step rest ih =>
    exact ih (h.step (hsteps step List.mem_cons_self)) fun t ht => hsteps t (List.mem_cons_of_mem _ ht)

/-- In terms of the picture without the pointer. -/
lemma Pointed.transparent_iff (h : Pointed s d.cursor) : Transparent s d ↔ ∀ x y : ℕ, x < s.Width → y < s.Height →
    uncovered s d.cursor (s.offset x y) = d.dwmAntiBuffer (antiIndex s x y) := by
  have hcleared : (kiClearCursor s d.cursor.kiMousePosition d.cursor).1.framebuffer = uncovered s d.cursor := by
    by_cases hdown : d.cursor.bMouseDown = true
    · rw [uncovered, h.old hdown]
    · rw [uncovered_of_not_drawn (Bool.eq_false_iff.mpr hdown), kiClearCursor, if_neg hdown]
  rw [Transparent, hcleared]

lemma mem_marked_place (hs : s.Valid) {p : POINT} (hp : OnScreen s p) {xy : ℕ × ℕ}
    (hxy : xy ∈ marked s ucMousePointerInside p) : ∃ x y : ℕ, (x : ℤ) = p.X + xy.1 ∧ (y : ℤ) = p.Y + xy.2 ∧
      x < s.Width ∧ y < s.Height ∧ pointerOffset s p xy = s.offset x y := by
  obtain ⟨⟨-, hx⟩, -, hy⟩ := mem_pointerPixels hs hp (mem_marked.mp hxy).1
  have hX := toUINT_pixel hp.left hx hs.widthINT
  have hY := toUINT_pixel hp.top hy hs.heightINT
  exact ⟨_, _, hX, hY, by omega, by omega, rfl⟩

/-- Clearing the pointer leaves a picture that was put under it, if it has the saved pixels. -/
lemma Pointed.uncovered_iff {c : Cursor} (hc : Pointed s c) (hs : Framed s) {pixels : ℤ → UINT}
    (hpixels : ∀ x y : ℕ, x < s.Width → y < s.Height → c.framebuffer (s.offset x y) = pixels (antiIndex s x y)) :
    (∀ x y : ℕ, x < s.Width → y < s.Height → uncovered s c (s.offset x y) = pixels (antiIndex s x y)) ↔
      (c.bMouseDown = true → ∀ xy ∈ marked s ucMousePointerInside c.pMousePositionOld,
        c.mouseCursorBuffer (savedIndex xy) =
          pixels (antiIndex s (c.pMousePositionOld.X + xy.1) (c.pMousePositionOld.Y + xy.2))) := by
  have hsmall := hs.small
  by_cases hdown : c.bMouseDown = true
  · have hold : OnScreen s c.pMousePositionOld := hc.old hdown ▸ hc.position
    have hinj : Set.InjOn (pointerOffset s c.pMousePositionOld)
        {xy | xy ∈ marked s ucMousePointerInside c.pMousePositionOld} :=
      (pointerOffset_injOn hs.toValid (by omega) hold).mono fun xy hxy => (mem_marked.mp hxy).1
    rw [uncovered_eq hdown]
    constructor
    · intro h _ xy hxy
      obtain ⟨x, y, hX, hY, hx, hy, hplace⟩ := mem_marked_place hs.toValid hold hxy
      rw [← hX, ← hY, ← h x y hx hy, ← hplace, assign_of_mem hinj hxy]
    · intro h x y hx hy
      have hrestored : assign (pointerOffset s c.pMousePositionOld) (fun xy => c.mouseCursorBuffer (savedIndex xy))
          (marked s ucMousePointerInside c.pMousePositionOld) c.framebuffer = c.framebuffer := by
        refine assign_restore (fun xy hxy => ?_) fun _ _ => rfl
        obtain ⟨x, y, hX, hY, hx, hy, hplace⟩ := mem_marked_place hs.toValid hold hxy
        rw [h hdown xy hxy, hplace, hpixels x y hx hy, hX, hY]
      rw [hrestored]
      exact hpixels x y hx hy
  · rw [uncovered_of_not_drawn (Bool.eq_false_iff.mpr hdown)]
    exact iff_of_true hpixels fun hdown' => absurd hdown' hdown

/-- The cursor when the new picture has been copied over it. -/
def copiedCursor (s : Screen) (a : Assets) (d : Desktop) : Cursor :=
  { d.cursor with framebuffer := blit s (picture s a d) d.cursor.framebuffer }

lemma Framed.copiedCursor_offset (hs : Framed s) (a : Assets) (d : Desktop) {x y : ℕ} (hx : x < s.Width)
    (hy : y < s.Height) : (copiedCursor s a d).framebuffer (s.offset x y) = picture s a d (antiIndex s x y) :=
  hs.blit_offset _ _ hx hy

lemma dwmRefreshBuffer_eq (hflag : d.dwm.bRefreshBuffer = true) : (dwmRefreshBuffer s a d).1 =
    { dwm := { d.dwm with bRefreshBuffer := false }
      dwmAntiBuffer := picture s a d
      cursor := (ntSetCursorPos s d.cursor.kiMousePosition.X d.cursor.kiMousePosition.Y (copiedCursor s a d)).1 } := by
  rw [dwmRefreshBuffer, hflag]
  rfl

/-- One refresh: the pointer is cleared over the new picture with what was saved from the old one. -/
lemma transparent_refresh_iff (hs : Framed s) (hd : Pointed s d.cursor) (hflag : d.dwm.bRefreshBuffer = true) :
    Transparent s (dwmRefreshBuffer s a d).1 ↔ Settles s a d := by
  have hsmall := hs.small
  have hpointed : Pointed s (DesktopStep.run s a d .refresh).cursor := hd.step trivial
  rw [DesktopStep.run] at hpointed
  have huncovered : uncovered s (dwmRefreshBuffer s a d).1.cursor = uncovered s (copiedCursor s a d) := by
    rw [dwmRefreshBuffer_eq hflag]
    exact uncovered_ntSetCursorPos hs.toValid (by omega) hd.position _
  rw [hpointed.transparent_iff, huncovered, dwmRefreshBuffer_eq hflag]
  have hcopied : Pointed s (copiedCursor s a d) := ⟨hd.position, hd.old⟩
  exact hcopied.uncovered_iff hs fun x y hx hy => hs.copiedCursor_offset a d hx hy

/-- A step keeps the pointer transparent, if a refresh settles. -/
lemma Transparent.step (h : Transparent s d) (hs : Framed s) (hd : Pointed s d.cursor) {step : DesktopStep}
    (hstep : step.OnScreen s) (hsettles : step = .refresh → d.dwm.bRefreshBuffer = true → Settles s a d) :
    Transparent s (step.run s a d) := by
  cases step with
  | windows dwm => exact h
  | refresh =>
    by_cases hflag : d.dwm.bRefreshBuffer = true
    · exact (transparent_refresh_iff hs hd hflag).mpr (hsettles rfl hflag)
    · rw [DesktopStep.run, dwmRefreshBuffer, Bool.eq_false_iff.mpr hflag]
      exact h
  | setCursorPos X Y =>
    have hsmall := hs.small
    have hpointed : Pointed s (DesktopStep.run s a d (.setCursorPos X Y)).cursor := hd.step hstep
    rw [hd.transparent_iff] at h
    rw [hpointed.transparent_iff]
    intro x y hx hy
    have huncovered := congrFun (uncovered_ntSetCursorPos hs.toValid (by omega) hstep d.cursor) (s.offset x y)
    exact huncovered.trans (h x y hx hy)

/-- From the first refresh of a run on, the pointer is transparent. -/
def StaysTransparent (s : Screen) (a : Assets) (d : Desktop) (steps : List DesktopStep) : Prop :=
  ∀ before after rest, steps = before ++ .refresh :: after ++ rest →
    (runSteps s a d before).dwm.bRefreshBuffer = true → Transparent s (runSteps s a d (before ++ .refresh :: after))

/-- Every refresh of a run settles. -/
def RefreshesSettle (s : Screen) (a : Assets) (d : Desktop) (steps : List DesktopStep) : Prop :=
  ∀ before rest, steps = before ++ .refresh :: rest →
    (runSteps s a d before).dwm.bRefreshBuffer = true → Settles s a (runSteps s a d before)

lemma runSteps_append (d : Desktop) (before after : List DesktopStep) :
    runSteps s a d (before ++ after) = runSteps s a (runSteps s a d before) after := List.foldl_append

/-- The pointer is transparent throughout a run exactly if each refresh draws under it what was there. -/
theorem staysTransparent_iff (hs : Framed s) (hd : Pointed s d.cursor) (hsteps : ∀ step ∈ steps, step.OnScreen s) :
    StaysTransparent s a d steps ↔ RefreshesSettle s a d steps := by
  have hpointed : ∀ before rest, steps = before ++ rest → Pointed s (runSteps s a d before).cursor := by
    rintro before rest rfl
    exact hd.run fun step hstep => hsteps step (List.mem_append_left _ hstep)
  constructor
  · intro h before rest heq hflag
    rw [← transparent_refresh_iff hs (hpointed before _ heq) hflag]
    have htransparent := h before [] rest (by rw [heq]; simp) hflag
    rwa [runSteps_append] at htransparent
  · intro h before after
    -- from the refresh on, one step after the other
    induction after using List.reverseRecOn with
    | nil =>
      intro rest heq hflag
      have heq' : steps = before ++ .refresh :: rest := by rw [heq]; simp
      rw [runSteps_append]
      exact (transparent_refresh_iff hs (hpointed before _ heq') hflag).mpr (h before rest heq' hflag)
    | append_singleton after step ih =>
      intro rest heq hflag
      have heq' : steps = before ++ .refresh :: after ++ step :: rest := by rw [heq]; simp
      have hbefore := ih (step :: rest) heq' hflag
      rw [← List.cons_append, ← List.append_assoc, runSteps_append]
      refine hbefore.step hs (hpointed _ _ heq') (hsteps step (heq' ▸ by simp)) ?_
      rintro rfl
      exact h _ rest heq'

/-- One form in the upper left corner. -/
def cornerForm : Dwm := ⟨fun _ => ⟨⟨0, 0, 0, 0, 5, 5, 0⟩, 0⟩, 1, true⟩

def bootScreen : Screen := ⟨640, 480, 2560⟩

def bootDesktop : Desktop := dwmInitialize bootScreen zeroWindows (fun _ => 0) bootCursor

lemma framed_boot : Framed bootScreen :=
  ⟨⟨⟨by decide, by decide, by decide, by decide⟩, by decide, by decide⟩, by decide, by decide⟩

lemma pointed_boot : Pointed bootScreen bootDesktop.cursor :=
  ⟨⟨le_refl _, by decide, le_refl _, by decide⟩, fun h => absurd h (by decide)⟩

lemma corner_background : picture bootScreen noAssets bootDesktop 0 = 0x8080 := by
  have hcomposition : composition bootScreen noAssets bootDesktop.dwm = background bootScreen := List.append_nil _
  rw [picture, hcomposition]
  refine assign_of_forall_eq (fun w hw _ => ?_) (.inr ⟨(0, 0x00008080), ?_, rfl⟩)
  · obtain ⟨i, -, rfl⟩ := List.mem_map.mp hw
    rfl
  · exact List.mem_map.mpr ⟨0, List.mem_range.mpr (by decide), rfl⟩

lemma corner_form (anti : ℤ → UINT) (cursor : Cursor) :
    picture bootScreen noAssets ⟨cornerForm, anti, cursor⟩ 0 = 0xDFDFDF := by
  have hstores : ((List.range cornerForm.iLastWindow).flatMap
      (drawWindow bootScreen noAssets cornerForm)).filter (·.1 = 0) = [(0, 0x000000), (0, 0xDFDFDF)] := by
    decide +kernel
  rw [picture, composition, paint, assign_append, assign_filter]
  dsimp only
  rw [hstores]
  rfl

/-- The pointer has been drawn over the background. -/
lemma corner_not_settled {pixels : ℕ → UINT} {anti : ℤ → UINT} {cursor : Cursor}
    (h : DrawnOver bootScreen ⟨0, 0⟩ pixels cursor)
    (hpixels : pixels (pointerOffset bootScreen ⟨0, 0⟩ (0, 0)) = 0x8080) :
    ¬ Settles bootScreen noAssets ⟨cornerForm, anti, cursor⟩ := by
  intro hsettles
  have hcorner : (0, 0) ∈ marked bootScreen ucMousePointerInside ⟨0, 0⟩ := by decide +kernel
  have hnew := hsettles h.drawn (0, 0)
  dsimp only at hnew
  rw [h.old, h.saved _ hcorner, hpixels] at hnew
  have hpixel : (0x8080 : UINT) = 0xDFDFDF := (hnew hcorner).trans (corner_form anti cursor)
  exact absurd hpixel (by decide)

lemma windows_after_refresh (hflag : d.dwm.bRefreshBuffer = true) (dwm : Dwm) :
    runSteps s a d [.refresh, .windows dwm] = ⟨dwm, picture s a d,
      (ntSetCursorPos s d.cursor.kiMousePosition.X d.cursor.kiMousePosition.Y (copiedCursor s a d)).1⟩ := by
  have hrefresh : DesktopStep.run s a d .refresh = _ := dwmRefreshBuffer_eq hflag
  rw [runSteps, List.foldl_cons, List.foldl_cons, hrefresh]
  rfl

/-- A form appears under the pointer: its corner keeps the background. -/
theorem form_under_pointer_shows_background : ¬ StaysTransparent bootScreen noAssets bootDesktop
    [.refresh, .windows cornerForm, .refresh] := by
  intro h
  have htransparent := h [.refresh, .windows cornerForm] [] [] rfl rfl
  have hpointed :
      Pointed bootScreen (runSteps bootScreen noAssets bootDesktop [.refresh, .windows cornerForm]).cursor :=
    pointed_boot.run fun step hstep => by rcases List.mem_pair.mp hstep with rfl | rfl <;> trivial
  rw [runSteps_append] at htransparent
  rw [windows_after_refresh rfl] at htransparent hpointed
  have hsettles := (transparent_refresh_iff framed_boot hpointed rfl).mp htransparent
  -- at the first refresh, the background was saved
  refine corner_not_settled (ntSetCursorPos_drawnOver framed_boot.toValid (by decide) pointed_boot.position _) ?_
    hsettles
  rw [uncovered_of_not_drawn rfl]
  have hplace : pointerOffset bootScreen ⟨0, 0⟩ (0, 0) = bootScreen.offset 0 0 := by decide
  have hindex : antiIndex bootScreen (0 : ℕ) (0 : ℕ) = 0 := by decide
  have hcopied := framed_boot.copiedCursor_offset noAssets bootDesktop (x := 0) (y := 0) (by decide) (by decide)
  rw [hindex, corner_background] at hcopied
  rw [← hcopied, ← hplace]

/-- The pointer is drawn at the first refresh, and moved. -/
theorem staysTransparent_iff_moved : StaysTransparent bootScreen noAssets bootDesktop
    [.refresh, .setCursorPos 5 5] := by
  refine (staysTransparent_iff framed_boot pointed_boot fun step hstep => ?_).mpr fun before rest heq _ => ?_
  · rcases List.mem_pair.mp hstep with rfl | rfl
    · trivial
    · exact ⟨by decide, by decide, by decide, by decide⟩
  · -- nothing comes before the only refresh
    obtain rfl : before = [] := by
      cases before with
      | nil => rfl
      | cons step before =>
        cases before <;> simp at heq
    exact fun hdown => absurd hdown (by decide)

end Transparency

end Open98.Mod
