import Mathlib.Data.List.Basic
import Mathlib.Data.List.Pairwise
import Mathlib.Logic.Function.Basic
import Open98.Library.Search
import Open98.NtDef

/-! The window table of `mod/wm.c`. A string is known by its address. -/
namespace Open98.Mod
open Open98.Library

def maxWindows : ℕ := 128

def titleBarThickness : ℕ := 22

/-- What `DwmCreateObject` is called with. `Width` and `Height` are edges, not sizes. -/
structure Object where
  Title : ℕ
  Parent : ℕ
  X : UINT
  Y : UINT
  Width : UINT
  Height : UINT
  WindowType : UINT
  deriving DecidableEq, Repr

/-- `KSYSTEM_WINDOW`. -/
structure KSystemWindow extends Object where
  WindowID : ℤ
  deriving DecidableEq, Repr

/-- The globals of the window manager. The array `Windows` comes from `malloc`, and there is memory on both
sides of it. -/
structure Dwm where
  windows : ℤ → KSystemWindow
  iLastWindow : ℕ
  bRefreshBuffer : Bool

section Model

/-- The new state, the value that is returned, if any, and the indices into `Windows` that are used. -/
structure Created where
  dwm : Dwm
  returned : Option ℤ
  accesses : List ℤ

def dwmCreateObject (s : Dwm) (o : Object) : Created :=
  if s.iLastWindow = maxWindows then ⟨s, none, []⟩
  else
    let i := s.iLastWindow
    let s := { s with windows := Function.update s.windows i ⟨o, i⟩ }
    let s := { s with iLastWindow := s.iLastWindow + 1, bRefreshBuffer := true }
    ⟨s, some (s.windows s.iLastWindow).WindowID, [i, s.iLastWindow]⟩

/-- There is no return behind the loop. -/
def dwmAcquireInformation (s : Dwm) (WindowID : ℤ) : Option KSystemWindow :=
  (firstIn (fun i : ℕ => (s.windows i).WindowID = WindowID) 0 s.iLastWindow).map fun i : ℕ => s.windows i

/-- `DwmGetWindowIDByParent`; a title is compared by its address, and there is no return behind the loop. -/
def dwmGetWindowIDByParent (s : Dwm) (Parent : ℕ) (noReturn : ℤ) : ℤ :=
  match firstIn (fun i : ℕ => (s.windows i).Title = Parent) 0 s.iLastWindow with
  | some i => (s.windows i).WindowID
  | none => noReturn

/-- The window's edges, moved. -/
def KSystemWindow.moved (w : KSystemWindow) (NewX NewY : INT) : KSystemWindow where
  Title := w.Title
  Parent := w.Parent
  X := NewX
  Y := NewY
  Width := w.Width + (NewX - w.X)
  Height := w.Height + (NewY - w.Y)
  WindowType := w.WindowType
  WindowID := w.WindowID

def dwmSetWindowPos (s : Dwm) (WindowID : ℤ) (NewX NewY : INT) : Dwm :=
  if (s.windows WindowID).Width = 0 then s
  else { s with
    windows := Function.update s.windows WindowID ((s.windows WindowID).moved NewX NewY)
    bRefreshBuffer := true }

end Model

section Moves

/-- The sizes of a window: from one edge to the other. -/
def KSystemWindow.extent (w : KSystemWindow) : UINT × UINT := (w.Width - w.X, w.Height - w.Y)

/-- The arguments of a call of `DwmSetWindowPos`. -/
structure Move where
  WindowID : ℤ
  NewX : INT
  NewY : INT

def Move.run (s : Dwm) (m : Move) : Dwm := dwmSetWindowPos s m.WindowID m.NewX m.NewY

/-- Between two states, a window has been moved to where it has been asked to go, and nothing else. -/
structure MovedTo (extent : ℤ → UINT × UINT) (s t : Dwm) (m : Move) : Prop where
  X : (t.windows m.WindowID).X = m.NewX
  Y : (t.windows m.WindowID).Y = m.NewY
  extent : (t.windows m.WindowID).extent = extent m.WindowID
  others : ∀ i ≠ m.WindowID, t.windows i = s.windows i

/-- Every call of the sequence moves its window to where it has been asked to go. -/
def Follows (extent : ℤ → UINT × UINT) : Dwm → List Move → Prop
  | _, [] => True
  | s, m :: rest => MovedTo extent s (m.run s) m ∧ Follows extent (m.run s) rest

/-- A window with its right edge at zero does not move on: further calls have to ask for the same place. -/
def Stays (extent : ℤ → UINT × UINT) (m m' : Move) : Prop :=
  m.WindowID = m'.WindowID → m.NewX + (extent m.WindowID).1 = 0 → m'.NewX = m.NewX ∧ m'.NewY = m.NewY

variable {s : Dwm} {m : Move} {extent : ℤ → UINT × UINT} {moves : List Move}

lemma moved_extent (w : KSystemWindow) (x y : INT) : (w.moved x y).extent = w.extent := by
  simp only [KSystemWindow.extent, KSystemWindow.moved, Prod.mk.injEq]
  constructor <;> bv_omega

/-- The right edge behind a move. -/
lemma moved_width (w : KSystemWindow) (x y : INT) : (w.moved x y).Width = x + w.extent.1 := by
  simp only [KSystemWindow.extent, KSystemWindow.moved]
  bv_omega

lemma run_wedged (h : (s.windows m.WindowID).Width = 0) : m.run s = s := if_pos h

lemma run_windows (h : (s.windows m.WindowID).Width ≠ 0) : (m.run s).windows =
    Function.update s.windows m.WindowID ((s.windows m.WindowID).moved m.NewX m.NewY) := by
  rw [Move.run, dwmSetWindowPos, if_neg h]

lemma run_extent (s : Dwm) (m : Move) (i : ℤ) :
    ((m.run s).windows i).extent = (s.windows i).extent := by
  by_cases h : (s.windows m.WindowID).Width = 0
  · rw [run_wedged h]
  · rw [run_windows h]
    by_cases hi : i = m.WindowID
    · rw [hi, Function.update_self, moved_extent]
    · rw [Function.update_of_ne hi]

/-- A call on a window that is not wedged. -/
lemma movedTo_run (hextent : ∀ i, (s.windows i).extent = extent i) (h : (s.windows m.WindowID).Width ≠ 0) :
    MovedTo extent s (m.run s) m := by
  refine ⟨?_, ?_, ?_, fun i hi => ?_⟩
  · rw [run_windows h, Function.update_self]
    rfl
  · rw [run_windows h, Function.update_self]
    rfl
  · rw [run_extent, hextent]
  · rw [run_windows h, Function.update_of_ne hi]

/-- A call on a wedged one. -/
lemma movedTo_wedged_iff (hextent : ∀ i, (s.windows i).extent = extent i) :
    MovedTo extent s s m ↔ (s.windows m.WindowID).X = m.NewX ∧ (s.windows m.WindowID).Y = m.NewY :=
  ⟨fun h => ⟨h.X, h.Y⟩, fun h => ⟨h.1, h.2, hextent _, fun _ _ => rfl⟩⟩

/-- From any state: the windows that are wedged already have to be asked for the place where they are. -/
lemma follows_iff (hextent : ∀ i, (s.windows i).extent = extent i) : Follows extent s moves ↔
    moves.Pairwise (Stays extent) ∧ ∀ m ∈ moves, (s.windows m.WindowID).Width = 0 →
      (s.windows m.WindowID).X = m.NewX ∧ (s.windows m.WindowID).Y = m.NewY := by
  induction moves generalizing s with
  | nil => simp [Follows]
  | cons m rest ih =>
    rw [Follows, ih fun i => (run_extent s m i).trans (hextent i), List.pairwise_cons, List.forall_mem_cons]
    by_cases h : (s.windows m.WindowID).Width = 0
    · rw [run_wedged h, movedTo_wedged_iff hextent]
      constructor
      · rintro ⟨hm, hpairs, hrest⟩
        refine ⟨⟨fun m' hm' hid _ => ?_, hpairs⟩, fun _ => hm, hrest⟩
        obtain ⟨hX, hY⟩ := hrest m' hm' (hid ▸ h)
        rw [← hid] at hX hY
        exact ⟨hX.symm.trans hm.1, hY.symm.trans hm.2⟩
      · rintro ⟨⟨-, hpairs⟩, hm, hrest⟩
        exact ⟨hm h, hpairs, hrest⟩
    · have hwidth : ((m.run s).windows m.WindowID).Width = m.NewX + (extent m.WindowID).1 := by
        rw [run_windows h, Function.update_self, moved_width, hextent]
      have hto := movedTo_run hextent h
      constructor
      · rintro ⟨-, hpairs, hrest⟩
        refine ⟨⟨fun m' hm' hid hzero => ?_, hpairs⟩, fun h0 => absurd h0 h, fun m' hm' h0 => ?_⟩
        · obtain ⟨hX, hY⟩ := hrest m' hm' (by rw [← hid, hwidth, hzero])
          rw [← hid] at hX hY
          exact ⟨hX.symm.trans hto.X, hY.symm.trans hto.Y⟩
        · have hid : m'.WindowID ≠ m.WindowID := fun hid => h (hid ▸ h0)
          rw [← hto.others _ hid] at h0 ⊢
          exact hrest m' hm' h0
      · rintro ⟨⟨hhead, hpairs⟩, -, hrest⟩
        refine ⟨hto, hpairs, fun m' hm' h0 => ?_⟩
        by_cases hid : m.WindowID = m'.WindowID
        · rw [← hid, hwidth] at h0
          obtain ⟨hX, hY⟩ := hhead m' hm' hid h0
          rw [← hid, hto.X, hto.Y]
          exact ⟨hX.symm, hY.symm⟩
        · rw [hto.others _ (Ne.symm hid)] at h0 ⊢
          exact hrest m' hm' h0

/-- A form with its right and lower edges behind the left and upper ones. -/
def Object.Proper (o : Object) : Prop := o.X < o.Width ∧ o.Y < o.Height

/-- Exactly which sequences of calls move the windows as asked. -/
theorem follows_stays_iff (hproper : ∀ m ∈ moves, (s.windows m.WindowID).Proper) :
    Follows (fun i => (s.windows i).extent) s moves ↔ moves.Pairwise (Stays fun i => (s.windows i).extent) := by
  rw [follows_iff fun _ => rfl]
  refine and_iff_left fun m hm h0 => ?_
  have hlt := (hproper m hm).1
  rw [h0] at hlt
  exact absurd hlt (by simp)

/-- A table with one window. -/
def oneWindow (o : Object) : Dwm := ⟨fun _ => ⟨o, 0⟩, 1, false⟩

/-- Ten pixels wide, moved ten pixels beyond the left edge and back. -/
theorem back_from_left_edge_wedged : ¬ Follows (fun i => ((oneWindow ⟨0, 0, 10, 10, 20, 20, 0⟩).windows i).extent)
    (oneWindow ⟨0, 0, 10, 10, 20, 20, 0⟩) [⟨0, -10, 0⟩, ⟨0, 5, 5⟩] :=
  fun h => absurd h.2.1.X (by decide)

/-- Nine pixels beyond the left edge, and back. -/
theorem follows_stays_iff_back : Follows (fun i => ((oneWindow ⟨0, 0, 10, 10, 20, 20, 0⟩).windows i).extent)
    (oneWindow ⟨0, 0, 10, 10, 20, 20, 0⟩) [⟨0, -9, 0⟩, ⟨0, 5, 5⟩] := by
  refine (follows_stays_iff fun m _ => ⟨?_, ?_⟩).mpr (List.pairwise_pair.mpr fun _ hzero => ?_)
  · change (10 : UINT) < 20
    decide
  · change (10 : UINT) < 20
    decide
  · exact absurd hzero (by decide)

end Moves

section Creation

/-- After the calls, from the first on. -/
def creations (s : Dwm) (os : List Object) : Dwm := os.foldl (fun s o => (dwmCreateObject s o).dwm) s

/-- The call for the object with this number. -/
def creation (s : Dwm) (os : List Object) (k : ℕ) (o : Object) : Created :=
  dwmCreateObject (creations s (os.take k)) o

/-- The objects that are created with room in the table can be found again, and the table is not left. -/
structure FoundAgain (s : Dwm) (os : List Object) : Prop where
  inside : ∀ k < maxWindows, ∀ o, os[k]? = some o → ∀ i ∈ (creation s os k o).accesses, 0 ≤ i ∧ i < maxWindows
  fresh : ∀ j k o o', j < k → k < maxWindows → os[j]? = some o → os[k]? = some o' →
    (creation s os j o).returned ≠ (creation s os k o').returned
  found : ∀ k < maxWindows, ∀ o, os[k]? = some o → ∀ n, k < n → ∃ id w, (creation s os k o).returned = some id ∧
    dwmAcquireInformation (creations s (os.take n)) id = some w ∧ w.toObject = o

variable {s : Dwm} {os : List Object} {o : Object} {k : ℕ}

lemma dwmCreateObject_full (h : s.iLastWindow = maxWindows) (o : Object) : dwmCreateObject s o = ⟨s, none, []⟩ :=
  if_pos h

/-- The value that is returned stands in the entry behind the new one. -/
lemma dwmCreateObject_room (h : s.iLastWindow ≠ maxWindows) (o : Object) : dwmCreateObject s o =
    { dwm := ⟨Function.update s.windows s.iLastWindow ⟨o, s.iLastWindow⟩, s.iLastWindow + 1, true⟩
      returned := some (s.windows (s.iLastWindow + 1)).WindowID
      accesses := [s.iLastWindow, s.iLastWindow + 1] } := by
  rw [dwmCreateObject, if_neg h]
  dsimp only
  rw [Function.update_of_ne (by omega)]
  rfl

/-- The table behind the calls: the first objects, numbered, and the memory behind them as it was. -/
structure Holds (s : Dwm) (os : List Object) (t : Dwm) : Prop where
  last : t.iLastWindow = min os.length maxWindows
  window : ∀ k < maxWindows, ∀ o, os[k]? = some o → t.windows k = ⟨o, k⟩
  behind : ∀ k : ℕ, min os.length maxWindows ≤ k → t.windows k = s.windows k

lemma creations_snoc (s : Dwm) (os : List Object) (o : Object) :
    creations s (os ++ [o]) = (dwmCreateObject (creations s os) o).dwm := by
  rw [creations, List.foldl_append]
  rfl

lemma holds_creations (h : s.iLastWindow = 0) (os : List Object) : Holds s os (creations s os) := by
  induction os using List.reverseRecOn with
  | nil => exact ⟨h, by simp, fun _ _ => rfl⟩
  | append_singleton os o ih =>
    have hlen : (os ++ [o]).length = os.length + 1 := List.length_append
    have hlast := ih.last
    rw [creations_snoc]
    by_cases hfull : (creations s os).iLastWindow = maxWindows
    · rw [dwmCreateObject_full hfull]
      refine ⟨by dsimp only; omega, fun k hk o' ho' => ?_, fun k hk => ih.behind k (by omega)⟩
      rw [List.getElem?_append_left (by omega)] at ho'
      exact ih.window k hk o' ho'
    · rw [dwmCreateObject_room hfull]
      have hlast : (creations s os).iLastWindow = os.length := by omega
      refine ⟨by dsimp only; omega, fun k hk o' ho' => ?_, fun k hk => ?_⟩
      · dsimp only
        by_cases hkl : k = os.length
        · subst hkl
          rw [List.getElem?_concat_length] at ho'
          rw [hlast, Function.update_self, Option.some.inj ho']
        · have hlt : k < os.length + 1 := hlen ▸ (List.getElem?_eq_some_iff.mp ho').1
          rw [List.getElem?_append_left (by omega)] at ho'
          rw [hlast, Function.update_of_ne (by omega)]
          exact ih.window k hk o' ho'
      · dsimp only
        rw [hlast, Function.update_of_ne (by omega)]
        exact ih.behind k (by omega)

/-- A call with room in the table. -/
lemma creation_eq (h : s.iLastWindow = 0) (hk : k < maxWindows) (ho : os[k]? = some o) :
    (creation s os k o).returned = some (s.windows (k + 1 : ℕ)).WindowID ∧
      (creation s os k o).accesses = [(k : ℤ), k + 1] := by
  have hlt : k < os.length := (List.getElem?_eq_some_iff.mp ho).1
  have holds := holds_creations h (os.take k)
  have hlen : (os.take k).length = k := List.length_take_of_le hlt.le
  have hlast : (creations s (os.take k)).iLastWindow = k := by
    rw [holds.last, hlen]
    omega
  rw [creation, dwmCreateObject_room (by omega), hlast, ← holds.behind (k+1) (by omega)]
  exact ⟨rfl, rfl⟩

/-- Only a number that has been given to an object is found. -/
lemma dwmAcquireInformation_eq_some_iff (h : s.iLastWindow = 0) (os : List Object) (id : ℤ) (w : KSystemWindow) :
    dwmAcquireInformation (creations s os) id = some w ↔
      ∃ k < maxWindows, ∃ o, os[k]? = some o ∧ id = k ∧ w = ⟨o, k⟩ := by
  have holds := holds_creations h os
  have hlast := holds.last
  simp only [dwmAcquireInformation, Option.map_eq_some_iff, firstIn_eq_some]
  constructor
  · rintro ⟨k, ⟨-, hk, hid, -⟩, rfl⟩
    have ho : os[k]? = some os[k] := List.getElem?_eq_getElem (by omega)
    have hwindow := holds.window k (by omega) _ ho
    exact ⟨k, by omega, _, ho, by rw [← hid, hwindow], hwindow⟩
  · rintro ⟨k, hk, o, ho, rfl, rfl⟩
    have hlt : k < os.length := (List.getElem?_eq_some_iff.mp ho).1
    have hwindow := holds.window k hk o ho
    refine ⟨k, ⟨k.zero_le, by omega, by rw [hwindow], fun j _ hjk heq => ?_⟩, hwindow⟩
    rw [holds.window j (by omega) _ (List.getElem?_eq_getElem (by omega))] at heq
    exact hjk.ne (Int.ofNat.inj heq)

/-- The number of the last object is read behind the table. -/
lemma FoundAgain.room (hfound : FoundAgain s os) (h : s.iLastWindow = 0) : os.length < maxWindows := by
  by_contra hle
  have hlast : 127 < os.length := by
    rw [maxWindows] at hle
    omega
  have ho : os[127]? = some os[127] := List.getElem?_eq_getElem hlast
  have hinside := hfound.inside 127 (by decide) _ ho
  rw [(creation_eq h (by decide) ho).2] at hinside
  exact absurd (hinside 128 (by decide)).2 (by decide)

/-- The number that is returned is that of an object, and the earlier ones are taken. -/
lemma FoundAgain.ids (hfound : FoundAgain s os) (h : s.iLastWindow = 0) {k : ℕ} (hk : k < os.length) :
    (s.windows (k + 1 : ℕ)).WindowID = k := by
  have hroom := hfound.room h
  induction k using Nat.strong_induction_on with
  | _ k ih =>
    have hget : ∀ j (hj : j < os.length), os[j]? = some os[j] := fun j hj => List.getElem?_eq_getElem hj
    have ho := hget k hk
    obtain ⟨id, w, hid, hw, -⟩ := hfound.found k (by omega) _ ho (k+1) (by omega)
    rw [(creation_eq h (by omega) ho).1, Option.some.injEq] at hid
    rw [dwmAcquireInformation_eq_some_iff h] at hw
    obtain ⟨j, -, o, hj, rfl, -⟩ := hw
    have hjk : j < k + 1 := by
      have := (List.getElem?_eq_some_iff.mp hj).1
      rw [List.length_take] at this
      omega
    by_cases hlt : j < k
    · -- the number has been returned before
      have hfresh := hfound.fresh j k _ _ hlt (by omega) (hget j (by omega)) ho
      rw [(creation_eq h (by omega) (hget j (by omega))).1, (creation_eq h (by omega) ho).1, hid,
        ih j hlt (by omega)] at hfresh
      exact absurd rfl hfresh
    · obtain rfl : j = k := by omega
      exact hid

lemma foundAgain_of_ids (h : s.iLastWindow = 0) (hroom : os.length < maxWindows)
    (hids : ∀ k : ℕ, k < os.length → (s.windows (k + 1 : ℕ)).WindowID = k) : FoundAgain s os := by
  have hreturned : ∀ k o, os[k]? = some o → (creation s os k o).returned = some (k : ℤ) := by
    intro k o ho
    have hk := (List.getElem?_eq_some_iff.mp ho).1
    rw [(creation_eq h (by omega) ho).1, hids k hk]
  refine ⟨fun k hk o ho => ?_, fun j k o o' hjk hk ho ho' => ?_, fun k hk o ho n hn => ?_⟩
  · have hlt := (List.getElem?_eq_some_iff.mp ho).1
    rw [(creation_eq h hk ho).2]
    intro i hi
    simp only [List.mem_cons, List.not_mem_nil, or_false] at hi
    omega
  · rw [hreturned j o ho, hreturned k o' ho', Ne, Option.some.injEq]
    omega
  · refine ⟨k, ⟨o, k⟩, hreturned k o ho, ?_, rfl⟩
    rw [dwmAcquireInformation_eq_some_iff h]
    exact ⟨k, hk, o, by rwa [List.getElem?_take_of_lt hn], rfl, rfl⟩

/-- Exactly when the objects can be found again: the numbers are in the memory behind the table already, and the
last entry is not used. -/
theorem foundAgain_iff (h : s.iLastWindow = 0) : FoundAgain s os ↔
    os.length < maxWindows ∧ ∀ k : ℕ, k < os.length → (s.windows (k + 1 : ℕ)).WindowID = k :=
  ⟨fun hfound => ⟨hfound.room h, fun _ hk => hfound.ids h hk⟩, fun ⟨hroom, hids⟩ => foundAgain_of_ids h hroom hids⟩

/-- A window and a label in it. -/
def twoObjects : List Object := [⟨0x1000, 0x2000, 10, 10, 500, 300, 0⟩, ⟨0x3000, 0x1000, 2, 0, 0, 0, 1⟩]

/-- In memory full of zeros both calls return 0. -/
theorem second_object_has_first_number : ¬ FoundAgain ⟨fun _ => ⟨⟨0, 0, 0, 0, 0, 0, 0⟩, 0⟩, 0, false⟩ twoObjects :=
  fun h => h.fresh 0 1 _ _ (by decide) (by decide) rfl rfl rfl

/-- With the numbers in the memory. -/
theorem foundAgain_iff_numbered : FoundAgain ⟨fun k => ⟨⟨0, 0, 0, 0, 0, 0, 0⟩, k - 1⟩, 0, false⟩ twoObjects := by
  refine (foundAgain_iff rfl).mpr ⟨by decide, fun k _ => ?_⟩
  dsimp only
  omega

end Creation

end Open98.Mod
