import Open98.NtUser.Cursor

/-! Text on the screen: `KiDisplayChar` and `KiDisplayString` of `drv/vbe.c`. -/
namespace Open98.Drv
open NtUser

section Model

/-- The turns of `for ( INT i = ui; ui + n > i; i++ )`. The comparison is one of `UINT`s, and there is no turn
if the bound wraps around. -/
def counterTurns (ui : UINT) (n : ℕ) : List INT :=
  (List.range ((ui + BitVec.ofNat 32 n).toNat - ui.toNat)).map fun t => ui + BitVec.ofNat 32 t

/-- The turns of the loops over the pixels of a character: the index into the font, and the pixel if it is set
and on the screen. A `CHAR` is signed. -/
def glyphTurns (s : Screen) (kiDisplayFont : ℕ → UCHAR) (cChararcter : UCHAR) (uiX uiY : UINT) :
    List (ℕ × Option (ℤ × ℤ)) :=
  (counterTurns uiY 16).flatMap fun iy => (counterTurns uiX 8).map fun ix =>
    let i := (cChararcter.signExtend 32 * 16#32 + iy - uiY).toNat
    (i, if (kiDisplayFont i).getLsbD (7#32 - (ix - uiX)).toNat ∧
        0 ≤ ix.toInt ∧ 0 ≤ iy.toInt ∧ ix.toInt < s.Width ∧ iy.toInt < s.Height then some (ix.toInt, iy.toInt) else none)

/-- The loop over a string, as far as an `INT` counts: each character that is displayed, and the pen for it.
A line feed does not return to the left. -/
def displayed (s : Screen) (uiX : UINT) : (iX : INT) → (uiY : UINT) → List UCHAR → List (UCHAR × INT × UINT)
  | _, _, [] => []
  | iX, uiY, c :: rest =>
    if c = 0x0A#8 then displayed s uiX iX (uiY + 16#32) rest
    else if c = 0x0D#8 then displayed s uiX uiX uiY rest
    else if iX.toInt < s.Width then (c, iX, uiY) :: displayed s uiX (iX + 8#32) uiY rest
    else displayed s uiX iX uiY rest

inductive TextAccess
  | font (i : ℕ)
  | pixel (ix iy offset : ℤ) (uiColor : UINT)
  deriving DecidableEq, Repr

/-- The accesses, in order; the offset of a pixel is an `INT`. -/
def kiDisplayChar (s : Screen) (kiDisplayFont : ℕ → UCHAR) (cChararcter : UCHAR) (uiX uiY uiColor : UINT) :
    List TextAccess :=
  (glyphTurns s kiDisplayFont cChararcter uiX uiY).flatMap fun (i, p) =>
    .font i :: p.toList.map fun (ix, iy) => .pixel ix iy (wrapINT (ix * 4 + iy * s.Pitch)) uiColor

def kiDisplayString (s : Screen) (kiDisplayFont : ℕ → UCHAR) (pcString : List UCHAR) (uiX uiY uiColor : UINT) :
    List TextAccess :=
  (displayed s uiX uiX uiY (pcString.take (2^31))).flatMap fun (c, iX, uiY) =>
    kiDisplayChar s kiDisplayFont c iX uiY uiColor

end Model

section Pens
variable {s : Screen} {uiX uiY : UINT} {str before : List UCHAR} {c : UCHAR}

/-- The pen behind one more character. -/
def advance (s : Screen) (uiX : UINT) (pen : INT × UINT) (c : UCHAR) : INT × UINT :=
  if c = 0x0A#8 then (pen.1, pen.2 + 16#32)
  else if c = 0x0D#8 then (uiX, pen.2)
  else if pen.1.toInt < s.Width then (pen.1 + 8#32, pen.2)
  else pen

lemma mem_displayed (iX : INT) (y : UINT) (x : UCHAR × INT × UINT) : x ∈ displayed s uiX iX y str ↔
    ∃ before after, str = before ++ x.1 :: after ∧ x.1 ≠ 0x0A#8 ∧ x.1 ≠ 0x0D#8 ∧
      x.2 = before.foldl (advance s uiX) (iX, y) ∧ x.2.1.toInt < s.Width := by
  induction str generalizing iX y with
  | nil => simp [displayed]
  | cons c rest ih =>
    have hcons : ∀ pen : INT × UINT, advance s uiX (iX, y) c = pen →
        ((∃ before after, c :: rest = before ++ x.1 :: after ∧ x.1 ≠ 0x0A#8 ∧ x.1 ≠ 0x0D#8 ∧
            x.2 = before.foldl (advance s uiX) (iX, y) ∧ x.2.1.toInt < s.Width) ↔
          (c = x.1 ∧ x.1 ≠ 0x0A#8 ∧ x.1 ≠ 0x0D#8 ∧ x.2 = (iX, y) ∧ x.2.1.toInt < s.Width) ∨
            x ∈ displayed s uiX pen.1 pen.2 rest) := by
      rintro pen rfl
      rw [ih]
      constructor
      · rintro ⟨before, after, heq, hfeed, hreturn, hpen, hlt⟩
        cases before with
        | nil => exact .inl ⟨(List.cons.inj heq).1, hfeed, hreturn, hpen, hlt⟩
        | cons d before =>
          obtain ⟨rfl, rfl⟩ := List.cons.inj heq
          exact .inr ⟨before, after, rfl, hfeed, hreturn, hpen, hlt⟩
      · rintro (⟨rfl, hfeed, hreturn, hpen, hlt⟩ | ⟨before, after, rfl, hfeed, hreturn, hpen, hlt⟩)
        · exact ⟨[], rest, rfl, hfeed, hreturn, hpen, hlt⟩
        · exact ⟨c :: before, after, rfl, hfeed, hreturn, hpen, hlt⟩
    rw [displayed]
    split_ifs with hfeed hreturn hlt
    · rw [hcons (iX, y + 16#32) (if_pos hfeed), or_iff_right]
      rintro ⟨rfl, hne, -⟩
      exact hne hfeed
    · rw [hcons (uiX, y) (by rw [advance, if_neg hfeed, if_pos hreturn]), or_iff_right]
      rintro ⟨rfl, -, hne, -⟩
      exact hne hreturn
    · rw [hcons (iX + 8#32, y) (by rw [advance, if_neg hfeed, if_neg hreturn, if_pos hlt]), List.mem_cons]
      refine or_congr_left ⟨?_, ?_⟩
      · rintro rfl
        exact ⟨rfl, hfeed, hreturn, rfl, hlt⟩
      · rintro ⟨rfl, -, -, hpen, -⟩
        exact Prod.ext rfl hpen
    · rw [hcons (iX, y) (by rw [advance, if_neg hfeed, if_neg hreturn, if_neg hlt]), or_iff_right]
      rintro ⟨-, -, -, hpen, hlt'⟩
      rw [hpen] at hlt'
      exact hlt hlt'

/-- The number of characters behind the last carriage return, line feeds left out. -/
def column (before : List UCHAR) : ℕ := ((before.reverse.takeWhile (· ≠ 0x0D#8)).filter (· ≠ 0x0A#8)).length

lemma column_snoc (before : List UCHAR) (c : UCHAR) : column (before ++ [c]) =
    if c = 0x0D#8 then 0 else if c = 0x0A#8 then column before else column before + 1 := by
  rw [column, List.reverse_append, List.reverse_singleton, List.singleton_append]
  split_ifs with hreturn hfeed
  · simp [hreturn]
  · simp [hfeed, column]
  · simp [hreturn, hfeed, column]

/-- Where the pen is. Beyond the right edge of the screen it stays. -/
structure PenAt (s : Screen) (uiX uiY : UINT) (before : List UCHAR) (pen : INT × UINT) : Prop where
  row : pen.2 = uiY + BitVec.ofNat 32 (16 * before.count 0x0A#8)
  inside : uiX.toInt + 8 * column before < s.Width →
    pen.1 = uiX + BitVec.ofNat 32 (8 * column before) ∧ pen.1.toInt = uiX.toInt + 8 * column before
  beyond : s.Width ≤ uiX.toInt + 8 * column before → s.Width ≤ pen.1.toInt

lemma count_snoc (before : List UCHAR) (c : UCHAR) :
    (before ++ [c]).count 0x0A#8 = before.count 0x0A#8 + if c = 0x0A#8 then 1 else 0 := by
  rw [List.count_append, List.count_singleton]
  simp only [beq_iff_eq]

lemma PenAt.inside_iff {pen : INT × UINT} (h : PenAt s uiX uiY before pen) :
    pen.1.toInt < s.Width ↔ uiX.toInt + 8 * column before < s.Width := by
  constructor
  · intro hlt
    by_contra hge
    have := h.beyond (by omega)
    omega
  · intro hlt
    rw [(h.inside hlt).2]
    exact hlt

/-- On the screen there is no overflow. -/
lemma PenAt.toInt_next (hs : s.Valid) {pen : INT × UINT} (h : PenAt s uiX uiY before pen)
    (hlt : pen.1.toInt < s.Width) : (pen.1 + 8#32).toInt = uiX.toInt + 8 * (column before + 1 : ℕ) := by
  have hwidth : s.Width < 2^29 := by
    have := hs.pitch; have := hs.pitchINT
    omega
  have hlow := BitVec.le_toInt uiX
  have hint := (h.inside (h.inside_iff.mp hlt)).2
  rw [BitVec.toInt_add, hint, Int.bmod_eq_of_le]
  · simp
    omega
  · simp
    omega
  · simp
    omega

lemma PenAt.advance (hs : s.Valid) {pen : INT × UINT} (h : PenAt s uiX uiY before pen) (c : UCHAR) :
    PenAt s uiX uiY (before ++ [c]) (advance s uiX pen c) := by
  rw [Drv.advance]
  split_ifs with hfeed hreturn hlt
  · have hcolumn : column (before ++ [c]) = column before := by simp [column_snoc, hfeed]
    refine ⟨?_, ?_, ?_⟩
    · rw [count_snoc, if_pos hfeed, h.row]
      bv_omega
    · rw [hcolumn]
      exact h.inside
    · rw [hcolumn]
      exact h.beyond
  · have hcolumn : column (before ++ [c]) = 0 := by simp [column_snoc, hreturn]
    refine ⟨?_, ?_, ?_⟩
    · rw [count_snoc, if_neg hfeed, h.row]
      rfl
    · simp [hcolumn]
    · simp [hcolumn]
  · have hcolumn : column (before ++ [c]) = column before + 1 := by
      simp [column_snoc, hreturn, hfeed]
    have hnext := h.toInt_next hs hlt
    refine ⟨?_, fun _ => ⟨?_, ?_⟩, fun hle => ?_⟩
    · rw [count_snoc, if_neg hfeed, h.row]
      rfl
    · rw [hcolumn, (h.inside (h.inside_iff.mp hlt)).1]
      bv_omega
    · rw [hcolumn, hnext]
    · rw [hcolumn] at hle
      rw [hnext]
      exact hle
  · have hcolumn : column (before ++ [c]) = column before + 1 := by
      simp [column_snoc, hreturn, hfeed]
    have hbefore : s.Width ≤ uiX.toInt + 8 * column before := not_lt.mp (mt h.inside_iff.mpr hlt)
    refine ⟨?_, fun hlt' => ?_, fun _ => h.beyond hbefore⟩
    · rw [count_snoc, if_neg hfeed, h.row]
      rfl
    · rw [hcolumn] at hlt'
      omega

lemma penAt_foldl (hs : s.Valid) (uiX uiY : UINT) (before : List UCHAR) :
    PenAt s uiX uiY before (before.foldl (advance s uiX) (uiX, uiY)) := by
  induction before using List.reverseRecOn with
  | nil => exact ⟨by simp, by simp [column], by simp [column]⟩
  | append_singleton before c ih =>
    rw [List.foldl_append]
    exact ih.advance hs c

end Pens

section Bounds
variable {s : Screen} {kiDisplayFont : ℕ → UCHAR} {uiX uiY uiColor : UINT} {c : UCHAR} {n : ℕ}

/-- The index is in the font; the pixel is on the screen and its offset its own. -/
def TextAccess.Fine (s : Screen) : TextAccess → Prop
  | font i => i < 4096
  | pixel ix iy offset _ => (0 ≤ ix ∧ ix < s.Width ∧ 0 ≤ iy ∧ iy < s.Height) ∧ offset = ix * 4 + iy * s.Pitch

lemma mem_counterTurns (hn : n < 2^32) {i : INT} :
    i ∈ counterTurns uiX n ↔ uiX.toNat + n < 2^32 ∧ ∃ t < n, i = uiX + BitVec.ofNat 32 t := by
  have hlt := uiX.isLt
  have hsum : (uiX + BitVec.ofNat 32 n).toNat = (uiX.toNat + n) % 2^32 := by
    rw [BitVec.toNat_add, BitVec.toNat_ofNat, Nat.add_mod_mod]
  have hturns : (uiX + BitVec.ofNat 32 n).toNat - uiX.toNat = if uiX.toNat + n < 2^32 then n else 0 := by
    rw [hsum]
    split_ifs <;> omega
  rw [counterTurns, hturns, List.mem_map]
  simp only [List.mem_range, eq_comm (a := i)]
  by_cases hroom : uiX.toNat + n < 2^32
  · simp only [hroom, if_true, true_and]
  · simp only [hroom, if_false, false_and, Nat.not_lt_zero, exists_false]

/-- The index into the font, for a row of a character. -/
lemma toNat_fontIndex (c : UCHAR) (uiY : UINT) {r : ℕ} (hr : r < 16) :
    (c.signExtend 32 * 16#32 + (uiY + BitVec.ofNat 32 r) - uiY).toNat =
      if c.toNat < 128 then c.toNat * 16 + r else 2^32 - (256 - c.toNat) * 16 + r := by
  have hc := c.isLt
  have hcancel : c.signExtend 32 * 16#32 + (uiY + BitVec.ofNat 32 r) - uiY =
      c.signExtend 32 * 16#32 + BitVec.ofNat 32 r := by
    bv_omega
  have hchar : (c.signExtend 32).toNat = if c.toNat < 128 then c.toNat else 2^32 - (256 - c.toNat) := by
    rw [BitVec.toNat_signExtend, BitVec.toNat_setWidth, BitVec.msb_eq_decide]
    by_cases h : c.toNat < 128
    · rw [if_pos h, if_neg (by simp; omega)]
      omega
    · rw [if_neg h, if_pos (by simp; omega)]
      omega
  rw [hcancel, BitVec.toNat_add, BitVec.toNat_mul, hchar, BitVec.toNat_ofNat, BitVec.toNat_ofNat]
  split_ifs <;> omega

lemma toNat_fontBit (uiX : UINT) {j : ℕ} (hj : j < 8) :
    (7#32 - (uiX + BitVec.ofNat 32 j - uiX)).toNat = 7 - j := by
  have hcancel : uiX + BitVec.ofNat 32 j - uiX = BitVec.ofNat 32 j := by bv_omega
  rw [hcancel, BitVec.toNat_sub, BitVec.toNat_ofNat, BitVec.toNat_ofNat]
  omega

/-- A pixel of a character that is set and on the screen. -/
structure Sets (s : Screen) (kiDisplayFont : ℕ → UCHAR) (c : UCHAR) (uiX uiY : UINT) (r j : ℕ) : Prop where
  bit : (kiDisplayFont (c.toNat * 16 + r)).getLsbD (7 - j) = true
  left : 0 ≤ (uiX + BitVec.ofNat 32 j).toInt
  top : 0 ≤ (uiY + BitVec.ofNat 32 r).toInt
  right : (uiX + BitVec.ofNat 32 j).toInt < s.Width
  bottom : (uiY + BitVec.ofNat 32 r).toInt < s.Height

/-- If a character is drawn, because it does not begin just before the left or the upper edge of the screen, it
has seven bits, and its pixels on the screen have offsets that an `INT` can hold. -/
def CharFits (s : Screen) (kiDisplayFont : ℕ → UCHAR) (c : UCHAR) (uiX uiY : UINT) : Prop :=
  uiX.toNat + 8 < 2^32 → uiY.toNat + 16 < 2^32 → c.toNat < 128 ∧ ∀ r < 16, ∀ j < 8,
    Sets s kiDisplayFont c uiX uiY r j →
    (uiX + BitVec.ofNat 32 j).toInt * 4 + (uiY + BitVec.ofNat 32 r).toInt * s.Pitch < 2^31

lemma offset_nonneg (hs : s.Valid) {ix iy : ℤ} (hx : 0 ≤ ix) (hy : 0 ≤ iy) : 0 ≤ ix * 4 + iy * s.Pitch := by
  have hpitch : 0 ≤ s.Pitch := by
    have := hs.width; have := hs.pitch
    omega
  exact add_nonneg (mul_nonneg hx (by decide)) (mul_nonneg hy hpitch)

/-- The offset of a pixel on the screen is its own as long as an `INT` can hold it. -/
lemma wrapINT_offset_iff {n : ℤ} (hn : 0 ≤ n) : wrapINT n = n ↔ n < 2^31 := by
  rw [wrapINT]
  omega

lemma kiDisplayChar_fine_iff (hs : s.Valid) : (∀ a ∈ kiDisplayChar s kiDisplayFont c uiX uiY uiColor, a.Fine s) ↔
    CharFits s kiDisplayFont c uiX uiY := by
  have hturns : (∀ a ∈ kiDisplayChar s kiDisplayFont c uiX uiY uiColor, a.Fine s) ↔
      ∀ x ∈ glyphTurns s kiDisplayFont c uiX uiY, x.1 < 4096 ∧ ∀ p, x.2 = some p →
        (TextAccess.pixel p.1 p.2 (wrapINT (p.1 * 4 + p.2 * s.Pitch)) uiColor).Fine s := by
    rw [kiDisplayChar, List.forall_mem_flatMap]
    refine forall_congr' fun x => forall_congr' fun _ => ?_
    rw [List.forall_mem_cons]
    refine and_congr_right fun _ => ?_
    simp only [List.mem_map, Option.mem_toList, forall_exists_index, and_imp, forall_apply_eq_imp_iff₂]
  rw [hturns]
  simp only [glyphTurns, List.mem_flatMap, List.mem_map, mem_counterTurns (show 16 < 2^32 by decide),
    mem_counterTurns (show 8 < 2^32 by decide)]
  constructor
  · intro h hX hY
    have hturn := fun r hr j hj => h _ ⟨_, ⟨hY, r, hr, rfl⟩, _, ⟨hX, j, hj, rfl⟩, rfl⟩
    have hc : c.toNat < 128 := by
      have hfont : (c.signExtend 32 * 16#32 + (uiY + BitVec.ofNat 32 0) - uiY).toNat < 4096 :=
        (hturn 0 (by decide) 0 (by decide)).1
      rw [toNat_fontIndex c uiY (by decide)] at hfont
      split_ifs at hfont with hc
      · exact hc
      · omega
    refine ⟨hc, fun r hr j hj hsets => ?_⟩
    have hpixel := (hturn r hr j hj).2
    rw [toNat_fontIndex c uiY hr, if_pos hc, toNat_fontBit uiX hj,
      if_pos ⟨hsets.bit, hsets.left, hsets.top, hsets.right, hsets.bottom⟩] at hpixel
    exact (wrapINT_offset_iff (offset_nonneg hs hsets.left hsets.top)).mp (hpixel _ rfl).2
  · rintro h _ ⟨_, ⟨hY, r, hr, rfl⟩, _, ⟨hX, j, hj, rfl⟩, rfl⟩
    obtain ⟨hc, hoffset⟩ := h hX hY
    rw [toNat_fontIndex c uiY hr, if_pos hc, toNat_fontBit uiX hj]
    refine ⟨by omega, fun p hp => ?_⟩
    split_ifs at hp with hset
    · obtain ⟨hbit, hleft, htop, hright, hbottom⟩ := hset
      obtain rfl := Option.some.inj hp
      exact ⟨⟨hleft, hright, htop, hbottom⟩, (wrapINT_offset_iff (offset_nonneg hs hleft htop)).mpr
        (hoffset r hr j hj ⟨hbit, hleft, htop, hright, hbottom⟩)⟩

/-- Exactly for which strings, at which places, nothing else is read from the font's table and nothing is written
beside the screen. -/
theorem kiDisplayString_fine_iff (hs : s.Valid) (pcString : List UCHAR) :
    (∀ a ∈ kiDisplayString s kiDisplayFont pcString uiX uiY uiColor, a.Fine s) ↔
      ∀ before c after, pcString.take (2^31) = before ++ c :: after → c ≠ 0x0A#8 → c ≠ 0x0D#8 →
        uiX.toInt + 8 * column before < s.Width →
        CharFits s kiDisplayFont c (uiX + BitVec.ofNat 32 (8 * column before))
          (uiY + BitVec.ofNat 32 (16 * before.count 0x0A#8)) := by
  rw [kiDisplayString, List.forall_mem_flatMap]
  constructor
  · intro h before c after heq hfeed hreturn hlt
    have hpen := penAt_foldl hs uiX uiY before
    obtain ⟨hcolumn, hint⟩ := hpen.inside hlt
    rw [← hcolumn, ← hpen.row, ← kiDisplayChar_fine_iff hs]
    refine h (c, before.foldl (advance s uiX) (uiX, uiY)) ?_
    rw [mem_displayed]
    exact ⟨before, after, heq, hfeed, hreturn, rfl, by rw [hint]; exact hlt⟩
  · rintro h ⟨c, pen⟩ hmem
    obtain ⟨before, after, heq, hfeed, hreturn, rfl, hlt⟩ := (mem_displayed _ _ _).mp hmem
    have hpen := penAt_foldl hs uiX uiY before
    have hinside : uiX.toInt + 8 * column before < s.Width := hpen.inside_iff.mp hlt
    have hfits := h before c after heq hfeed hreturn hinside
    rw [← (hpen.inside hinside).1, ← hpen.row] at hfits
    exact (kiDisplayChar_fine_iff hs).mpr hfits

/-- A character with eight bits. -/
theorem high_character_leaves_font :
    ¬ ∀ a ∈ kiDisplayString ⟨640, 480, 2560⟩ (fun _ => 0) [0x80] 0 0 0xFFFFFFFF, a.Fine ⟨640, 480, 2560⟩ := by
  intro h
  have hmem : TextAccess.font (2^32 - 2048) ∈ kiDisplayString ⟨640, 480, 2560⟩ (fun _ => 0) [0x80] 0 0 0xFFFFFFFF := by
    decide
  have hfine : 2^32 - 2048 < 4096 := h _ hmem
  exact absurd hfine (by decide)

/-- A letter that is cut at the right edge. -/
theorem kiDisplayString_fine_iff_letter : Screen.Valid ⟨640, 480, 2560⟩ ∧
    ∀ a ∈ kiDisplayString ⟨640, 480, 2560⟩ (fun _ => 0xFF) [0x41] 636 0 0, a.Fine ⟨640, 480, 2560⟩ := by
  have hs : Screen.Valid ⟨640, 480, 2560⟩ := ⟨⟨by decide, by decide, by decide, by decide⟩, by decide, by decide⟩
  refine ⟨hs, (kiDisplayString_fine_iff hs _).mpr fun before c after heq _ _ _ _ _ => ?_⟩
  have hc : c ∈ ([0x41] : List UCHAR) := by
    refine List.mem_of_mem_take (i := 2^31) ?_
    rw [heq]
    simp
  rw [List.mem_singleton.mp hc]
  refine ⟨by decide, fun r hr j hj h => ?_⟩
  have := h.right; have := h.bottom
  dsimp only at *
  omega

end Bounds

end Open98.Drv
