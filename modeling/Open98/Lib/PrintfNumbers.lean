import Open98.Lib.Octal
import Open98.Lib.PrintfLayout

/-! The directives for integers and pointers from the format to the text, and the texts read back. -/
namespace Open98.Lib
open Library

section Directives
variable {float : FloatText} {mem : Readable} {x : DirectiveParts} {c : UCHAR} {format : List UCHAR} {va : Args}

/-- The integer conversions of the language. -/
def standardSpecifiers : List UCHAR := [chr 'd', chr 'i', chr 'u', chr 'o', chr 'x', chr 'X']

lemma standardSpecifiers_facts : ∀ c ∈ standardSpecifiers, c ∈ specifiers ∧ isInteger c = true ∧
    (baseOf c = 8 ∨ baseOf c = 10 ∨ baseOf c = 16) ∧ (baseOf c ≠ 10 → isSigned c = false) := by decide

lemma integerFlags_pointer (c : UCHAR) (flags : PrintFlags) : (integerFlags c flags).pointer = flags.pointer := by
  simp only [integerFlags]
  split_ifs <;> rfl

lemma integerFlags_precision (c : UCHAR) (flags : PrintFlags) : (integerFlags c flags).precision = flags.precision := by
  simp only [integerFlags]
  split_ifs <;> rfl

lemma integerFlags_zeropad {flags : PrintFlags} (h : flags.precision = true) : (integerFlags c flags).zeropad = false := by
  simp only [integerFlags]
  split_ifs <;> simp_all

lemma integerFlags_hash (h : baseOf c = 10) (flags : PrintFlags) : (integerFlags c flags).hash = false := by
  simp only [integerFlags, if_pos h]
  split_ifs <;> rfl

lemma integerFlags_unsigned (h : isSigned c = false) (flags : PrintFlags) :
    (integerFlags c flags).plus = false ∧ (integerFlags c flags).space = false := by
  simp only [integerFlags, h, Bool.not_false, if_true]
  split_ifs <;> exact ⟨rfl, rfl⟩

lemma ordinary_integer (hc : c ∈ standardSpecifiers) {d : Directive}
    (hprecision : d.flags.precision = false → d.precision = 0) (hpointer : d.flags.pointer = false) (arg : ULONG64) :
    Ordinary (integerValue c (integerFlags c d.flags) arg).1.toNat (integerValue c (integerFlags c d.flags) arg).2
      (baseOf c) d.precision (integerFlags c d.flags) := by
  obtain ⟨-, -, hbase, hunsigned⟩ := standardSpecifiers_facts c hc
  refine ⟨hbase, fun h => ?_, fun h => ?_, fun h => integerFlags_hash h _, fun h => ?_, fun h => ?_⟩
  · rw [integerFlags_precision] at h
    exact hprecision h
  · rw [integerFlags_precision] at h
    exact integerFlags_zeropad h
  · have hs := hunsigned h
    obtain ⟨hplus, hspace⟩ := integerFlags_unsigned hs d.flags
    rw [integerValue, hs, signText, hplus, hspace]
    rfl
  · rw [integerFlags_pointer, hpointer] at h
    cases h

/-- The text the language prescribes for an integer directive. -/
def standardInteger (c : UCHAR) (d : Directive) : List UCHAR :=
  let flags := integerFlags c d.flags
  let value := integerValue c flags (d.va 0)
  standardText value.1.toNat value.2 (baseOf c) d.precision d.width flags

lemma length_signText (negative : Bool) (flags : PrintFlags) : (signText negative flags).length ≤ 1 := by
  rw [signText]
  split_ifs <;> decide

/-- The characters fit into the buffer of `_ntoa` if there are not too many zeros. -/
lemma standardNumber_fits {value base precision width : ℕ} {negative : Bool} {flags : PrintFlags}
    (h : Ordinary value negative base precision flags) (hvalue : value < 2^64) (hprecision : precision ≤ 30)
    (hwidth : (flags.zeropad && !flags.left) = true → width ≤ 32) :
    (standardNumber value negative base precision width flags).length ≤ ntoaBufferSize := by
  have hbase : 8 ≤ base := by
    rcases h.base_mem with rfl | rfl | rfl <;> decide
  have hdigits : (digitChars flags base value).length ≤ 22 := by
    rw [length_digitChars, Nat.digits_length_le_iff (by omega)]
    calc value < 8^22 := by omega
      _ ≤ base^22 := Nat.pow_le_pow_left hbase 22
  have hstandard : (standardDigits value base precision flags).length ≤ 30 := by
    have hleast : (if flags.precision then precision else 1) - (digitChars flags base value).reverse.length +
        (digitChars flags base value).length ≤ 30 := by
      rw [List.length_reverse]
      split_ifs <;> omega
    rw [standardDigits]
    generalize (if flags.precision then precision else 1) - (digitChars flags base value).reverse.length = k at hleast ⊢
    cases k with
    | zero => split_ifs <;> simp [zeros] <;> omega
    | succ k =>
      have hzero : (zeros (k+1) ++ (digitChars flags base value).reverse).head? = some (chr '0') := rfl
      rw [hzero]
      simpa [length_zeros] using hleast
  have hfront : (standardPrefix value negative base flags).length ≤ 2 := by
    have hsign := length_signText negative flags
    rw [standardPrefix, List.length_append]
    by_cases hhex : ((flags.hash || flags.pointer) && base = 16 && value ≠ 0) = true
    · have h16 : base = 16 := by simp_all
      rw [if_pos hhex, h.unsigned (by omega)]
      exact le_rfl
    · rw [if_neg hhex, List.length_nil]
      omega
  rw [standardNumber, List.length_append, List.length_append, ntoaBufferSize]
  split_ifs with hfield
  · have := hwidth hfield
    rw [length_zeros]
    omega
  · simp only [List.length_nil]
    omega

/-- Every integer directive prints what the language prescribes, unless its precision exceeds 30 or zeros fill
a field of more than 32 characters. -/
theorem formatText_integer (x : DirectiveParts) (hc : c ∈ standardSpecifiers)
    (hprecision : (x.directive (c :: format) va).precision ≤ 30)
    (hwidth : ((integerFlags c (x.directive (c :: format) va).flags).zeropad &&
      !(integerFlags c (x.directive (c :: format) va).flags).left) = true → (x.directive (c :: format) va).width ≤ 32) :
    formatText float mem (chr '%' :: (x.text ++ c :: format)) va =
      (formatText float mem format (x.directive (c :: format) va).va.rest).map
        (Prod.map (standardInteger c (x.directive (c :: format) va) ++ ·) id) := by
  obtain ⟨hspec, hinteger, -, -⟩ := standardSpecifiers_facts c hc
  obtain ⟨hunset, hpointer, hformat⟩ := x.directive_facts (c :: format) va
  have hordinary := ordinary_integer hc hunset hpointer ((x.directive (c :: format) va).va 0)
  have htext : integerText c (x.directive (c :: format) va) = standardInteger c (x.directive (c :: format) va) :=
    ntoaText_standard hordinary (standardNumber_fits hordinary (BitVec.isLt _) hprecision hwidth)
  rw [formatText_directive, evalDirective_text x (show cur (c :: format) ∈ specifiers from hspec), directiveText, hformat]
  dsimp only
  rw [specifierText, if_pos hinteger, htext]
  rfl

/-- `"%#010x"`. -/
theorem formatText_integer_hex : formatText (fun _ _ _ _ _ => []) (fun _ => 0)
    (chr '%' :: ((DirectiveParts.mk [chr '#', chr '0'] (by decide) (.number 10) none .int).text ++ [chr 'x'])) (fun _ => 255) =
      (formatText (fun _ _ _ _ _ => []) (fun _ => 0) []
        ((DirectiveParts.mk [chr '#', chr '0'] (by decide) (.number 10) none .int).directive [chr 'x'] fun _ => 255).va.rest).map
        (Prod.map (standardInteger (chr 'x')
          ((DirectiveParts.mk [chr '#', chr '0'] (by decide) (.number 10) none .int).directive [chr 'x'] fun _ => 255) ++ ·)
          id) :=
  formatText_integer _ (by decide) (by decide) (by decide)

end Directives

section Pointers
variable {float : FloatText} {mem : Readable} {va : Args}

/-- A pointer has sixteen digits; the null pointer has a name. -/
def pointerShown (p : PVOID) : List UCHAR :=
  if p = 0 then [chr '(', chr 'n', chr 'i', chr 'l', chr ')']
  else [chr '0', chr 'x'] ++ zeros (16 - (digitChars .none 16 p.toNat).length) ++ (digitChars .none 16 p.toNat).reverse

lemma length_pointerDigits (p : PVOID) : (digitChars .none 16 p.toNat).length ≤ 16 := by
  rw [length_digitChars, Nat.digits_length_le_iff (by decide)]
  exact p.isLt

lemma length_pointerShown (p : PVOID) : (pointerShown p).length ≤ 18 := by
  have hdigits := length_pointerDigits p
  rw [pointerShown]
  split_ifs
  · decide
  · simp only [List.length_append, List.length_cons, List.length_nil, length_zeros, List.length_reverse]
    omega

def pointerFlags : PrintFlags := { PrintFlags.none with zeropad := true, pointer := true }

lemma standardNumber_pointer {value : ℕ} (hvalue : value ≠ 0) : standardNumber value false 16 0 18 pointerFlags =
    [chr '0', chr 'x'] ++ zeros (16 - (digitChars .none 16 value).length) ++ (digitChars .none 16 value).reverse := by
  have hfront : standardPrefix value false 16 pointerFlags = [chr '0', chr 'x'] := by
    simp [standardPrefix, signText, pointerFlags, PrintFlags.none, hvalue]
  have hstart : startChars pointerFlags 16 value = digitChars .none 16 value := by
    rw [startChars, if_neg (by simp [hvalue])]
    rfl
  have hdigits : standardDigits value 16 0 pointerFlags = (digitChars .none 16 value).reverse := by
    rw [standardDigits_plain rfl, hstart]
    rfl
  have hcount : ∀ n, 18 - (2 + n) = 16 - n := fun n => by omega
  rw [standardNumber, hfront, hdigits, List.length_reverse]
  exact congrArg (fun n => _ ++ zeros n ++ _) (hcount _)

lemma pointerText_eq (format : List UCHAR) (va : Args) : pointerText ⟨.none, 0, 0, format, va⟩ = pointerShown (va 0) := by
  rw [pointerText, pointerShown]
  split_ifs with hnull
  · rfl
  · have hvalue : (va 0).toNat ≠ 0 := fun h => hnull (BitVec.eq_of_toNat_eq h)
    have hordinary : Ordinary (va 0).toNat false 16 0 pointerFlags :=
      ⟨.inr (.inr rfl), fun _ => rfl, fun h => Bool.noConfusion (show false = true from h), fun _ => rfl, fun _ => rfl,
        fun _ => ⟨rfl, hvalue⟩⟩
    have hdigits := length_pointerDigits (va 0)
    have hfull : (standardNumber (va 0).toNat false 16 0 18 pointerFlags).length = 18 := by
      rw [standardNumber_pointer hvalue]
      simp only [List.length_append, List.length_cons, List.length_nil, length_zeros, List.length_reverse]
      omega
    have htext := ntoaText_standard hordinary (standardNumber_fits hordinary (va 0).isLt (Nat.zero_le 30) fun _ =>
      (by decide : 18 ≤ 32))
    calc ntoaText (va 0).toNat false 16 0 18 pointerFlags
        = inField false 18 18 (standardNumber (va 0).toNat false 16 0 18 pointerFlags) := by
          rw [htext, standardText, hfull]
          rfl
      _ = _ := standardNumber_pointer hvalue

/-- `%p`. -/
lemma formatText_pointer (va : Args) : formatText float mem [chr '%', chr 'p'] va = some (pointerShown (va 0), va.rest) := by
  have hdirective : evalDirective [chr 'p'] va = ⟨.none, 0, 0, [chr 'p'], va⟩ := rfl
  have hspecifier : specifierText float mem (chr 'p') ⟨.none, 0, 0, [chr 'p'], va⟩ =
      some (pointerText ⟨.none, 0, 0, [chr 'p'], va⟩, va.rest) := rfl
  rw [formatText_directive, hdirective, directiveText]
  dsimp only
  rw [hspecifier, pointerText_eq]
  simp [Prod.map]

end Pointers

section ReadBack
variable {base : ℕ}

lemma stringToInt_digits {ds : List ℕ} (h : ∀ d ∈ ds, d < 10) :
    stringToInt (ds.map fun d => BitVec.ofNat 8 (48 + d)).reverse = BitVec.ofNat 32 (Nat.ofDigits 10 ds) := by
  induction ds with
  | nil => rfl
  | cons d ds ih =>
    have hd := h d List.mem_cons_self
    have hdigit : (BitVec.ofNat 8 (48 + d)).signExtend 32 - 48#32 = BitVec.ofNat 32 d := by
      interval_cases d <;> decide
    have hvalue : ∀ m, BitVec.ofNat 32 (d + 10 * m) = BitVec.ofNat 32 m * 10#32 + BitVec.ofNat 32 d := by
      intro m
      rw [BitVec.ofNat_add, BitVec.ofNat_mul]
      ring
    rw [List.map_cons, List.reverse_cons, Nat.ofDigits_cons, hvalue, ← ih fun d hd => h d (List.mem_cons_of_mem _ hd),
      ← hdigit, stringToInt, List.foldl_append, ← stringToInt]
    simp only [List.foldl_cons, List.foldl_nil]
    ring

/-- The text of a number without any field or precision. -/
def plainText (base value : ℕ) : List UCHAR :=
  if value = 0 then [chr '0'] else ((Nat.digits base value).map fun d => BitVec.ofNat 8 (48 + d)).reverse

lemma standardText_plain (hbase : base = 8 ∨ base = 10) (value : ℕ) (negative : Bool) :
    standardText value negative base 0 0 .none = (if negative then [chr '-'] else []) ++ plainText base value := by
  have hdigits : digitChars .none base value = (Nat.digits base value).map fun d => BitVec.ofNat 8 (48 + d) := by
    refine List.map_congr_left fun d hd => ?_
    have hlt : d < base := Nat.digits_lt_base (by omega) hd
    rw [ntoaDigit, if_pos (by omega)]
  have hnumber : standardNumber value negative base 0 0 .none =
      (if negative then [chr '-'] else []) ++ plainText base value := by
    rw [standardNumber, standardPrefix, standardDigits, plainText, hdigits]
    by_cases hvalue : value = 0
    · simp [hvalue, signText, PrintFlags.none, zeros]
    · have hpos : 0 < (Nat.digits base value).length :=
        List.length_pos_iff.mpr (Nat.digits_ne_nil_iff_ne_zero.mpr hvalue)
      simp [hvalue, signText, PrintFlags.none, zeros, Nat.sub_eq_zero_of_le (Nat.succ_le_of_lt hpos)]
  rw [standardText, hnumber, inField]
  simp [blanks, PrintFlags.none]

lemma length_plainText {k : ℕ} (hk : 0 < k) (value : ℕ) : (plainText 10 value).length ≤ k ↔ value < 10^k := by
  rw [plainText]
  split_ifs with hvalue
  · have hpow : 0 < 10^k := pow_pos (by decide) k
    simp [hvalue, Nat.succ_le_of_lt hk]
  · rw [List.length_reverse, List.length_map, Nat.digits_length_le_iff (by decide)]

lemma stringToInt_plainText (hbase : base = 8 ∨ base = 10) (value : ℕ) :
    stringToInt (plainText base value) = BitVec.ofNat 32 (reread base 10 value) := by
  rw [plainText]
  split_ifs with hvalue
  · rw [hvalue, reread_zero]
    rfl
  · exact stringToInt_digits fun d hd => (Nat.digits_lt_base (by omega) hd).trans_le (by omega)

variable {float : FloatText} {mem : Readable} {va : Args}

/-- A directive of two characters. -/
lemma formatText_plain {c : UCHAR} (hc : c ∈ standardSpecifiers) (hflags : integerFlags c .none = .none)
    (hbase : baseOf c = 8 ∨ baseOf c = 10) : formatText float mem [chr '%', c] va =
      some ((if (integerValue c .none (va 0)).2 then [chr '-'] else []) ++
        plainText (baseOf c) (integerValue c .none (va 0)).1.toNat, va.rest) := by
  have hplain : standardInteger c ⟨.none, 0, 0, [c], va⟩ = (if (integerValue c .none (va 0)).2 then [chr '-'] else []) ++
      plainText (baseOf c) (integerValue c .none (va 0)).1.toNat := by
    rw [standardInteger, hflags]
    exact standardText_plain hbase _ _
  have htext : formatText float mem (chr '%' :: (plainParts.text ++ [c])) va =
      (formatText float mem [] va.rest).map (Prod.map (standardInteger c ⟨.none, 0, 0, [c], va⟩ ++ ·) id) :=
    formatText_integer plainParts hc (Nat.zero_le 30) fun _ => Nat.zero_le 32
  rw [hplain, formatText_nil, Option.map_some, Prod.map, List.append_nil] at htext
  exact htext

/-- An `INT` in decimal digits. -/
def signedText (z : ℤ) : List UCHAR := (if z < 0 then [chr '-'] else []) ++ plainText 10 z.natAbs

lemma ntoaAbs_toNat (x : BitVec 64) : (ntoaAbs x).toNat = x.toInt.natAbs := by
  have hcond := BitVec.toInt_eq_toNat_cond x
  rw [ntoaAbs]
  by_cases hpos : 0 < x.toInt
  · rw [if_pos hpos]
    split_ifs at hcond <;> omega
  · rw [if_neg hpos, BitVec.toNat_neg]
    split_ifs at hcond <;> omega

/-- `%d`. -/
lemma formatText_int (va : Args) : formatText float mem [chr '%', chr 'd'] va =
    some (signedText ((va 0).setWidth 32 : INT).toInt, va.rest) := by
  have hsigned : isSigned (chr 'd') = true := by decide
  have hint : (signedValue .none (va 0)).toInt = ((va 0).setWidth 32 : INT).toInt :=
    BitVec.toInt_signExtend_of_le (by decide)
  have hvalue : integerValue (chr 'd') .none (va 0) =
      (ntoaAbs (signedValue .none (va 0)), decide ((signedValue .none (va 0)).toInt < 0)) := by
    rw [integerValue, if_pos hsigned]
  have hbase : baseOf (chr 'd') = 10 := by decide
  rw [formatText_plain (by decide) (by decide) (.inr hbase), hvalue, hbase, ntoaAbs_toNat, hint]
  simp [signedText]

lemma setWidth_toNat (n : INT) : (n.setWidth 64).toNat = n.toNat := by
  rw [BitVec.toNat_setWidth]
  omega

/-- `string_to_int` reads what `%d` prints. -/
theorem stringToInt_formatText (float : FloatText) (mem : Readable) (h : 0 ≤ ((va 0).setWidth 32 : INT).toInt) :
    ∃ t, formatText float mem [chr '%', chr 'd'] va = some (t, va.rest) ∧ stringToInt t = (va 0).setWidth 32 := by
  refine ⟨_, formatText_int va, ?_⟩
  have hnat : ((va 0).setWidth 32 : INT).toInt.natAbs = ((va 0).setWidth 32 : INT).toNat := natAbs_toInt_of_nonneg h
  rw [signedText, if_neg (Int.not_lt.mpr h), List.nil_append, stringToInt_plainText (.inr rfl), hnat, reread,
    Nat.ofDigits_digits]
  exact BitVec.ofNat_toNat 32 _

theorem stringToInt_formatText_small : ∃ t, formatText (fun _ _ _ _ _ => []) (fun _ => 0) [chr '%', chr 'd'] (fun _ => 1998) =
    some (t, Args.rest fun _ => 1998) ∧ stringToInt t = (1998 : ULONG64).setWidth 32 :=
  stringToInt_formatText _ _ (by decide)

/-- `oct_to_dec` and `string_to_int` read what `%o` prints, up to nine octal digits and a one in front. -/
theorem octToDec_formatText (float : FloatText) (mem : Readable) (h : ((va 0).setWidth 32 : UINT).toNat < 2^28) :
    ∃ t, formatText float mem [chr '%', chr 'o'] va = some (t, va.rest) ∧
      (octToDec (stringToInt t)).toInt = ((va 0).setWidth 32 : UINT).toNat := by
  have hvalue : (integerValue (chr 'o') .none (va 0)).1.toNat = ((va 0).setWidth 32 : UINT).toNat :=
    setWidth_toNat ((va 0).setWidth 32)
  refine ⟨_, formatText_plain (by decide) (by decide) (by decide), ?_⟩
  have hbase : baseOf (chr 'o') = 8 := by decide
  have hunsigned : (integerValue (chr 'o') .none (va 0)).2 = false := rfl
  have hsmall : reread 8 10 ((va 0).setWidth 32 : UINT).toNat < 2^31 := by
    have hbound : reread 8 10 (2^28) = 10^9 * 2 := by
      have hsplit : reread 8 10 (0 + 8^9 * 2) = reread 8 10 0 + 10^9 * reread 8 10 2 :=
        reread_add (by decide) (by decide) 2
      have htwo : reread 8 10 2 = 2 := reread_of_lt (by decide) (by decide)
      rw [reread_zero, htwo, Nat.zero_add, Nat.zero_add] at hsplit
      exact hsplit
    have hmono : StrictMono (reread 8 10) := reread_strictMono (by decide) (by decide)
    have hlt := hmono h
    omega
  rw [hvalue, hbase, hunsigned, if_neg Bool.false_ne_true, List.nil_append, stringToInt_plainText (.inl rfl),
    octToDec_toInt, BitVec.toInt_ofNat', Int.bmod_eq_of_le (by omega) (by omega),
    octValue_natCast, reread_reread (by decide) (by decide)]

/-- The number 1944, `3630` in octal digits. -/
theorem octToDec_formatText_small : ∃ t, formatText (fun _ _ _ _ _ => []) (fun _ => 0) [chr '%', chr 'o'] (fun _ => 1944) =
    some (t, Args.rest fun _ => 1944) ∧ (octToDec (stringToInt t)).toInt = ((1944 : ULONG64).setWidth 32 : UINT).toNat :=
  octToDec_formatText _ _ (by decide)

end ReadBack

end Open98.Lib
