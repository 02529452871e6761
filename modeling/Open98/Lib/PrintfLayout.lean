import Open98.Lib.PrintfParse

/-! How numbers are laid out: the text of an integer directive is the one the language prescribes as long as the
number fits into the buffer it is put together in. -/
namespace Open98.Lib
open Library

section Steps
variable {flags : PrintFlags} {buf : List UCHAR} {base value : ℕ}

def zeros (n : ℕ) : List UCHAR := List.replicate n (chr '0')

lemma padZeros_eq {bound rounds : ℕ} (hrounds : ntoaBufferSize ≤ buf.length + rounds) :
    padZeros bound rounds buf = buf ++ zeros (min bound ntoaBufferSize - buf.length) := by
  induction rounds generalizing buf with
  | zero =>
    rw [padZeros, Nat.sub_eq_zero_of_le (by omega)]
    exact (List.append_nil buf).symm
  | succ n ih =>
    rw [padZeros]
    split_ifs with h
    · have hlen : (buf ++ [chr '0']).length = buf.length + 1 := by simp
      rw [ih (by omega), hlen, show min bound ntoaBufferSize - buf.length =
        min bound ntoaBufferSize - (buf.length + 1) + 1 by omega, List.append_assoc]
      rfl
    · rw [Nat.sub_eq_zero_of_le (by omega)]
      exact (List.append_nil buf).symm

/-- The digits, the last one first. -/
def digitChars (flags : PrintFlags) (base value : ℕ) : List UCHAR := (Nat.digits base value).map (ntoaDigit flags)

lemma digitLoop_eq (hbase : 1 < base) {rounds : ℕ} (hvalue : value ≠ 0)
    (hrounds : buf.length + rounds = ntoaBufferSize) (hpos : 0 < rounds) :
    digitLoop flags base rounds value buf = buf ++ (digitChars flags base value).take rounds := by
  induction rounds generalizing buf value with
  | zero => cases hpos
  | succ n ih =>
    have hdigits : digitChars flags base value =
        ntoaDigit flags (value % base) :: digitChars flags base (value / base) := by
      rw [digitChars, Nat.digits_def' hbase (Nat.pos_of_ne_zero hvalue), List.map_cons, digitChars]
    rw [digitLoop, hdigits, List.take_succ_cons]
    split_ifs with h
    · have hlen : (buf ++ [ntoaDigit flags (value % base)]).length = buf.length + 1 := by simp
      rw [ih h.1 (by omega) (by omega), List.append_assoc]
      rfl
    · have hrest : (digitChars flags base (value / base)).take n = [] := by
        by_cases hzero : value / base = 0
        · simp [hzero, digitChars]
        · have hfull : ¬buf.length + 1 < ntoaBufferSize := by simpa [hzero] using h
          rw [show n = 0 by omega, List.take_zero]
      rw [hrest]

lemma pushChar_of_lt (h : buf.length < ntoaBufferSize) (c : UCHAR) : pushChar buf c = buf ++ [c] := if_pos h

end Steps

section Standard

def signText (negative : Bool) (flags : PrintFlags) : List UCHAR :=
  if negative then [chr '-'] else if flags.plus then [chr '+'] else if flags.space then [chr ' '] else []

/-- The digits the language prescribes: as many as the precision says, which is one unless it is given, and in the
alternative octal form a zero in front. -/
def standardDigits (value base precision : ℕ) (flags : PrintFlags) : List UCHAR :=
  let digits := (digitChars flags base value).reverse
  let digits := zeros ((if flags.precision then precision else 1) - digits.length) ++ digits
  if flags.hash && base = 8 && digits.head? ≠ some (chr '0') then chr '0' :: digits else digits

/-- The sign, or the prefix of the alternative hexadecimal form. -/
def standardPrefix (value : ℕ) (negative : Bool) (base : ℕ) (flags : PrintFlags) : List UCHAR :=
  signText negative flags ++
    if (flags.hash || flags.pointer) && base = 16 && value ≠ 0 then
      [chr '0', if flags.uppercase then chr 'X' else chr 'x'] else []

/-- The number, with the zeros that fill the field. -/
def standardNumber (value : ℕ) (negative : Bool) (base precision width : ℕ) (flags : PrintFlags) : List UCHAR :=
  let front := standardPrefix value negative base flags
  let digits := standardDigits value base precision flags
  front ++ (if flags.zeropad && !flags.left then zeros (width - (front.length + digits.length)) else []) ++ digits

def standardText (value : ℕ) (negative : Bool) (base precision width : ℕ) (flags : PrintFlags) : List UCHAR :=
  let number := standardNumber value negative base precision width flags
  inField flags.left number.length width number

end Standard

section Formatted
variable {flags : PrintFlags} {buf : List UCHAR} {negative : Bool} {base precision width n width' : ℕ}

lemma length_zeros (n : ℕ) : (zeros n).length = n := List.length_replicate

lemma reverse_zeros (n : ℕ) : (zeros n).reverse = zeros n := List.reverse_replicate

lemma padZeros_of_le {bound : ℕ} (hbound : bound ≤ ntoaBufferSize) :
    padZeros bound ntoaBufferSize buf = buf ++ zeros (bound - buf.length) := by
  rw [padZeros_eq (Nat.le_add_left _ _), Nat.min_eq_left hbound]

lemma ntoaZeros_precision (hfits : precision ≤ ntoaBufferSize) (hzero : flags.zeropad = false) :
    ntoaZeros buf negative precision width flags = (buf ++ zeros (precision - buf.length), width) := by
  rw [ntoaZeros, hzero]
  simp [padZeros_of_le hfits]

/-- The zeros that fill a field leave a place for the sign. -/
lemma ntoaZeros_field (hzero : flags.zeropad = true) (hleft : flags.left = false)
    (hfits : width - (signText negative flags).length ≤ ntoaBufferSize) :
    ntoaZeros buf negative 0 width flags =
      (buf ++ zeros (width - (signText negative flags).length - buf.length), width - (signText negative flags).length) := by
  have hwidth : (if !flags.left && width ≠ 0 && flags.zeropad && (negative || flags.plus || flags.space)
      then width - 1 else width) = width - (signText negative flags).length := by
    rw [signText, hzero, hleft]
    cases negative <;> cases flags.plus <;> cases flags.space <;> simp <;> omega
  rw [ntoaZeros, hwidth, hzero, hleft]
  simp only [Bool.not_false, Bool.and_true, if_true]
  rw [padZeros_of_le (Nat.zero_le _), padZeros_of_le hfits, Nat.zero_sub]
  exact congrArg (·, _) (List.append_nil _)

lemma ntoaZeros_none (hfield : (flags.zeropad && !flags.left) = false) :
    ntoaZeros buf negative 0 width flags = (buf, width) := by
  rw [ntoaZeros, padZeros_of_le (Nat.zero_le _), Nat.zero_sub]
  cases hzero : flags.zeropad with
  | false => simp [zeros]
  | true =>
    have hleft : flags.left = true := by simpa [hzero] using hfield
    simp [hleft, zeros]

lemma ntoaSign_eq (hfits : buf.length + (signText negative flags).length ≤ ntoaBufferSize) :
    ntoaSign buf negative flags = buf ++ (signText negative flags).reverse := by
  rw [ntoaSign]
  rw [signText] at hfits ⊢
  split_ifs at hfits ⊢
  all_goals first
    | exact pushChar_of_lt (Nat.lt_of_succ_le hfits) _
    | exact (List.append_nil buf).symm

lemma ntoaPrefix_plain (hhash : flags.hash = false) (hpointer : flags.pointer = false) (unpaddedLen : ℕ)
    (buf : List UCHAR) (base precision width : ℕ) : ntoaPrefix unpaddedLen buf base precision width flags = buf := by
  rw [ntoaPrefix, hhash, hpointer, Bool.or_false, if_neg Bool.false_ne_true]

/-- Without a prefix. -/
lemma ntoaFormatted_plain (hzeros : ntoaZeros buf negative precision width flags = (buf ++ zeros n, width'))
    (hfits : buf.length + n + (signText negative flags).length ≤ ntoaBufferSize) (hhash : flags.hash = false)
    (hpointer : flags.pointer = false) :
    ntoaFormatted buf negative base precision width flags =
      ((signText negative flags ++ zeros n ++ buf.reverse).reverse, width', flags) := by
  have hflags : (if base = 8 ∧ buf.length < (buf ++ zeros n).length then { flags with hash := false } else flags) =
      flags := by
    rw [← hhash]
    exact ite_self flags
  have hsign : (buf ++ zeros n).length + (signText negative flags).length ≤ ntoaBufferSize := by
    rw [List.length_append, length_zeros]
    exact hfits
  rw [ntoaFormatted, hzeros]
  dsimp only
  rw [hflags, ntoaPrefix_plain hhash hpointer, ntoaSign_eq hsign]
  simp [reverse_zeros]

lemma takeBack_zeros (buf : List UCHAR) (n : ℕ) : takeBack buf.length (buf ++ zeros n) = buf ++ zeros (n-1) := by
  cases n with
  | zero => simp [takeBack, zeros]
  | succ n =>
    rw [takeBack, if_pos (by rw [List.length_append, length_zeros]; omega), Nat.add_sub_cancel, zeros,
      List.replicate_succ', ← List.append_assoc, List.dropLast_concat]
    rfl

/-- The octal prefix is a zero, which is left out if zeros have been added. -/
lemma ntoaFormatted_octal (hzeros : ntoaZeros buf negative precision width flags = (buf ++ zeros n, width'))
    (hfits : buf.length + max n 1 ≤ ntoaBufferSize) (hhash : flags.hash = true)
    (hpointer : flags.pointer = false) (hsign : signText negative flags = []) :
    ∃ flags', ntoaFormatted buf negative 8 precision width flags = ((zeros (max n 1) ++ buf.reverse).reverse, width', flags') ∧
      flags'.left = flags.left ∧ flags'.zeropad = flags.zeropad := by
  cases n with
  | zero =>
    have hback : takeBack buf.length buf = buf := if_neg (lt_irrefl _)
    have hfront : ntoaPrefix buf.length buf 8 precision width' flags = buf ++ [chr '0'] := by
      rw [ntoaPrefix, hhash, hback]
      simp [pushChar_of_lt (show buf.length < ntoaBufferSize by omega)]
    have hlen : (buf ++ [chr '0']).length + (signText negative flags).length ≤ ntoaBufferSize := by
      rw [hsign]
      simpa using hfits
    refine ⟨flags, ?_, rfl, rfl⟩
    rw [ntoaFormatted, hzeros]
    simp only [zeros, List.replicate_zero, List.append_nil, lt_irrefl, and_false, if_false]
    rw [hfront, ntoaSign_eq hlen, hsign]
    simp
  | succ n =>
    refine ⟨{ flags with hash := false }, ?_, rfl, rfl⟩
    have hflags : (if 8 = 8 ∧ buf.length < (buf ++ zeros (n+1)).length then { flags with hash := false } else flags) =
        { flags with hash := false } := if_pos ⟨rfl, by rw [List.length_append, length_zeros]; omega⟩
    have hsign' : signText negative { flags with hash := false } = [] := hsign
    have hlen : (buf ++ zeros (n+1)).length + (signText negative { flags with hash := false }).length ≤
        ntoaBufferSize := by
      rw [hsign', List.length_append, length_zeros, List.length_nil]
      omega
    rw [ntoaFormatted, hzeros]
    dsimp only
    rw [hflags, ntoaPrefix_plain (show ({ flags with hash := false } : PrintFlags).hash = false from rfl) hpointer,
      ntoaSign_eq hlen, hsign']
    simp [reverse_zeros]

/-- Padding zeros make room for the hexadecimal prefix. -/
lemma ntoaFormatted_hex (hzeros : ntoaZeros buf negative precision width flags = (buf ++ zeros n, width'))
    (hfits : buf.length + (if flags.precision then n else n-2) + 2 ≤ ntoaBufferSize)
    (hfront : (flags.hash || flags.pointer) = true) (hsign : signText negative flags = [])
    (hroom : flags.precision = false → precision = 0 ∧ (n = 0 ∨ buf.length + n = width') ∧ buf ≠ []) :
    ntoaFormatted buf negative 16 precision width flags =
      (([chr '0', if flags.uppercase then chr 'X' else chr 'x'] ++ zeros (if flags.precision then n else n-2) ++
        buf.reverse).reverse, width', flags) := by
  have hback : (if !flags.precision && (buf ++ zeros n).length ≠ 0 && ((buf ++ zeros n).length = precision ||
      (buf ++ zeros n).length = width') then
        if (takeBack buf.length (buf ++ zeros n)).length ≠ 0 && 16 = 16 then
          takeBack buf.length (takeBack buf.length (buf ++ zeros n)) else takeBack buf.length (buf ++ zeros n)
      else buf ++ zeros n) = buf ++ zeros (if flags.precision then n else n-2) := by
    cases hp : flags.precision with
    | true => simp
    | false =>
      obtain ⟨rfl, hn, hbuf⟩ := hroom hp
      have hpos : 0 < buf.length := List.length_pos_iff.mpr hbuf
      rw [takeBack_zeros, takeBack_zeros]
      rcases hn with rfl | hn
      · simp
      · simp [hn, length_zeros, hbuf, Nat.sub_sub]
        omega
  have hlen : (buf ++ zeros (if flags.precision then n else n-2)).length + 2 ≤ ntoaBufferSize := by
    rw [List.length_append, length_zeros]
    exact hfits
  have hpush : ∀ c, pushChar (pushChar (buf ++ zeros (if flags.precision then n else n-2)) c) (chr '0') =
      buf ++ zeros (if flags.precision then n else n-2) ++ [c, chr '0'] := by
    intro c
    have hfirst : (buf ++ zeros (if flags.precision then n else n-2)).length < ntoaBufferSize := by omega
    have hsecond : (buf ++ zeros (if flags.precision then n else n-2) ++ [c]).length < ntoaBufferSize := by
      rw [List.length_append, List.length_singleton]
      omega
    rw [pushChar_of_lt hfirst, pushChar_of_lt hsecond, List.append_assoc]
    rfl
  have hsigned : ∀ c, (buf ++ zeros (if flags.precision then n else n-2) ++ [c, chr '0']).length +
      (signText negative flags).length ≤ ntoaBufferSize := by
    intro c
    rw [hsign, List.length_append]
    exact hlen
  rw [ntoaFormatted, hzeros]
  dsimp only
  have hbase : ¬(16 = 8 ∧ buf.length < (buf ++ zeros n).length) := by simp
  rw [if_neg hbase, ntoaPrefix, if_pos hfront, hback]
  dsimp only
  rw [if_pos rfl, hpush, ntoaSign_eq (hsigned _), hsign]
  simp [reverse_zeros]

end Formatted

section Digits
variable {flags : PrintFlags} {base value precision : ℕ}

/-- What `_ntoa` begins with, the last digit first. -/
def startChars (flags : PrintFlags) (base value : ℕ) : List UCHAR :=
  if value = 0 && !flags.precision then [chr '0'] else digitChars flags base value

lemma length_digitChars (flags : PrintFlags) (base value : ℕ) :
    (digitChars flags base value).length = (Nat.digits base value).length := List.length_map _

lemma digitChars_ne_nil (flags : PrintFlags) (base : ℕ) (hvalue : value ≠ 0) : digitChars flags base value ≠ [] := by
  rw [digitChars, Ne, List.map_eq_nil_iff]
  exact Nat.digits_ne_nil_iff_ne_zero.mpr hvalue

lemma ntoaDigits_eq (hbase : 1 < base) (hfits : (digitChars flags base value).length ≤ ntoaBufferSize) :
    ntoaDigits value base flags = (startChars flags base value,
      if value = 0 && (!flags.precision || base = 16) then { flags with hash := false } else flags) := by
  rw [ntoaDigits, startChars]
  by_cases hvalue : value = 0
  · subst hvalue
    cases hp : flags.precision <;> by_cases h16 : base = 16 <;> simp [h16, digitChars]
  · have hloop : digitLoop flags base ntoaBufferSize value [] =
        [] ++ (digitChars flags base value).take ntoaBufferSize :=
      digitLoop_eq hbase hvalue (Nat.zero_add ntoaBufferSize) (by decide)
    rw [List.nil_append, List.take_of_length_le hfits] at hloop
    simp [hvalue, hloop]

lemma ntoaDigit_ne_zero {d : ℕ} (hpos : 0 < d) (hd : d < 16) : ntoaDigit flags d ≠ chr '0' := by
  rw [ntoaDigit]
  cases flags.uppercase <;> interval_cases d <;> decide

/-- The first digit of a number is not zero. -/
lemma head_digitChars (flags : PrintFlags) (hbase : 1 < base) (hle : base ≤ 16) (hvalue : value ≠ 0) :
    ∃ c rest, (digitChars flags base value).reverse = c :: rest ∧ c ≠ chr '0' := by
  have hne : Nat.digits base value ≠ [] := Nat.digits_ne_nil_iff_ne_zero.mpr hvalue
  refine ⟨ntoaDigit flags ((Nat.digits base value).getLast hne),
    ((Nat.digits base value).dropLast.map (ntoaDigit flags)).reverse, ?_, ntoaDigit_ne_zero ?_ ?_⟩
  · conv_lhs => rw [digitChars, ← List.dropLast_append_getLast hne]
    rw [List.map_append, List.reverse_append]
    rfl
  · exact Nat.pos_of_ne_zero (Nat.getLast_digit_ne_zero base hvalue)
  · exact (Nat.digits_lt_base hbase (List.getLast_mem hne)).trans_le hle

/-- How many zeros the precision asks for. -/
def precisionZeros (flags : PrintFlags) (precision base value : ℕ) : ℕ :=
  if flags.precision then precision - (startChars flags base value).length else 0

lemma standardDigits_plain (hoctal : (flags.hash && base = 8) = false) : standardDigits value base precision flags =
    zeros (precisionZeros flags precision base value) ++ (startChars flags base value).reverse := by
  rw [standardDigits, hoctal, precisionZeros, startChars]
  cases hp : flags.precision with
  | true => simp
  | false =>
    by_cases hvalue : value = 0
    · simp [hvalue, digitChars, zeros]
    · have hpos := List.length_pos_iff.mpr (digitChars_ne_nil flags base hvalue)
      simp [hvalue, zeros, Nat.sub_eq_zero_of_le (Nat.succ_le_of_lt hpos)]

lemma leadingZero (k : ℕ) {ds : List UCHAR} (hds : ds.head? ≠ some (chr '0')) :
    (if (zeros k ++ ds).head? ≠ some (chr '0') then chr '0' :: (zeros k ++ ds) else zeros k ++ ds) =
      zeros (max k 1) ++ ds := by
  cases k with
  | zero => exact if_pos hds
  | succ k =>
    have hzero : (zeros (k+1) ++ ds).head? = some (chr '0') := rfl
    rw [hzero, if_neg (not_not_intro rfl), Nat.max_eq_left (Nat.le_add_left 1 k)]

/-- The alternative octal form has a zero in front at least. -/
lemma standardDigits_octal (hhash : flags.hash = true) : standardDigits value 8 precision flags =
    zeros (max (precisionZeros flags precision 8 value) (if value = 0 && !flags.precision then 0 else 1)) ++
      (startChars flags 8 value).reverse := by
  have hhead : (digitChars flags 8 value).reverse.head? ≠ some (chr '0') := by
    by_cases hvalue : value = 0
    · simp [hvalue, digitChars]
    · obtain ⟨c, rest, heq, hc⟩ := head_digitChars flags (show 1 < 8 by decide) (by decide) hvalue
      rw [heq]
      exact fun h => hc (Option.some.inj h)
  rw [standardDigits, hhash]
  simp only [Bool.true_and, decide_true, decide_eq_true_eq]
  rw [leadingZero _ hhead, precisionZeros, startChars]
  cases hp : flags.precision with
  | true => simp
  | false =>
    by_cases hvalue : value = 0
    · simp [hvalue, digitChars, zeros]
    · have hpos := List.length_pos_iff.mpr (digitChars_ne_nil flags 8 hvalue)
      simp [hvalue, Nat.sub_eq_zero_of_le (Nat.succ_le_of_lt hpos)]

end Digits

section Layout
variable {flags : PrintFlags} {value base precision width : ℕ} {negative : Bool}

/-- How `_ntoa` is called for an integer or a pointer. -/
structure Ordinary (value : ℕ) (negative : Bool) (base precision : ℕ) (flags : PrintFlags) : Prop where
  base_mem : base = 8 ∨ base = 10 ∨ base = 16
  unset : flags.precision = false → precision = 0
  zeropad : flags.precision = true → flags.zeropad = false
  decimal : base = 10 → flags.hash = false
  unsigned : base ≠ 10 → signText negative flags = []
  pointer : flags.pointer = true → base = 16 ∧ value ≠ 0

/-- The zeros that `_ntoa_format` adds, and the width it goes on with. -/
def addedZeros (start : ℕ) (negative : Bool) (precision width : ℕ) (flags : PrintFlags) : ℕ :=
  if flags.precision then precision - start
  else if flags.zeropad && !flags.left then width - (signText negative flags).length - start else 0

def leftWidth (negative : Bool) (width : ℕ) (flags : PrintFlags) : ℕ :=
  if flags.zeropad && !flags.left then width - (signText negative flags).length else width

lemma Ordinary.zeros_eq (h : Ordinary value negative base precision flags) (buf : List UCHAR) (width : ℕ)
    (hfits : buf.length + addedZeros buf.length negative precision width flags ≤ ntoaBufferSize) :
    ntoaZeros buf negative precision width flags =
      (buf ++ zeros (addedZeros buf.length negative precision width flags), leftWidth negative width flags) := by
  rw [addedZeros] at hfits ⊢
  rw [leftWidth]
  cases hp : flags.precision with
  | true =>
    have hzero := h.zeropad hp
    rw [hp, if_pos rfl] at hfits
    rw [ntoaZeros_precision (by omega) hzero, hzero]
    rfl
  | false =>
    obtain rfl := h.unset hp
    rw [hp, if_neg Bool.false_ne_true] at hfits
    cases hfield : flags.zeropad && !flags.left with
    | true =>
      obtain ⟨hzero, hleft⟩ := Bool.and_eq_true_iff.mp hfield
      rw [hfield, if_pos rfl] at hfits
      have hwidth : width - (signText negative flags).length ≤ ntoaBufferSize := by omega
      rw [ntoaZeros_field hzero (by simpa using hleft) hwidth]
      rfl
    | false =>
      rw [ntoaZeros_none hfield]
      simp [zeros]

/-- What is put together is the number, and blanks fill the field unless zeros do. -/
def Puts (r : List UCHAR × ℕ × PrintFlags) (number : List UCHAR) (width : ℕ) (flags : PrintFlags) : Prop :=
  r.1 = number.reverse ∧ r.2.1 = width ∧ r.2.2.left = flags.left ∧ r.2.2.zeropad = flags.zeropad

lemma standardNumber_length (h : (flags.zeropad && !flags.left) = true) (value : ℕ) (negative : Bool)
    (base precision width : ℕ) : width ≤ (standardNumber value negative base precision width flags).length := by
  rw [standardNumber, h]
  simp only [if_true, List.length_append, length_zeros]
  omega

lemma Puts.revText {r : List UCHAR × ℕ × PrintFlags}
    (h : Puts r (standardNumber value negative base precision width flags) (leftWidth negative width flags) flags) :
    revText r.1 r.2.1 r.2.2 = standardText value negative base precision width flags := by
  obtain ⟨hbuf, hwidth, hleft, hzero⟩ := h
  rw [Lib.revText, standardText, hbuf, hwidth, hleft, hzero, leftWidth, inField, List.reverse_reverse, List.length_reverse]
  cases hl : flags.left with
  | true => simp
  | false =>
    cases hz : flags.zeropad with
    | true =>
      have hfield : (flags.zeropad && !flags.left) = true := by rw [hl, hz]; rfl
      have hlen := standardNumber_length hfield value negative base precision width
      simp [blanks, Nat.sub_eq_zero_of_le hlen]
    | false => simp

/-- The zeros that fill the field and the zeros of the precision are those that `_ntoa_format` adds, apart from
those it takes back for `extra` characters. -/
lemma Ordinary.zeros_append (h : Ordinary value negative base precision flags) (width extra : ℕ)
    (hextra : flags.precision = true → extra = 0) :
    (if flags.zeropad && !flags.left then zeros (width - ((signText negative flags).length + extra +
      (precisionZeros flags precision base value + (startChars flags base value).length))) else []) ++
        zeros (precisionZeros flags precision base value) =
      zeros (addedZeros (startChars flags base value).length negative precision width flags - extra) := by
  rw [precisionZeros, addedZeros]
  cases hp : flags.precision with
  | true =>
    rw [h.zeropad hp, hextra hp]
    simp
  | false =>
    cases flags.zeropad && !flags.left with
    | true =>
      simp only [if_true, if_false, Bool.false_eq_true, zeros, List.replicate_zero, List.append_nil]
      congr 1
      omega
    | false => simp [zeros]

lemma signText_noHash (negative : Bool) (flags : PrintFlags) :
    signText negative { flags with hash := false } = signText negative flags := rfl

lemma ntoaZeros_noHash (buf : List UCHAR) (negative : Bool) (precision width : ℕ) (flags : PrintFlags) :
    ntoaZeros buf negative precision width { flags with hash := false } = ntoaZeros buf negative precision width flags :=
  rfl

lemma Ordinary.puts_plain (h : Ordinary value negative base precision flags) {flags' : PrintFlags}
    (hflags : flags' = flags ∨ flags' = { flags with hash := false }) (hhash : flags'.hash = false)
    (hpointer : flags.pointer = false)
    (hdigits : standardDigits value base precision flags =
      zeros (precisionZeros flags precision base value) ++ (startChars flags base value).reverse)
    (hfront : standardPrefix value negative base flags = signText negative flags)
    (hfits : (standardNumber value negative base precision width flags).length ≤ ntoaBufferSize) :
    Puts (ntoaFormatted (startChars flags base value) negative base precision width flags')
      (standardNumber value negative base precision width flags) (leftWidth negative width flags) flags := by
  have hnumber : standardNumber value negative base precision width flags = signText negative flags ++
      zeros (addedZeros (startChars flags base value).length negative precision width flags) ++
        (startChars flags base value).reverse := by
    have happend := h.zeros_append width 0 fun _ => rfl
    rw [Nat.add_zero, Nat.sub_zero] at happend
    rw [standardNumber, hdigits, hfront, List.length_append, length_zeros, List.length_reverse, ← happend]
    simp only [List.append_assoc]
  rw [hnumber] at hfits ⊢
  simp only [List.length_append, List.length_reverse, length_zeros] at hfits
  have hzeros := h.zeros_eq (startChars flags base value) width (by omega)
  rcases hflags with rfl | rfl
  · rw [ntoaFormatted_plain hzeros (by omega) hhash hpointer]
    exact ⟨rfl, rfl, rfl, rfl⟩
  · rw [ntoaFormatted_plain ((ntoaZeros_noHash _ _ _ _ _).trans hzeros) (by rw [signText_noHash]; omega) hhash hpointer,
      signText_noHash]
    exact ⟨rfl, rfl, rfl, rfl⟩

lemma Ordinary.puts_octal (h : Ordinary value negative 8 precision flags) (hhash : flags.hash = true)
    (hvalue : (value = 0 && !flags.precision) = false)
    (hfits : (standardNumber value negative 8 precision width flags).length ≤ ntoaBufferSize) :
    Puts (ntoaFormatted (startChars flags 8 value) negative 8 precision width flags)
      (standardNumber value negative 8 precision width flags) (leftWidth negative width flags) flags := by
  have hsign := h.unsigned (by decide)
  have hpointer : flags.pointer = false := by
    by_contra hp
    exact absurd (h.pointer (Bool.eq_true_of_not_eq_false hp)).1 (by decide)
  have hfront : standardPrefix value negative 8 flags = [] := by
    rw [standardPrefix, hsign]
    simp
  have hnumber : standardNumber value negative 8 precision width flags =
      zeros (max (addedZeros (startChars flags 8 value).length negative precision width flags) 1) ++
        (startChars flags 8 value).reverse := by
    rw [standardNumber, hfront, standardDigits_octal hhash, hvalue, precisionZeros, addedZeros, hsign]
    cases hp : flags.precision with
    | true =>
      rw [h.zeropad hp]
      simp
    | false =>
      cases flags.zeropad && !flags.left with
      | true =>
        simp only [zeros, List.length_append, List.length_replicate, List.length_reverse, List.length_nil, if_true,
          if_false, Bool.false_eq_true, List.nil_append, Nat.zero_add, Nat.sub_zero, ← List.append_assoc,
          ← List.replicate_add]
        congr 2
        omega
      | false => simp
  rw [hnumber] at hfits ⊢
  simp only [List.length_append, List.length_reverse, length_zeros] at hfits
  have hzeros := h.zeros_eq (startChars flags 8 value) width (by omega)
  obtain ⟨flags', heq, hleft, hzero⟩ := ntoaFormatted_octal hzeros (by omega) hhash hpointer hsign
  rw [heq]
  exact ⟨rfl, rfl, hleft, hzero⟩

lemma Ordinary.puts_hex (h : Ordinary value negative 16 precision flags) (hfront : (flags.hash || flags.pointer) = true)
    (hvalue : value ≠ 0) (hfits : (standardNumber value negative 16 precision width flags).length ≤ ntoaBufferSize) :
    Puts (ntoaFormatted (startChars flags 16 value) negative 16 precision width flags)
      (standardNumber value negative 16 precision width flags) (leftWidth negative width flags) flags := by
  have hsign := h.unsigned (by decide)
  have hstart : startChars flags 16 value = digitChars flags 16 value := by simp [startChars, hvalue]
  have hne : startChars flags 16 value ≠ [] := hstart ▸ digitChars_ne_nil flags 16 hvalue
  have hnumber : standardNumber value negative 16 precision width flags =
      [chr '0', if flags.uppercase then chr 'X' else chr 'x'] ++
        zeros (if flags.precision then addedZeros (startChars flags 16 value).length negative precision width flags
          else addedZeros (startChars flags 16 value).length negative precision width flags - 2) ++
        (startChars flags 16 value).reverse := by
    have hchars : standardPrefix value negative 16 flags = [chr '0', if flags.uppercase then chr 'X' else chr 'x'] := by
      rw [standardPrefix, hsign, hfront]
      simp [hvalue]
    rw [standardNumber, hchars, standardDigits_plain (by simp), precisionZeros, addedZeros, hsign]
    cases hp : flags.precision with
    | true =>
      rw [h.zeropad hp]
      simp
    | false =>
      cases flags.zeropad && !flags.left with
      | true =>
        have hcount : ∀ k, width - (2 + k) = width - k - 2 := fun k => by omega
        simp [zeros, hcount]
      | false => simp [zeros]
  rw [hnumber] at hfits ⊢
  simp only [List.length_append, List.length_reverse, length_zeros, List.length_cons, List.length_nil] at hfits
  have hsmall : (startChars flags 16 value).length + addedZeros (startChars flags 16 value).length negative precision width flags ≤
      ntoaBufferSize := by
    split_ifs at hfits <;> omega
  have hzeros := h.zeros_eq (startChars flags 16 value) width hsmall
  rw [ntoaFormatted_hex hzeros (by omega) hfront hsign fun hp => ⟨h.unset hp, ?_, hne⟩]
  · exact ⟨rfl, rfl, rfl, rfl⟩
  · rw [addedZeros, leftWidth, hp, hsign]
    cases flags.zeropad && !flags.left with
    | true =>
      simp only [if_true, if_false, Bool.false_eq_true, List.length_nil, Nat.sub_zero]
      omega
    | false => exact .inl rfl

/-- An integer is laid out as the language prescribes if it fits into the buffer of `_ntoa`. -/
theorem ntoaText_standard (h : Ordinary value negative base precision flags)
    (hfits : (standardNumber value negative base precision width flags).length ≤ ntoaBufferSize) :
    ntoaText value negative base precision width flags = standardText value negative base precision width flags := by
  have hbase : 1 < base := by
    rcases h.base_mem with rfl | rfl | rfl <;> decide
  have hchars : (digitChars flags base value).length ≤ ntoaBufferSize := by
    refine le_trans ?_ hfits
    rw [standardNumber, standardDigits]
    split_ifs <;> simp <;> omega
  rw [ntoaText, ntoaDigits_eq hbase hchars]
  refine Puts.revText ?_
  by_cases hdrop : (value = 0 && (!flags.precision || base = 16)) = true
  · have hvalue : value = 0 := by simp_all
    have hpointer : flags.pointer = false := by
      by_contra hp
      exact (h.pointer (Bool.eq_true_of_not_eq_false hp)).2 hvalue
    have hdigits : standardDigits value base precision flags =
        zeros (precisionZeros flags precision base value) ++ (startChars flags base value).reverse := by
      by_cases hoctal : (flags.hash && base = 8) = true
      · obtain ⟨hhash, h8⟩ := Bool.and_eq_true_iff.mp hoctal
        obtain rfl : base = 8 := by simpa using h8
        have hp : flags.precision = false := by simp_all
        rw [standardDigits_octal hhash, precisionZeros, hp, hvalue]
        rfl
      · exact standardDigits_plain (Bool.eq_false_iff.mpr hoctal)
    have hfront : standardPrefix value negative base flags = signText negative flags := by
      simp [standardPrefix, hvalue]
    rw [if_pos hdrop]
    exact h.puts_plain (.inr rfl) rfl hpointer hdigits hfront hfits
  · rw [if_neg hdrop]
    by_cases hplain : (flags.hash || flags.pointer) = true
    · rcases h.base_mem with rfl | rfl | rfl
      · have hpointer : flags.pointer = false := by
          by_contra hp
          exact absurd (h.pointer (Bool.eq_true_of_not_eq_false hp)).1 (by decide)
        exact h.puts_octal (by simpa [hpointer] using hplain) (by simpa using hdrop) hfits
      · have hhash := h.decimal rfl
        have hpointer : flags.pointer = true := by simpa [hhash] using hplain
        exact absurd (h.pointer hpointer).1 (by decide)
      · exact h.puts_hex hplain (by simpa using hdrop) hfits
    · obtain ⟨hhash, hpointer⟩ := Bool.or_eq_false_iff.mp (Bool.eq_false_iff.mpr hplain)
      have hfront : standardPrefix value negative base flags = signText negative flags := by
        simp [standardPrefix, hhash, hpointer]
      exact h.puts_plain (.inl rfl) hhash hpointer (standardDigits_plain (by rw [hhash]; rfl)) hfront hfits

end Layout

end Open98.Lib
