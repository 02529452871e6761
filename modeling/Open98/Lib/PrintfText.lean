import Open98.Lib.Printf

/-! The text of a format, and that every output function is given exactly this text. -/
namespace Open98.Lib
open Library

section Text
variable (float : FloatText) (mem : Readable)

def blanks (n : ℕ) : List UCHAR := List.replicate n (chr ' ')

def revText (buf : List UCHAR) (width : ℕ) (flags : PrintFlags) : List UCHAR :=
  (if !flags.left && !flags.zeropad then blanks (width - buf.length) else []) ++ buf.reverse ++
    if flags.left then blanks (width - buf.length) else []

def ntoaText (value : ℕ) (negative : Bool) (base precision width : ℕ) (flags : PrintFlags) : List UCHAR :=
  let digits := ntoaDigits value base flags
  let formatted := ntoaFormatted digits.1 negative base precision width digits.2
  revText formatted.1 formatted.2.1 formatted.2.2

def integerText (c : UCHAR) (d : Directive) : List UCHAR :=
  let flags := integerFlags c d.flags
  let (value, negative) := integerValue c flags (d.va 0)
  ntoaText value.toNat negative (baseOf c) d.precision d.width flags

def floatText (c : UCHAR) (d : Directive) : List UCHAR :=
  let flags := if c = chr 'g' ∨ c = chr 'G' then { d.flags with adaptExp := true } else d.flags
  let flags := if c = chr 'F' ∨ c = chr 'E' ∨ c = chr 'G' then { flags with uppercase := true } else flags
  float ((d.va 0).setWidth 32) d.precision d.width flags (c ≠ chr 'f' && c ≠ chr 'F')

/-- A text that counts as `l` characters in a field. -/
def inField (left : Bool) (l width : ℕ) (text : List UCHAR) : List UCHAR :=
  if left then text ++ blanks (width - l) else blanks (width - l) ++ text

def charText (d : Directive) : List UCHAR := inField d.flags.left 1 d.width [(d.va 0).setWidth 8]

/-- The characters of a string that are printed. -/
def stringChars (flags : PrintFlags) : (rounds : ℕ) → (p : PVOID) → (precision : ℕ) → Option (List UCHAR)
  | 0, _, _ => none
  | n+1, p, precision =>
    if mem p ≠ 0 ∧ (flags.precision = false ∨ precision ≠ 0) then
      (stringChars flags n (p + 1) (precision - 1)).map (mem p :: ·)
    else some []

def stringText (d : Directive) : Option (List UCHAR) :=
  let p := d.va 0
  if p = 0 then some (revText [chr ')', chr 'l', chr 'l', chr 'u', chr 'n', chr '('] d.width d.flags)
  else
    let l := strnlenS mem (if d.precision ≠ 0 then d.precision else 2^64 - 1) p % 2^32
    let l := if d.flags.precision then (if l < d.precision then l else d.precision) else l
    (stringChars mem d.flags (2^64) p d.precision).map (inField d.flags.left l d.width)

def pointerText (d : Directive) : List UCHAR :=
  let flags := { d.flags with zeropad := true, pointer := true }
  if d.va 0 = 0 then revText [chr ')', chr 'l', chr 'i', chr 'n', chr '('] 18 flags
  else ntoaText (d.va 0).toNat false 16 d.precision 18 flags

/-- The text a specifier stands for, and the arguments it leaves. -/
def specifierText (c : UCHAR) (d : Directive) : Option (List UCHAR × Args) :=
  if isInteger c then some (integerText c d, d.va.rest)
  else if isFloat c then some (floatText float c d, d.va.rest)
  else if c = chr 'c' then some (charText d, d.va.rest)
  else if c = chr 's' then (stringText mem d).map fun t => (t, d.va.rest)
  else if c = chr 'p' then some (pointerText d, d.va.rest)
  else if c = chr '%' then some ([chr '%'], d.va)
  else some ([c], d.va)

def directiveText (d : Directive) : Option (List UCHAR × List UCHAR × Args) :=
  match d.format with
  | [] => none
  | c :: format => (specifierText float mem c d).map fun r => (r.1, format, r.2)

def formatTextIn : (rounds : ℕ) → (format : List UCHAR) → Args → Option (List UCHAR × Args)
  | _, [], va => some ([], va)
  | 0, _ :: _, _ => none
  | n+1, c :: format, va =>
    if c ≠ chr '%' then (formatTextIn n format va).map (Prod.map (c :: ·) id)
    else do
      let (text, format, va) ← directiveText float mem (evalDirective format va)
      (formatTextIn n format va).map (Prod.map (text ++ ·) id)

/-- The text of a format, and the arguments it leaves. -/
def formatText (format : List UCHAR) (va : Args) : Option (List UCHAR × Args) :=
  formatTextIn float mem format.length format va

end Text

section Refinement
variable {σ : Type} {float : FloatText} {mem : Readable} (out : Out UCHAR σ) (maxlen : ℕ)

lemma padSpaces_eq (start width : ℕ) (s : Written σ) :
    padSpaces out maxlen start width s = emit out maxlen (blanks (width - start)) s := iterate_put out maxlen _ _ s

lemma outRev_eq (buf : List UCHAR) (width : ℕ) (flags : PrintFlags) (s : Written σ) :
    outRev out maxlen buf width flags s = emit out maxlen (revText buf width flags) s := by
  rw [outRev, revText]
  cases hleft : flags.left with
  | false =>
    cases hzero : flags.zeropad <;> simp [padSpaces_eq, emit_append]
  | true =>
    have hidx : (emit out maxlen buf.reverse s).idx = s.idx + buf.length := by rw [emit_idx, List.length_reverse]
    simp [fillTo_eq out maxlen _ hidx (Nat.le_add_left width buf.length), emit_append, blanks]

lemma ntoa_eq (value : ULONG64) (negative : Bool) (base precision width : ℕ) (flags : PrintFlags) (s : Written σ) :
    ntoa out maxlen value negative base precision width flags s =
      emit out maxlen (ntoaText value.toNat negative base precision width flags) s :=
  outRev_eq out maxlen _ _ _ s

lemma printInteger_eq (c : UCHAR) (d : Directive) (s : Written σ) :
    printInteger out maxlen c d s = emit out maxlen (integerText c d) s := ntoa_eq out maxlen _ _ _ _ _ _ s

lemma emit_inField (left : Bool) (l width : ℕ) (text : List UCHAR) (s : Written σ) :
    emit out maxlen (inField left l width text) s =
      let s := if !left then padSpaces out maxlen l width s else s
      let s := emit out maxlen text s
      if left then padSpaces out maxlen l width s else s := by
  cases left <;> simp [inField, emit_append, padSpaces_eq]

lemma printChar_eq (d : Directive) (s : Written σ) :
    printChar out maxlen d s = emit out maxlen (charText d) s := by
  rw [charText, emit_inField]
  rfl

lemma putString_eq (flags : PrintFlags) (rounds : ℕ) (p : PVOID) (precision : ℕ) (s : Written σ) :
    putString mem out maxlen flags rounds p precision s =
      (stringChars mem flags rounds p precision).map fun text => emit out maxlen text s := by
  induction rounds generalizing p precision s with
  | zero => rfl
  | succ n ih =>
    rw [putString, stringChars]
    split_ifs with hp
    · rw [ih, Option.map_map]
      rfl
    · rfl

lemma printString_eq (d : Directive) (s : Written σ) :
    printString mem out maxlen d s = (stringText mem d).map fun text => emit out maxlen text s := by
  rw [printString, stringText]
  dsimp only
  by_cases hp : d.va 0 = 0
  · rw [if_pos hp, if_pos hp, outRev_eq]
    rfl
  · rw [if_neg hp, if_neg hp, Option.map_map]
    simp only [putString_eq, Function.comp_def, emit_inField]
    cases stringChars mem d.flags (2^64) (d.va 0) d.precision <;> rfl

lemma printPointer_eq (d : Directive) (s : Written σ) :
    printPointer out maxlen d s = emit out maxlen (pointerText d) s := by
  rw [printPointer, pointerText]
  split_ifs with hp
  · exact outRev_eq out maxlen _ _ _ s
  · exact ntoa_eq out maxlen _ _ _ _ _ _ s

lemma printDirective_eq (d : Directive) (s : Written σ) : printDirective float mem out maxlen d s =
    (directiveText float mem d).map fun r => (emit out maxlen r.1 s, r.2) := by
  rw [printDirective, directiveText]
  cases d.format with
  | nil => rfl
  | cons c format =>
    dsimp only
    rw [specifierText]
    split_ifs
    · rw [printInteger_eq]
      rfl
    · rfl
    · rw [printChar_eq]
      rfl
    · rw [printString_eq, Option.map_map, Option.map_map, Option.map_map]
      rfl
    · rw [printPointer_eq]
      rfl
    · rfl
    · rfl

lemma formatLoop_eq (rounds : ℕ) (format : List UCHAR) (va : Args) (s : Written σ) :
    formatLoop float mem out maxlen rounds format va s =
      (formatTextIn float mem rounds format va).map fun r => (emit out maxlen r.1 s, r.2) := by
  induction rounds generalizing format va s with
  | zero => cases format <;> rfl
  | succ n ih =>
    cases format with
    | nil => rfl
    | cons c format =>
      rw [formatLoop, formatTextIn]
      split_ifs with hc
      · rw [ih, Option.map_map]
        rfl
      · rw [printDirective_eq]
        cases directiveText float mem (evalDirective format va) with
        | none => rfl
        | some r =>
          simp only [Option.map_some, Option.bind_eq_bind, Option.bind_some, ih, Option.map_map, Function.comp_def,
            Prod.map_fst, Prod.map_snd, id_eq, emit_append]

/-- The position of the NUL behind a text. -/
def lastIndex (length maxlen : ℕ) : ℕ := if length < maxlen then length else (maxlen + (2^64 - 1)) % 2^64

/-- Whatever the output function does, it is called with the characters of the text, one behind the other, and
with a NUL; their number is returned. -/
theorem vsnprintf_eq (format : List UCHAR) (va : Args) (sink : σ) : vsnprintf float mem out maxlen format va sink =
    (formatText float mem format va).map fun r =>
      (out 0 (lastIndex r.1.length maxlen) maxlen (emit out maxlen r.1 ⟨sink, 0⟩).sink,
        BitVec.ofNat 32 r.1.length, r.2) := by
  rw [vsnprintf, formatLoop_eq, formatText]
  cases formatTextIn float mem format.length format va with
  | none => rfl
  | some r => simp [lastIndex]

end Refinement

section Functions
variable (float : FloatText) (mem : Readable) (format : List UCHAR) (va : Args)

/-- A buffer with the beginning of a text and a NUL, in `count` bytes. -/
def holding (text : List UCHAR) (count : ℕ) (b : Buffer) : Buffer := fun j =>
  if j + 1 < count ∧ j < text.length then text.getD j 0
  else if j + 1 = count ∧ count ≤ text.length ∨ j < count ∧ j = text.length then 0
  else b j

lemma bounded_last (text : List UCHAR) {count : ℕ} (hcount : count < 2^64) (b : Buffer) :
    bounded 0 (lastIndex text.length count) count (emit bounded count text ⟨b, 0⟩).sink = holding text count b := by
  funext j
  have hbody := emit_bounded count text b 0 j
  rw [holding, lastIndex, bounded]
  rw [Nat.sub_zero] at hbody
  by_cases hfits : text.length < count
  · rw [if_pos hfits, if_pos hfits]
    rcases Nat.lt_trichotomy j text.length with hlt | rfl | hgt
    · rw [Function.update_of_ne (Nat.ne_of_lt hlt), hbody, if_pos (by omega), if_pos (by omega)]
      simp [hlt]
    · rw [Function.update_self, if_neg (by omega), if_pos (by omega)]
    · rw [List.getElem?_eq_none (Nat.le_of_lt hgt), Option.getD_none, ite_self] at hbody
      rw [Function.update_of_ne (Nat.ne_of_gt hgt), hbody, if_neg (by omega), if_neg (by omega)]
  · rw [if_neg hfits]
    by_cases hzero : count = 0
    · subst hzero
      rw [if_neg (by omega), hbody, if_neg (by omega), if_neg (by omega), if_neg (by omega)]
    · have hlast : (count + (2^64 - 1)) % 2^64 = count - 1 := by omega
      rw [hlast, if_pos (by omega)]
      rcases Nat.lt_trichotomy (j+1) count with hlt | heq | hgt
      · rw [Function.update_of_ne (by omega), hbody, if_pos (by omega), if_pos (by omega)]
        simp [show j < text.length by omega]
      · obtain rfl : j = count - 1 := by omega
        rw [Function.update_self, if_neg (by omega), if_pos (by omega)]
      · rw [Function.update_of_ne (by omega), hbody, if_neg (by omega), if_neg (by omega), if_neg (by omega)]

/-- The buffer gets as much of the text as fits in front of a NUL and is not touched anywhere else; the length of
the whole text is returned. -/
theorem snprintf_eq (buffer : Option Buffer) (count : ULONG64) : snprintf float mem buffer count format va =
    (formatText float mem format va).map fun r =>
      (buffer.map (holding r.1 count.toNat), BitVec.ofNat 32 r.1.length) := by
  cases buffer with
  | none =>
    rw [snprintf, vsnprintf_eq]
    cases formatText float mem format va <;> rfl
  | some b =>
    rw [snprintf, vsnprintf_eq]
    cases formatText float mem format va with
    | none => rfl
    | some r => exact congrArg (fun b => some (some b, BitVec.ofNat 32 r.1.length)) (bounded_last r.1 count.isLt b)

/-- The function is called with the characters of the text that are not NUL. -/
theorem vfctprintf_eq {σ : Type} (fct : UCHAR → σ → σ) (s : σ) : vfctprintf float mem fct format va s =
    (formatText float mem format va).map fun r =>
      ((r.1.filter (· ≠ 0)).foldl (fun s c => fct c s) s, BitVec.ofNat 32 r.1.length, r.2) := by
  rw [vfctprintf, vsnprintf_eq]
  cases formatText float mem format va with
  | none => rfl
  | some r => simp [outFct, listener, emit_listener]

end Functions

end Open98.Lib
