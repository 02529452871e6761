import Mathlib.Data.Nat.Digits.Lemmas
import Open98.Lib.PrintfText

/-! How a format is read: one directive behind the other, each as far as it goes. -/
namespace Open98.Lib
open Library

section Suffixes
variable {format str : List UCHAR}

lemma atoi_suffix (str : List UCHAR) (i : UINT) : (atoi str i).2 <:+ str := by
  induction str generalizing i with
  | nil => exact List.suffix_refl []
  | cons c str ih =>
    rw [atoi]
    split_ifs
    · exact (ih _).trans (List.suffix_cons c str)
    · exact List.suffix_refl _

lemma evalFlags_suffix (format : List UCHAR) (flags : PrintFlags) : (evalFlags format flags).2 <:+ format := by
  induction format generalizing flags with
  | nil => exact List.suffix_refl []
  | cons c format ih =>
    rw [evalFlags]
    cases evalFlag c flags with
    | none => exact List.suffix_refl _
    | some flags => exact (ih flags).trans (List.suffix_cons c format)

lemma evalWidth_suffix (flags : PrintFlags) (format : List UCHAR) (va : Args) :
    (evalWidth flags format va).format <:+ format := by
  rw [evalWidth]
  dsimp only
  split_ifs
  · exact atoi_suffix format 0
  · exact List.tail_suffix format
  · exact List.tail_suffix format
  · exact List.suffix_refl _

lemma evalPrecision_suffix (d : Directive) : (evalPrecision d).format <:+ d.format := by
  rw [evalPrecision]
  dsimp only
  split_ifs
  · exact (atoi_suffix _ 0).trans (List.tail_suffix _)
  · exact (List.tail_suffix _).trans (List.tail_suffix _)
  · exact (List.tail_suffix _).trans (List.tail_suffix _)
  · exact List.tail_suffix _
  · exact List.suffix_refl _

lemma evalLength_suffix (d : Directive) : (evalLength d).format <:+ d.format := by
  rw [evalLength]
  dsimp only
  split_ifs
  · exact (List.tail_suffix _).trans (List.tail_suffix _)
  · exact List.tail_suffix _
  · exact (List.tail_suffix _).trans (List.tail_suffix _)
  · exact List.tail_suffix _
  · exact List.tail_suffix _
  · exact List.suffix_refl _

lemma evalDirective_suffix (format : List UCHAR) (va : Args) : (evalDirective format va).format <:+ format :=
  (evalLength_suffix _).trans ((evalPrecision_suffix _).trans
    ((evalWidth_suffix _ _ va).trans (evalFlags_suffix format .none)))

end Suffixes

section Behind
variable {format : List UCHAR} {d : Directive}

/-- A directive with more of a format behind it. -/
def Directive.followedBy (d : Directive) (more : List UCHAR) : Directive := { d with format := d.format ++ more }

lemma ne_nil_of_suffix {s t : List UCHAR} (h : s <:+ t) (hs : s ≠ []) : t ≠ [] := by
  rintro rfl
  exact hs (List.suffix_nil.mp h)

lemma cur_append (h : format ≠ []) (more : List UCHAR) : cur (format ++ more) = cur format := by
  cases format with
  | nil => exact absurd rfl h
  | cons c format => rfl

lemma atoi_append {str : List UCHAR} {i : UINT} (h : (atoi str i).2 ≠ []) (more : List UCHAR) :
    atoi (str ++ more) i = ((atoi str i).1, (atoi str i).2 ++ more) := by
  induction str generalizing i with
  | nil => exact absurd rfl h
  | cons c str ih =>
    rw [List.cons_append, atoi, atoi]
    rw [atoi] at h
    split_ifs with hc
    · rw [if_pos hc] at h
      exact ih h
    · rfl

lemma evalFlags_append {flags : PrintFlags} (h : (evalFlags format flags).2 ≠ []) (more : List UCHAR) :
    evalFlags (format ++ more) flags = ((evalFlags format flags).1, (evalFlags format flags).2 ++ more) := by
  induction format generalizing flags with
  | nil => exact absurd rfl h
  | cons c format ih =>
    rw [List.cons_append, evalFlags, evalFlags]
    rw [evalFlags] at h
    cases hflag : evalFlag c flags with
    | none => rfl
    | some flags =>
      rw [hflag] at h
      exact ih h

lemma evalWidth_append {flags : PrintFlags} {va : Args} (h : (evalWidth flags format va).format ≠ [])
    (more : List UCHAR) : evalWidth flags (format ++ more) va = (evalWidth flags format va).followedBy more := by
  have hne := ne_nil_of_suffix (evalWidth_suffix flags format va) h
  rw [evalWidth] at h
  rw [evalWidth, evalWidth, cur_append hne, List.tail_append_of_ne_nil hne]
  split_ifs at h ⊢
  · rw [atoi_append h]
    rfl
  · dsimp only
    split_ifs <;> rfl
  · rfl

lemma evalPrecision_append (h : (evalPrecision d).format ≠ []) (more : List UCHAR) :
    evalPrecision (d.followedBy more) = (evalPrecision d).followedBy more := by
  have hne := ne_nil_of_suffix (evalPrecision_suffix d) h
  have hcur : cur (d.followedBy more).format = cur d.format := cur_append hne more
  have htail : (d.followedBy more).format.tail = d.format.tail ++ more := List.tail_append_of_ne_nil hne
  by_cases hdot : cur d.format = chr '.'
  · rw [evalPrecision, if_pos hdot] at h
    rw [evalPrecision, evalPrecision, hcur, if_pos hdot, if_pos hdot, htail]
    dsimp only at h ⊢
    have hrest : d.format.tail ≠ [] := by
      intro hnil
      rw [hnil] at h
      exact h rfl
    rw [cur_append hrest]
    by_cases hdigit : isDigit (cur d.format.tail) = true
    · rw [if_pos hdigit] at h
      rw [if_pos hdigit, if_pos hdigit, atoi_append h]
      rfl
    · rw [if_neg hdigit, if_neg hdigit, List.tail_append_of_ne_nil hrest]
      by_cases hstar : cur d.format.tail = chr '*'
      · rw [if_pos hstar, if_pos hstar]
        rfl
      · rw [if_neg hstar, if_neg hstar]
        rfl
  · rw [evalPrecision, evalPrecision, hcur, if_neg hdot, if_neg hdot]

lemma evalLength_append (h : (evalLength d).format ≠ []) (more : List UCHAR) :
    evalLength (d.followedBy more) = (evalLength d).followedBy more := by
  have hne := ne_nil_of_suffix (evalLength_suffix d) h
  have hcur : cur (d.followedBy more).format = cur d.format := cur_append hne more
  have htail : (d.followedBy more).format.tail = d.format.tail ++ more := List.tail_append_of_ne_nil hne
  rw [evalLength] at h
  rw [evalLength, evalLength]
  dsimp only at h ⊢
  rw [hcur, htail]
  by_cases hrest : d.format.tail = []
  · rw [hrest] at h ⊢
    split_ifs at h ⊢ <;> first | rfl | exact absurd rfl h
  · rw [cur_append hrest, List.tail_append_of_ne_nil hrest]
    split_ifs <;> rfl

lemma evalDirective_append {va : Args} (h : (evalDirective format va).format ≠ []) (more : List UCHAR) :
    evalDirective (format ++ more) va = (evalDirective format va).followedBy more := by
  have hprecision := ne_nil_of_suffix (evalLength_suffix _) h
  have hwidth := ne_nil_of_suffix (evalPrecision_suffix _) hprecision
  have hflags := ne_nil_of_suffix (evalWidth_suffix _ _ va) hwidth
  rw [evalDirective, evalDirective, evalFlags_append hflags]
  dsimp only
  rw [evalWidth_append hwidth, evalPrecision_append hprecision, evalLength_append h]

end Behind

section Formats
variable {float : FloatText} {mem : Readable} {format more text : List UCHAR} {va va' : Args} {d : Directive}

lemma directiveText_format {r : List UCHAR × List UCHAR × Args} (h : directiveText float mem d = some r) :
    ∃ c, d.format = c :: r.2.1 := by
  rw [directiveText] at h
  cases hformat : d.format with
  | nil =>
    rw [hformat] at h
    cases h
  | cons c format =>
    rw [hformat] at h
    obtain ⟨t, -, rfl⟩ := Option.map_eq_some_iff.mp h
    exact ⟨c, rfl⟩

lemma directiveText_followedBy (h : d.format ≠ []) (more : List UCHAR) :
    directiveText float mem (d.followedBy more) =
      (directiveText float mem d).map fun r => (r.1, r.2.1 ++ more, r.2.2) := by
  rw [directiveText, directiveText, Directive.followedBy]
  cases hformat : d.format with
  | nil => exact absurd hformat h
  | cons c format =>
    dsimp only [List.cons_append]
    rw [Option.map_map]
    rfl

/-- Enough rounds are enough. -/
lemma formatTextIn_congr {n m : ℕ} (hn : format.length ≤ n) (hm : format.length ≤ m) (va : Args) :
    formatTextIn float mem n format va = formatTextIn float mem m format va := by
  induction n generalizing m format va with
  | zero =>
    obtain rfl := List.length_eq_zero_iff.mp (Nat.le_zero.mp hn)
    cases m <;> rfl
  | succ n ih =>
    cases format with
    | nil => cases m <;> rfl
    | cons c format =>
      obtain ⟨m, rfl⟩ : ∃ k, m = k+1 := ⟨m-1, by rw [List.length_cons] at hm; omega⟩
      rw [List.length_cons] at hn hm
      rw [formatTextIn, formatTextIn]
      split_ifs
      · rw [ih (by omega) (show format.length ≤ m by omega)]
      · cases htext : directiveText float mem (evalDirective format va) with
        | none => rfl
        | some r =>
          obtain ⟨c', hformat⟩ := directiveText_format htext
          have hlen := (evalDirective_suffix format va).length_le
          rw [hformat, List.length_cons] at hlen
          dsimp only [Option.bind_eq_bind, Option.bind_some]
          rw [ih (show r.2.1.length ≤ n by omega) (show r.2.1.length ≤ m by omega)]

@[simp] lemma formatText_nil (va : Args) : formatText float mem [] va = some ([], va) := rfl

/-- An ordinary character. -/
lemma formatText_cons {c : UCHAR} (hc : c ≠ chr '%') (format : List UCHAR) (va : Args) :
    formatText float mem (c :: format) va = (formatText float mem format va).map (Prod.map (c :: ·) id) := by
  rw [formatText, List.length_cons, formatTextIn, if_pos hc, formatText]

lemma formatText_directive (format : List UCHAR) (va : Args) : formatText float mem (chr '%' :: format) va =
    (directiveText float mem (evalDirective format va)).bind fun r =>
      (formatText float mem r.2.1 r.2.2).map (Prod.map (r.1 ++ ·) id) := by
  rw [formatText, List.length_cons, formatTextIn, if_neg (not_not_intro rfl)]
  cases htext : directiveText float mem (evalDirective format va) with
  | none => rfl
  | some r =>
    obtain ⟨c, hformat⟩ := directiveText_format htext
    have hlen := (evalDirective_suffix format va).length_le
    rw [hformat, List.length_cons] at hlen
    dsimp only [Option.bind_eq_bind, Option.bind_some]
    rw [formatText, formatTextIn_congr (show r.2.1.length ≤ format.length by omega) le_rfl]

lemma formatText_literal (h : chr '%' ∉ format) (va : Args) : formatText float mem format va = some (format, va) := by
  induction format with
  | nil => rfl
  | cons c format ih =>
    rw [formatText_cons fun hc => h (hc ▸ List.mem_cons_self), ih fun hmem => h (List.mem_cons_of_mem _ hmem)]
    rfl

/-- The text of one format behind another is the text of the one behind the text of the other, which is given
the arguments that the first one leaves. -/
theorem formatText_append (h : formatText float mem format va = some (text, va')) (more : List UCHAR) :
    formatText float mem (format ++ more) va = (formatText float mem more va').map (Prod.map (text ++ ·) id) := by
  induction hn : format.length using Nat.strong_induction_on generalizing format text va with
  | _ n ih =>
    cases format with
    | nil =>
      obtain ⟨rfl, rfl⟩ := Prod.mk.inj (Option.some.inj h)
      exact Option.map_id'.symm
    | cons c format =>
      rw [List.length_cons] at hn
      by_cases hc : c = chr '%'
      · subst hc
        rw [formatText_directive] at h
        rw [List.cons_append, formatText_directive]
        obtain ⟨r, hr, hrest⟩ := Option.bind_eq_some_iff.mp h
        obtain ⟨⟨t, va''⟩, ht, heq⟩ := Option.map_eq_some_iff.mp hrest
        obtain ⟨rfl, rfl⟩ := Prod.mk.inj heq
        obtain ⟨c, hformat⟩ := directiveText_format hr
        have hne : (evalDirective format va).format ≠ [] := by
          rw [hformat]
          exact List.cons_ne_nil c r.2.1
        have hlen := (evalDirective_suffix format va).length_le
        rw [hformat, List.length_cons] at hlen
        rw [evalDirective_append hne, directiveText_followedBy hne, hr, Option.map_some, Option.bind_some,
          ih r.2.1.length (by omega) ht rfl, Option.map_map]
        congr 1
        funext p
        exact Prod.ext (List.append_assoc _ _ _).symm rfl
      · rw [formatText_cons hc] at h
        obtain ⟨⟨t, va''⟩, ht, heq⟩ := Option.map_eq_some_iff.mp h
        obtain ⟨rfl, rfl⟩ := Prod.mk.inj heq
        rw [List.cons_append, formatText_cons hc, ih format.length (by omega) ht rfl, Option.map_map]
        rfl

lemma formatText_both {text' : List UCHAR} {va'' : Args} (h : formatText float mem format va = some (text, va'))
    (h' : formatText float mem more va' = some (text', va'')) :
    formatText float mem (format ++ more) va = some (text ++ text', va'') := by
  rw [formatText_append h, h']
  rfl

/-- `"%d"` in front of `"a%d"`. -/
theorem formatText_append_number : formatText (fun _ _ _ _ _ => []) (fun _ => 0)
    ([chr '%', chr 'd'] ++ [chr 'a', chr '%', chr 'd']) (fun k => BitVec.ofNat 64 (k+7)) =
      (formatText (fun _ _ _ _ _ => []) (fun _ => 0) [chr 'a', chr '%', chr 'd']
        (fun k => BitVec.ofNat 64 (k+1+7))).map (Prod.map ([chr '7'] ++ ·) id) :=
  formatText_append rfl [chr 'a', chr '%', chr 'd']

end Formats

section Rendering

/-- A width or a precision, as it is written. -/
inductive Field
  | absent
  | number (n : UINT)
  | star

inductive Length
  | int
  | char
  | short
  | long
  | longLong
  deriving DecidableEq

def decimalText (n : ℕ) : List UCHAR := ((Nat.digits 10 n).map fun d => BitVec.ofNat 8 (48 + d)).reverse

def Field.text : Field → List UCHAR
  | absent => []
  | number n => decimalText n.toNat
  | star => [chr '*']

def Length.text : Length → List UCHAR
  | int => []
  | char => [chr 'h', chr 'h']
  | short => [chr 'h']
  | long => [chr 'l']
  | longLong => [chr 'l', chr 'l']

def flagChars : List UCHAR := [chr '0', chr '-', chr '+', chr ' ', chr '#']

def specifiers : List UCHAR := [chr 'd', chr 'i', chr 'u', chr 'x', chr 'X', chr 'o', chr 'b', chr 'f', chr 'F',
  chr 'e', chr 'E', chr 'g', chr 'G', chr 'c', chr 's', chr 'p', chr '%']

/-- The parts of a directive. The flags may be repeated, in any order. -/
structure DirectiveParts where
  flags : List UCHAR
  valid : ∀ c ∈ flags, c ∈ flagChars
  width : Field
  precision : Option Field
  length : Length

/-- Nothing but the specifier. -/
def plainParts : DirectiveParts := ⟨[], List.forall_mem_nil _, .absent, none, .int⟩

/-- A directive up to its specifier. -/
def DirectiveParts.text (x : DirectiveParts) : List UCHAR :=
  x.flags ++ (x.width.text ++ ((x.precision.elim [] fun field => chr '.' :: field.text) ++ x.length.text))

def withFlags (flags : PrintFlags) (fs : List UCHAR) : PrintFlags :=
  { flags with
    zeropad := flags.zeropad || fs.contains (chr '0'), left := flags.left || fs.contains (chr '-'),
    plus := flags.plus || fs.contains (chr '+'), space := flags.space || fs.contains (chr ' '),
    hash := flags.hash || fs.contains (chr '#') }

def Length.set (length : Length) (flags : PrintFlags) : PrintFlags :=
  { flags with
    char := flags.char || length = char, short := flags.short || length = char || length = short,
    long := flags.long || length = long || length = longLong, longLong := flags.longLong || length = longLong }

/-- A negative width that is an argument means the flag `-`. -/
def Field.setWidth (field : Field) (d : Directive) : Directive :=
  match field with
  | absent => d
  | number n => { d with width := n.toNat }
  | star =>
    let w : INT := (d.va 0).setWidth 32
    { d with flags := { d.flags with left := d.flags.left || w.toInt < 0 }, width := w.toInt.natAbs, va := d.va.rest }

/-- A negative precision that is an argument means zero. -/
def Field.setPrecision (field : Field) (d : Directive) : Directive :=
  let d := { d with flags := { d.flags with precision := true } }
  match field with
  | absent => d
  | number n => { d with precision := n.toNat }
  | star =>
    let precision : INT := (d.va 0).setWidth 32
    { d with precision := precision.toInt.toNat, va := d.va.rest }

/-- What the parts mean. -/
def DirectiveParts.directive (x : DirectiveParts) (format : List UCHAR) (va : Args) : Directive :=
  let d := x.width.setWidth ⟨withFlags .none x.flags, 0, 0, format, va⟩
  let d := x.precision.elim d fun field => field.setPrecision d
  { d with flags := x.length.set d.flags }

end Rendering

section RoundTrip
variable {format fs : List UCHAR} {flags : PrintFlags}

lemma withFlags_cons {c : UCHAR} {flags' : PrintFlags} (hc : evalFlag c flags = some flags') (fs : List UCHAR) :
    withFlags flags (c :: fs) = withFlags flags' fs := by
  rw [evalFlag] at hc
  split_ifs at hc with h₁ h₂ h₃ h₄ h₅ <;> obtain rfl := Option.some.inj hc <;>
    simp [withFlags, chr, *]

lemma withFlags_nil (flags : PrintFlags) : withFlags flags [] = flags := by simp [withFlags]

lemma evalFlag_isSome {c : UCHAR} : (evalFlag c flags).isSome ↔ c ∈ flagChars := by
  rw [evalFlag]
  split_ifs <;> simp_all [flagChars]

lemma evalFlags_text (hfs : ∀ c ∈ fs, c ∈ flagChars) (hrest : cur format ∉ flagChars) (flags : PrintFlags) :
    evalFlags (fs ++ format) flags = (withFlags flags fs, format) := by
  induction fs generalizing flags with
  | nil =>
    rw [withFlags_nil, List.nil_append]
    cases format with
    | nil => rfl
    | cons c format =>
      have hnone : evalFlag c flags = none := by
        rw [← Option.not_isSome_iff_eq_none, evalFlag_isSome]
        exact hrest
      rw [evalFlags, hnone]
  | cons c fs ih =>
    obtain ⟨flags', hflag⟩ := Option.isSome_iff_exists.mp (evalFlag_isSome.mpr (hfs c List.mem_cons_self))
    rw [List.cons_append, evalFlags, hflag, withFlags_cons hflag]
    exact ih (fun c hc => hfs c (List.mem_cons_of_mem _ hc)) flags'

lemma isDigit_digit {d : ℕ} (h : d < 10) : isDigit (BitVec.ofNat 8 (48 + d)) = true := by
  have hnat : (BitVec.ofNat 8 (48 + d)).toNat = 48 + d := by
    rw [BitVec.toNat_ofNat]
    omega
  simp only [isDigit, hnat, Bool.and_eq_true, decide_eq_true_eq]
  omega

lemma atoi_digits {ds : List ℕ} (hds : ∀ d ∈ ds, d < 10) (hrest : isDigit (cur format) = false) (i : UINT) :
    atoi (ds.map (fun d => BitVec.ofNat 8 (48 + d)) ++ format) i =
      (ds.foldl (fun (i : UINT) (d : ℕ) => i * 10#32 + (d : UINT)) i, format) := by
  induction ds generalizing i with
  | nil =>
    cases format with
    | nil => rfl
    | cons c format => exact if_neg (Bool.eq_false_iff.mp hrest)
  | cons d ds ih =>
    have hd := hds d List.mem_cons_self
    have hnat : (BitVec.ofNat 8 (48 + d)).toNat - 48 = d := by
      rw [BitVec.toNat_ofNat]
      omega
    rw [List.map_cons, List.cons_append, atoi, if_pos (isDigit_digit hd), hnat,
      ih fun d hd => hds d (List.mem_cons_of_mem _ hd)]
    rfl

lemma atoi_decimalText (n : UINT) (hrest : isDigit (cur format) = false) :
    atoi (decimalText n.toNat ++ format) 0 = (n, format) := by
  have hds : ∀ d ∈ (Nat.digits 10 n.toNat).reverse, d < 10 := fun d hd =>
    Nat.digits_lt_base (by decide) (List.mem_reverse.mp hd)
  have hvalue : (Nat.digits 10 n.toNat).reverse.foldl (fun (i : UINT) (d : ℕ) => i * 10#32 + (d : UINT)) 0 = n := by
    calc (Nat.digits 10 n.toNat).reverse.foldl (fun (i : UINT) (d : ℕ) => i * 10#32 + (d : UINT)) 0
        = Nat.ofDigits ((10 : ℕ) : UINT) (Nat.digits 10 n.toNat) := by
          have hten : 10#32 = ((10 : ℕ) : UINT) := rfl
          rw [List.foldl_reverse, Nat.ofDigits_eq_foldr, hten]
          congr 1
          funext d i
          ring
      _ = ((Nat.ofDigits 10 (Nat.digits 10 n.toNat) : ℕ) : UINT) := (Nat.coe_ofDigits UINT 10 _).symm
      _ = n := by
          rw [Nat.ofDigits_digits]
          exact BitVec.ofNat_toNat 32 n
  rw [decimalText, ← List.map_reverse, atoi_digits hds hrest, hvalue]

/-- A number begins with a digit that is not zero. -/
lemma decimalText_cases (n : ℕ) : n = 0 ∧ decimalText n = [] ∨
    ∃ d rest, decimalText n = BitVec.ofNat 8 (48 + d) :: rest ∧ 0 < d ∧ d < 10 := by
  by_cases hn : n = 0
  · exact .inl ⟨hn, by simp [hn, decimalText]⟩
  · have hne : Nat.digits 10 n ≠ [] := Nat.digits_ne_nil_iff_ne_zero.mpr hn
    refine .inr ⟨(Nat.digits 10 n).getLast hne, ((Nat.digits 10 n).dropLast.map fun d => BitVec.ofNat 8 (48 + d)).reverse,
      ?_, Nat.pos_of_ne_zero (Nat.getLast_digit_ne_zero 10 hn), Nat.digits_lt_base (by decide) (List.getLast_mem hne)⟩
    conv_lhs => rw [decimalText, ← List.dropLast_append_getLast hne]
    rw [List.map_append, List.reverse_append]
    rfl

/-- What a directive goes on with, behind its width. -/
def followers : List UCHAR := specifiers ++ [chr '.', chr 'h', chr 'l']

lemma followers_facts : ∀ c ∈ followers, c ∉ flagChars ∧ isDigit c = false ∧ c ≠ chr '*' := by decide

lemma specifiers_facts : ∀ c ∈ specifiers, c ∈ followers ∧ c ≠ chr '.' ∧ c ≠ chr 'l' ∧ c ≠ chr 'h' ∧ c ≠ chr 't' ∧
    c ≠ chr 'j' ∧ c ≠ chr 'z' := by decide

lemma cur_length (hspec : cur format ∈ specifiers) (length : Length) :
    cur (length.text ++ format) ∈ followers ∧ cur (length.text ++ format) ≠ chr '.' := by
  cases length
  case int => exact ⟨(specifiers_facts _ hspec).1, (specifiers_facts _ hspec).2.1⟩
  all_goals exact ⟨by simp [Length.text, cur, followers], by simp [Length.text, cur]; decide⟩

lemma cur_precision (hrest : cur format ∈ followers) (precision : Option Field) :
    cur ((precision.elim [] fun field => chr '.' :: field.text) ++ format) ∈ followers := by
  cases precision with
  | none => exact hrest
  | some field => simp [cur, followers]

lemma cur_width (hrest : cur format ∈ followers) (width : Field) : cur (width.text ++ format) ∉ flagChars := by
  cases width with
  | absent => exact (followers_facts _ hrest).1
  | star =>
    change chr '*' ∉ flagChars
    decide
  | number n =>
    rcases decimalText_cases n.toNat with ⟨-, hnil⟩ | ⟨d, rest, hcons, hpos, hd⟩
    · rw [Field.text, hnil]
      exact (followers_facts _ hrest).1
    · rw [Field.text, hcons]
      change BitVec.ofNat 8 (48 + d) ∉ flagChars
      interval_cases d <;> decide

lemma natAbs_toInt_of_nonneg {w : INT} (h : 0 ≤ w.toInt) : w.toInt.natAbs = w.toNat := by
  have hcond := BitVec.toInt_eq_toNat_cond w
  split_ifs at hcond <;> omega

lemma natAbs_toInt_of_neg {w : INT} (h : w.toInt < 0) : w.toInt.natAbs = (-w).toNat := by
  have hcond := BitVec.toInt_eq_toNat_cond w
  rw [BitVec.toNat_neg]
  split_ifs at hcond <;> omega

lemma evalWidth_text (hrest : cur format ∈ followers) (width : Field) (flags : PrintFlags) (va : Args) :
    evalWidth flags (width.text ++ format) va = width.setWidth ⟨flags, 0, 0, format, va⟩ := by
  obtain ⟨-, hdigit, hstar⟩ := followers_facts _ hrest
  have habsent : evalWidth flags format va = ⟨flags, 0, 0, format, va⟩ := by
    rw [evalWidth, if_neg (Bool.eq_false_iff.mp hdigit), if_neg hstar]
  cases width with
  | absent => exact habsent
  | star =>
    have hcur : cur ([chr '*'] ++ format) = chr '*' := rfl
    have hnot : ¬isDigit (chr '*') = true := by decide
    rw [Field.text, evalWidth, hcur, if_neg hnot, if_pos rfl, Field.setWidth]
    dsimp only
    by_cases hneg : ((va 0).setWidth 32 : INT).toInt < 0
    · rw [if_pos hneg, natAbs_toInt_of_neg hneg, decide_eq_true hneg, Bool.or_true]
      rfl
    · rw [if_neg hneg, natAbs_toInt_of_nonneg (Int.not_lt.mp hneg), decide_eq_false hneg, Bool.or_false]
      rfl
  | number n =>
    rcases decimalText_cases n.toNat with ⟨hzero, hnil⟩ | ⟨d, rest, hcons, -, hd⟩
    · rw [Field.text, hnil, List.nil_append, habsent, Field.setWidth, hzero]
    · have hfirst : isDigit (cur (decimalText n.toNat ++ format)) = true := by
        rw [hcons]
        exact isDigit_digit hd
      rw [Field.text, evalWidth, if_pos hfirst, atoi_decimalText n hdigit]
      rfl

lemma Field.setWidth_format (field : Field) (d : Directive) : (field.setWidth d).format = d.format := by
  cases field <;> rfl

lemma Field.setWidth_precision (field : Field) (d : Directive) : (field.setWidth d).precision = d.precision := by
  cases field <;> rfl

lemma Field.setPrecision_format (field : Field) (d : Directive) : (field.setPrecision d).format = d.format := by
  cases field <;> rfl

lemma evalPrecision_text (hrest : cur format ∈ followers) (hdot : cur format ≠ chr '.') (precision : Option Field)
    {d : Directive} (hformat : d.format = (precision.elim [] fun field => chr '.' :: field.text) ++ format)
    (hzero : d.precision = 0) :
    evalPrecision d = precision.elim { d with format := format } fun field =>
      field.setPrecision { d with format := format } := by
  obtain ⟨-, hdigit, hstar⟩ := followers_facts _ hrest
  cases precision with
  | none =>
    have hformat : d.format = format := hformat
    rw [evalPrecision, if_neg (by rwa [hformat]), ← hformat]
    rfl
  | some field =>
    have hformat : d.format = chr '.' :: (field.text ++ format) := hformat
    have hcur : cur d.format = chr '.' := by rw [hformat]; rfl
    have habsent : Field.setPrecision .absent { d with format := format } =
        ⟨{ d.flags with precision := true }, d.width, 0, format, d.va⟩ := by rw [Field.setPrecision, hzero]
    rw [evalPrecision, if_pos hcur, hformat, List.tail_cons]
    dsimp only [Option.elim_some]
    cases field with
    | absent => rw [Field.text, List.nil_append, if_neg (Bool.eq_false_iff.mp hdigit), if_neg hstar, habsent]
    | star =>
      have hcur : cur ([chr '*'] ++ format) = chr '*' := rfl
      have hnot : ¬isDigit (chr '*') = true := by decide
      rw [Field.text, hcur, if_neg hnot, if_pos rfl, Field.setPrecision]
      dsimp only
      by_cases hpos : 0 < ((d.va 0).setWidth 32 : INT).toInt
      · have hnat : ((d.va 0).setWidth 32 : INT).toInt.toNat = ((d.va 0).setWidth 32 : INT).toNat := by
          rw [← natAbs_toInt_of_nonneg hpos.le]
          omega
        rw [if_pos hpos, hnat]
        rfl
      · rw [if_neg hpos, Int.toNat_of_nonpos (Int.not_lt.mp hpos)]
        rfl
    | number n =>
      rcases decimalText_cases n.toNat with ⟨hn, hnil⟩ | ⟨c, rest, hcons, -, hc⟩
      · rw [Field.text, hnil, List.nil_append, if_neg (Bool.eq_false_iff.mp hdigit), if_neg hstar, Field.setPrecision, hn]
      · have hfirst : isDigit (cur (decimalText n.toNat ++ format)) = true := by
          rw [hcons]
          exact isDigit_digit hc
        rw [Field.text, if_pos hfirst, atoi_decimalText n hdigit]
        rfl

lemma evalLength_text (hspec : cur format ∈ specifiers) (length : Length) {d : Directive}
    (hformat : d.format = length.text ++ format) :
    evalLength d = { d with flags := length.set d.flags, format := format } := by
  obtain ⟨-, -, hl, hh, ht, hj, hz⟩ := specifiers_facts _ hspec
  have hlh : chr 'h' ≠ chr 'l' := by decide
  rw [evalLength, hformat]
  cases length with
  | int =>
    have hformat : d.format = format := hformat
    have hcur : cur (Length.int.text ++ format) = cur format := rfl
    have hset : Length.int.set d.flags = d.flags := by simp [Length.set]
    rw [hcur, if_neg hl, if_neg hh, if_neg (by simp [ht, hj, hz]), hset, ← hformat]
  | char =>
    have hcur : cur (Length.char.text ++ format) = chr 'h' := rfl
    have hnext : cur (Length.char.text ++ format).tail = chr 'h' := rfl
    rw [hcur, hnext]
    simp [hlh, Length.set, Length.text]
  | short =>
    have hcur : cur (Length.short.text ++ format) = chr 'h' := rfl
    have hnext : cur (Length.short.text ++ format).tail = cur format := rfl
    rw [hcur, hnext]
    simp [hlh, hh, Length.set, Length.text]
  | long =>
    have hcur : cur (Length.long.text ++ format) = chr 'l' := rfl
    have hnext : cur (Length.long.text ++ format).tail = cur format := rfl
    rw [hcur, hnext]
    simp [hl, Length.set, Length.text]
  | longLong =>
    have hcur : cur (Length.longLong.text ++ format) = chr 'l' := rfl
    have hnext : cur (Length.longLong.text ++ format).tail = chr 'l' := rfl
    rw [hcur, hnext]
    simp [Length.set, Length.text]

/-- A directive means what its parts mean, whatever its flags, fields and length are. -/
theorem evalDirective_text (x : DirectiveParts) (hspec : cur format ∈ specifiers) (va : Args) :
    evalDirective (x.text ++ format) va = x.directive format va := by
  have hlength := cur_length hspec x.length
  have hprecision := cur_precision hlength.1 x.precision
  rw [DirectiveParts.text, evalDirective, List.append_assoc, List.append_assoc, List.append_assoc,
    evalFlags_text x.valid (cur_width hprecision x.width)]
  dsimp only
  have hformat : ∀ d : Directive, d.format = x.length.text ++ format →
      (x.precision.elim d fun field => field.setPrecision d).format = x.length.text ++ format := by
    intro d hd
    cases x.precision with
    | none => exact hd
    | some field => exact (field.setPrecision_format d).trans hd
  rw [evalWidth_text hprecision, evalPrecision_text hlength.1 hlength.2 x.precision (x.width.setWidth_format _)
    (x.width.setWidth_precision _), evalLength_text hspec x.length (hformat _ rfl), DirectiveParts.directive]
  cases x.width <;> cases x.precision with
  | none => rfl
  | some field => cases field <;> rfl

/-- A precision that is not given is zero, and a directive is for a pointer only by its specifier. -/
lemma DirectiveParts.directive_facts (x : DirectiveParts) (format : List UCHAR) (va : Args) :
    ((x.directive format va).flags.precision = false → (x.directive format va).precision = 0) ∧
      (x.directive format va).flags.pointer = false ∧ (x.directive format va).format = format := by
  rw [DirectiveParts.directive]
  cases x.width <;> cases x.precision with
  | none => exact ⟨fun _ => rfl, rfl, rfl⟩
  | some field => cases field <;> exact ⟨fun h => Bool.noConfusion (show true = false from h), rfl, rfl⟩

/-- `"%-0*.7hhx"`. -/
theorem evalDirective_text_hex : evalDirective
    ((DirectiveParts.mk [chr '-', chr '0'] (by decide) .star (some (.number 7)) .char).text ++ [chr 'x']) (fun _ => 5) =
      (DirectiveParts.mk [chr '-', chr '0'] (by decide) .star (some (.number 7)) .char).directive [chr 'x'] fun _ => 5 :=
  evalDirective_text _ (by decide) _

end RoundTrip

end Open98.Lib
