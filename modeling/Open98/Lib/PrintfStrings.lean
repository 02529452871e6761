import Open98.Fat32.Entry
import Open98.Lib.PrintfParse

/-! The directives for strings: how far a string is read, and what is printed of it. -/
namespace Open98.Lib
open Library Open98.Fat32

section Strings
variable {mem mem' : Readable} {p : PVOID} {s : List UCHAR} {flags : PrintFlags}

/-- A string and its NUL stand at an address. -/
structure StandsAt (mem : Readable) (p : PVOID) (s : List UCHAR) : Prop where
  holds : HoldsString (fun i => mem (p + BitVec.ofNat 64 i)) s
  noNul : NoNul s

lemma next_add (p : PVOID) (i : ℕ) : p + 1 + BitVec.ofNat 64 i = p + BitVec.ofNat 64 (i+1) := by
  rw [BitVec.ofNat_add, BitVec.add_assoc, BitVec.add_comm 1]
  rfl

lemma StandsAt.tail {c : UCHAR} (h : StandsAt mem p (c :: s)) : mem p = c ∧ c ≠ 0 ∧ StandsAt mem (p+1) s := by
  refine ⟨?_, h.noNul c List.mem_cons_self, ⟨fun i hi => ?_, ?_⟩, fun x hx => h.noNul x (List.mem_cons_of_mem _ hx)⟩
  · have hzero := h.holds.chars 0 (by simp)
    simpa using hzero
  · rw [next_add]
    exact h.holds.chars (i+1) (by simpa using hi)
  · rw [next_add]
    exact h.holds.nul

lemma StandsAt.nul (h : StandsAt mem p []) : mem p = 0 := by
  have hzero := h.holds.nul
  simpa using hzero

lemma strnlenS_eq (h : StandsAt mem p s) (maxsize : ℕ) : strnlenS mem maxsize p = min s.length maxsize := by
  induction maxsize generalizing p s with
  | zero => rw [strnlenS, Nat.min_zero]
  | succ n ih =>
    rw [strnlenS]
    cases s with
    | nil => rw [if_neg (not_not_intro h.nul), List.length_nil, Nat.zero_min]
    | cons c s =>
      obtain ⟨hc, hne, htail⟩ := h.tail
      rw [if_pos (hc ▸ hne), ih htail, List.length_cons, Nat.add_min_add_right]

/-- The characters that are printed: all of them, or as many as the precision says. -/
lemma stringChars_eq (h : StandsAt mem p s) {rounds : ℕ} (hrounds : s.length < rounds) (precision : ℕ) :
    stringChars mem flags rounds p precision = some (if flags.precision then s.take precision else s) := by
  induction rounds generalizing p s precision with
  | zero => cases hrounds
  | succ n ih =>
    rw [stringChars]
    cases s with
    | nil =>
      rw [if_neg fun hand => hand.1 h.nul, List.take_nil, ite_self]
    | cons c s =>
      obtain ⟨hc, hne, htail⟩ := h.tail
      rw [hc, ih htail (by simpa using hrounds)]
      cases hp : flags.precision with
      | false =>
        rw [if_pos ⟨hne, .inl rfl⟩]
        rfl
      | true =>
        cases precision with
        | zero => simp
        | succ k =>
          rw [if_pos ⟨hne, .inr k.succ_ne_zero⟩]
          rfl

/-- A string in its field. Only the precision cuts it. -/
theorem stringText_eq {d : Directive} (h : StandsAt mem (d.va 0) s) (hnull : d.va 0 ≠ 0) (hlen : s.length < 2^32)
    (hprecision : d.flags.precision = false → d.precision = 0) :
    stringText mem d = some (inField d.flags.left (if d.flags.precision then s.take d.precision else s).length d.width
      (if d.flags.precision then s.take d.precision else s)) := by
  have hchars : stringChars mem d.flags (2^64) (d.va 0) d.precision =
      some (if d.flags.precision then s.take d.precision else s) := stringChars_eq h (by omega) d.precision
  rw [stringText]
  dsimp only
  rw [if_neg hnull, hchars, strnlenS_eq h]
  cases hp : d.flags.precision with
  | false =>
    rw [hprecision hp, if_neg (not_not_intro rfl), Nat.min_eq_left (by omega), Nat.mod_eq_of_lt hlen]
    rfl
  | true =>
    by_cases hzero : d.precision = 0
    · simp [hzero]
    · rw [if_pos hzero, Nat.mod_eq_of_lt (by omega)]
      have hmin : (if min s.length d.precision < d.precision then min s.length d.precision else d.precision) =
          min d.precision s.length := by
        split_ifs <;> omega
      simp only [if_true, hmin, List.length_take, Option.map_some]

lemma strnlenS_congr {maxsize : ℕ} (h : ∀ i < maxsize, mem (p + BitVec.ofNat 64 i) = mem' (p + BitVec.ofNat 64 i)) :
    strnlenS mem maxsize p = strnlenS mem' maxsize p := by
  induction maxsize generalizing p with
  | zero => rfl
  | succ n ih =>
    have hfirst : mem p = mem' p := by simpa using h 0 (by omega)
    rw [strnlenS, strnlenS, hfirst, ih fun i hi => ?_]
    rw [next_add]
    exact h (i+1) (by omega)

lemma stringChars_congr (hflag : flags.precision = true) {rounds precision : ℕ}
    (h : ∀ i < precision, mem (p + BitVec.ofNat 64 i) = mem' (p + BitVec.ofNat 64 i)) :
    stringChars mem flags rounds p precision = stringChars mem' flags rounds p precision := by
  induction rounds generalizing p precision with
  | zero => rfl
  | succ n ih =>
    rw [stringChars, stringChars]
    cases precision with
    | zero => simp [hflag]
    | succ k =>
      have hfirst : mem p = mem' p := by simpa using h 0 (by omega)
      rw [hfirst, Nat.add_sub_cancel, ih fun i hi => ?_]
      rw [next_add]
      exact h (i+1) (by omega)

/-- With a precision, what stands behind so many characters does not matter: the string need not end. -/
theorem stringText_congr {d : Directive} (hflag : d.flags.precision = true) (hpos : d.precision ≠ 0)
    (h : ∀ i < d.precision, mem (d.va 0 + BitVec.ofNat 64 i) = mem' (d.va 0 + BitVec.ofNat 64 i)) :
    stringText mem d = stringText mem' d := by
  rw [stringText, stringText]
  dsimp only
  rw [if_pos hpos, strnlenS_congr h, stringChars_congr hflag h]

/-- Three characters of a memory without any NUL. -/
theorem stringText_congr_three : stringText (fun _ => chr 'a') ⟨{ PrintFlags.none with precision := true }, 5, 3, [], fun _ => 64⟩ =
    stringText (fun a => if a < 67 then chr 'a' else 0) ⟨{ PrintFlags.none with precision := true }, 5, 3, [], fun _ => 64⟩ :=
  stringText_congr rfl (by decide) (by decide)

variable {float : FloatText} {format : List UCHAR} {va : Args}

/-- What is printed of a string. -/
def shown (d : Directive) (s : List UCHAR) : List UCHAR := if d.flags.precision then s.take d.precision else s

/-- The directive for a string, with any flags, width and precision. -/
theorem formatText_string (float : FloatText) (x : DirectiveParts) (format : List UCHAR)
    (h : StandsAt mem ((x.directive (chr 's' :: format) va).va 0) s)
    (hnull : (x.directive (chr 's' :: format) va).va 0 ≠ 0) (hlen : s.length < 2^32) :
    formatText float mem (chr '%' :: (x.text ++ chr 's' :: format)) va =
      (formatText float mem format (x.directive (chr 's' :: format) va).va.rest).map
        (Prod.map (inField (x.directive (chr 's' :: format) va).flags.left
          (shown (x.directive (chr 's' :: format) va) s).length (x.directive (chr 's' :: format) va).width
          (shown (x.directive (chr 's' :: format) va) s) ++ ·) id) := by
  obtain ⟨hunset, -, hformat⟩ := x.directive_facts (chr 's' :: format) va
  have hspec : cur (chr 's' :: format) ∈ specifiers := by
    change chr 's' ∈ specifiers
    decide
  have hspecifier : specifierText float mem (chr 's') (x.directive (chr 's' :: format) va) =
      (stringText mem (x.directive (chr 's' :: format) va)).map fun t => (t, (x.directive (chr 's' :: format) va).va.rest) := rfl
  rw [formatText_directive, evalDirective_text x hspec, directiveText, hformat]
  dsimp only
  rw [hspecifier, stringText_eq h hnull hlen hunset]
  rfl

/-- `%s`. -/
lemma formatText_plainString (h : StandsAt mem (va 0) s) (hnull : va 0 ≠ 0) (hlen : s.length < 2^32) :
    formatText float mem [chr '%', chr 's'] va = some (s, va.rest) := by
  have htext : formatText float mem (chr '%' :: (plainParts.text ++ [chr 's'])) va =
      (formatText float mem [] va.rest).map (Prod.map (inField false (shown ⟨.none, 0, 0, [chr 's'], va⟩ s).length 0
        (shown ⟨.none, 0, 0, [chr 's'], va⟩ s) ++ ·) id) := formatText_string float plainParts [] h hnull hlen
  have hfield :
      inField false (shown ⟨.none, 0, 0, [chr 's'], va⟩ s).length 0 (shown ⟨.none, 0, 0, [chr 's'], va⟩ s) = s := by
    simp [inField, shown, PrintFlags.none, blanks]
  rw [hfield, formatText_nil, Option.map_some, Prod.map, List.append_nil] at htext
  exact htext

/-- `"%5s"` for the string `"KB"` at address 64. -/
theorem formatText_string_unit : formatText (fun _ _ _ _ _ => [])
    (fun a => if a = 64 then chr 'K' else if a = 65 then chr 'B' else 0)
    (chr '%' :: ((DirectiveParts.mk [] (List.forall_mem_nil _) (.number 5) none .int).text ++ [chr 's'])) (fun _ => 64) =
      (formatText (fun _ _ _ _ _ => []) (fun a => if a = 64 then chr 'K' else if a = 65 then chr 'B' else 0) []
        (Args.rest fun _ => 64)).map (Prod.map (inField false 2 5 [chr 'K', chr 'B'] ++ ·) id) :=
  formatText_string _ ⟨[], List.forall_mem_nil _, .number 5, none, .int⟩ []
    ⟨⟨by decide, by decide⟩, by unfold NoNul; decide⟩ (by decide) (by decide)

end Strings

end Open98.Lib
