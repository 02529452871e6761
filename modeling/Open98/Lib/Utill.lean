import Open98.Fat32.Entry

/-! `strtok_r` of `lib/utill.c`. The memory is a buffer and a pointer an offset into it; the null pointer
is `none`, which is less than any other. -/
namespace Open98.Lib
open Open98.Fat32

section Model

/-- `strchr`; the NUL at the end is not found. -/
def strchr (b : Buffer) (c : UCHAR) : (fuel s : ℕ) → Result (Option ℕ)
  | 0, _ => .error .hang
  | fuel+1, s =>
    if b s = 0 then .ok none
    else if b s = c then .ok (some s)
    else strchr b c fuel (s+1)

/-- The loop over the delimiters at the beginning, which `strchr` looks up in the string `delim`. -/
def skipDelimiters (b : Buffer) (delim : List UCHAR) : (fuel begin : ℕ) → Result ℕ
  | 0, _ => .error .hang
  | fuel+1, start => if b start ∈ delim then skipDelimiters b delim fuel (start+1) else .ok start

/-- `temp < next || next == NULL`. -/
def takesOver : (temp next : Option ℕ) → Bool
  | _, none => true
  | none, some _ => true
  | some p, some q => p < q

/-- The token, the new `*saveptr` and the memory with the string cut. -/
def strtokR (fuel : ℕ) (b : Buffer) (str : Option ℕ) (delim : List UCHAR) (saveptr : Option ℕ) :
    Result (Option ℕ × Option ℕ × Buffer) :=
  match str.or saveptr with
  | none => .ok (none, saveptr, b)
  | some start => do
    let start ← skipDelimiters b delim fuel start
    let next ← delim.foldlM (fun next c => do
      let temp ← strchr b c fuel start
      return if takesOver temp next then temp else next) none
    match next with
    | none => return (some start, none, b)
    | some i => return (some start, some (i+1), Function.update b i 0)

/-- The tokens that a call has given and further calls with a null pointer give, and the memory behind the
last call. -/
inductive Tokenizes (fuel : ℕ) (delim : List UCHAR) : Option ℕ × Option ℕ × Buffer → List ℕ → Buffer → Prop
  | nil {saveptr b} : Tokenizes fuel delim (none, saveptr, b) [] b
  | cons {p saveptr b r ps b'} (next : strtokR fuel b none delim saveptr = .ok r)
      (rest : Tokenizes fuel delim r ps b') : Tokenizes fuel delim (some p, saveptr, b) (p :: ps) b'

end Model

section Cuts

/-- Where the next token of a string is cut: at the first one of a delimiter, unless one that is listed
behind it does not occur. -/
def nextCut (start : List UCHAR) (delim : List UCHAR) : Option ℕ :=
  delim.foldl (fun next c =>
    let temp := start.findIdx? (· = c)
    if takesOver temp next then temp else next) none

/-- The tokens of a string, in so many calls at most. -/
def tokensFrom (delim : List UCHAR) : ℕ → List UCHAR → List (List UCHAR)
  | 0, _ => []
  | n+1, s =>
    let start := s.dropWhile (· ∈ delim)
    match nextCut start delim with
    | none => [start]
    | some i => start.take i :: tokensFrom delim n (start.drop (i+1))

def tokens (delim s : List UCHAR) : List (List UCHAR) := tokensFrom delim (s.length + 1) s

variable {delim s start : List UCHAR}

lemma nextCut_snoc (start delim : List UCHAR) (c : UCHAR) : nextCut start (delim ++ [c]) =
    match start.findIdx? (· = c), nextCut start delim with
    | none, _ => none
    | some p, none => some p
    | some p, some q => some (min p q) := by
  rw [nextCut, List.foldl_append, ← nextCut, List.foldl_cons, List.foldl_nil]
  cases start.findIdx? (· = c) with
  | none => cases nextCut start delim <;> rfl
  | some p =>
    cases nextCut start delim with
    | none => rfl
    | some q =>
      simp only [takesOver, decide_eq_true_eq]
      by_cases hpq : p < q
      · rw [if_pos hpq, Nat.min_eq_left hpq.le]
      · rw [if_neg hpq, Nat.min_eq_right (Nat.le_of_not_lt hpq)]

/-- The delimiters that are listed behind the last `d`. -/
def behind (d : UCHAR) (delim : List UCHAR) : List UCHAR := delim.reverse.takeWhile (· ≠ d)

lemma behind_snoc_self (d : UCHAR) (delim : List UCHAR) : behind d (delim ++ [d]) = [] := by simp [behind]

lemma behind_snoc {c d : UCHAR} (h : c ≠ d) (delim : List UCHAR) :
    behind d (delim ++ [c]) = c :: behind d delim := by
  simp [behind, h]

section Earliest
variable {t rest : List UCHAR} {d : UCHAR}

lemma findIdx?_delimiter (ht : ∀ c ∈ t, c ∉ delim) (hd : d ∈ delim) :
    (t ++ d :: rest).findIdx? (· = d) = some t.length := by
  have hnone : t.findIdx? (· = d) = none := by
    rw [List.findIdx?_eq_none_iff]
    intro c hc
    simpa using fun hcd : c = d => ht c hc (hcd ▸ hd)
  rw [List.findIdx?_append, hnone]
  simp [List.findIdx?_cons]

/-- Any other delimiter occurs behind the first one. -/
lemma findIdx?_other {c : UCHAR} (ht : ∀ c ∈ t, c ∉ delim) (hc : c ∈ delim) (hne : c ≠ d) (rest : List UCHAR) :
    (c ∉ rest ∧ (t ++ d :: rest).findIdx? (· = c) = none) ∨
      c ∈ rest ∧ ∃ p, (t ++ d :: rest).findIdx? (· = c) = some p ∧ t.length < p := by
  cases hfind : (t ++ d :: rest).findIdx? (· = c) with
  | none =>
    rw [List.findIdx?_eq_none_iff] at hfind
    exact .inl ⟨fun hrest => absurd (hfind c (by simp [hrest])) (by simp), rfl⟩
  | some p =>
    obtain ⟨hp, hpc, -⟩ := List.findIdx?_eq_some_iff_getElem.mp hfind
    have hpc : (t ++ d :: rest)[p] = c := of_decide_eq_true hpc
    have hlt : t.length < p := by
      by_contra hle
      by_cases hpt : p < t.length
      · rw [List.getElem_append_left hpt] at hpc
        exact ht c (hpc ▸ List.getElem_mem hpt) hc
      · obtain rfl : p = t.length := by omega
        rw [List.getElem_append_right le_rfl] at hpc
        simp only [Nat.sub_self, List.getElem_cons_zero] at hpc
        exact hne hpc.symm
    refine .inr ⟨?_, p, rfl, hlt⟩
    rw [List.getElem_append_right hlt.le, List.getElem_cons, dif_neg (by omega)] at hpc
    exact hpc ▸ List.getElem_mem _

lemma le_nextCut (ht : ∀ c ∈ t, c ∉ delim) {q : ℕ} (hq : nextCut (t ++ d :: rest) delim = some q) :
    t.length ≤ q := by
  induction delim using List.reverseRecOn generalizing q with
  | nil => cases hq
  | append_singleton cs c ih =>
    have htc : ∀ x ∈ t, x ∉ cs := fun x hx hxc => ht x hx (List.mem_append_left _ hxc)
    have hc : c ∈ cs ++ [c] := by simp
    have hp : ∀ p, (t ++ d :: rest).findIdx? (· = c) = some p → t.length ≤ p := by
      intro p hp
      by_cases hcd : c = d
      · rw [hcd, findIdx?_delimiter ht (hcd ▸ hc)] at hp
        exact (Option.some.inj hp).le
      · rcases findIdx?_other ht hc hcd rest with ⟨-, hnone⟩ | ⟨-, p', hsome, hlt⟩
        · rw [hnone] at hp
          cases hp
        · rw [hsome] at hp
          exact hlt.le.trans (Option.some.inj hp).le
    rw [nextCut_snoc] at hq
    cases hfind : (t ++ d :: rest).findIdx? (· = c) with
    | none =>
      rw [hfind] at hq
      cases hq
    | some p =>
      rw [hfind] at hq
      cases hcut : nextCut (t ++ d :: rest) cs with
      | none =>
        rw [hcut] at hq
        exact Option.some.inj hq ▸ hp p hfind
      | some q' =>
        rw [hcut] at hq
        exact Option.some.inj hq ▸ le_min (hp p hfind) (ih htc hcut)

/-- A token that ends with `d` is cut there if and only if every delimiter that is listed behind `d` occurs
in the rest of the string. -/
lemma nextCut_eq_iff (ht : ∀ c ∈ t, c ∉ delim) (hd : d ∈ delim) :
    nextCut (t ++ d :: rest) delim = some t.length ↔ ∀ e ∈ behind d delim, e ∈ rest := by
  induction delim using List.reverseRecOn with
  | nil => cases hd
  | append_singleton cs c ih =>
    have htc : ∀ x ∈ t, x ∉ cs := fun x hx hxc => ht x hx (List.mem_append_left _ hxc)
    have hle : ∀ q, nextCut (t ++ d :: rest) cs = some q → t.length ≤ q := fun q hq => le_nextCut htc hq
    rw [nextCut_snoc]
    by_cases hcd : c = d
    · subst hcd
      rw [findIdx?_delimiter ht hd, behind_snoc_self]
      cases hcut : nextCut (t ++ c :: rest) cs with
      | none => simp
      | some q => simp [hle q hcut]
    · have hdc : d ∈ cs := by
        rcases List.mem_append.mp hd with h | h
        · exact h
        · exact absurd (List.mem_singleton.mp h).symm hcd
      rw [behind_snoc hcd, List.forall_mem_cons]
      rcases findIdx?_other ht (by simp) hcd rest with ⟨hrest, hnone⟩ | ⟨hrest, p, hsome, hlt⟩
      · rw [hnone]
        simp [hrest]
      · rw [hsome, ← ih htc hdc]
        cases hcut : nextCut (t ++ d :: rest) cs with
        | none => simp [hlt.ne']
        | some q =>
          have := hle q hcut
          simp only [hrest, true_and, Option.some_inj]
          omega

end Earliest

lemma nextCut_free (h : ∀ c ∈ start, c ∉ delim) : nextCut start delim = none := by
  induction delim using List.reverseRecOn with
  | nil => rfl
  | append_singleton cs c ih =>
    have hnone : start.findIdx? (· = c) = none := by
      rw [List.findIdx?_eq_none_iff]
      intro x hx
      simpa using fun hxc : x = c => h x hx (hxc ▸ by simp)
    rw [nextCut_snoc, hnone]

lemma nextCut_lt {i : ℕ} (h : nextCut start delim = some i) : i < start.length := by
  induction delim using List.reverseRecOn generalizing i with
  | nil => cases h
  | append_singleton cs c ih =>
    rw [nextCut_snoc] at h
    cases hfind : start.findIdx? (· = c) with
    | none =>
      rw [hfind] at h
      cases h
    | some p =>
      obtain ⟨hp, -⟩ := List.findIdx?_eq_some_iff_getElem.mp hfind
      rw [hfind] at h
      cases hcut : nextCut start cs with
      | none =>
        rw [hcut] at h
        exact Option.some.inj h ▸ hp
      | some q =>
        rw [hcut] at h
        exact Option.some.inj h ▸ (min_le_left p q).trans_lt hp

lemma length_dropWhile_le (delim s : List UCHAR) : (s.dropWhile (· ∈ delim)).length ≤ s.length :=
  (List.dropWhile_suffix _).length_le

/-- More calls give no more tokens. -/
lemma tokensFrom_eq {n m : ℕ} (hn : s.length < n) (hm : s.length < m) :
    tokensFrom delim n s = tokensFrom delim m s := by
  induction n generalizing m s with
  | zero => omega
  | succ n ih =>
    obtain ⟨m, rfl⟩ : ∃ k, m = k+1 := ⟨m-1, by omega⟩
    have hle := length_dropWhile_le delim s
    rw [tokensFrom, tokensFrom]
    cases hcut : nextCut (s.dropWhile (· ∈ delim)) delim with
    | none => rfl
    | some i =>
      have hi := nextCut_lt hcut
      dsimp only
      rw [ih (m := m) (by rw [List.length_drop]; omega) (by rw [List.length_drop]; omega)]

lemma tokens_eq (delim s : List UCHAR) : tokens delim s =
    match nextCut (s.dropWhile (· ∈ delim)) delim with
    | none => [s.dropWhile (· ∈ delim)]
    | some i => (s.dropWhile (· ∈ delim)).take i :: tokens delim ((s.dropWhile (· ∈ delim)).drop (i+1)) := by
  rw [tokens, tokensFrom]
  cases hcut : nextCut (s.dropWhile (· ∈ delim)) delim with
  | none => rfl
  | some i =>
    have hi := nextCut_lt hcut
    have hle := length_dropWhile_le delim s
    dsimp only
    rw [tokens, tokensFrom_eq (by rw [List.length_drop]; omega) (Nat.lt_succ_self _)]

end Cuts

section Pieces
variable {delim s start t rest : List UCHAR} {d : UCHAR}

/-- The maximal parts of a string that have no delimiter and are not empty. -/
noncomputable def pieces (delim s : List UCHAR) : List (List UCHAR) :=
  (s.splitOnP (· ∈ delim)).filter (· ≠ [])

lemma pieces_dropWhile (delim s : List UCHAR) : pieces delim (s.dropWhile (· ∈ delim)) = pieces delim s := by
  induction s with
  | nil => rfl
  | cons c s ih =>
    by_cases hc : c ∈ delim
    · rw [List.dropWhile_cons_of_pos (by simpa using hc), ih, pieces, pieces, List.splitOnP_cons_eq_if_modifyHead,
        if_pos (by simpa using hc)]
      rfl
    · rw [List.dropWhile_cons_of_neg (by simpa using hc)]

lemma pieces_free (h : ∀ c ∈ s, c ∉ delim) (hne : s ≠ []) : pieces delim s = [s] := by
  rw [pieces, List.splitOnP_eq_singleton (by simpa using h)]
  simp [hne]

lemma pieces_delimited (ht : ∀ c ∈ t, c ∉ delim) (hne : t ≠ []) (hd : d ∈ delim) (rest : List UCHAR) :
    pieces delim (t ++ d :: rest) = t :: pieces delim rest := by
  rw [pieces, List.splitOnP_append_cons_of_forall_mem (by simpa using ht) d (by simpa using hd)]
  simp [pieces, hne]

/-- A string has no delimiter, or a first one. -/
lemma free_or_delimited (delim s : List UCHAR) : (∀ c ∈ s, c ∉ delim) ∨
    ∃ t d rest, s = t ++ d :: rest ∧ (∀ c ∈ t, c ∉ delim) ∧ d ∈ delim := by
  induction s with
  | nil => exact .inl (by simp)
  | cons c s ih =>
    by_cases hc : c ∈ delim
    · exact .inr ⟨[], c, s, rfl, by simp, hc⟩
    · rcases ih with hfree | ⟨t, d, rest, rfl, ht, hd⟩
      · exact .inl (List.forall_mem_cons.mpr ⟨hc, hfree⟩)
      · exact .inr ⟨c :: t, d, rest, rfl, List.forall_mem_cons.mpr ⟨hc, ht⟩, hd⟩

/-- The string ends with a token, and wherever a token is followed by a delimiter, the ones that are listed
behind it occur later. -/
structure CutsRight (delim s : List UCHAR) : Prop where
  last : ∃ c, s.getLast? = some c ∧ c ∉ delim
  later : ∀ front c d post, s = front ++ c :: d :: post → c ∉ delim → d ∈ delim → ∀ e ∈ behind d delim, e ∈ post

lemma not_cutsRight_of_forall (h : ∀ c ∈ s, c ∈ delim) : ¬ CutsRight delim s := by
  intro hcuts
  obtain ⟨c, hc, hcd⟩ := hcuts.last
  exact hcd (h c (List.mem_of_getLast? hc))

lemma cutsRight_free (h : ∀ c ∈ s, c ∉ delim) (hne : s ≠ []) : CutsRight delim s := by
  refine ⟨⟨s.getLast hne, List.getLast?_eq_some_getLast hne, h _ (List.getLast_mem hne)⟩, ?_⟩
  rintro front c d post rfl _ hd
  exact absurd hd (h d (by simp))

/-- Delimiters in front do not matter. -/
lemma cutsRight_dropWhile (hne : s.dropWhile (· ∈ delim) ≠ []) :
    CutsRight delim (s.dropWhile (· ∈ delim)) ↔ CutsRight delim s := by
  induction s with
  | nil => exact absurd rfl hne
  | cons c s ih =>
    by_cases hc : c ∈ delim
    · rw [List.dropWhile_cons_of_pos (by simpa using hc)] at hne ⊢
      rw [ih hne]
      obtain ⟨x, s, rfl⟩ := List.exists_cons_of_ne_nil (l := s) (by rintro rfl; exact hne rfl)
      constructor
      · intro h
        refine ⟨by rw [List.getLast?_cons_cons]; exact h.last, fun front c' d post heq hc' => ?_⟩
        cases front with
        | nil => exact absurd ((List.cons.inj heq).1 ▸ hc) hc'
        | cons y front => exact h.later front c' d post (List.cons.inj heq).2 hc'
      · intro h
        have hlast := h.last
        rw [List.getLast?_cons_cons] at hlast
        exact ⟨hlast, fun front c' d post heq => h.later (c :: front) c' d post (by rw [heq]; rfl)⟩
    · rw [List.dropWhile_cons_of_neg (by simpa using hc)]

lemma cutsRight_delimited (ht : ∀ c ∈ t, c ∉ delim) (hne : t ≠ []) (hd : d ∈ delim) :
    CutsRight delim (t ++ d :: rest) ↔ (∀ e ∈ behind d delim, e ∈ rest) ∧ CutsRight delim rest := by
  have hend : (t ++ d :: rest).getLast? = rest.getLast?.or (t ++ [d]).getLast? := by
    rw [← List.getLast?_append, List.append_assoc]
    rfl
  constructor
  · intro h
    refine ⟨h.later t.dropLast (t.getLast hne) d rest ?_ (ht _ (List.getLast_mem hne)) hd, ?_, ?_⟩
    · calc t ++ d :: rest = t.dropLast ++ [t.getLast hne] ++ d :: rest := by rw [List.dropLast_concat_getLast]
        _ = t.dropLast ++ t.getLast hne :: d :: rest := by rw [List.append_assoc]; rfl
    · obtain ⟨c, hc, hcd⟩ := h.last
      rw [hend] at hc
      cases hrest : rest.getLast? with
      | none =>
        rw [hrest, Option.none_or, List.getLast?_concat] at hc
        exact absurd (Option.some.inj hc ▸ hd) hcd
      | some x =>
        rw [hrest, Option.some_or] at hc
        exact ⟨c, hc, hcd⟩
    · rintro front c d' post rfl
      exact h.later (t ++ d :: front) c d' post (by simp)
  · intro ⟨hbehind, h⟩
    obtain ⟨c, hc, hcd⟩ := h.last
    refine ⟨⟨c, by rw [hend, hc, Option.some_or], hcd⟩, fun front c' d' post heq hc' hd' => ?_⟩
    rcases List.append_eq_append_iff.mp heq with ⟨a, rfl, ha⟩ | ⟨a, rfl, ha⟩
    · cases a with
      | nil => exact absurd ((List.cons.inj ha).1 ▸ hd) hc'
      | cons x a => exact h.later a c' d' post (List.cons.inj ha).2 hc' hd'
    · cases a with
      | nil => exact absurd ((List.cons.inj ha).1.symm ▸ hd) hc'
      | cons x a =>
        obtain ⟨rfl, hrest⟩ := List.cons.inj ha
        cases a with
        | nil =>
          obtain ⟨rfl, rfl⟩ := List.cons.inj hrest
          exact hbehind
        | cons y a =>
          obtain ⟨rfl, -⟩ := List.cons.inj hrest
          exact absurd hd' (ht d' (by simp))

lemma dropWhile_cases (delim s : List UCHAR) : (s.dropWhile (· ∈ delim) = [] ∧ ∀ c ∈ s, c ∈ delim) ∨
    ∃ c rest, s.dropWhile (· ∈ delim) = c :: rest ∧ c ∉ delim := by
  induction s with
  | nil => exact .inl ⟨rfl, by simp⟩
  | cons c s ih =>
    by_cases hc : c ∈ delim
    · rw [List.dropWhile_cons_of_pos (by simpa using hc)]
      exact ih.imp_left fun ⟨hnil, hall⟩ => ⟨hnil, List.forall_mem_cons.mpr ⟨hc, hall⟩⟩
    · exact .inr ⟨c, s, List.dropWhile_cons_of_neg (by simpa using hc), hc⟩

/-- The tokens are the parts between the delimiters if and only if every one is cut where it ends. -/
lemma tokens_eq_pieces_iff (delim s : List UCHAR) : tokens delim s = pieces delim s ↔ CutsRight delim s := by
  induction hn : s.length using Nat.strong_induction_on generalizing s with
  | _ n ih =>
    have hle := length_dropWhile_le delim s
    rw [← pieces_dropWhile, tokens_eq]
    rcases dropWhile_cases delim s with ⟨hnil, hall⟩ | ⟨c, tail, hstart, hc⟩
    · rw [hnil, nextCut_free (by simp)]
      exact iff_of_false (by simp [pieces]) (not_cutsRight_of_forall hall)
    · rw [← cutsRight_dropWhile (by rw [hstart]; exact List.cons_ne_nil c tail)]
      rw [hstart] at hle ⊢
      rcases free_or_delimited delim (c :: tail) with hfree | ⟨t, d, rest, heq, ht, hd⟩
      · rw [nextCut_free hfree, pieces_free hfree (List.cons_ne_nil c tail)]
        exact iff_of_true rfl (cutsRight_free hfree (List.cons_ne_nil c tail))
      · have hne : t ≠ [] := by
          rintro rfl
          exact hc ((List.cons.inj heq).1 ▸ hd)
        rw [heq] at hle ⊢
        rw [List.length_append, List.length_cons] at hle
        rw [pieces_delimited ht hne hd, cutsRight_delimited ht hne hd, ← nextCut_eq_iff ht hd,
          ← ih rest.length (by omega) rest rfl]
        cases hcut : nextCut (t ++ d :: rest) delim with
        | none =>
          refine iff_of_false (fun h => ?_) fun h => by cases h.1
          have hlength := congrArg List.length (List.cons.inj h).1
          rw [List.length_append, List.length_cons] at hlength
          omega
        | some i =>
          by_cases hi : i = t.length
          · subst hi
            have hdrop : (t ++ d :: rest).drop (t.length + 1) = rest := by simp [List.drop_append]
            simp [hdrop]
          · refine iff_of_false (fun h => ?_) fun h => hi (Option.some.inj h.1)
            have hlength := congrArg List.length (List.cons.inj h).1
            have hlt := nextCut_lt hcut
            have hlow := le_nextCut ht hcut
            rw [List.length_take] at hlength
            omega

end Pieces

section Memory

/-- A string stands at an address. -/
structure StringAt (b : Buffer) (p : ℕ) (s : List UCHAR) : Prop where
  holds : HoldsString (fun i => b (p+i)) s
  noNul : NoNul s

variable {b : Buffer} {p fuel : ℕ} {delim s t : List UCHAR}

lemma StringAt.head {c : UCHAR} (h : StringAt b p (c :: s)) : b p = c ∧ c ≠ 0 ∧ StringAt b (p+1) s := by
  refine ⟨h.holds.chars 0 (by simp), h.noNul c (by simp), ⟨fun i hi => ?_, ?_⟩, fun x hx => h.noNul x (by simp [hx])⟩
  · rw [Nat.add_assoc, Nat.add_comm 1]
    exact h.holds.chars (i+1) (by simpa using hi)
  · rw [Nat.add_assoc, Nat.add_comm 1]
    exact h.holds.nul

lemma StringAt.drop (h : StringAt b p s) {k : ℕ} (hk : k ≤ s.length) : StringAt b (p+k) (s.drop k) := by
  induction k generalizing p s with
  | zero => exact h
  | succ k ih =>
    cases s with
    | nil => cases hk
    | cons c s =>
      rw [Nat.add_comm k 1, ← Nat.add_assoc, Nat.add_comm 1 k, List.drop_succ_cons]
      exact ih h.head.2.2 (Nat.le_of_succ_le_succ hk)

lemma StringAt.congr {b' : Buffer} (h : StringAt b p s) (hsame : ∀ q, p ≤ q → q ≤ p + s.length → b' q = b q) :
    StringAt b' p s := by
  refine ⟨⟨fun i hi => ?_, ?_⟩, h.noNul⟩
  · exact (hsame _ (by omega) (by omega)).trans (h.holds.chars i hi)
  · exact (hsame _ (by omega) (by omega)).trans h.holds.nul

/-- The token that ends with a NUL over character `i`, and what stands behind it. -/
lemma StringAt.cut (h : StringAt b p s) {i : ℕ} (hi : i < s.length) :
    StringAt (Function.update b (p+i) 0) p (s.take i) ∧ StringAt (Function.update b (p+i) 0) (p+i+1) (s.drop (i+1)) := by
  refine ⟨⟨⟨fun j hj => ?_, ?_⟩, fun c hc => h.noNul c (List.mem_of_mem_take hc)⟩,
    (h.drop hi).congr fun q hq _ => Function.update_of_ne (by omega) _ _⟩
  · rw [List.length_take] at hj
    rw [Function.update_of_ne (by omega)]
    refine (h.holds.chars j (by omega)).trans ?_
    rw [List.getD_eq_getElem _ _ (by omega), List.getD_eq_getElem _ _ (by rw [List.length_take]; omega),
      List.getElem_take]
  · rw [List.length_take, Nat.min_eq_left hi.le, Function.update_self]

lemma StringAt.unique (h : StringAt b p s) (h' : StringAt b p t) : s = t :=
  (strcmpEq_iff h.holds h.noNul h'.noNul).mp ((strcmpEq_iff h'.holds h'.noNul h'.noNul).mpr rfl)

lemma strchr_ok (h : StringAt b p s) (c : UCHAR) (hfuel : s.length < fuel) :
    strchr b c fuel p = .ok ((s.findIdx? (· = c)).map (p + ·)) := by
  induction s generalizing p fuel with
  | nil =>
    obtain ⟨fuel, rfl⟩ : ∃ n, fuel = n+1 := ⟨fuel-1, by omega⟩
    have hnul : b p = 0 := h.holds.nul
    rw [strchr, if_pos hnul]
    rfl
  | cons x s ih =>
    obtain ⟨fuel, rfl⟩ : ∃ n, fuel = n+1 := ⟨fuel-1, by omega⟩
    obtain ⟨hx, hne, hrest⟩ := h.head
    rw [strchr, hx, if_neg hne, List.findIdx?_cons]
    by_cases hxc : x = c
    · simp [hxc]
    · rw [if_neg hxc, ih hrest (by simpa using hfuel)]
      simp [hxc, Function.comp_def, Nat.add_assoc, Nat.add_comm 1]

lemma skipDelimiters_ok (h : StringAt b p s) (hdelim : NoNul delim) (hfuel : s.length < fuel) :
    ∃ k ≤ s.length, skipDelimiters b delim fuel p = .ok (p+k) ∧ s.drop k = s.dropWhile (· ∈ delim) := by
  induction s generalizing p fuel with
  | nil =>
    obtain ⟨fuel, rfl⟩ : ∃ n, fuel = n+1 := ⟨fuel-1, by omega⟩
    have hnul : b p = 0 := h.holds.nul
    refine ⟨0, le_rfl, ?_, rfl⟩
    rw [skipDelimiters, hnul, if_neg fun hmem => hdelim 0 hmem rfl]
    rfl
  | cons x s ih =>
    obtain ⟨fuel, rfl⟩ : ∃ n, fuel = n+1 := ⟨fuel-1, by omega⟩
    obtain ⟨hx, -, hrest⟩ := h.head
    rw [skipDelimiters, hx]
    by_cases hmem : x ∈ delim
    · obtain ⟨k, hk, hskip, hdrop⟩ := ih hrest (show s.length < fuel by simpa using hfuel)
      refine ⟨k+1, by simpa using hk, ?_, ?_⟩
      · rw [if_pos hmem, hskip, Nat.add_assoc, Nat.add_comm 1]
      · rw [List.drop_succ_cons, hdrop, List.dropWhile_cons_of_pos (by simpa using hmem)]
    · exact ⟨0, Nat.zero_le _, if_neg hmem, (List.dropWhile_cons_of_neg (by simpa using hmem)).symm⟩

/-- The loop over the delimiters finds the cut of the string. -/
lemma foldlM_strchr (h : StringAt b p s) (hfuel : s.length < fuel) (delim : List UCHAR) (next : Option ℕ) :
    delim.foldlM (fun next c => do
      let temp ← strchr b c fuel p
      return if takesOver temp next then temp else next) (next.map (p + ·)) =
    (.ok ((delim.foldl (fun next c =>
      let temp := s.findIdx? (· = c)
      if takesOver temp next then temp else next) next).map (p + ·)) : Result (Option ℕ)) := by
  induction delim generalizing next with
  | nil => rfl
  | cons c delim ih =>
    have hover : ∀ temp next : Option ℕ, takesOver (temp.map (p + ·)) (next.map (p + ·)) = takesOver temp next := by
      intro temp next
      cases temp <;> cases next <;> simp [takesOver]
    rw [List.foldlM_cons, strchr_ok h c hfuel, ok_bind, hover, List.foldl_cons, ← ih]
    dsimp only
    split_ifs <;> rw [pure_bind]

/-- A call with the pointer to a string. -/
lemma strtokR_ok (h : StringAt b p s) (hdelim : NoNul delim) (hfuel : s.length < fuel) (saveptr : Option ℕ) :
    ∃ k ≤ s.length, s.drop k = s.dropWhile (· ∈ delim) ∧
      strtokR fuel b (some p) delim saveptr = match nextCut (s.dropWhile (· ∈ delim)) delim with
        | none => .ok (some (p+k), none, b)
        | some i => .ok (some (p+k), some (p+k+i+1), Function.update b (p+k+i) 0) := by
  obtain ⟨k, hk, hskip, hdrop⟩ := skipDelimiters_ok h hdelim hfuel
  have hstart : StringAt b (p+k) (s.dropWhile (· ∈ delim)) := hdrop ▸ h.drop hk
  have hle := length_dropWhile_le delim s
  have hfold := foldlM_strchr hstart (show _ < fuel by omega) delim none
  refine ⟨k, hk, hdrop, ?_⟩
  rw [Option.map_none, ← nextCut] at hfold
  rw [strtokR, Option.some_or]
  dsimp only
  rw [hskip, ok_bind, hfold, ok_bind]
  cases nextCut (s.dropWhile (· ∈ delim)) delim <;> rfl

/-- From the first call on, the tokens of a string are found; what lies before the string is left alone. -/
lemma exists_tokenizes (hdelim : NoNul delim) (h : StringAt b p s) (hfuel : s.length < fuel) (saveptr : Option ℕ) :
    ∃ r ps b', strtokR fuel b (some p) delim saveptr = .ok r ∧ Tokenizes fuel delim r ps b' ∧
      (∀ q < p, b' q = b q) ∧ List.Forall₂ (StringAt b') ps (tokens delim s) := by
  induction hn : s.length using Nat.strong_induction_on generalizing b p s saveptr with
  | _ n ih =>
    obtain ⟨k, hk, hdrop, hcall⟩ := strtokR_ok h hdelim hfuel saveptr
    have hstart : StringAt b (p+k) (s.dropWhile (· ∈ delim)) := hdrop ▸ h.drop hk
    have hle := length_dropWhile_le delim s
    rw [tokens_eq]
    generalize s.dropWhile (· ∈ delim) = start at hcall hstart hle ⊢
    cases hcut : nextCut start delim with
    | none =>
      rw [hcut] at hcall
      refine ⟨_, [p+k], b, hcall, .cons rfl .nil, fun _ _ => rfl, .cons hstart .nil⟩
    | some i =>
      rw [hcut] at hcall
      have hi := nextCut_lt hcut
      obtain ⟨htoken, hrest⟩ := hstart.cut hi
      obtain ⟨r, ps, b', hnext, htokens, hbefore, hstrings⟩ := ih (start.drop (i+1)).length
        (by rw [List.length_drop]; omega) hrest (by rw [List.length_drop]; omega) none rfl
      refine ⟨_, (p+k) :: ps, b', hcall, .cons hnext htokens, fun q hq => ?_, .cons (htoken.congr fun q _ hq => ?_) hstrings⟩
      · rw [hbefore q (by omega), Function.update_of_ne (by omega)]
      · rw [List.length_take] at hq
        exact hbefore q (by omega)

lemma Tokenizes.unique {r : Option ℕ × Option ℕ × Buffer} {ps ps' : List ℕ} {b₁ b₂ : Buffer}
    (h : Tokenizes fuel delim r ps b₁) (h' : Tokenizes fuel delim r ps' b₂) : ps = ps' ∧ b₁ = b₂ := by
  induction h generalizing ps' b₂ with
  | nil =>
    cases h'
    exact ⟨rfl, rfl⟩
  | cons next rest ih =>
    cases h' with
    | cons next' rest' =>
      obtain rfl := Except.ok.inj (next.symm.trans next')
      obtain ⟨rfl, rfl⟩ := ih rest'
      exact ⟨rfl, rfl⟩

end Memory

section Tokeniser

/-- The first call with a string and the calls with a null pointer behind it give these tokens, as the
memory is behind the last one, and then no more. -/
def YieldsTokens (fuel : ℕ) (b : Buffer) (p : ℕ) (delim : List UCHAR) (saveptr : Option ℕ)
    (ts : List (List UCHAR)) : Prop :=
  ∃ r ps b', strtokR fuel b (some p) delim saveptr = .ok r ∧ Tokenizes fuel delim r ps b' ∧
    List.Forall₂ (StringAt b') ps ts

variable {b : Buffer} {p fuel : ℕ} {delim s : List UCHAR}

lemma yieldsTokens_iff (hs : StringAt b p s) (hdelim : NoNul delim) (hfuel : s.length < fuel)
    (saveptr : Option ℕ) (ts : List (List UCHAR)) :
    YieldsTokens fuel b p delim saveptr ts ↔ ts = tokens delim s := by
  obtain ⟨r, ps, b', hcall, htokens, -, hstrings⟩ := exists_tokenizes hdelim hs hfuel saveptr
  constructor
  · intro ⟨r', ps', b'', hcall', htokens', hstrings'⟩
    obtain rfl := Except.ok.inj (hcall.symm.trans hcall')
    obtain ⟨rfl, rfl⟩ := htokens.unique htokens'
    exact List.right_unique_forall₂' (fun _ _ _ h h' => h.unique h') hstrings' hstrings
  · rintro rfl
    exact ⟨r, ps, b', hcall, htokens, hstrings⟩

/-- The tokens of a string are its maximal parts without delimiters if and only if it ends with one of
them, and wherever one is followed by a delimiter, all that are listed behind it occur later. -/
theorem yieldsTokens_pieces_iff (hs : StringAt b p s) (hdelim : NoNul delim) (hfuel : s.length < fuel)
    (saveptr : Option ℕ) : YieldsTokens fuel b p delim saveptr (pieces delim s) ↔ CutsRight delim s := by
  rw [yieldsTokens_iff hs hdelim hfuel, eq_comm, tokens_eq_pieces_iff]

/-- The memory from whose start on a string stands. -/
def memory (s : List UCHAR) : Buffer := fun k => s.getD k 0

lemma memory_stringAt (hs : NoNul s) : StringAt (memory s) 0 s := by
  refine ⟨⟨fun i _ => ?_, ?_⟩, hs⟩
  · rw [Nat.zero_add, memory]
  · rw [Nat.zero_add, memory, List.getD_eq_default _ _ le_rfl]

/-- `",a,b"`. -/
theorem yieldsTokens_pieces_letters : YieldsTokens 5 (memory [0x2C, 0x61, 0x2C, 0x62]) 0 [0x2C] none
    (pieces [0x2C] [0x2C, 0x61, 0x2C, 0x62]) := by
  refine (yieldsTokens_pieces_iff (memory_stringAt (by unfold NoNul; decide)) (by unfold NoNul; decide)
    (by decide) none).mpr ⟨⟨0x62, rfl, by decide⟩, fun front c d post _ _ hd e he => ?_⟩
  obtain rfl := List.mem_singleton.mp hd
  cases he

/-- A delimiter at the end leaves an empty token, and one that is absent keeps the other from cutting. -/
theorem trailing_delimiter_yields_empty :
    (YieldsTokens 5 (memory [0x61, 0x2C]) 0 [0x2C] none [[0x61], []] ∧
      ¬ YieldsTokens 5 (memory [0x61, 0x2C]) 0 [0x2C] none (pieces [0x2C] [0x61, 0x2C])) ∧
    YieldsTokens 5 (memory [0x61, 0x2C, 0x62]) 0 [0x2C, 0x3B] none [[0x61, 0x2C, 0x62]] ∧
      ¬ YieldsTokens 5 (memory [0x61, 0x2C, 0x62]) 0 [0x2C, 0x3B] none
        (pieces [0x2C, 0x3B] [0x61, 0x2C, 0x62]) := by
  have hcomma : NoNul [0x2C] := by unfold NoNul; decide
  have hboth : NoNul [0x2C, 0x3B] := by unfold NoNul; decide
  have hends := memory_stringAt (s := [0x61, 0x2C]) (by unfold NoNul; decide)
  have hmiddle := memory_stringAt (s := [0x61, 0x2C, 0x62]) (by unfold NoNul; decide)
  rw [yieldsTokens_iff hends hcomma (by decide), yieldsTokens_iff hends hcomma (by decide),
    yieldsTokens_iff hmiddle hboth (by decide), yieldsTokens_iff hmiddle hboth (by decide), eq_comm (a := pieces _ _),
    tokens_eq_pieces_iff, eq_comm (a := pieces _ _), tokens_eq_pieces_iff]
  refine ⟨⟨by decide, fun h => ?_⟩, by decide, fun h => ?_⟩
  · obtain ⟨c, hc, hcd⟩ := h.last
    obtain rfl : 0x2C = c := Option.some.inj hc
    exact hcd (by decide)
  · exact absurd (h.later [] 0x61 0x2C [0x62] rfl (by decide) (by decide) 0x3B (by decide)) (by decide)

end Tokeniser

end Open98.Lib
