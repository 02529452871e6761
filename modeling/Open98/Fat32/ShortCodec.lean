import Open98.Fat32.Labels
import Open98.Fat32.ShortNames

/-! Short names survive being written into the eleven bytes of a slot and read back, and the bytes survive being
read and written again. -/
namespace Open98.Fat32

section Trimming
variable {b : Buffer} {s : List UCHAR} {left i m n : ℕ}

/-- The first blank becomes a NUL. -/
lemma trimFrom_blank (him : i ≤ m) (hm : m ≤ i + left) (hblank : b m = 0x20)
    (h : ∀ k, i ≤ k → k < m → b k ≠ 0x20) : trimFrom b left i = Function.update b m 0 := by
  induction left generalizing i with
  | zero =>
    obtain rfl : m = i := by omega
    exact if_pos hblank
  | succ left ih =>
    rw [trimFrom]
    split_ifs with hi
    · obtain rfl : i = m := le_antisymm him (not_lt.mp fun hlt => h i le_rfl hlt hi)
      rfl
    · have hne : i ≠ m := fun heq => hi (heq ▸ hblank)
      exact ih (by omega) (by omega) fun k hk => h k (by omega)

lemma trimFrom_of_no_blank (h : ∀ k, i ≤ k → k ≤ i + left → b k ≠ 0x20) : trimFrom b left i = b := by
  induction left generalizing i with
  | zero => exact if_neg (h i le_rfl le_rfl)
  | succ left ih =>
    rw [trimFrom, if_neg (h i le_rfl (by omega))]
    exact ih fun k hk hle => h k (by omega) (by omega)

/-- In a field that is filled up with blanks, the NUL is put behind the string. The loop goes one byte further than
the field, and there is a NUL. -/
lemma utilTrimSpaces_padded (hle : s.length ≤ n) (hs : ∀ c ∈ s, c ≠ 0x20) (hb : ∀ k < n, b k = s.getD k 0x20)
    (hnul : b n = 0) : utilTrimSpaces b n = Function.update b s.length 0 := by
  have hfront : ∀ k < s.length, b k ≠ 0x20 := by
    intro k hk
    rw [hb k (by omega), List.getD_eq_getElem _ _ hk]
    exact hs _ (List.getElem_mem hk)
  by_cases hfull : s.length = n
  · rw [hfull, ← hnul, Function.update_eq_self]
    refine trimFrom_of_no_blank fun k _ hk => ?_
    by_cases hkn : k < n
    · exact hfront k (by omega)
    · obtain rfl : k = n := by omega
      rw [hnul]
      decide
  · have hblank : b s.length = 0x20 := by rw [hb _ (by omega), List.getD_eq_default _ _ le_rfl]
    exact trimFrom_blank (Nat.zero_le _) (by omega) hblank fun k _ hk => hfront k hk

lemma strlen_eq (hb : HoldsString b s) (hs : NoNul s) (hle : s.length ≤ n) : strlen b n = s.length := by
  induction n generalizing b s with
  | zero => exact (Nat.le_zero.mp hle).symm
  | succ n ih =>
    rw [strlen]
    cases s with
    | nil => exact if_pos hb.nul
    | cons c s =>
      have hc : b 0 = c := hb.chars 0 (Nat.succ_pos _)
      have htail : HoldsString (fun i => b (i+1)) s :=
        ⟨fun i hi => hb.chars (i+1) (Nat.succ_lt_succ hi), hb.nul⟩
      rw [if_neg (hc ▸ hs c List.mem_cons_self),
        ih htail (fun x hx => hs x (List.mem_cons_of_mem _ hx)) (Nat.le_of_succ_le_succ hle), List.length_cons]

end Trimming

section Parts

/-- A character of a short name: printable, neither a blank nor a dot, and no lower-case letter. -/
structure ShortChar (c : UCHAR) : Prop where
  lower : 0x21 ≤ c.toNat
  upper : c.toNat ≤ 0x7E
  notDot : c ≠ 0x2E
  notLowerCase : ¬ (0x61 ≤ c.toNat ∧ c.toNat ≤ 0x7A)

instance (c : UCHAR) : Decidable (ShortChar c) :=
  decidable_of_iff (0x21 ≤ c.toNat ∧ c.toNat ≤ 0x7E ∧ c ≠ 0x2E ∧ ¬ (0x61 ≤ c.toNat ∧ c.toNat ≤ 0x7A))
    ⟨fun h => ⟨h.1, h.2.1, h.2.2.1, h.2.2.2⟩, fun h => ⟨h.lower, h.upper, h.notDot, h.notLowerCase⟩⟩

/-- A base of one to eight characters and an extension of up to three. -/
structure Name83 where
  base : List UCHAR
  extension : List UCHAR
  pos : 1 ≤ base.length
  base_le : base.length ≤ 8
  extension_le : extension.length ≤ 3
  base_chars : ∀ c ∈ base, ShortChar c
  extension_chars : ∀ c ∈ extension, ShortChar c

/-- Without an extension there is no dot. -/
def Name83.text (n : Name83) : List UCHAR :=
  if n.extension = [] then n.base else n.base ++ 0x2E :: n.extension

/-- The eleven bytes are the base and the extension, both filled up with blanks. -/
structure Name83.Padded (n : Name83) (s : Slot) : Prop where
  base : ∀ k (hk : k < 8), s ⟨k, baseByte_lt hk⟩ = n.base.getD k 0x20
  extension : ∀ k (hk : k < 3), s ⟨8+k, extensionByte_lt hk⟩ = n.extension.getD k 0x20

variable {c : UCHAR} {n : Name83} {s : Slot}

lemma ShortChar.kToupper (h : ShortChar c) : Fat32.kToupper c = c := if_neg h.notLowerCase

lemma ShortChar.ne_nul (h : ShortChar c) : c ≠ 0 := by
  rintro rfl
  exact absurd h.lower (by decide)

lemma ShortChar.ne_blank (h : ShortChar c) : c ≠ 0x20 := by
  rintro rfl
  exact absurd h.lower (by decide)

lemma kToupper_getD {l : List UCHAR} (h : ∀ c ∈ l, ShortChar c) (k : ℕ) :
    kToupper (l.getD k 0x20) = l.getD k 0x20 := by
  by_cases hk : k < l.length
  · rw [List.getD_eq_getElem _ _ hk]
    exact (h _ (List.getElem_mem hk)).kToupper
  · rw [List.getD_eq_default _ _ (by omega)]
    rfl

lemma Name83.parted (n : Name83) : Parted n.text n.base n.extension := by
  rw [Name83.text]
  split_ifs with hext
  · rw [hext]
    exact .plain fun h => (n.base_chars _ h).notDot rfl
  · exact .dotted fun h => (n.extension_chars _ h).notDot rfl

/-- What `FatWrite83FileName` writes. -/
lemma Name83.padded_write (n : Name83) (old : Slot) : n.Padded (fatWrite83FileName n.text old) := by
  refine ⟨fun k hk => ?_, fun k hk => ?_⟩
  · rw [fatWrite83FileName, if_pos (show k < 11 by omega), name83_parted n.parted, if_pos hk,
      shortened_of_le n.base_le, kToupper_getD n.base_chars]
  · rw [fatWrite83FileName, if_pos (show 8 + k < 11 by omega), name83_parted n.parted,
      if_neg (show ¬ 8 + k < 8 by omega), Nat.add_sub_cancel_left, kToupper_getD n.extension_chars]

/-- The bytes of a slot are those of its name. -/
lemma Name83.Padded.eq_write (h : n.Padded s) (buffer : Slot) {j : Fin 32} (hj : j.val < 11) :
    fatWrite83FileName n.text buffer j = s j := by
  have hwrite := n.padded_write buffer
  by_cases hj8 : j.val < 8
  · exact (hwrite.base j.val hj8).trans (h.base j.val hj8).symm
  · have hplace : j = ⟨8 + (j.val - 8), by omega⟩ := Fin.ext (by simp only; omega)
    rw [hplace]
    exact (hwrite.extension _ (by omega)).trans (h.extension _ (by omega)).symm

end Parts

section Reading
variable {b : Buffer} {t : List UCHAR} {n : Name83} {s : Slot}

lemma holdsString_ended {m : ℕ} (hle : t.length ≤ m) (hb : ∀ k < m, b k = t.getD k 0x20) :
    HoldsString (Function.update b t.length 0) t := by
  refine ⟨fun i hi => ?_, Function.update_self _ _ _⟩
  rw [Function.update_of_ne hi.ne, hb i (by omega), List.getD_eq_getElem _ _ hi, List.getD_eq_getElem _ _ hi]

lemma Name83.Padded.stem_eq (h : n.Padded s) (junk : Buffer) : stem junk s =
    Function.update (Function.update
      (fun k => if h : k < 11 then s ⟨k, nameByte_lt h⟩ else if k = 11 then 0 else junk k) 8 0) n.base.length 0 := by
  refine utilTrimSpaces_padded n.base_le (fun c hc => (n.base_chars c hc).ne_blank) (fun k hk => ?_)
    (Function.update_self _ _ _)
  rw [Function.update_of_ne hk.ne, dif_pos (by omega), h.base k hk]

lemma Name83.Padded.extension_eq (h : n.Padded s) : Fat32.extension s =
    Function.update (fun k => if h : k < 3 then s ⟨8+k, extensionByte_lt h⟩ else 0) n.extension.length 0 := by
  refine utilTrimSpaces_padded n.extension_le (fun c hc => (n.extension_chars c hc).ne_blank) (fun k hk => ?_)
    (dif_neg (by decide))
  rw [dif_pos hk, h.extension k hk]

lemma Name83.Padded.stem_holds (h : n.Padded s) (junk : Buffer) : HoldsString (stem junk s) n.base := by
  rw [h.stem_eq]
  refine holdsString_ended n.base_le fun k hk => ?_
  rw [Function.update_of_ne hk.ne, dif_pos (by omega), h.base k hk]

lemma Name83.Padded.extension_holds (h : n.Padded s) : HoldsString (Fat32.extension s) n.extension := by
  rw [h.extension_eq]
  refine holdsString_ended n.extension_le fun k hk => ?_
  rw [dif_pos hk, h.extension k hk]

lemma Name83.Padded.stem_beyond (h : n.Padded s) (junk : Buffer) {k : ℕ} (hk : 13 ≤ k) : stem junk s k = junk k := by
  have hbase := n.base_le
  rw [h.stem_eq, Function.update_of_ne (by omega), Function.update_of_ne (by omega), dif_neg (by omega),
    if_neg (by omega)]

/-- The dot is put over the NUL behind the base, and the extension with its NUL behind the dot. -/
lemma holdsString_spliced {b' : Buffer} {t' : List UCHAR} (hb : HoldsString b t) (hb' : HoldsString b' t') {m : ℕ}
    (hm : t'.length ≤ m) : HoldsString (fun k => if k = t.length then 0x2E
      else if t.length < k ∧ k < t.length + (m+2) then b' (k - (t.length + 1)) else b k) (t ++ 0x2E :: t') := by
  have hlength : (t ++ 0x2E :: t').length = t.length + 1 + t'.length := by
    rw [List.length_append, List.length_cons]
    omega
  refine ⟨fun i hi => ?_, ?_⟩
  · rw [hlength] at hi
    rcases lt_trichotomy i t.length with hlt | heq | hgt
    · rw [if_neg hlt.ne, if_neg (by omega), hb.chars i hlt, List.getD_append _ _ _ _ hlt]
    · rw [if_pos heq, heq, List.getD_append_right _ _ _ _ le_rfl, Nat.sub_self]
      rfl
    · obtain ⟨j, rfl⟩ : ∃ j, i = t.length + (j+1) := ⟨i - t.length - 1, by omega⟩
      have hplace : t.length + (j+1) - (t.length + 1) = j := by omega
      rw [if_neg hgt.ne', if_pos ⟨hgt, by omega⟩, hplace, hb'.chars j (by omega),
        List.getD_append_right _ _ _ _ (by omega), Nat.add_sub_cancel_left, List.getD_cons_succ]
  · have hplace : t.length + 1 + t'.length - (t.length + 1) = t'.length := by omega
    rw [hlength, if_neg (by omega), if_pos (by omega), hplace]
    exact hb'.nul

lemma Name83.noNul_text (n : Name83) : NoNul n.text := by
  intro c hc
  rw [Name83.text] at hc
  split_ifs at hc
  · exact (n.base_chars c hc).ne_nul
  · rw [List.mem_append, List.mem_cons] at hc
    rcases hc with hbase | rfl | hext
    · exact (n.base_chars c hbase).ne_nul
    · decide
    · exact (n.extension_chars c hext).ne_nul

lemma Name83.length_text (n : Name83) : n.text.length < 13 := by
  have hbase := n.base_le
  have hext := n.extension_le
  rw [Name83.text]
  split_ifs
  · omega
  · rw [List.length_append, List.length_cons]
    omega

lemma Name83.Padded.shortName_holds (h : n.Padded s) (junk : Buffer) : HoldsString (shortName junk s) n.text ∧
    ∀ k, 13 ≤ k → shortName junk s k = junk k := by
  have hbase : strlen (stem junk s) 8 = n.base.length :=
    strlen_eq (h.stem_holds junk) (fun c hc => (n.base_chars c hc).ne_nul) n.base_le
  have hext : strlen (Fat32.extension s) 3 = n.extension.length :=
    strlen_eq h.extension_holds (fun c hc => (n.extension_chars c hc).ne_nul) n.extension_le
  rw [shortName_eq, hbase, hext, Name83.text]
  by_cases hnil : n.extension = []
  · rw [if_neg (by simp [hnil]), if_pos hnil]
    exact ⟨h.stem_holds junk, fun k hk => h.stem_beyond junk hk⟩
  · rw [if_pos (List.length_pos_iff.mpr hnil), if_neg hnil]
    refine ⟨holdsString_spliced (h.stem_holds junk) h.extension_holds n.extension_le, fun k hk => ?_⟩
    have hle := n.base_le
    rw [if_neg (by omega), if_neg (by omega), h.stem_beyond junk hk]

/-- The slots are read as an entry with the name, which ends inside the 13 bytes of its buffer, and behind these
nothing is stored. -/
structure ReadAs (junk : Buffer) (start next : List Slot) (name : List UCHAR) : Prop where
  read : ∃ e, fatReadDirectoryEntry junk start = some (e, next) ∧ HoldsString e.name name ∧
    ∀ k, 13 ≤ k → e.name k = junk k
  noNul : NoNul name
  inside : name.length < 13

lemma Name83.Padded.live (h : n.Padded s) : ¬ s.Free := by
  have hfirst : ShortChar (s 0) := by
    have hbyte := h.base 0 (by decide)
    rw [List.getD_eq_getElem _ _ n.pos] at hbyte
    exact hbyte ▸ n.base_chars _ (List.getElem_mem n.pos)
  rintro (hzero | hdeleted)
  · exact hfirst.ne_nul hzero
  · exact absurd hfirst.upper (by rw [hdeleted]; decide)

/-- A slot that is not one for a long name is read by its own eleven bytes. -/
lemma Name83.Padded.readAs (h : n.Padded s) (hshort : s 11 ≠ LFN) (junk : Buffer) (rest : List Slot) :
    ReadAs junk (s :: rest) rest n.text := by
  have hcount : lfnCount (s :: rest) = some 0 := if_neg hshort
  refine ⟨?_, n.noNul_text, n.length_text⟩
  rw [fatReadDirectoryEntry, if_neg h.live, hcount]
  exact ⟨_, rfl, h.shortName_holds junk⟩

/-- The name that is written is read back, and the bytes that are read are written again. -/
theorem name83_roundTrips (n : Name83) (junk : Buffer) (rest : List Slot) :
    (∀ old : Slot, old 11 ≠ LFN → ReadAs junk (fatWrite83FileName n.text old :: rest) rest n.text) ∧
    ∀ s : Slot, n.Padded s → s 11 ≠ LFN → ∃ name, ReadAs junk (s :: rest) rest name ∧
      ∀ buffer (j : Fin 32), j.val < 11 → fatWrite83FileName name buffer j = s j := by
  refine ⟨fun old hshort => ?_, fun s h hshort => ?_⟩
  · refine (n.padded_write old).readAs ?_ junk rest
    exact hshort
  · exact ⟨n.text, h.readAs hshort junk rest, fun buffer j hj => h.eq_write buffer hj⟩

/-- "DOCUMENT.TXT", without room for a blank. -/
def documentTxt : Name83 where
  base := [0x44, 0x4F, 0x43, 0x55, 0x4D, 0x45, 0x4E, 0x54]
  extension := [0x54, 0x58, 0x54]
  pos := by decide
  base_le := by decide
  extension_le := by decide
  base_chars := by decide
  extension_chars := by decide

theorem name83_roundTrips_document :
    ReadAs (fun _ => 0) [fatWrite83FileName documentTxt.text zeroSlot] [] documentTxt.text ∧
    ∃ name, ReadAs (fun _ => 0) [fatWrite83FileName documentTxt.text zeroSlot] [] name ∧
      ∀ buffer (j : Fin 32), j.val < 11 →
        fatWrite83FileName name buffer j = fatWrite83FileName documentTxt.text zeroSlot j :=
  ⟨(name83_roundTrips documentTxt (fun _ => 0) []).1 zeroSlot (by decide),
    (name83_roundTrips documentTxt (fun _ => 0) []).2 _ (documentTxt.padded_write zeroSlot) (by decide)⟩

end Reading

end Open98.Fat32
