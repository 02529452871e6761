import Open98.Fat32.Directory
import Open98.Fat32.Names

/-! What a listing says about an entry, whatever memory held before. The buffer of a name is not cleared
when it is allocated; the bytes up to the NUL are those of the slots. -/
namespace Open98.Fat32

section Strings

/-- The string that the first bytes of the buffer start with. -/
def stringIn : ℕ → Buffer → List UCHAR
  | 0, _ => []
  | n+1, b => if b 0 = 0 then [] else b 0 :: stringIn n fun i => b (i+1)

variable {b b' : Buffer} {n : ℕ}

lemma stringIn_congr (h : ∀ i < n, b i = b' i) : stringIn n b = stringIn n b' := by
  induction n generalizing b b' with
  | zero => rfl
  | succ n ih =>
    rw [stringIn, stringIn, h 0 (Nat.zero_lt_succ n), ih fun i hi => h (i+1) (Nat.succ_lt_succ hi)]

lemma noNul_stringIn : NoNul (stringIn n b) := by
  induction n generalizing b with
  | zero => simp [stringIn, NoNul]
  | succ n ih =>
    rw [stringIn]
    by_cases hb : b 0 = 0
    · rw [if_pos hb]
      simp [NoNul]
    · rw [if_neg hb]
      exact List.forall_mem_cons.mpr ⟨hb, ih⟩

/-- Where there is a NUL early enough, the buffer holds the string. -/
lemma holdsString_stringIn (h : ∃ i ≤ n, b i = 0) : HoldsString b (stringIn n b) := by
  induction n generalizing b with
  | zero =>
    obtain ⟨i, hi, hb⟩ := h
    obtain rfl := Nat.eq_zero_of_le_zero hi
    exact ⟨by simp [stringIn], hb⟩
  | succ n ih =>
    rw [stringIn]
    by_cases hb : b 0 = 0
    · rw [if_pos hb]
      exact ⟨by simp, hb⟩
    · rw [if_neg hb]
      obtain ⟨i, hi, hzero⟩ := h
      have hpos : i ≠ 0 := fun h => hb (h ▸ hzero)
      have hrest := ih (b := fun i => b (i+1)) ⟨i-1, by omega, by rwa [Nat.sub_add_cancel (by omega)]⟩
      refine ⟨fun k hk => ?_, hrest.nul⟩
      cases k with
      | zero => rfl
      | succ k => exact hrest.chars k (Nat.lt_of_succ_lt_succ hk)

end Strings

section ShortNames
variable {b b' : Buffer} {left i k n : ℕ}

/-- Trimming puts no other byte than NULs. -/
lemma trimFrom_nul (h : b k = 0) : trimFrom b left i k = 0 := by
  induction left generalizing i with
  | zero =>
    rw [trimFrom]
    by_cases hi : b i = 0x20
    · rw [if_pos hi, Function.update_apply, h, ite_self]
    · rwa [if_neg hi]
  | succ left ih =>
    rw [trimFrom]
    by_cases hi : b i = 0x20
    · rw [if_pos hi, Function.update_apply, h, ite_self]
    · rw [if_neg hi]
      exact ih

/-- Trimming looks at the first bytes and leaves the rest alone. -/
lemma trimFrom_congr (hlook : i + left < n) (h : ∀ k < n, b k = b' k) (hk : k < n) :
    trimFrom b left i k = trimFrom b' left i k := by
  induction left generalizing i with
  | zero =>
    rw [trimFrom, trimFrom, h i hlook]
    by_cases hi : b' i = 0x20
    · simp only [if_pos hi, Function.update_apply, h k hk]
    · rw [if_neg hi, if_neg hi, h k hk]
  | succ left ih =>
    rw [trimFrom, trimFrom, h i (by omega)]
    by_cases hi : b' i = 0x20
    · simp only [if_pos hi, Function.update_apply, h k hk]
    · rw [if_neg hi, if_neg hi]
      exact ih (by omega)

lemma strlen_le (b : Buffer) (n : ℕ) : strlen b n ≤ n := by
  induction n generalizing b with
  | zero => exact le_rfl
  | succ n ih =>
    rw [strlen]
    by_cases hb : b 0 = 0
    · rw [if_pos hb]
      exact Nat.zero_le _
    · rw [if_neg hb]
      exact Nat.succ_le_succ (ih _)

lemma strlen_congr (h : ∀ k < n, b k = b' k) : strlen b n = strlen b' n := by
  induction n generalizing b b' with
  | zero => rfl
  | succ n ih =>
    rw [strlen, strlen, h 0 (Nat.zero_lt_succ n), ih fun k hk => h (k+1) (Nat.succ_lt_succ hk)]

/-- The part of a short name before the dot, blanks cut off. -/
def stem (junk : Buffer) (entry : Slot) : Buffer :=
  utilTrimSpaces (Function.update
    (fun k => if h : k < 11 then entry ⟨k, nameByte_lt h⟩ else if k = 11 then 0 else junk k) 8 0) 8

/-- The part behind the dot, blanks cut off. -/
def extension (entry : Slot) : Buffer :=
  utilTrimSpaces (fun k => if h : k < 3 then entry ⟨8+k, extensionByte_lt h⟩ else 0) 3

lemma shortName_eq (junk : Buffer) (entry : Slot) : shortName junk entry =
    if strlen (extension entry) 3 > 0 then
      fun k => if k = strlen (stem junk entry) 8 then 0x2E
        else if strlen (stem junk entry) 8 < k ∧ k < strlen (stem junk entry) 8 + 5 then
          extension entry (k - (strlen (stem junk entry) 8 + 1))
        else stem junk entry k
    else stem junk entry := by
  have hext : (fun k => if k < 3 then
      (fun k => if h : k < 11 then entry ⟨k, nameByte_lt h⟩ else if k = 11 then 0 else junk k) (8+k) else (0 : UCHAR)) =
      fun k => if h : k < 3 then entry ⟨8+k, extensionByte_lt h⟩ else 0 := by
    funext k
    by_cases hk : k < 3
    · rw [if_pos hk, dif_pos hk]
      exact dif_pos (by omega)
    · rw [if_neg hk, dif_neg hk]
  rw [shortName]
  dsimp only
  rw [hext]
  rfl

variable (junk junk' : Buffer) (entry : Slot)

lemma stem_congr (hk : k < 12) : stem junk entry k = stem junk' entry k := by
  refine trimFrom_congr (by omega) (fun k hk => ?_) hk
  by_cases h8 : k = 8
  · rw [h8, Function.update_self, Function.update_self]
  · rw [Function.update_of_ne h8, Function.update_of_ne h8]
    by_cases h11 : k < 11
    · rw [dif_pos h11, dif_pos h11]
    · rw [dif_neg h11, dif_neg h11, if_pos (by omega), if_pos (by omega)]

lemma strlen_stem : strlen (stem junk entry) 8 = strlen (stem junk' entry) 8 :=
  strlen_congr fun _ hk => stem_congr junk junk' entry (by omega)

lemma stem_nul : stem junk entry 8 = 0 := trimFrom_nul (Function.update_self ..)

lemma extension_nul : extension entry 3 = 0 := trimFrom_nul (dif_neg (by decide))

/-- The bytes of a short name do not depend on what memory held, and there is a NUL behind them. -/
lemma shortName_holds : HoldsString (shortName junk entry) (stringIn 12 (shortName (fun _ => 0) entry)) := by
  have hsame : ∀ k < 12, shortName junk entry k = shortName (fun _ => 0) entry k := by
    intro k hk
    rw [shortName_eq, shortName_eq, strlen_stem junk fun _ => 0]
    by_cases hext : strlen (extension entry) 3 > 0
    · simp only [if_pos hext, stem_congr junk (fun _ => 0) entry hk]
    · simp only [if_neg hext, stem_congr junk (fun _ => 0) entry hk]
  rw [← stringIn_congr hsame]
  apply holdsString_stringIn
  rw [shortName_eq]
  by_cases hext : strlen (extension entry) 3 > 0
  · have hlen := strlen_le (stem junk entry) 8
    refine ⟨strlen (stem junk entry) 8 + 4, by omega, ?_⟩
    rw [if_pos hext, if_neg (by omega), if_pos (by omega)]
    have hindex : strlen (stem junk entry) 8 + 4 - (strlen (stem junk entry) 8 + 1) = 3 := by omega
    rw [hindex, extension_nul]
  · refine ⟨8, by decide, ?_⟩
    rw [if_neg hext, stem_nul]

end ShortNames

section LongNames

/-- The slots of a long name: their entry numbers count down to 1, and there is a NUL among the
characters. -/
structure LongName (longs : List Slot) : Prop where
  few : longs.length ≤ 15
  number : ∀ t (ht : t < longs.length), (longs[t] 0).toNat % 64 = longs.length - t
  nul : ∃ s ∈ longs, 0 ∈ longNameChars s

/-- The characters of the slots, in the order of the name. -/
def characters (longs : List Slot) : List UCHAR := longs.reverse.flatMap longNameChars

variable {longs : List Slot}

@[simp] lemma length_longNameChars (s : Slot) : (longNameChars s).length = 13 := by
  simp [longNameChars, nameOffsets]

lemma length_characters : (characters longs).length = 13 * longs.length := by
  simp [characters, List.length_flatMap, Nat.mul_comm]

/-- Thirteen characters come from each slot. -/
lemma characters_getD {t q : ℕ} (ht : t < longs.length) (hq : q < 13) :
    (characters longs).getD (13 * (longs.length - 1 - t) + q) 0 = (longNameChars longs[t]).getD q 0 := by
  induction longs using List.reverseRecOn generalizing t with
  | nil => exact absurd ht (Nat.not_lt_zero t)
  | append_singleton l s ih =>
    have hsplit : characters (l ++ [s]) = longNameChars s ++ characters l := by
      simp [characters]
    rw [List.length_append, List.length_singleton] at ht ⊢
    rw [hsplit]
    by_cases htl : t = l.length
    · subst htl
      rw [Nat.add_sub_cancel, Nat.sub_self, Nat.mul_zero, Nat.zero_add,
        List.getD_append _ _ _ _ (by simpa using hq)]
      simp
    · have hlt : t < l.length := by omega
      rw [List.getD_append_right _ _ _ _ (by rw [length_longNameChars]; omega), length_longNameChars,
        List.getElem_append_left hlt, ← ih hlt]
      congr 1
      omega

/-- Each slot carries its piece of the characters. -/
lemma LongName.slotOf (h : LongName longs) (hlong : ∀ s ∈ longs, s.Long) (t : ℕ) (ht : t < longs.length) :
    LongSlotOf (characters longs) longs[t] (longs.length - 1 - t) := by
  have hmem := List.getElem_mem ht
  have hnumber := h.number t ht
  have hfew := h.few
  refine ⟨(hlong _ hmem).2, (hlong _ hmem).1, by omega, ?_⟩
  refine List.ext_getElem (by simp) fun q hq _ => ?_
  rw [length_longNameChars] at hq
  rw [List.getElem_map, List.getElem_range, characters_getD ht hq, List.getD_eq_getElem _ _ (by simpa using hq)]

lemma LongName.exists_nul (h : LongName longs) : ∃ p < 13 * longs.length, (characters longs).getD p 0 = 0 := by
  obtain ⟨s, hs, hzero⟩ := h.nul
  have hmem : (0 : UCHAR) ∈ characters longs := List.mem_flatMap.mpr ⟨s, List.mem_reverse.mpr hs, hzero⟩
  obtain ⟨p, hp, heq⟩ := List.mem_iff_getElem.mp hmem
  refine ⟨p, by rwa [length_characters] at hp, ?_⟩
  rw [List.getD_eq_getElem _ _ hp, heq]

lemma LongName.holds (h : LongName longs) (hlong : ∀ s ∈ longs, s.Long) (junk : Buffer) :
    HoldsString (fatParseLongName junk longs longs.length)
      (stringIn (13 * longs.length) (fatParseLongName (fun _ => 0) longs longs.length)) := by
  have hbyte : ∀ junk p, p < 13 * longs.length →
      fatParseLongName junk longs longs.length p = (characters longs).getD p 0 := by
    intro junk p hp
    have hread := fatParseLongName_byte junk (h.slotOf hlong) h.few [] hp
    rwa [List.append_nil] at hread
  have hsame : ∀ p < 13 * longs.length, fatParseLongName junk longs longs.length p =
      fatParseLongName (fun _ => 0) longs longs.length p :=
    fun p hp => (hbyte junk p hp).trans (hbyte _ p hp).symm
  rw [← stringIn_congr hsame]
  apply holdsString_stringIn
  obtain ⟨p, hp, hzero⟩ := h.exists_nul
  exact ⟨p, hp.le, (hbyte junk p hp).trans hzero⟩

end LongNames

section Labels

/-- What a listing says about an entry. -/
structure Label where
  name : List UCHAR
  attrs : UCHAR
  firstCluster : ℕ
  fileSize : ℕ

/-- The name of a set, as it is read. -/
def EntrySet.name (e : EntrySet) : List UCHAR :=
  stringIn (if 0 < e.longs.length then 13 * e.longs.length else 12) (e.dirent fun _ => 0).name

def EntrySet.label (e : EntrySet) : Label :=
  ⟨e.name, e.short 11, e.short.fields.2.1, e.short.fields.2.2⟩

/-- The listed entry is the one that the label describes. -/
structure DirectoryEntry.Shows (d : DirectoryEntry) (x : Label) : Prop where
  name : HoldsString d.name x.name
  noNul : NoNul x.name
  fields : d.fields = (x.attrs, x.firstCluster, x.fileSize)

/-- The long-name slots of the set, if it has any, spell a name. -/
def EntrySet.WellNamed (e : EntrySet) : Prop := e.longs ≠ [] → LongName e.longs

variable {e : EntrySet}

/-- Whatever memory holds, the set is listed under its label. -/
lemma EntrySet.shows (h : e.WellNamed) (junk : Buffer) : (e.dirent junk).Shows e.label := by
  refine ⟨?_, noNul_stringIn, rfl⟩
  change HoldsString (e.dirent junk).name e.name
  rw [EntrySet.name, EntrySet.dirent, EntrySet.dirent]
  by_cases hlong : 0 < e.longs.length
  · simp only [if_pos hlong]
    exact (h (List.ne_nil_of_length_pos hlong)).holds e.long junk
  · simp only [if_neg hlong]
    exact shortName_holds junk e.short

/-- The comparison of names finds the set by the name of its label. -/
lemma DirectoryEntry.Shows.strcmpEq_iff {d : DirectoryEntry} {x : Label} (h : d.Shows x) {s : List UCHAR}
    (hs : NoNul s) : strcmpEq d.name s = true ↔ x.name = s :=
  Fat32.strcmpEq_iff h.name h.noNul hs

end Labels
end Open98.Fat32
