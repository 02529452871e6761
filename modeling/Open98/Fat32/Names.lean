import Mathlib.Tactic.IntervalCases
import Open98.Fat32.Entry

/-! The codec of names: what `FatReadDirectoryEntry` makes of the slots that
`FatWriteFileImplementation` fills. -/
namespace Open98.Fat32

/-- A character that the long-name reader takes over. -/
def Printable (c : UCHAR) : Prop := 32 ≤ c.toNat ∧ c.toNat ≤ 126

instance (c : UCHAR) : Decidable (Printable c) := inferInstanceAs (Decidable (_ ∧ _))

/-- The names in question: 1 to 194 printable characters, so that at most fifteen slots are
needed, and not a multiple of 13, so that a NUL fits behind them. -/
structure ValidName (fname : List UCHAR) : Prop where
  printable : ∀ c ∈ fname, Printable c
  pos : 0 < fname.length
  le : fname.length ≤ 194
  short : fname.length % 13 ≠ 0

lemma ValidName.noNul {fname : List UCHAR} (h : ValidName fname) : NoNul fname := by
  intro c hc hzero
  have := (h.printable c hc).1
  rw [hzero] at this
  exact absurd this (by decide)

/-- `required_entries_long_fname`. -/
def longEntries (fname : List UCHAR) : ℕ :=
  fname.length / 13 + if 0 < fname.length % 13 then 1 else 0

lemma ValidName.longEntries_bounds {fname : List UCHAR} (h : ValidName fname) :
    0 < longEntries fname ∧ longEntries fname ≤ 15 ∧ fname.length < 13 * longEntries fname := by
  have := h.le
  have hpos : 0 < fname.length % 13 := Nat.pos_of_ne_zero h.short
  unfold longEntries
  rw [if_pos hpos]
  omega

/-- A cluster has room for the slots of such a name. -/
lemma ValidName.slots_le {fname : List UCHAR} (h : ValidName fname) (g : Geometry) :
    longEntries fname + 1 ≤ g.dirsPerCluster := by
  have hle := h.longEntries_bounds.2.1
  have hpos := g.sectorsPerCluster_pos
  rw [g.dirsPerCluster_eq]
  omega

section Stores
variable {b : Buffer} {p : ℕ} {x : UCHAR}

/-- After a sequence of stores a byte holds a value if every store to it stores that value and it
held the value before or is stored to. -/
lemma foldl_stores_eq (writes : List (ℤ × UCHAR)) (hall : ∀ w ∈ writes, w.1 = p → w.2 = x)
    (hsome : b p = x ∨ ∃ w ∈ writes, w.1 = p) :
    writes.foldl (fun name w => if 0 ≤ w.1 then Function.update name w.1.toNat w.2 else name) b p =
      x := by
  induction writes generalizing b with
  | nil => simpa using hsome
  | cons w writes ih =>
    refine ih (fun u hu => hall u (List.mem_cons_of_mem _ hu)) ?_
    by_cases hw : w.1 = p
    · left
      have hx := hall w (by simp) hw
      simp [hw, hx]
    · rcases hsome with hb | ⟨u, hu, hup⟩
      · left
        dsimp only
        split_ifs with hpos
        · rw [Function.update_of_ne (by omega)]
          exact hb
        · exact hb
      · rcases List.mem_cons.mp hu with rfl | hu
        · exact absurd hup hw
        · exact .inr ⟨u, hu, hup⟩

end Stores

section LongSlots

/-- The slot carries the characters of the name from `13 * i` on, as entry number `i + 1`. -/
structure LongSlotOf (fname : List UCHAR) (s : Slot) (i : ℕ) : Prop where
  attr : s 11 = LFN
  live : ¬ s.Free
  number : (s 0).toNat % 16 = i + 1
  chars : longNameChars s = (List.range 13).map fun q => fname.getD (13*i + q) 0

lemma getD_printable {fname : List UCHAR} (h : ∀ c ∈ fname, Printable c) (k : ℕ) :
    (if 32 ≤ (fname.getD k 0).toNat ∧ (fname.getD k 0).toNat ≤ 127 then fname.getD k 0 else 0) =
      fname.getD k 0 := by
  by_cases hk : k < fname.length
  · have hmem : fname.getD k 0 ∈ fname := by
      rw [List.getD_eq_getElem _ _ hk]
      exact List.getElem_mem hk
    obtain ⟨hlow, hhigh⟩ := h _ hmem
    rw [if_pos ⟨hlow, by omega⟩]
  · rw [List.getD_eq_default _ _ (by omega)]
    rfl

/-- The character stored at each of the thirteen places is the one read from there. -/
lemma longNameChars_poke (old : Slot) (number checksum : UCHAR) (f : ℕ → UCHAR) :
    longNameChars (old.poke ([(0, number), (13, checksum)] ++
        nameOffsets.zipIdx.map (fun (j, q) => (j, f q)) ++ [(11, LFN)])) =
      (List.range 13).map fun q => if 32 ≤ (f q).toNat ∧ (f q).toNat ≤ 127 then f q else 0 := by
  simp [longNameChars, Slot.poke, nameOffsets, Function.update_apply, List.range_succ]

lemma longNameSlot_zero (old : Slot) (i : ℕ) (checksum : UCHAR) (fname : List UCHAR) :
    longNameSlot old i checksum fname 0 = BitVec.ofNat 8 (i+1) := by
  simp [longNameSlot, Slot.poke, nameOffsets]

lemma longNameSlot_of {fname : List UCHAR} (h : ∀ c ∈ fname, Printable c) (old : Slot) {i : ℕ}
    (hi : i < 15) (checksum : UCHAR) : LongSlotOf fname (longNameSlot old i checksum fname) i := by
  refine ⟨by simp [longNameSlot, Slot.poke], ?_, ?_, ?_⟩
  · rw [Slot.Free, longNameSlot_zero]
    interval_cases i <;> decide
  · rw [longNameSlot_zero]
    interval_cases i <;> decide
  · refine (longNameChars_poke old _ checksum fun q => fname.getD (13*i + q) 0).trans ?_
    exact List.map_congr_left fun q _ => getD_printable h (13*i + q)

/-- The mark on the last entry number changes nothing that the reader looks at. -/
lemma LongSlotOf.mark {fname : List UCHAR} {s : Slot} {i : ℕ} (hi : i < 15)
    (hs : s 0 = BitVec.ofNat 8 (i+1)) (h : LongSlotOf fname s i) :
    LongSlotOf fname (Function.update s 0 (s 0 ||| 0x40)) i := by
  refine ⟨by simpa using h.attr, ?_, ?_, ?_⟩
  · rw [Slot.Free, Function.update_self, hs]
    interval_cases i <;> decide
  · rw [Function.update_self, hs]
    interval_cases i <;> decide
  · rw [← h.chars]
    simp [longNameChars, nameOffsets, Function.update_apply]

/-- The slots that `FatWriteLongFileNameEntries` leaves, for a name that needs `n` of them: the
first carries the end of the name. -/
theorem fatWriteLongFileNameEntries_ok {fname : List UCHAR} (h : ∀ c ∈ fname, Printable c)
    (start : List Slot) (hpos : 0 < start.length) (hle : start.length ≤ 15) :
    ∃ longs, fatWriteLongFileNameEntries start fname = .ok longs ∧ longs.length = start.length ∧
      ∀ t (ht : t < longs.length), LongSlotOf fname longs[t] (longs.length - 1 - t) := by
  cases start with
  | nil => simp at hpos
  | cons s rest =>
    simp only [fatWriteLongFileNameEntries, List.mapIdx_cons]
    refine ⟨_, rfl, by simp, fun t ht => ?_⟩
    simp only [List.length_cons, List.length_mapIdx] at ht hle ⊢
    cases t with
    | zero =>
      refine LongSlotOf.mark (by omega) ?_ ?_
      · exact longNameSlot_zero s _ _ fname
      · exact longNameSlot_of h s (by omega) _
    | succ t =>
      simp only [List.getElem_cons_succ, List.getElem_mapIdx]
      exact longNameSlot_of h _ (by omega) _

/-- The stores of the reader for slots that carry the pieces of a name in reverse order. -/
lemma mem_longNameWrites {fname : List UCHAR} {longs : List Slot}
    (h : ∀ t (ht : t < longs.length), LongSlotOf fname longs[t] (longs.length - 1 - t))
    (w : ℤ × UCHAR) : w ∈ longNameWrites longs ↔
      ∃ k < 13 * longs.length, w = ((k : ℤ), fname.getD k 0) := by
  have hchars : ∀ i c q, (c, q) ∈ (((List.range 13).map fun q => fname.getD (13*i + q) 0).zipIdx) ↔
      q < 13 ∧ c = fname.getD (13*i + q) 0 := by
    intro i c q
    rw [List.mem_zipIdx_iff_getElem?, List.getElem?_map]
    by_cases hq : q < 13
    · simp [hq, eq_comm]
    · simp [hq]
  simp only [longNameWrites, List.mem_flatMap, List.mem_map, Prod.exists]
  constructor
  · intro ⟨s, hmem, c, q, hcq, hw⟩
    obtain ⟨t, ht, rfl⟩ := List.mem_iff_getElem.mp hmem
    have hs := h t ht
    rw [hs.chars, hchars] at hcq
    refine ⟨13 * (longs.length - 1 - t) + q, by omega, ?_⟩
    rw [← hw, hs.number, hcq.2]
    congr 1
    push_cast
    omega
  · intro ⟨k, hk, hw⟩
    have ht : longs.length - 1 - k/13 < longs.length := by omega
    have hs := h _ ht
    have hindex : longs.length - 1 - (longs.length - 1 - k/13) = k/13 := by omega
    rw [hindex] at hs
    refine ⟨_, List.getElem_mem ht, fname.getD k 0, k % 13, ?_, ?_⟩
    · rw [hs.chars, hchars, Nat.div_add_mod]
      exact ⟨Nat.mod_lt _ (by decide), rfl⟩
    · rw [hw, hs.number]
      congr 1
      push_cast
      omega

/-- The bytes that the reader stores. -/
lemma fatParseLongName_byte {fname : List UCHAR} {longs : List Slot} (junk : Buffer)
    (h : ∀ t (ht : t < longs.length), LongSlotOf fname longs[t] (longs.length - 1 - t))
    (hle : longs.length ≤ 15) (rest : List Slot) {p : ℕ} (hp : p < 13 * longs.length) :
    fatParseLongName junk (longs ++ rest) longs.length p = fname.getD p 0 := by
  have htake : (longs ++ rest).take (longs.length % 256) = longs := by
    rw [Nat.mod_eq_of_lt (by omega), List.take_left]
  rw [fatParseLongName, htake]
  refine foldl_stores_eq _ (fun w hw hwp => ?_) (.inr ⟨_, (mem_longNameWrites h _).mpr ⟨p, hp, rfl⟩, rfl⟩)
  obtain ⟨k, -, rfl⟩ := (mem_longNameWrites h w).mp hw
  have hkp : k = p := by simpa using hwp
  rw [hkp]

/-- The reader gets back the name that was written, up to and including the NUL behind it. -/
theorem fatParseLongName_holds {fname : List UCHAR} {longs : List Slot} (junk : Buffer)
    (h : ∀ t (ht : t < longs.length), LongSlotOf fname longs[t] (longs.length - 1 - t))
    (hle : longs.length ≤ 15) (hlen : fname.length < 13 * longs.length) (rest : List Slot) :
    HoldsString (fatParseLongName junk (longs ++ rest) longs.length) fname := by
  refine ⟨fun i hi => fatParseLongName_byte junk h hle rest (by omega), ?_⟩
  rw [fatParseLongName_byte junk h hle rest hlen, List.getD_eq_default _ _ le_rfl]

end LongSlots

section ShortSlot

lemma kToupper_printable {c : UCHAR} (h : Printable c) : Printable (kToupper c) := by
  unfold Printable kToupper at *
  split_ifs with hc
  · rw [BitVec.toNat_sub_of_le (by rw [BitVec.le_def]; exact h.1)]
    have h32 : (32 : UCHAR).toNat = 32 := rfl
    omega
  · exact h

lemma Printable.ne {c : UCHAR} (h : Printable c) : c ≠ 0x00 ∧ c ≠ 0xE5 := by
  refine ⟨fun hc => ?_, fun hc => ?_⟩ <;> subst hc <;> exact absurd h (by decide)

/-- The short name starts with a character of the name or a blank. -/
lemma name83_live {fname : List UCHAR} (h : ∀ c ∈ fname, Printable c) (hpos : 0 < fname.length) :
    Printable (name83 fname 0) := by
  have hfirst : Printable (kToupper (fname.getD 0 0)) := by
    apply kToupper_printable
    rw [List.getD_eq_getElem _ _ hpos]
    exact h _ (List.getElem_mem hpos)
  rw [name83, if_pos (by decide)]
  split_ifs with hlong hfront
  · exact hfirst
  · exact absurd (by decide) hfront
  · exact absurd (by decide) hfront
  · exact hfirst
  · decide

/-- The short slot of a new entry, over the slot that was there. -/
def shortSlot (fname : List UCHAR) (attrs : UCHAR) (firstcluster flen : ℕ) (old : Slot) : Slot :=
  fillEntry (fatWrite83FileName fname old) attrs firstcluster flen

variable {fname : List UCHAR} {attrs : UCHAR} {firstcluster flen : ℕ} {old : Slot}

@[simp] lemma shortSlot_attrs : shortSlot fname attrs firstcluster flen old 11 = attrs := by
  simp [shortSlot, fillEntry, Slot.poke]

lemma shortSlot_live (h : ∀ c ∈ fname, Printable c) (hpos : 0 < fname.length) :
    ¬ (shortSlot fname attrs firstcluster flen old).Free := by
  have hzero : shortSlot fname attrs firstcluster flen old 0 = name83 fname 0 := by
    simp [shortSlot, fillEntry, Slot.poke, fatWrite83FileName]
  rw [Slot.Free, hzero, not_or]
  exact (name83_live h hpos).ne

lemma shortSlot_firstCluster (hlt : firstcluster < 2^32) :
    utilReadInteger16 (shortSlot fname attrs firstcluster flen old) 20 * 2^16 +
      utilReadInteger16 (shortSlot fname attrs firstcluster flen old) 26 = firstcluster := by
  simp [utilReadInteger16, shortSlot, fillEntry, Slot.poke]
  omega

lemma shortSlot_fileSize (hlt : flen < 2^32) :
    utilReadInteger32 (shortSlot fname attrs firstcluster flen old) 28 = flen := by
  simp [utilReadInteger32, shortSlot, fillEntry, Slot.poke]
  omega

end ShortSlot

end Open98.Fat32
