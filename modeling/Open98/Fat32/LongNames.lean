import Open98.Fat32.DirectoryWalks

/-! Where `FatParseLongName` stores the characters of the long-name slots that it is given. -/
namespace Open98.Fat32

section Parsing

/-- `FatReadDirectoryEntry` calls `FatParseLongName` with so many slots. -/
structure ParsesLongName (start : List Slot) (count : ℕ) : Prop where
  live : ∀ s ∈ start.head?, ¬ s.Free
  counted : lfnCount start = some count
  pos : 0 < count

/-- Every store goes into the allocated name; the count is a `UCHAR`. -/
def StoresInside (start : List Slot) (count : ℕ) : Prop :=
  ∀ w ∈ longNameWrites (start.take (count % 256)), 0 ≤ w.1 ∧ w.1 < (count % 256 * 13 : ℕ)

/-- The long-name slots in front of a directory entry. -/
def longRun (start : List Slot) : List Slot := start.takeWhile fun s => s 11 = LFN

/-- The entry number of a long-name slot. -/
def Slot.ordinal (s : Slot) : ℕ := (s 0).toNat % 16

/-- The slots that are parsed are numbered from one to their count, in any order and with any repetition. -/
def OrdinalsFit (start : List Slot) : Prop :=
  ∀ s ∈ (longRun start).take ((longRun start).length % 256),
    1 ≤ s.ordinal ∧ s.ordinal ≤ (longRun start).length % 256

variable {start : List Slot} {count : ℕ}

lemma longRun_eq (h : lfnCount start = some count) :
    longRun start = start.take count ∧ (longRun start).length = count := by
  induction start generalizing count with
  | nil => cases h
  | cons s rest ih =>
    rw [lfnCount] at h
    by_cases hs : s 11 = LFN
    · rw [if_pos hs, Option.map_eq_some_iff] at h
      obtain ⟨n, hn, rfl⟩ := h
      obtain ⟨htake, hlength⟩ := ih hn
      have hrun : longRun (s :: rest) = s :: longRun rest := List.takeWhile_cons_of_pos (by simpa using hs)
      rw [hrun, List.take_succ_cons, List.length_cons, htake, ← htake, hlength]
      exact ⟨rfl, rfl⟩
    · rw [if_neg hs, Option.some_inj] at h
      have hrun : longRun (s :: rest) = [] := List.takeWhile_cons_of_neg (by simpa using hs)
      rw [hrun, ← h]
      exact ⟨rfl, rfl⟩

/-- The parsed name is the one of the entry. -/
lemma ParsesLongName.entry (h : ParsesLongName start count) (junk : Buffer) :
    ∃ e next, fatReadDirectoryEntry junk start = some (e, next) ∧ e.name = fatParseLongName junk start count := by
  cases start with
  | nil => cases h.counted
  | cons s rest =>
    have hdrop := List.drop_eq_getElem_cons (lfnCount_lt h.counted)
    have hread : ∃ e next entry, fatReadDirectoryEntry junk (s :: rest) = some (e, next) ∧
        e.name = if 0 < count then fatParseLongName junk (s :: rest) count else shortName junk entry := by
      rw [fatReadDirectoryEntry, if_neg (h.live s rfl), h.counted, Option.bind_some, hdrop]
      exact ⟨_, _, _, rfl, rfl⟩
    obtain ⟨e, next, entry, hread, hname⟩ := hread
    exact ⟨e, next, hread, hname.trans (if_pos h.pos)⟩

/-- The stores for a slot begin at the place that its number gives. -/
lemma mem_longNameWrites_iff {l : List Slot} {w : ℤ × UCHAR} : w ∈ longNameWrites l ↔
    ∃ s ∈ l, ∃ q : ℕ, q < 13 ∧ w = (((s.ordinal : ℤ) - 1) * 13 + q, (longNameChars s).getD q 0) := by
  simp only [longNameWrites, List.mem_flatMap, List.mem_map, Prod.exists]
  refine exists_congr fun s => and_congr_right fun _ => ?_
  have hlength : (longNameChars s).length = 13 := by simp [longNameChars, nameOffsets]
  constructor
  · rintro ⟨c, q, hcq, hw⟩
    rw [List.mem_zipIdx_iff_getElem?, List.getElem?_eq_some_iff] at hcq
    obtain ⟨hq, hc⟩ := hcq
    dsimp only at hq hc
    refine ⟨q, hlength ▸ hq, ?_⟩
    rw [← hw, List.getD_eq_getElem _ _ hq, ← hc]
    rfl
  · rintro ⟨q, hq, hw⟩
    rw [← hlength] at hq
    refine ⟨(longNameChars s)[q], q, ?_, ?_⟩
    · rw [List.mem_zipIdx_iff_getElem?, List.getElem?_eq_getElem hq]
    · rw [hw, List.getD_eq_getElem _ _ hq]
      rfl

/-- The stores of the parser stay inside the name if and only if each number belongs to a slot that is
parsed. -/
theorem storesInside_iff (h : ParsesLongName start count) : StoresInside start count ↔ OrdinalsFit start := by
  obtain ⟨htake, hlength⟩ := longRun_eq h.counted
  have hslots : (longRun start).take ((longRun start).length % 256) = start.take (count % 256) := by
    rw [hlength, htake, List.take_take, Nat.min_eq_left (Nat.mod_le count 256)]
  rw [StoresInside, OrdinalsFit, hslots, hlength]
  constructor
  · intro hstores s hs
    have hfirst := hstores _ (mem_longNameWrites_iff.mpr ⟨s, hs, 0, by decide, rfl⟩)
    dsimp only at hfirst
    omega
  · intro hfit w hw
    obtain ⟨s, hs, q, hq, rfl⟩ := mem_longNameWrites_iff.mp hw
    have hbounds := hfit s hs
    dsimp only
    omega

end Parsing

section Numbered

/-- A long-name slot with a first byte and the short slot behind it. -/
def slotNumbered (number : UCHAR) : List Slot :=
  [Function.update (Function.update (fun _ => 0) 0 number) 11 LFN, fun _ => 0x41]

lemma slotNumbered_parses {number : UCHAR} (h : number ≠ 0x00 ∧ number ≠ 0xE5) :
    ParsesLongName (slotNumbered number) 1 := by
  refine ⟨fun s hs => ?_, rfl, by decide⟩
  obtain rfl := Option.some.inj hs
  exact not_or.mpr h

/-- One slot with the number 1, the last of its name. -/
theorem storesInside_iff_one : StoresInside (slotNumbered 0x41) 1 := by
  refine (storesInside_iff (slotNumbered_parses (by decide))).mpr fun s hs => ?_
  obtain rfl := List.mem_singleton.mp (show s ∈ [(slotNumbered 0x41).head (by simp [slotNumbered])] from hs)
  decide

/-- Numbered 2, it is parsed into the bytes behind the name, and without a number into those before. -/
theorem misnumbered_slot_overruns :
    (ParsesLongName (slotNumbered 0x42) 1 ∧ ¬ StoresInside (slotNumbered 0x42) 1) ∧
      (ParsesLongName (slotNumbered 0x40) 1 ∧ ¬ StoresInside (slotNumbered 0x40) 1) := by
  refine ⟨⟨slotNumbered_parses (by decide), fun h => ?_⟩, ⟨slotNumbered_parses (by decide), fun h => ?_⟩⟩
  · exact absurd (h (13, 0) (by decide)).2 (by decide)
  · exact absurd (h (-13, 0) (by decide)).1 (by decide)

end Numbered

end Open98.Fat32
