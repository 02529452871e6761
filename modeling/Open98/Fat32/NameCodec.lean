import Open98.Fat32.Names

/-! Which long names survive being written into slots and read back. The reader keeps four bits of a
slot's number, and allocates no byte for a NUL behind the thirteen characters of each slot. -/
namespace Open98.Fat32

/-- A file name as a directory can hold it. -/
structure FileName (fname : List UCHAR) : Prop where
  printable : ∀ c ∈ fname, Printable c
  pos : 0 < fname.length
  le : fname.length ≤ 255

/-- The slots written for the name are read back as the name with a NUL behind it, inside the
allocated bytes and whatever they held before, and no byte outside them is stored to. -/
def CodecRoundTrips (start : List Slot) (fname : List UCHAR) : Prop :=
  ∃ longs, fatWriteLongFileNameEntries start fname = .ok longs ∧
    (∀ junk, HoldsString (fatParseLongName junk longs longs.length) fname) ∧
    fname.length < 13 * longs.length ∧
    ∀ w ∈ longNameWrites (longs.take (longs.length % 256)), 0 ≤ w.1 ∧ w.1 < 13 * longs.length

section Numbers
variable {start longs : List Slot} {fname : List UCHAR}

lemma longNameSlot_number (old : Slot) (i : ℕ) (checksum : UCHAR) :
    (longNameSlot old i checksum fname 0).toNat % 16 = (i+1) % 16 := by
  rw [longNameSlot_zero, BitVec.toNat_ofNat]
  omega

lemma number_mark (b : UCHAR) : (b ||| 0x40).toNat % 16 = b.toNat % 16 := by
  revert b
  decide

lemma length_written (h : fatWriteLongFileNameEntries start fname = .ok longs) :
    longs.length = start.length := by
  cases start with
  | nil => cases h
  | cons s rest =>
    simp only [fatWriteLongFileNameEntries, List.mapIdx_cons] at h
    rw [← Except.ok.inj h]
    simp

/-- What the reader sees of the number of a slot: sixteen counts as none. -/
lemma number_written (h : fatWriteLongFileNameEntries start fname = .ok longs) {t : ℕ}
    (ht : t < longs.length) : (longs[t] 0).toNat % 16 = (longs.length - t) % 16 := by
  cases start with
  | nil => cases h
  | cons s rest =>
    simp only [fatWriteLongFileNameEntries, List.mapIdx_cons] at h
    obtain rfl := Except.ok.inj h
    simp only [List.length_cons, List.length_mapIdx] at ht ⊢
    cases t with
    | zero =>
      simp only [List.getElem_cons_zero, Function.update_self, number_mark, longNameSlot_number]
      rfl
    | succ t =>
      simp only [List.getElem_cons_succ, List.getElem_mapIdx, longNameSlot_number]
      congr 1
      omega

/-- The slot that counts as none is stored before the allocated bytes. -/
lemma exists_store_before (h : fatWriteLongFileNameEntries start fname = .ok longs)
    (hmany : 16 ≤ longs.length) (hle : longs.length < 256) :
    ∃ w ∈ longNameWrites (longs.take (longs.length % 256)), w.1 < 0 := by
  have hlt : longs.length - 16 < longs.length := by omega
  have hnumber := number_written h hlt
  rw [Nat.sub_sub_self hmany] at hnumber
  have hmem : longs[longs.length - 16] ∈ longs.take (longs.length % 256) := by
    rw [Nat.mod_eq_of_lt hle, List.take_length]
    exact List.getElem_mem hlt
  have hchar : 0 < (longNameChars longs[longs.length - 16]).length := by
    simp [longNameChars, nameOffsets]
  refine ⟨((((longs[longs.length - 16] 0).toNat % 16 : ℕ) - 1 : ℤ) * 13 + 0,
    (longNameChars longs[longs.length - 16])[0]), ?_, by simp [hnumber]⟩
  refine List.mem_flatMap.mpr ⟨_, hmem, List.mem_map.mpr ⟨(_, 0), ?_, rfl⟩⟩
  rw [List.mem_zipIdx_iff_getElem?, List.getElem?_eq_getElem hchar]

end Numbers

section Codec
variable {fname : List UCHAR}

lemma longEntries_le (hname : FileName fname) : longEntries fname ≤ 20 := by
  have := hname.le
  unfold longEntries
  split_ifs <;> omega

/-- A name that needs at most fifteen slots and does not fill the last one is read back. -/
lemma codecRoundTrips_of_valid (hname : ValidName fname) (start : List Slot)
    (hstart : start.length = longEntries fname) : CodecRoundTrips start fname := by
  obtain ⟨hpos, hle, hlen⟩ := hname.longEntries_bounds
  obtain ⟨longs, hwrite, hlength, hslots⟩ :=
    fatWriteLongFileNameEntries_ok hname.printable start (by omega) (by omega)
  refine ⟨longs, hwrite, fun junk => ?_, by omega, fun w hw => ?_⟩
  · have hread := fatParseLongName_holds junk hslots (by omega) (by omega) []
    rwa [List.append_nil] at hread
  · rw [Nat.mod_eq_of_lt (by omega), List.take_length] at hw
    obtain ⟨k, hk, rfl⟩ := (mem_longNameWrites hslots w).mp hw
    simp only
    omega

/-- The round trip holds exactly for the names of at most 194 characters that leave room for a NUL
in their last slot. -/
theorem codecRoundTrips_iff (hname : FileName fname) (start : List Slot)
    (hstart : start.length = longEntries fname) :
    CodecRoundTrips start fname ↔ fname.length ≤ 194 ∧ fname.length % 13 ≠ 0 := by
  constructor
  · rintro ⟨longs, hwrite, -, hroom, hinside⟩
    have hlength := (length_written hwrite).trans hstart
    have hle := longEntries_le hname
    have hfew : longs.length < 16 := by
      by_contra hmany
      obtain ⟨w, hw, hneg⟩ := exists_store_before hwrite (by omega) (by omega)
      have := (hinside w hw).1
      omega
    rw [hlength] at hroom hfew
    unfold longEntries at hroom hfew
    split_ifs at hroom hfew <;> omega
  · intro ⟨hle, hshort⟩
    exact codecRoundTrips_of_valid ⟨hname.printable, hname.pos, hle, hshort⟩ start hstart

/-- A name of thirteen characters. -/
def thirteen : List UCHAR := List.replicate 13 0x41

lemma thirteen_fileName : FileName thirteen :=
  ⟨fun c hc => List.eq_of_mem_replicate hc ▸ by decide, by decide, by decide⟩

theorem codecRoundTrips_iff_thirteen : CodecRoundTrips [fun _ => 0] thirteen ↔
    thirteen.length ≤ 194 ∧ thirteen.length % 13 ≠ 0 :=
  codecRoundTrips_iff thirteen_fileName [fun _ => 0] (by decide)

/-- Thirteen characters fill the slot and the allocated bytes, and no NUL is stored. -/
theorem thirteen_not_ended : FileName thirteen ∧ ¬ CodecRoundTrips [fun _ => 0] thirteen := by
  refine ⟨thirteen_fileName, ?_⟩
  rintro ⟨longs, hwrite, -, hroom, -⟩
  rw [length_written hwrite] at hroom
  exact absurd hroom (by decide)

end Codec

end Open98.Fat32
