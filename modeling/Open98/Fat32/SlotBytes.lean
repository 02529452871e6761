import Open98.Fat32.Insertion
import Open98.Fat32.SlotSearch

/-! Which bytes of the slots of a new entry are written, and what the others keep of what the slots held
before. -/
namespace Open98.Fat32

section Skipped

/-- The bytes of a long-name slot that are not written: the high bytes of the characters, the type and
the cluster. -/
def longSkipped : List (Fin 32) := [2, 4, 6, 8, 10, 12, 15, 17, 19, 21, 23, 25, 26, 27, 29, 31]

/-- The bytes of a short slot that are not written: those behind the attributes, of which two stand
behind the cluster's high bytes. -/
def shortSkipped : List (Fin 32) := [12, 13, 14, 15, 16, 17, 18, 19, 22, 23, 24, 25]

variable {fname : List UCHAR} {attrs : UCHAR} {first flen : ℕ} {old : Slot} {j : Fin 32}

lemma poke_congr {writes : List (Fin 32 × UCHAR)} {base : Slot}
    (h : j ∈ writes.map Prod.fst ∨ old j = base j) : old.poke writes j = base.poke writes j := by
  induction writes generalizing old base with
  | nil => exact h.resolve_left List.not_mem_nil
  | cons w writes ih =>
    refine ih ?_
    dsimp only
    by_cases hw : j = w.1
    · exact .inr (by rw [hw, Function.update_self, Function.update_self])
    · rw [Function.update_of_ne hw, Function.update_of_ne hw]
      exact h.imp_left fun hmem => (List.mem_cons.mp hmem).resolve_left hw

lemma poke_skipped {writes : List (Fin 32 × UCHAR)} (h : j ∉ writes.map Prod.fst) :
    old.poke writes j = old j := by
  induction writes generalizing old with
  | nil => rfl
  | cons w writes ih =>
    rw [List.map_cons, List.mem_cons, not_or] at h
    obtain ⟨hw, hrest⟩ := h
    exact (ih hrest).trans (Function.update_of_ne hw _ _)

/-- A written slot keeps the bytes that are skipped, and only those depend on what it was before. -/
lemma longNameSlot_byte (old : Slot) (i : ℕ) (checksum : UCHAR) (j : Fin 32) :
    longNameSlot old i checksum fname j =
      if j ∈ longSkipped then old j else longNameSlot zeroSlot i checksum fname j := by
  have hkeys : ([((0 : Fin 32), BitVec.ofNat 8 (i+1)), (13, checksum)] ++
      nameOffsets.zipIdx.map (fun p : Fin 32 × ℕ => (p.1, fname.getD (13*i + p.2) 0)) ++ [(11, LFN)]).map Prod.fst =
        [0, 13] ++ nameOffsets ++ [11] := by
    simp [nameOffsets]
  have hsplit : ∀ j : Fin 32, j ∈ [0, 13] ++ nameOffsets ++ [11] ↔ j ∉ longSkipped := by decide
  by_cases hj : j ∈ longSkipped
  · rw [if_pos hj]
    exact poke_skipped (by rw [hkeys, hsplit, not_not]; exact hj)
  · rw [if_neg hj]
    exact poke_congr (.inl (by rw [hkeys, hsplit]; exact hj))

lemma longNameSlot_char (old : Slot) (i : ℕ) (checksum : UCHAR) :
    ∀ p ∈ nameOffsets.zipIdx, longNameSlot old i checksum fname p.1 = fname.getD (13*i + p.2) 0 := by
  simp [longNameSlot, Slot.poke, nameOffsets]

lemma shortSlot_byte (old : Slot) (j : Fin 32) : shortSlot fname attrs first flen old j =
    if j ∈ shortSkipped then old j else shortSlot fname attrs first flen zeroSlot j := by
  have hsplit : ∀ j : Fin 32, j ∈ shortSkipped ↔
      ¬ j.val < 11 ∧ j ∉ ([11, 20, 21, 26, 27, 28, 29, 30, 31] : List (Fin 32)) := by decide
  by_cases hj : j ∈ shortSkipped
  · rw [if_pos hj, shortSlot, fillEntry, poke_skipped ((hsplit j).mp hj).2, fatWrite83FileName,
      if_neg ((hsplit j).mp hj).1]
  · rw [if_neg hj]
    refine poke_congr ?_
    by_cases hname : j.val < 11
    · exact .inr (by rw [fatWrite83FileName, fatWrite83FileName, if_pos hname, if_pos hname])
    · exact .inl (not_not.mp fun hno => hj ((hsplit j).mpr ⟨hname, hno⟩))

/-- The first eleven bytes of a short slot are the name. -/
lemma shortSlot_name (old : Slot) {j : Fin 32} (hj : j.val < 11) :
    shortSlot fname attrs first flen old j = name83 fname j := by
  have hkeys : ∀ j : Fin 32, j.val < 11 → j ∉ ([11, 20, 21, 26, 27, 28, 29, 30, 31] : List (Fin 32)) := by decide
  rw [shortSlot, fillEntry, poke_skipped (hkeys j hj), fatWrite83FileName, if_pos hj]

end Skipped

section Canonical

/-- The bytes of a slot, from its first on. -/
def Slot.bytes (s : Slot) (k : ℕ) : UCHAR := if h : k < 32 then s ⟨k, h⟩ else 0

/-- The slot is entry number `i + 1` of the `n` for the name: the last number is marked, the characters
have 16 bits, and the type and the cluster are zero. -/
structure CanonicalLong (fname : List UCHAR) (short : Slot) (n i : ℕ) (s : Slot) : Prop where
  number : s 0 = if i + 1 = n then BitVec.ofNat 8 n ||| 0x40 else BitVec.ofNat 8 (i+1)
  attr : s 11 = LFN
  type : s 12 = 0
  checksum : s 13 = fatCheckSumFNAME short.bytes
  cluster : s 26 = 0 ∧ s 27 = 0
  chars : ∀ p ∈ nameOffsets.zipIdx, s p.1 = fname.getD (13*i + p.2) 0 ∧ s (p.1+1) = 0

/-- Long-name slots from the last number down to 1, and the short slot behind them. -/
structure CanonicalSlots (fname : List UCHAR) (attrs : UCHAR) (first flen : ℕ) (slots : List Slot) :
    Prop where
  length : slots.length = longEntries fname + 1
  long : ∀ t < longEntries fname, CanonicalLong fname (slots.getD (longEntries fname) zeroSlot)
    (longEntries fname) (longEntries fname - 1 - t) (slots.getD t zeroSlot)
  name : ∀ k < 11, (slots.getD (longEntries fname) zeroSlot).bytes k = name83 fname k
  fields : (slots.getD (longEntries fname) zeroSlot).fields = (attrs, first, flen)

/-- A long-name slot written over zeroes. -/
def writtenLong (fname : List UCHAR) (t : ℕ) : Slot :=
  let s := longNameSlot zeroSlot (longEntries fname - 1 - t) (fatCheckSumFNAME (name83 fname)) fname
  if t = 0 then Function.update s 0 (s 0 ||| 0x40) else s

/-- The checksum reads eleven bytes. -/
lemma fatCheckSumFNAME_congr {f g : ℕ → UCHAR} (h : ∀ k < 11, f k = g k) :
    fatCheckSumFNAME f = fatCheckSumFNAME g :=
  List.foldl_ext _ _ _ fun checksum k hk => by rw [h k (List.mem_range.mp hk)]

variable {fname : List UCHAR} {attrs : UCHAR} {first flen t : ℕ} {longs run : List Slot} {short s : Slot}

/-- The slots that are left, byte by byte. -/
lemma longs_byte (hwrite : fatWriteLongFileNameEntries run fname = .ok longs)
    (hrun : run.length = longEntries fname) (ht : t < longEntries fname) (j : Fin 32) :
    longs.getD t zeroSlot j =
      if j ∈ longSkipped then run.getD t zeroSlot j else writtenLong fname t j := by
  cases run with
  | nil => cases hwrite
  | cons s rest =>
    rw [fatWriteLongFileNameEntries, List.mapIdx_cons] at hwrite
    have hzero : (0 : Fin 32) ∉ longSkipped := by decide
    cases t with
    | zero =>
      rw [← Except.ok.inj hwrite, List.getD_cons_zero, List.getD_cons_zero, writtenLong, if_pos rfl, hrun]
      by_cases hj : j = 0
      · rw [hj, Function.update_self, Function.update_self, if_neg hzero, longNameSlot_byte s, if_neg hzero]
      · rw [Function.update_of_ne hj, Function.update_of_ne hj, longNameSlot_byte s]
    | succ t =>
      rw [← Except.ok.inj hwrite, List.getD_cons_succ, List.getD_cons_succ, writtenLong,
        if_neg (Nat.succ_ne_zero t), ← hrun]
      rw [List.length_cons] at hrun ⊢
      have htr : t < rest.length := by omega
      rw [List.getD_eq_getElem _ _ (by rw [List.length_mapIdx]; exact htr), List.getElem_mapIdx,
        List.getD_eq_getElem _ _ htr, longNameSlot_byte]

/-- Such a slot is as it should be if and only if the bytes that are skipped are zero. -/
lemma canonicalLong_iff (ht : t < longEntries fname) (hs : ∀ j ∉ longSkipped, s j = writtenLong fname t j)
    (hname : ∀ k < 11, short.bytes k = name83 fname k) :
    CanonicalLong fname short (longEntries fname) (longEntries fname - 1 - t) s ↔
      ∀ j ∈ longSkipped, s j = 0 := by
  constructor
  · intro h j hj
    have hcases : ∀ j ∈ longSkipped, j = 12 ∨ j = 26 ∨ j = 27 ∨ ∃ p ∈ nameOffsets.zipIdx, j = p.1 + 1 := by
      decide
    obtain rfl | rfl | rfl | ⟨p, hp, rfl⟩ := hcases j hj
    · exact h.type
    · exact h.cluster.1
    · exact h.cluster.2
    · exact (h.chars p hp).2
  · intro h
    have hwritten : ∀ j ∉ longSkipped, j ≠ 0 → s j = longNameSlot zeroSlot (longEntries fname - 1 - t)
        (fatCheckSumFNAME (name83 fname)) fname j := by
      intro j hj hne
      rw [hs j hj, writtenLong]
      split_ifs
      · rw [Function.update_of_ne hne]
      · rfl
    refine ⟨?_, ?_, h 12 (by decide), ?_, ⟨h 26 (by decide), h 27 (by decide)⟩, fun p hp => ⟨?_, ?_⟩⟩
    · rw [hs 0 (by decide), writtenLong]
      by_cases hfirst : t = 0
      · rw [if_pos hfirst, if_pos (by omega), Function.update_self, longNameSlot_zero,
          show longEntries fname - 1 - t + 1 = longEntries fname by omega]
      · rw [if_neg hfirst, if_neg (by omega), longNameSlot_zero]
    · rw [hwritten 11 (by decide) (by decide)]
      simp [longNameSlot, Slot.poke]
    · rw [hwritten 13 (by decide) (by decide), fatCheckSumFNAME_congr hname]
      simp [longNameSlot, Slot.poke, nameOffsets]
    · have hbyte : ∀ p ∈ nameOffsets.zipIdx, p.1 ∉ longSkipped ∧ p.1 ≠ 0 ∧ p.1 + 1 ∈ longSkipped := by decide
      rw [hwritten p.1 (hbyte p hp).1 (hbyte p hp).2.1]
      exact longNameSlot_char _ _ _ p hp
    · have hbyte : ∀ p ∈ nameOffsets.zipIdx, p.1 + 1 ∈ longSkipped := by decide
      exact h _ (hbyte p hp)

/-- What is written over the free slots of a place, for a file that begins in the cluster `first`. -/
def WrittenOver (fname : List UCHAR) (attrs : UCHAR) (first flen : ℕ) (run slots : List Slot) : Prop :=
  ∃ longs, fatWriteLongFileNameEntries (run.take (longEntries fname)) fname = .ok longs ∧
    slots = longs ++ [shortSlot fname attrs first flen (run.getD (longEntries fname) zeroSlot)]

variable {slots slots' run' : List Slot}

section Row
variable (h : WrittenOver fname attrs first flen run slots) (hrun : run.length = longEntries fname + 1)
include h hrun

lemma WrittenOver.length_eq : slots.length = longEntries fname + 1 := by
  obtain ⟨longs, hlongs, rfl⟩ := h
  have hof : LongSlotsOf fname longs := ⟨_, by rw [List.length_take]; omega, hlongs⟩
  rw [List.length_append, hof.length_eq, List.length_singleton]

lemma WrittenOver.long (ht : t < longEntries fname) (j : Fin 32) : slots.getD t zeroSlot j =
    if j ∈ longSkipped then run.getD t zeroSlot j else writtenLong fname t j := by
  obtain ⟨longs, hlongs, rfl⟩ := h
  have hlength : (run.take (longEntries fname)).length = longEntries fname := by
    rw [List.length_take]
    omega
  have hof : LongSlotsOf fname longs := ⟨_, hlength, hlongs⟩
  rw [List.getD_append _ _ _ _ (hof.length_eq ▸ ht), longs_byte hlongs hlength ht,
    List.getD_eq_getElem (run.take _) _ (by omega), List.getElem_take, List.getD_eq_getElem run _ (by omega)]

lemma WrittenOver.short_eq : slots.getD (longEntries fname) zeroSlot =
    shortSlot fname attrs first flen (run.getD (longEntries fname) zeroSlot) := by
  obtain ⟨longs, hlongs, rfl⟩ := h
  have hof : LongSlotsOf fname longs := ⟨_, by rw [List.length_take]; omega, hlongs⟩
  rw [List.getD_append_right _ _ _ _ hof.length_eq.le, hof.length_eq, Nat.sub_self]
  rfl

/-- The slots of an entry are as they should be if and only if the bytes that are skipped in the
long-name slots were zero. -/
lemma WrittenOver.canonical_iff (hfirst : first < 2^32) (hflen : flen < 2^32) :
    CanonicalSlots fname attrs first flen slots ↔
      ∀ t < longEntries fname, ∀ j ∈ longSkipped, run.getD t zeroSlot j = 0 := by
  have hname : ∀ k < 11, (slots.getD (longEntries fname) zeroSlot).bytes k = name83 fname k := by
    intro k hk
    rw [h.short_eq hrun, Slot.bytes, dif_pos (by omega), shortSlot_name _ (by exact hk)]
  have hlong : ∀ t < longEntries fname, CanonicalLong fname (slots.getD (longEntries fname) zeroSlot)
      (longEntries fname) (longEntries fname - 1 - t) (slots.getD t zeroSlot) ↔
        ∀ j ∈ longSkipped, run.getD t zeroSlot j = 0 := by
    intro t ht
    rw [canonicalLong_iff ht (fun j hj => by rw [h.long hrun ht, if_neg hj]) hname]
    refine forall_congr' fun j => forall_congr' fun hj => ?_
    rw [h.long hrun ht, if_pos hj]
  constructor
  · intro hslots t ht
    exact (hlong t ht).mp (hslots.long t ht)
  · intro hzero
    refine ⟨h.length_eq hrun, fun t ht => (hlong t ht).mpr (hzero t ht), hname, ?_⟩
    rw [h.short_eq hrun, shortSlot_fields hfirst hflen]

end Row

/-- The bytes that are skipped were zero in the long-name slots, and the same in both short slots. -/
structure SkippedAgree (fname : List UCHAR) (run run' : List Slot) : Prop where
  long : ∀ t < longEntries fname, ∀ j ∈ longSkipped, run.getD t zeroSlot j = 0 ∧ run'.getD t zeroSlot j = 0
  short : ∀ j ∈ shortSkipped, run.getD (longEntries fname) zeroSlot j = run'.getD (longEntries fname) zeroSlot j

lemma WrittenOver.agree_iff (h : WrittenOver fname attrs first flen run slots)
    (hrun : run.length = longEntries fname + 1) (h' : WrittenOver fname attrs first flen run' slots')
    (hrun' : run'.length = longEntries fname + 1) (hfirst : first < 2^32) (hflen : flen < 2^32) :
    slots = slots' ∧ CanonicalSlots fname attrs first flen slots ↔ SkippedAgree fname run run' := by
  constructor
  · rintro ⟨rfl, hcanonical⟩
    have hzero := (h.canonical_iff hrun hfirst hflen).mp hcanonical
    have hzero' := (h'.canonical_iff hrun' hfirst hflen).mp hcanonical
    refine ⟨fun t ht j hj => ⟨hzero t ht j hj, hzero' t ht j hj⟩, fun j hj => ?_⟩
    have hbyte := congrFun ((h.short_eq hrun).symm.trans (h'.short_eq hrun')) j
    rwa [shortSlot_byte, if_pos hj, shortSlot_byte, if_pos hj] at hbyte
  · intro hskipped
    refine ⟨List.ext_getElem ((h.length_eq hrun).trans (h'.length_eq hrun').symm) fun t ht ht' => ?_,
      (h.canonical_iff hrun hfirst hflen).mpr fun t ht j hj => (hskipped.long t ht j hj).1⟩
    rw [← List.getD_eq_getElem _ zeroSlot ht, ← List.getD_eq_getElem _ zeroSlot ht']
    funext j
    rw [h.length_eq hrun] at ht
    by_cases hlong : t < longEntries fname
    · rw [h.long hrun hlong, h'.long hrun' hlong]
      by_cases hj : j ∈ longSkipped
      · obtain ⟨hold, hold'⟩ := hskipped.long t hlong j hj
        rw [if_pos hj, if_pos hj, hold, hold']
      · rw [if_neg hj, if_neg hj]
    · obtain rfl : t = longEntries fname := by omega
      rw [h.short_eq hrun, h'.short_eq hrun', shortSlot_byte, shortSlot_byte (run'.getD _ _)]
      by_cases hj : j ∈ shortSkipped
      · rw [if_pos hj, if_pos hj, hskipped.short j hj]
      · rw [if_neg hj, if_neg hj]

end Canonical

section Runs
variable {δ : Type} [Disk δ]

/-- A directory of a consistent volume with enough free clusters for a file and its entry. -/
structure CanCreate (v : FAT32 δ) (dir : ℕ) (fname : List UCHAR) (flen : ℕ) : Prop where
  store : ClusterStore v.geometry δ
  addressable : v.geometry.Addressable
  ready : AllocReady v
  chain : ∃ l, IsChain v.geometry v.FAT dir l
  space : EnoughSpace v dir fname flen

/-- The call has found the free slots `run` for the name and leaves `slots` in their place; the file
begins in the cluster `first`. -/
def Replaces (v w : FAT32 δ) (dir : ℕ) (file : Buffer) (fname : List UCHAR) (flen : ℕ) (attrs : UCHAR)
    (run slots : List Slot) (first : ℕ) : Prop :=
  ∃ fuel u u' c pre post,
    fatWriteFileImplementation fuel v dir file fname flen attrs 0 = .ok w ∧
    fatLocateEntries (longEntries fname + 1) fuel v dir = .ok (some (c, pre ++ run ++ post, pre.length), u) ∧
    run.length = longEntries fname + 1 ∧ slots.length = longEntries fname + 1 ∧
    writeClusters file flen (requiredClusters u.geometry flen) u 0 0 0 = .ok (first, u') ∧
    w.dirSlots c = pre ++ slots ++ post

variable {v v' w w' : FAT32 δ} {dir dir' flen first : ℕ} {file file' : Buffer} {fname : List UCHAR}
  {attrs : UCHAR} {run run' slots slots' : List Slot}

lemma Replaces.writtenOver (can : CanCreate v dir fname flen)
    (h : Replaces v w dir file fname flen attrs run slots first) :
    WrittenOver fname attrs first flen run slots ∧ first < 2^32 := by
  obtain ⟨l, hl⟩ := can.chain
  obtain ⟨fuel, u, u', c, pre, post, hwrite, hlocate, hrun, hslots, hdata, hleft⟩ := h
  obtain ⟨t, t', l', c₁, pre₁, run₁, post₁, longs, first₁, cs, hlocate₁, located, hrun₁, -, -, hdata₁, hlongs, wrote⟩ :=
    fatWriteFileImplementation_traced can.store can.addressable can.ready hl can.space hwrite
  obtain ⟨hplace, rfl⟩ := Prod.mk.inj (Except.ok.inj (hlocate.symm.trans hlocate₁))
  obtain ⟨rfl, hfound, hpre⟩ : c = c₁ ∧ pre ++ run ++ post = pre₁ ++ run₁ ++ post₁ ∧ pre.length = pre₁.length := by
    simpa using hplace
  obtain ⟨rfl, -⟩ := Prod.mk.inj (Except.ok.inj (hdata.symm.trans hdata₁))
  rw [List.append_assoc, List.append_assoc] at hfound
  obtain ⟨rfl, hbehind⟩ := List.append_inj hfound hpre
  obtain ⟨rfl, rfl⟩ := List.append_inj hbehind (hrun.trans hrun₁.symm)
  refine ⟨⟨longs, hlongs, ?_⟩, ?_⟩
  · have hbytes := hleft.symm.trans wrote.slots
    rw [List.append_assoc, List.append_assoc] at hbytes
    have hrest := List.append_cancel_left hbytes
    rw [← List.singleton_append, ← List.append_assoc] at hrest
    exact List.append_cancel_right hrest
  · have hgeometry := (located.prepared can.ready hl.cells fun x hx => hl.cell_ne_zero hx).geometry
    exact wrote.first_lt (hgeometry ▸ can.addressable)

/-- Every call that returns has replaced free slots. -/
lemma CanCreate.exists_replaces (can : CanCreate v dir fname flen) {fuel : ℕ}
    (hwrite : fatWriteFileImplementation fuel v dir file fname flen attrs 0 = .ok w) :
    ∃ run slots first, Replaces v w dir file fname flen attrs run slots first ∧ ∀ s ∈ run, s.Free := by
  obtain ⟨l, hl⟩ := can.chain
  obtain ⟨u, u', l', c, pre, run, post, longs, first, cs, hlocate, -, hrun, hfree, -, hdata, -, wrote⟩ :=
    fatWriteFileImplementation_traced can.store can.addressable can.ready hl can.space hwrite
  refine ⟨run, longs ++ [shortSlot fname attrs first flen (run.getD (longEntries fname) zeroSlot)], first,
    ⟨fuel, u, u', c, pre, post, hwrite, hlocate, hrun, ?_, hdata, ?_⟩, hfree⟩
  · rw [List.length_append, wrote.longSlots.length_eq]
    rfl
  · rw [wrote.slots]
    simp only [List.append_assoc, List.cons_append, List.nil_append]

/-- Two calls that create an entry leave the same slots, and these as they should be, if and only if the
bytes that are skipped were zero in the long-name slots and the same in the short ones. -/
theorem slots_left_iff (can : CanCreate v dir fname flen) (can' : CanCreate v' dir' fname flen)
    (hflen : flen < 2^32) (h : Replaces v w dir file fname flen attrs run slots first)
    (h' : Replaces v' w' dir' file' fname flen attrs run' slots' first) :
    slots = slots' ∧ CanonicalSlots fname attrs first flen slots ↔ SkippedAgree fname run run' := by
  obtain ⟨hover, hfirst⟩ := h.writtenOver can
  obtain ⟨hover', -⟩ := h'.writtenOver can'
  obtain ⟨-, -, -, -, -, -, -, -, hrun, -⟩ := h
  obtain ⟨-, -, -, -, -, -, -, -, hrun', -⟩ := h'
  exact hover.agree_iff hrun hover' hrun' hfirst hflen

end Runs

section Volumes
open Open98.Ata

lemma freshWith_canCreate (d : Drive) : CanCreate (freshWith d) 2 letterA 3 where
  store := small_clusterStore
  addressable := small_addressable
  ready := ⟨fresh_ready.reserved, fresh_ready.hint⟩
  chain := ⟨_, fresh_root⟩
  space := by
    have hspace : fatGetFreeClusters (freshWith d) = 125 := fresh_space
    have hone : requiredClusters (freshWith d).geometry 3 = 1 := show requiredClusters small 3 = 1 by decide
    refine ⟨?_, fun _ => ?_⟩ <;> rw [hspace, hone] <;> decide

/-- A file is created in a directory whose slots are all alike. -/
lemma exists_replaces_alike {s : Slot} (hs : s.Free) : ∃ (d : Drive) (w : FAT32 Drive) (slots : List Slot) (first : ℕ),
    Replaces (freshWith d) w 2 (fun _ => 7) letterA 3 0 (List.replicate 2 s) slots first := by
  obtain ⟨d, hslots⟩ := exists_freshWith (l := List.replicate 16 s) List.length_replicate
  have can := freshWith_canCreate d
  obtain ⟨w, hwrite, -⟩ := fatWriteFileImplementation_returns can.store can.addressable can.ready fresh_root
    can.space (by decide) (show 2 ≤ small.dirsPerCluster by decide) (show 1 < 200 by decide) (fun _ => 7) 0
  obtain ⟨run, slots, first, hreplaces, -⟩ := can.exists_replaces hwrite
  have hsame : run = List.replicate 2 s := by
    obtain ⟨fuel, u, u', c, pre, post, -, hlocate, hrun, -⟩ := hreplaces
    have hroom : ∃ c ∈ [2], findRun 2 ((freshWith d).dirSlots c) 0 0 ≠ none := by
      refine ⟨2, by simp, ?_⟩
      rw [hslots, findRun_replicate hs (by decide) (by decide) le_rfl]
      simp
    obtain ⟨p, x, q, index, hl, -, -, hlocate'⟩ := fatLocateEntries_room (can.store.get _) can.addressable
      fresh_root hroom (show 1 ≤ fuel + 1 by omega)
    obtain rfl : x = 2 := by
      have hmem : x ∈ [2] := by rw [hl]; simp
      exact List.mem_singleton.mp hmem
    have hplace := (Prod.mk.inj (Except.ok.inj ((fatLocateEntries_mono 1 hlocate).symm.trans hlocate'))).1
    obtain ⟨-, hfound, -⟩ : c = 2 ∧ pre ++ run ++ post = (freshWith d).dirSlots 2 ∧ pre.length = index := by
      simpa using hplace
    refine List.eq_replicate_iff.mpr ⟨hrun, fun t ht => List.eq_of_mem_replicate (n := 16) ?_⟩
    rw [← hslots, ← hfound]
    exact List.mem_append_left _ (List.mem_append_right _ ht)
  exact ⟨d, w, slots, first, hsame ▸ hreplaces⟩

/-- Over zeroes the slots are as they should be. -/
theorem slots_left_iff_zeroed : ∃ (d : Drive) (w : FAT32 Drive) (slots : List Slot) (first : ℕ),
    Replaces (freshWith d) w 2 (fun _ => 7) letterA 3 0 (List.replicate 2 zeroSlot) slots first ∧
    CanonicalSlots letterA 0 first 3 slots := by
  obtain ⟨d, w, slots, first, h⟩ := exists_replaces_alike zeroSlot_free
  have can := freshWith_canCreate d
  have hzero : ∀ t < 2, ∀ j, (List.replicate 2 zeroSlot).getD t zeroSlot j = 0 := by decide
  exact ⟨d, w, slots, first, h, ((slots_left_iff can can (by decide) h h).mpr
    ⟨fun t ht j _ => ⟨hzero t (Nat.lt_succ_of_lt ht) j, hzero t (Nat.lt_succ_of_lt ht) j⟩, fun _ _ => rfl⟩).2⟩

/-- A slot of a deleted entry, and otherwise of ones. -/
def deletedSlot : Slot := fun j => if j = 0 then 0xE5 else 1

/-- A new entry over zeroes and the same one over deleted slots: the type of the long-name slot is 0 in the
former and 1 in the latter. -/
theorem deleted_slots_show : ∃ (d d' : Drive) (w w' : FAT32 Drive) (slots slots' : List Slot) (first first' : ℕ),
    Replaces (freshWith d) w 2 (fun _ => 7) letterA 3 0 (List.replicate 2 zeroSlot) slots first ∧
    Replaces (freshWith d') w' 2 (fun _ => 7) letterA 3 0 (List.replicate 2 deletedSlot) slots' first' ∧
    (slots.getD 0 zeroSlot 12 = 0 ∧ slots'.getD 0 zeroSlot 12 = 1) ∧
    ¬ CanonicalSlots letterA 0 first' 3 slots' := by
  obtain ⟨d, w, slots, first, h⟩ := exists_replaces_alike zeroSlot_free
  obtain ⟨d', w', slots', first', h'⟩ := exists_replaces_alike (s := deletedSlot) (.inr rfl)
  have hbyte := (h.writtenOver (freshWith_canCreate d)).1.long rfl (show 0 < 1 by decide) 12
  have hbyte' := (h'.writtenOver (freshWith_canCreate d')).1.long rfl (show 0 < 1 by decide) 12
  have hskipped : (12 : Fin 32) ∈ longSkipped := by decide
  rw [if_pos hskipped] at hbyte hbyte'
  refine ⟨d, d', w, w', slots, slots', first, first', h, h', ⟨hbyte, hbyte'⟩, fun hcanonical => ?_⟩
  exact absurd ((hcanonical.long 0 (by decide)).type.symm.trans hbyte') (by decide)

end Volumes

end Open98.Fat32
