import Open98.Fat32.Volume
import Open98.Drv.Ata

/-! Which sectors the commands of the disk driver transfer, and between which bytes of the memory. Reading
for the file system is a 28-bit command and writing a 48-bit one. -/
namespace Open98.Ata
open Open98.Fat32

section Selecting

/-- The registers of a 28-bit command. -/
def select28 (d : Drive) (LBA sectorcount : ℕ) : Drive :=
  let d := d.outb (0xE0 ||| (byteAt LBA 24 &&& 0x0F)) .driveHead
  let d := d.outb 0x00 .err
  let d := d.outb (byteAt sectorcount 0) .seccount
  let d := d.outb (byteAt LBA 0) .lbaLo
  let d := d.outb (byteAt LBA 8) .lbaMid
  d.outb (byteAt LBA 16) .lbaHi

lemma kiATAReadDiskEx_select (d : Drive) (LBA sectorcount : ℕ) (target : Buffer) :
    kiATAReadDiskEx d LBA sectorcount target = readLoop (sectorcount % 2^8) (sectorcount % 2^8 + 1)
      ((select28 d LBA (sectorcount % 2^8)).outb 0x20 .command) 0 0 target := rfl

variable (d : Drive) {LBA sectorcount : ℕ}

/-- Four bits of the number are left out. -/
lemma select28_lba (LBA sectorcount : ℕ) : (select28 d LBA sectorcount).lba28 = LBA % 2^28 := by
  simp only [Drive.lba28, select28, Drive.outb, Register.write, low_nibble, toNat_byteAt]
  omega

lemma select48_lba (hLBA : LBA < 2^48) (sectorcount : ℕ) : (select48 d LBA sectorcount).lba48 = LBA := by
  simp only [Drive.lba48, select48, Drive.outb, Register.write, toNat_byteAt]
  omega

lemma select48_count (LBA : ℕ) (hpos : 0 < sectorcount) (hlt : sectorcount < 2^16) :
    (select48 d LBA sectorcount).count48 = sectorcount := by
  have hbytes : (byteAt sectorcount 0).toNat + (byteAt sectorcount 8).toNat * 2^8 = sectorcount := by
    simp only [toNat_byteAt]
    omega
  simp only [Drive.count48, select48, Drive.outb, Register.write, hbytes, if_neg hpos.ne']

end Selecting

section SameSector

/-- Reading and writing address the same sector, and what has been written to it is read back. -/
structure AddressesAgree (s : ℕ) : Prop where
  select : ∀ d, (select28 d s 1).lba28 = (select48 d s 1).lba48
  readBack : ∀ (d : Drive) (buff target : Buffer), ∃ d' b, fatPutSector d buff s 1 = .ok d' ∧
    fatGetSector d' target s 1 = .ok b ∧ ∀ k < 512, b k = buff k

/-- Both commands address the same sector if and only if its number has 28 bits. -/
theorem addressesAgree_iff {s : ℕ} (hs : s < 2^32) : AddressesAgree s ↔ s < 2^28 := by
  constructor
  · intro h
    have hselect := h.select blank
    rw [select28_lba, select48_lba blank (by omega)] at hselect
    omega
  · intro hlt
    refine ⟨fun d => ?_, fun d buff target => ?_⟩
    · rw [select28_lba, select48_lba d (by omega), Nat.mod_eq_of_lt hlt]
    · obtain ⟨d', hput, hsectors⟩ := kiATAWriteDisk_ok d (show s < 2^48 by omega) fun k => buff (0*512 + k)
      refine ⟨d', _, ?_, kiATAReadDiskEx_ok d' hlt (by decide) target, fun k hk => ?_⟩
      · rw [fatPutSector, fatPutSector, ok_bind, Nat.add_zero, Nat.mod_eq_of_lt hs]
        exact hput
      · rw [laid, laid, hsectors, Function.update_self, storeSector, dif_pos (by omega)]
        simp [sectorAt]

/-- The last sector that both commands address. -/
theorem addressesAgree_iff_last : AddressesAgree (2^28 - 1) := (addressesAgree_iff (by decide)).mpr (by decide)

/-- The next sector is written, but sector 0 is read in its place. -/
theorem next_sector_reads_first : (select28 blank (2^28) 1).lba28 = 0 ∧ (select48 blank (2^28) 1).lba48 = 2^28 ∧
    ¬ AddressesAgree (2^28) := by
  have hread : (select28 blank (2^28) 1).lba28 = 0 := select28_lba blank (2^28) 1
  have hwrite : (select48 blank (2^28) 1).lba48 = 2^28 := select48_lba blank (by decide) 1
  refine ⟨hread, hwrite, fun h => ?_⟩
  have hselect := h.select blank
  rw [hread, hwrite] at hselect
  cases hselect

end SameSector

section Runs

/-- A read of so many sectors returns after as many transfers, and has filled the memory with them, 512
bytes each. -/
def ReadsRun (LBA sectorcount : ℕ) : Prop := ∀ (d : Drive) (target : Buffer), ∃ d' b,
  kiATAReadDisk d LBA sectorcount target = .ok (d', b) ∧
    d'.transfer = .reading (LBA + sectorcount) 0 ∧
    ∀ k, b k = if k < 512 * sectorcount then d.sectors (LBA + k / 512) ⟨k % 512, Nat.mod_lt k (by decide)⟩
      else target k

/-- A write of so many sectors ends its loop after as many transfers, and has written them from the
memory, 512 bytes each. -/
def WritesRun (LBA sectorcount : ℕ) : Prop := ∀ (d : Drive) (target : Buffer), ∃ d',
  writeLoop sectorcount target (sectorcount + 1) ((select48 d LBA sectorcount).outb 0x34 .command) 0 0 =
      .ok d' ∧
    d'.transfer = .writing (LBA + sectorcount) 0 ∧
    kiATAWriteDisk d LBA sectorcount target = .ok (d'.outb 0xE7 .command) ∧
    ∀ s, d'.sectors s = if LBA ≤ s ∧ s < LBA + sectorcount then sectorAt target (512 * (s - LBA))
      else d.sectors s

variable {LBA sectorcount : ℕ}

lemma select48_transfer (d : Drive) (hLBA : LBA < 2^48) (hpos : 0 < sectorcount) (hlt : sectorcount < 2^16) :
    ((select48 d LBA sectorcount).outb 0x24 .command).transfer = .reading LBA sectorcount ∧
      ((select48 d LBA sectorcount).outb 0x34 .command).transfer = .writing LBA sectorcount := by
  simp [Drive.outb, Drive.command, select48_lba d hLBA, select48_count d LBA hpos hlt]

/-- The counter of a loop never gets to a count that does not fit into a byte. -/
lemma readLoop_endless (hcount : 256 ≤ sectorcount) (fuel : ℕ) (d : Drive) {i : ℕ} (hi : i < 256) (offset : ℕ)
    (target : Buffer) : readLoop sectorcount fuel d i offset target = .error .hang := by
  induction fuel generalizing d i offset target with
  | zero => rfl
  | succ fuel ih =>
    rw [readLoop, if_pos (by omega)]
    split_ifs
    · exact ih _ (Nat.mod_lt _ (by decide)) _ _
    · rfl

lemma writeLoop_endless (hcount : 256 ≤ sectorcount) (target : Buffer) (fuel : ℕ) (d : Drive) {i : ℕ}
    (hi : i < 256) (offset : ℕ) : writeLoop sectorcount target fuel d i offset = .error .hang := by
  induction fuel generalizing d i offset with
  | zero => rfl
  | succ fuel ih =>
    rw [writeLoop, if_pos (by omega)]
    split_ifs
    · exact ih _ (Nat.mod_lt _ (by decide)) _
    · rfl

/-- The writing loop takes each sector from 256 bytes behind the one before it. -/
lemma writeLoop_ok {left : ℕ} (hcount : sectorcount < 256) (target : Buffer) {d : Drive} {lba i : ℕ}
    (htransfer : d.transfer = .writing lba left) (hi : i + left = sectorcount) {fuel : ℕ}
    (hfuel : left < fuel) (offset : ℕ) :
    ∃ d', writeLoop sectorcount target fuel d i offset = .ok d' ∧ d'.transfer = .writing (lba+left) 0 ∧
      ∀ s, d'.sectors s = if lba ≤ s ∧ s < lba + left then sectorAt target (offset + 256 * (s - lba))
        else d.sectors s := by
  induction left generalizing d lba i fuel offset with
  | zero =>
    obtain ⟨fuel, rfl⟩ : ∃ n, fuel = n+1 := ⟨fuel-1, by omega⟩
    refine ⟨d, by rw [writeLoop, if_neg (by omega)], htransfer, fun s => ?_⟩
    rw [if_neg (by omega)]
  | succ left ih =>
    obtain ⟨fuel, rfl⟩ : ∃ n, fuel = n+1 := ⟨fuel-1, by omega⟩
    have hdrq : d.drq = true := by simp [Drive.drq, htransfer]
    have houtsw : d.outsw (sectorAt target offset) = { d with
        sectors := Function.update d.sectors lba (sectorAt target offset)
        transfer := .writing (lba+1) left } := by
      simp [Drive.outsw, htransfer]
    have hnext : (d.outsw (sectorAt target offset)).transfer = .writing (lba+1) left := by rw [houtsw]
    obtain ⟨d', hrun, hend, hsectors⟩ := ih hnext (show i+1 + left = sectorcount by omega)
      (show left < fuel by omega) (offset+256)
    refine ⟨d', ?_, ?_, fun s => ?_⟩
    · rw [writeLoop, if_pos (by omega), if_pos hdrq, Nat.mod_eq_of_lt (by omega)]
      exact hrun
    · rw [hend, show lba + 1 + left = lba + (left+1) by omega]
    · rw [hsectors, houtsw]
      by_cases hs : s = lba
      · subst hs
        rw [if_neg (by omega), if_pos (by omega)]
        simp
      · dsimp only
        rw [Function.update_of_ne hs]
        by_cases hin : lba + 1 ≤ s ∧ s < lba + 1 + left
        · rw [if_pos hin, if_pos (by omega), show offset + 256 + 256 * (s - (lba+1)) =
            offset + 256 * (s - lba) by omega]
        · rw [if_neg hin, if_neg (by omega)]

/-- One sector is read as it should be. -/
lemma readsRun_one (hLBA : LBA < 2^48) : ReadsRun LBA 1 := by
  intro d target
  obtain ⟨htransfer, _⟩ := select48_transfer d hLBA one_pos (by decide : 1 < 2^16)
  have hsectors : ((select48 d LBA 1).outb 0x24 .command).sectors = d.sectors := rfl
  have hn : 1 % 2^16 = 1 := by decide
  simp only [kiATAReadDisk, hn]
  generalize (select48 d LBA 1).outb 0x24 .command = c at htransfer hsectors
  have hdrq : c.drq = true := by simp [Drive.drq, htransfer]
  have hinsw : c.insw = (c.sectors LBA, { c with transfer := .reading (LBA+1) 0 }) := by
    simp [Drive.insw, htransfer]
  refine ⟨{ c with transfer := .reading (LBA+1) 0 }, storeSector target 0 (c.sectors LBA), ?_, rfl,
    fun k => ?_⟩
  · rw [readLoop, if_pos (by decide), if_pos hdrq, hinsw]
    dsimp only
    rw [readLoop, if_neg (by decide)]
  · rw [storeSector, hsectors]
    by_cases hk : k < 512
    · have hdiv : k / 512 = 0 := Nat.div_eq_of_lt hk
      have hmod : k % 512 = k := Nat.mod_eq_of_lt hk
      rw [dif_pos (by omega), if_pos (by omega)]
      simp only [hdiv, hmod, Nat.add_zero, Nat.sub_zero]
    · rw [dif_neg (by omega), if_neg (by omega)]

/-- A drive of zeroed sectors reads nothing of a set memory's last byte. -/
lemma not_readsRun (hLBA : LBA < 2^48) (hcount : 2 ≤ sectorcount) (hlt : sectorcount < 2^16) :
    ¬ ReadsRun LBA sectorcount := by
  intro h
  obtain ⟨d', b, hread, _, hb⟩ := h blank fun _ => 1
  obtain ⟨htransfer, _⟩ := select48_transfer blank hLBA (by omega : 0 < sectorcount) hlt
  rw [kiATAReadDisk, Nat.mod_eq_of_lt hlt] at hread
  rcases Nat.lt_or_ge sectorcount 256 with hsmall | hlarge
  · obtain ⟨e, hrun⟩ := readLoop_ok hsmall (fun _ => htransfer) (Nat.zero_add _)
      (Nat.lt_succ_self sectorcount) 0 fun _ => 1
    rw [hrun] at hread
    injection hread with hread
    have hlaid : b (512 * sectorcount - 1) = 1 :=
      congrFun (congrArg Prod.snd hread).symm _ |>.trans (laid_beyond _ _ _ _ _ (by omega))
    rw [hb, if_pos (by omega)] at hlaid
    cases hlaid
  · rw [readLoop_endless hlarge _ _ (by decide)] at hread
    cases hread

/-- The second sector is written from the middle of the first one's bytes. -/
lemma not_writesRun (hLBA : LBA < 2^48) (hcount : 2 ≤ sectorcount) (hlt : sectorcount < 2^16) :
    ¬ WritesRun LBA sectorcount := by
  intro h
  obtain ⟨d', hwrite, _, _, hsectors⟩ := h blank fun k => if k = 512 then 1 else 0
  obtain ⟨_, htransfer⟩ := select48_transfer blank hLBA (by omega : 0 < sectorcount) hlt
  rcases Nat.lt_or_ge sectorcount 256 with hsmall | hlarge
  · obtain ⟨e, hrun, _, he⟩ := writeLoop_ok hsmall (fun k => if k = 512 then 1 else 0) htransfer
      (Nat.zero_add _) (Nat.lt_succ_self sectorcount) 0
    rw [hrun] at hwrite
    injection hwrite with hwrite
    have hbyte := congrFun (hsectors (LBA+1)) 0
    rw [← hwrite, he, if_pos (by omega), if_pos (by omega), Nat.add_sub_cancel_left] at hbyte
    cases hbyte
  · rw [writeLoop_endless hlarge _ _ _ (by decide)] at hwrite
    cases hwrite

/-- A 48-bit command transfers what it should if and only if it is for one sector. -/
theorem runs_iff (hLBA : LBA < 2^48) (hpos : 1 ≤ sectorcount) (hlt : sectorcount ≤ 65535) :
    (ReadsRun LBA sectorcount ↔ sectorcount = 1) ∧ (WritesRun LBA sectorcount ↔ sectorcount = 1) := by
  refine ⟨⟨fun h => ?_, ?_⟩, ⟨fun h => ?_, ?_⟩⟩
  · by_contra hne
    exact not_readsRun hLBA (by omega) (by omega) h
  · rintro rfl
    exact readsRun_one hLBA
  · by_contra hne
    exact not_writesRun hLBA (by omega) (by omega) h
  · rintro rfl d target
    obtain ⟨_, htransfer⟩ := select48_transfer d hLBA one_pos (by decide : 1 < 2^16)
    obtain ⟨d', hrun, hend, hsectors⟩ := writeLoop_ok (by decide : 1 < 256) target htransfer
      (Nat.zero_add _) (Nat.lt_succ_self 1) 0
    have hn : 1 % 2^16 = 1 := by decide
    refine ⟨d', hrun, hend, ?_, fun s => ?_⟩
    · simp only [kiATAWriteDisk, hn]
      rw [hrun]
      rfl
    · rw [hsectors]
      by_cases hs : LBA ≤ s ∧ s < LBA + 1
      · rw [if_pos hs, if_pos hs, show s - LBA = 0 by omega]
      · rw [if_neg hs, if_neg hs]
        rfl

/-- The last sector that a command can address is transferred alone. -/
theorem runs_iff_last : ReadsRun (2^48 - 1) 1 ∧ WritesRun (2^48 - 1) 1 :=
  ⟨(runs_iff (by decide) (by decide) (by decide)).1.mpr rfl,
    (runs_iff (by decide) (by decide) (by decide)).2.mpr rfl⟩

/-- Two sectors are read and written over each other, and 256 of them never end. -/
theorem longer_runs_fail : ¬ ReadsRun 0 2 ∧ ¬ WritesRun 0 2 ∧
    kiATAReadDisk blank 0 256 (fun _ => 0) = .error .hang ∧
    kiATAWriteDisk blank 0 256 (fun _ => 0) = .error .hang := by
  refine ⟨not_readsRun (by decide) le_rfl (by decide), not_writesRun (by decide) le_rfl (by decide),
    readLoop_endless le_rfl _ _ (by decide) _ _, ?_⟩
  have hloop := writeLoop_endless (le_refl 256) (fun _ => 0) 257
    ((select48 blank 0 256).outb 0x34 .command) (by decide : 0 < 256) 0
  have hn : 256 % 2^16 = 256 := by decide
  simp only [kiATAWriteDisk, hn]
  rw [hloop]
  rfl

end Runs

end Open98.Ata
