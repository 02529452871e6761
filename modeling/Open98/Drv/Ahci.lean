import Open98.NtDef

/-! The command table that `ReadAhci` of `drv/ahci.c` fills, and what a device reads in it. The registers of the
port are left out. -/
namespace Open98.Drv

section Layout

/-- `fis_reg_h2d_t`; the bit fields of a byte begin at its lowest bit. -/
structure FisRegH2d where
  fisType : UCHAR
  pmPort : BitVec 4
  reserved1 : BitVec 3
  c : BitVec 1
  command : UCHAR
  featureLow : UCHAR
  lbaLow : UCHAR
  lbaMid : UCHAR
  lbaHigh : UCHAR
  dev : UCHAR
  lba3 : UCHAR
  lba4 : UCHAR
  lba5 : UCHAR
  featureHigh : UCHAR
  countLow : UCHAR
  countHigh : UCHAR
  icc : UCHAR
  control : UCHAR
  reserved2 : BitVec 32

def FisRegH2d.bytes (f : FisRegH2d) : List UCHAR := [
  f.fisType, f.c ++ f.reserved1 ++ f.pmPort, f.command, f.featureLow,
  f.lbaLow, f.lbaMid, f.lbaHigh, f.dev,
  f.lba3, f.lba4, f.lba5, f.featureHigh,
  f.countLow, f.countHigh, f.icc, f.control]

/-- `hba_prdt_entry_t`. -/
structure HbaPrdtEntry where
  dba : UINT
  dbau : UINT
  reserved1 : UINT
  dbc : BitVec 22
  reserved2 : BitVec 9
  i : BitVec 1

def HbaPrdtEntry.words (e : HbaPrdtEntry) : List UINT := [e.dba, e.dbau, e.reserved1, e.i ++ e.reserved2 ++ e.dbc]

/-- The parts of `hba_cmd_tbl_t` that are used. -/
structure HbaCmdTbl where
  cfis : FisRegH2d
  prdtEntry : HbaPrdtEntry

/-- After the `memset`. -/
def HbaCmdTbl.zeroed : HbaCmdTbl := ⟨⟨0, 0, 0, 0, 0, 0, 0, 0, 0, 0, 0, 0, 0, 0, 0, 0, 0, 0, 0⟩, ⟨0, 0, 0, 0, 0, 0⟩⟩

end Layout

section Model

def FIS_TYPE_REG_H2D : UCHAR := 0x27
def ATA_CMD_READ_DMA_EX : UCHAR := 0x25

/-- The command that `ReadAhci` builds. -/
def readAhci (sector : ULONG64) (sectorCount : UINT) (buffer : PVOID) : HbaCmdTbl :=
  let sectorL : UINT := sector.setWidth 32
  let sectorH : UINT := (sector >>> 32).setWidth 32
  let prdtEntry := HbaCmdTbl.zeroed.prdtEntry
  let prdtEntry := { prdtEntry with dba := buffer.setWidth 32 }
  let prdtEntry := { prdtEntry with dbau := (buffer >>> 32).setWidth 32 }
  let prdtEntry := { prdtEntry with dbc := ((sectorCount <<< 9) - 1#32).setWidth 22 }
  let prdtEntry := { prdtEntry with i := 1 }
  let cmdFIS := HbaCmdTbl.zeroed.cfis
  let cmdFIS := { cmdFIS with fisType := FIS_TYPE_REG_H2D }
  let cmdFIS := { cmdFIS with control := 1 }
  let cmdFIS := { cmdFIS with command := ATA_CMD_READ_DMA_EX }
  let cmdFIS := { cmdFIS with lbaLow := sectorL.setWidth 8 }
  let cmdFIS := { cmdFIS with lbaMid := (sectorL >>> 8).setWidth 8 }
  let cmdFIS := { cmdFIS with lbaHigh := (sectorL >>> 16).setWidth 8 }
  let cmdFIS := { cmdFIS with lba3 := sectorH.setWidth 8 }
  let cmdFIS := { cmdFIS with lba4 := (sectorH >>> 8).setWidth 8 }
  let cmdFIS := { cmdFIS with lba4 := (sectorH >>> 16).setWidth 8 }
  let cmdFIS := { cmdFIS with dev := 1 <<< 6 }
  let cmdFIS := { cmdFIS with countLow := (sectorCount &&& 0xFF).setWidth 8 }
  let cmdFIS := { cmdFIS with countHigh := ((sectorCount >>> 8) &&& 0xFF).setWidth 8 }
  ⟨cmdFIS, prdtEntry⟩

end Model

section Device

/-- What a device takes from a command table. -/
structure AtaCommand where
  isCommand : Bool
  sector : ℕ
  sectorCount : ℕ
  byteCount : ℕ
  buffer : ℕ
  deriving DecidableEq

/-- The six address bytes do not follow each other, and the byte count is one more than its field. -/
def HbaCmdTbl.decoded (t : HbaCmdTbl) : AtaCommand :=
  let fis := fun k => (t.cfis.bytes.getD k 0).toNat
  let prdt := fun k => (t.prdtEntry.words.getD k 0).toNat
  { isCommand := (t.cfis.bytes.getD 1 0).getLsbD 7
    sector := fis 4 + fis 5 * 2^8 + fis 6 * 2^16 + fis 8 * 2^24 + fis 9 * 2^32 + fis 10 * 2^40
    sectorCount := fis 12 + fis 13 * 2^8
    byteCount := prdt 3 % 2^22 + 1
    buffer := prdt 0 + prdt 1 * 2^32 }

/-- The table is a command for the sectors and the buffer. -/
def HbaCmdTbl.Encodes (t : HbaCmdTbl) (sector : ULONG64) (sectorCount : UINT) (buffer : PVOID) : Prop :=
  t.decoded = ⟨true, sector.toNat, sectorCount.toNat, 512 * sectorCount.toNat, buffer.toNat⟩

/-- The same table with the `c` bit. -/
def HbaCmdTbl.withCommandBit (t : HbaCmdTbl) : HbaCmdTbl := { t with cfis := { t.cfis with c := 1 } }

variable {sector : ULONG64} {sectorCount : UINT} {buffer : PVOID}

/-- Of the upper bytes, one is not written, and one is in a wrong place. -/
lemma readAhci_sector (hsector : sector.toNat < 2^48) : (readAhci sector sectorCount buffer).decoded.sector =
    sector.toNat % 2^24 + sector.toNat / 2^32 % 2^8 * 2^24 := by
  have hfis : (readAhci sector sectorCount buffer).decoded.sector =
      ((sector.setWidth 32).setWidth 8).toNat + (((sector.setWidth 32) >>> 8).setWidth 8).toNat * 2^8 +
        (((sector.setWidth 32) >>> 16).setWidth 8).toNat * 2^16 +
        (((sector >>> 32).setWidth 32).setWidth 8).toNat * 2^24 +
        ((((sector >>> 32).setWidth 32) >>> 16).setWidth 8).toNat * 2^32 + (0#8).toNat * 2^40 := rfl
  rw [hfis]
  simp only [BitVec.toNat_setWidth, BitVec.toNat_ushiftRight, Nat.shiftRight_eq_div_pow, BitVec.toNat_ofNat]
  omega

/-- The address is right below 2^24, and only there. -/
lemma readAhci_sector_iff (hsector : sector.toNat < 2^48) :
    (readAhci sector sectorCount buffer).decoded.sector = sector.toNat ↔ sector.toNat < 2^24 := by
  rw [readAhci_sector hsector]
  constructor
  · intro h
    have hsmall : sector.toNat < 2^32 := by omega
    omega
  · intro hsmall
    omega

lemma readAhci_sectorCount (hmax : sectorCount.toNat ≤ 8192) :
    (readAhci sector sectorCount buffer).decoded.sectorCount = sectorCount.toNat := by
  have hfis : (readAhci sector sectorCount buffer).decoded.sectorCount =
      ((sectorCount &&& 0xFF#32).setWidth 8).toNat + (((sectorCount >>> 8) &&& 0xFF#32).setWidth 8).toNat * 2^8 := rfl
  have hmask : ∀ n : ℕ, n &&& 255 = n % 2^8 := fun n => Nat.and_two_pow_sub_one_eq_mod n 8
  rw [hfis]
  simp only [BitVec.toNat_setWidth, BitVec.toNat_ushiftRight, Nat.shiftRight_eq_div_pow, BitVec.toNat_and,
    BitVec.toNat_ofNat, Nat.reduceMod, Nat.reducePow, hmask]
  omega

/-- The field holds the number of bytes but one. -/
lemma readAhci_byteCount (hpos : 1 ≤ sectorCount.toNat) (hmax : sectorCount.toNat ≤ 8192) :
    (readAhci sector sectorCount buffer).decoded.byteCount = 512 * sectorCount.toNat := by
  have hprdt : (readAhci sector sectorCount buffer).decoded.byteCount =
      ((1#1 ++ 0#9) ++ ((sectorCount <<< 9) - 1#32).setWidth 22).toNat % 2^22 + 1 := rfl
  have hshift : (sectorCount <<< 9).toNat = 512 * sectorCount.toNat := by
    rw [BitVec.toNat_shiftLeft, Nat.shiftLeft_eq]
    omega
  have hfield : (((sectorCount <<< 9) - 1#32).setWidth 22).toNat = 512 * sectorCount.toNat - 1 := by
    rw [BitVec.toNat_setWidth, BitVec.toNat_sub, hshift, BitVec.toNat_ofNat]
    omega
  rw [hprdt, BitVec.toNat_append, hfield, ← Nat.shiftLeft_add_eq_or_of_lt (by omega), Nat.shiftLeft_eq]
  omega

lemma readAhci_buffer : (readAhci sector sectorCount buffer).decoded.buffer = buffer.toNat := by
  have hprdt : (readAhci sector sectorCount buffer).decoded.buffer =
      (buffer.setWidth 32).toNat + ((buffer >>> 32).setWidth 32).toNat * 2^32 := rfl
  have := buffer.isLt
  rw [hprdt]
  simp only [BitVec.toNat_setWidth, BitVec.toNat_ushiftRight, Nat.shiftRight_eq_div_pow]
  omega

lemma readAhci_isCommand : (readAhci sector sectorCount buffer).decoded.isCommand = false := by
  have hbyte : (readAhci sector sectorCount buffer).cfis.bytes.getD 1 0 = (0#1 ++ 0#3 ++ 0#4 : BitVec 8) := rfl
  rw [HbaCmdTbl.decoded]
  dsimp only
  rw [hbyte]
  decide

/-- No read is marked as a command; otherwise, the first 2^24 sectors could be read. -/
theorem readAhci_never_encodes (hsector : sector.toNat < 2^48) (hpos : 1 ≤ sectorCount.toNat)
    (hmax : sectorCount.toNat ≤ 8192) : ¬ (readAhci sector sectorCount buffer).Encodes sector sectorCount buffer ∧
      ((readAhci sector sectorCount buffer).withCommandBit.Encodes sector sectorCount buffer ↔
        sector.toNat < 2^24) := by
  constructor
  · intro h
    have hcommand := congrArg AtaCommand.isCommand h
    rw [readAhci_isCommand] at hcommand
    exact Bool.noConfusion hcommand
  · have hdecoded : (readAhci sector sectorCount buffer).withCommandBit.decoded =
        { (readAhci sector sectorCount buffer).decoded with isCommand := true } := by
      have hbit : (1#1 ++ 0#3 ++ 0#4 : BitVec 8).getLsbD 7 = true := by decide
      rw [← hbit]
      rfl
    have hiff : (readAhci sector sectorCount buffer).decoded.sector = sector.toNat ↔ sector.toNat < 2^24 :=
      readAhci_sector_iff hsector
    rw [HbaCmdTbl.Encodes, hdecoded, ← hiff]
    simp [readAhci_sectorCount hmax, readAhci_byteCount hpos hmax, readAhci_buffer]

/-- The first sector. -/
theorem first_sector_no_command : ¬ (readAhci 0 1 0x1000).Encodes 0 1 0x1000 := by
  unfold HbaCmdTbl.Encodes
  decide +kernel

/-- Sector 2^24, into a buffer above 4 GiB. -/
theorem readAhci_never_encodes_above : ¬ (readAhci 0x1000000 8192 0x100000000).Encodes 0x1000000 8192 0x100000000 ∧
    ((readAhci 0x1000000 8192 0x100000000).withCommandBit.Encodes 0x1000000 8192 0x100000000 ↔
      (0x1000000 : ULONG64).toNat < 2^24) :=
  readAhci_never_encodes (by decide) (by decide) (by decide)

end Device

end Open98.Drv
