import Open98.Drv.Ata
import Open98.Fat32.Entry

/-! Mounting: the partition table of `drv/filesystem/partition.c`, and `FatInitialize` with the boot
sector and the table that it reads. What is allocated or on the stack holds `junk` until it is
written. Debug output is left out. -/
namespace Open98.Fat32
open Open98.Ata

@[ext] structure BiosParameterBlock where
  bytesPerSector : ℕ
  sectorsPerCluster : ℕ
  reservedSectors : ℕ
  fatCount : ℕ
  directoryEntries : ℕ
  totalSectors : ℕ
  mediaDescriptorType : UCHAR
  sectorsPerFat : ℕ
  sectorsPerTrack : ℕ
  headsOrSizesOnMedia : ℕ
  hiddenSectors : ℕ
  largeSectorsOnMedia : ℕ
  sectorsPerFat32 : ℕ
  flags : ℕ
  fatVersion : ℕ
  clusterRootDirectory : ℕ
  fsInfoSectorNumber : ℕ
  backupBootSectorNumber : ℕ
  driveNumber : UCHAR
  windowsFlags : UCHAR
  signature : UCHAR
  volumeSerial : ℕ
  volumeLabel : Buffer
  systemID : Buffer

/-- `struct FAT32` as mounting fills it, with the size of the block that `FAT` points to. -/
structure MountRecord where
  letterAssigned : UCHAR
  rootPath : Fin 2 → UCHAR
  FAT : ℕ → ℕ
  bytesPerFat : ℕ
  biosParameterBlock : BiosParameterBlock
  partitionSector : ℕ
  fatSector : ℕ
  clusterSector : ℕ
  clusterSize : ℕ
  clusterAllocationHint : ℕ

section Decoding

/-- `UtilReadInteger16`, in a buffer. -/
def bufferInteger16 (buff : Buffer) (offset : ℕ) : ℕ :=
  (buff (offset+1)).toNat * 2^8 + (buff offset).toNat

/-- `UtilReadInteger32`, in a buffer. -/
def bufferInteger32 (buff : Buffer) (offset : ℕ) : ℕ :=
  (buff (offset+3)).toNat * 2^24 + (buff (offset+2)).toNat * 2^16 + (buff (offset+1)).toNat * 2^8 +
    (buff offset).toNat

/-- The stores of `FatReadSectorBiosParameterBlock`. -/
def decodeBootSector (BootSector : Buffer) : BiosParameterBlock where
  bytesPerSector := bufferInteger16 BootSector 11
  sectorsPerCluster := (BootSector 13).toNat
  reservedSectors := bufferInteger16 BootSector 14
  fatCount := (BootSector 16).toNat
  directoryEntries := bufferInteger16 BootSector 17
  totalSectors := bufferInteger16 BootSector 19
  mediaDescriptorType := BootSector 21
  sectorsPerFat := bufferInteger16 BootSector 22
  sectorsPerTrack := bufferInteger16 BootSector 24
  headsOrSizesOnMedia := bufferInteger16 BootSector 26
  hiddenSectors := bufferInteger32 BootSector 28
  largeSectorsOnMedia := bufferInteger32 BootSector 32
  sectorsPerFat32 := bufferInteger32 BootSector 36
  flags := bufferInteger16 BootSector 40
  fatVersion := bufferInteger16 BootSector 42
  clusterRootDirectory := bufferInteger32 BootSector 44
  fsInfoSectorNumber := bufferInteger16 BootSector 48
  backupBootSectorNumber := bufferInteger16 BootSector 50
  driveNumber := BootSector 64
  windowsFlags := BootSector 65
  signature := BootSector 66
  volumeSerial := bufferInteger32 BootSector 67
  volumeLabel k := if k < 11 then BootSector (71+k) else 0
  systemID k := if k < 8 then BootSector (82+k) else 0

/-- `StartingSector` of an entry of the partition table. -/
def startingSector (MBRTable : Buffer) (i : ℕ) : ℕ := bufferInteger32 MBRTable (446 + 16*i + 8)

end Decoding

section Model
variable {δ : Type} [Disk δ]

def MAX_PARTITION : ℕ := 4

/-- The return value -1. -/
def noPartition : ℕ := 2^32 - 1

/-- What `FatAcquirePartitionSector` returns once it has read the table. -/
def partitionSector (MBRTable : Buffer) (iPartitionNum : ℕ) : ℕ :=
  if MAX_PARTITION - 1 < iPartitionNum then noPartition
  else if MBRTable 510 = 0x55 ∧ MBRTable 511 = 0xAA then
    if startingSector MBRTable iPartitionNum = 0 then noPartition
    else startingSector MBRTable iPartitionNum
  else noPartition

def fatAcquirePartitionSector (d : δ) (junk : Buffer) (iPartitionNum : ℕ) : Result ℕ := do
  let MBRTable ← Disk.kiATAReadDiskEx d 0 1 junk
  return partitionSector MBRTable iPartitionNum

/-- The partition is always asked for by the number `NULL`. -/
def fatReadSectorBiosParameterBlock (d : δ) (junk : Buffer) : Result BiosParameterBlock := do
  let sector ← fatAcquirePartitionSector d junk 0
  let BootSector ← fatGetSector d junk sector 1
  return decodeBootSector BootSector

/-- The inner loading loop: the cells of one sector. -/
def loadSector (FAT : ℕ → ℕ) (sector : Buffer) (start : ℕ) : ℕ → ℕ :=
  fun c => if start ≤ c ∧ c < start + 128 then bufferInteger32 sector ((c - start) * 4) else FAT c

/-- The outer loading loop, up to a number of sectors. -/
def loadFat (d : δ) (junk : Buffer) (fatSector : ℕ) (FAT : ℕ → ℕ) : ℕ → Result (ℕ → ℕ)
  | 0 => .ok FAT
  | sector_i+1 => do
    let FAT ← loadFat d junk fatSector FAT sector_i
    let sector ← fatGetSector d junk ((fatSector + sector_i) % 2^32) 1
    return loadSector FAT sector (sector_i * 128 % 2^32)

/-- `LetterAssignment`. -/
def letterAssignment (i : ℕ) : UCHAR := [0x43, 0x44, 0x45, 0x46].getD i 0

/-- `"FAT32"`. -/
def fat32Name : List UCHAR := [0x46, 0x41, 0x54, 0x33, 0x32]

/-- The check of the trimmed `SystemID`. -/
def BiosParameterBlock.IsFat32 (b : BiosParameterBlock) : Prop :=
  strcmpEq (utilTrimSpaces b.systemID 8) fat32Name

instance : DecidablePred BiosParameterBlock.IsFat32 := fun b =>
  inferInstanceAs (Decidable (strcmpEq (utilTrimSpaces b.systemID 8) fat32Name = true))

/-- The first sector of the table. -/
def BiosParameterBlock.fatSector (b : BiosParameterBlock) (partitionSector : ℕ) : ℕ :=
  (partitionSector + b.reservedSectors) % 2^32

/-- The record that `FatInitialize` fills. -/
def mountRecord (iLastDriveCount partitionSector : ℕ) (b : BiosParameterBlock) (FAT : ℕ → ℕ) :
    MountRecord where
  letterAssigned := letterAssignment iLastDriveCount
  rootPath i := if i = 0 then letterAssignment iLastDriveCount else 0x3A
  FAT := FAT
  bytesPerFat := 512 * b.sectorsPerFat32 % 2^32
  biosParameterBlock := { b with systemID := utilTrimSpaces b.systemID 8 }
  partitionSector := partitionSector
  fatSector := b.fatSector partitionSector
  clusterSector := (b.fatSector partitionSector + b.fatCount * b.sectorsPerFat32) % 2^32
  clusterSize := 512 * b.sectorsPerCluster
  clusterAllocationHint := 0

/-- The record, unless it is `NULL`, and `iLastDriveCount` after the call. The block for the table
holds `cells` before it is loaded. -/
def fatInitialize (d : δ) (junk : Buffer) (cells : ℕ → ℕ) (iLastDriveCount iPartitionNumber : ℕ) :
    Result (Option MountRecord × ℕ) := do
  let PartitionSector ← fatAcquirePartitionSector d junk iPartitionNumber
  if PartitionSector = noPartition then
    return (none, iLastDriveCount)
  else
    let b ← fatReadSectorBiosParameterBlock d junk
    if ¬ b.IsFat32 then
      return (none, iLastDriveCount)
    else if iLastDriveCount = 4 then
      return (none, iLastDriveCount)
    else
      let FAT ← loadFat d junk (b.fatSector PartitionSector) cells b.sectorsPerFat32
      return (some (mountRecord iLastDriveCount PartitionSector b FAT), iLastDriveCount + 1)

/-- Calls one after another, with what each returns. -/
def mountAll (d : δ) (junk : Buffer) (cells : ℕ → ℕ) :
    (iLastDriveCount : ℕ) → List ℕ → Result (List (ℕ × Option MountRecord))
  | _, [] => .ok []
  | iLastDriveCount, k :: ks => do
    let (fs, iLastDriveCount) ← fatInitialize d junk cells iLastDriveCount k
    let rest ← mountAll d junk cells iLastDriveCount ks
    return (k, fs) :: rest

end Model

section Specification
variable {δ : Type} [Disk δ]

/-- Reading one sector delivers it, and changes nothing in the buffer behind it. -/
def ReadsSectors (d : δ) (sectors : ℕ → Sector) : Prop :=
  ∀ s < 2^32, ∀ buff, Disk.kiATAReadDiskEx d s 1 buff = .ok (storeSector buff 0 (sectors s))

def sectorBytes (s : Sector) : Buffer := storeSector (fun _ => 0) 0 s

variable (sectors : ℕ → Sector)

/-- The first sector ends in the signature of a master boot record. -/
def Signed : Prop := sectors 0 510 = 0x55 ∧ sectors 0 511 = 0xAA

/-- Where the table lets a partition start. -/
def start (k : ℕ) : ℕ := startingSector (sectorBytes (sectors 0)) k

/-- There is no such entry, or it is empty. The number of the last sector stands for "none". -/
def Absent (k : ℕ) : Prop := 4 ≤ k ∨ start sectors k = 0 ∨ start sectors k = noPartition

/-- The parameters in the boot sector that lies at a place. -/
def bootBlock (sector : ℕ) : BiosParameterBlock := decodeBootSector (sectorBytes (sectors sector))

/-- Cell `c` of the table that starts at a sector. -/
def cellOnDisk (fatSector c : ℕ) : ℕ :=
  bufferInteger32 (sectorBytes (sectors ((fatSector + c / 128) % 2^32))) (c % 128 * 4)

/-- The record describes the volume whose boot sector lies at this place. -/
structure MountedFrom (sector : ℕ) (v : MountRecord) : Prop where
  partitionSector : v.partitionSector = sector
  fatSector : v.fatSector = (bootBlock sectors sector).fatSector sector
  clusterSector : v.clusterSector = ((bootBlock sectors sector).fatSector sector +
    (bootBlock sectors sector).fatCount * (bootBlock sectors sector).sectorsPerFat32) % 2^32
  clusterSize : v.clusterSize = 512 * (bootBlock sectors sector).sectorsPerCluster
  sectorsPerFat32 : v.biosParameterBlock.sectorsPerFat32 = (bootBlock sectors sector).sectorsPerFat32
  bytesPerFat : v.bytesPerFat = 512 * (bootBlock sectors sector).sectorsPerFat32
  cells : ∀ c < 128 * (bootBlock sectors sector).sectorsPerFat32,
    v.FAT c = cellOnDisk sectors ((bootBlock sectors sector).fatSector sector) c

/-- What mounting partition `k` should return when this many volumes are mounted. -/
def MountsRight (mounted k : ℕ) (fs : Option MountRecord) : Prop :=
  (fs = none ↔ Absent sectors k ∨ ¬ (bootBlock sectors (start sectors k)).IsFat32 ∨ mounted = 4) ∧
    ∀ v, fs = some v → MountedFrom sectors (start sectors k) v

/-- A boot sector that was read in place of another one is as good as that. -/
def Stands (b b' : BiosParameterBlock) : Prop :=
  (b.IsFat32 ↔ b'.IsFat32) ∧ (b'.IsFat32 → b.reservedSectors = b'.reservedSectors ∧
    b.sectorsPerFat32 = b'.sectorsPerFat32 ∧ b'.sectorsPerFat32 < 2^23 ∧
    b.fatCount * b.sectorsPerFat32 % 2^32 = b'.fatCount * b'.sectorsPerFat32 % 2^32 ∧
    b.sectorsPerCluster = b'.sectorsPerCluster)

/-- The boot sector that every mount reads: partition 0's, or the last sector if there is none. -/
def readBlock : BiosParameterBlock :=
  bootBlock sectors (partitionSector (sectorBytes (sectors 0)) 0)

end Specification

section Reading
variable {δ : Type} [Disk δ] {sectors : ℕ → Sector}

lemma bufferInteger32_lt (b : Buffer) (offset : ℕ) : bufferInteger32 b offset < 2^32 := by
  have h0 := (b offset).isLt
  have h1 := (b (offset+1)).isLt
  have h2 := (b (offset+2)).isLt
  have h3 := (b (offset+3)).isLt
  rw [bufferInteger32]
  omega

lemma bufferInteger16_lt (b : Buffer) (offset : ℕ) : bufferInteger16 b offset < 2^16 := by
  have h0 := (b offset).isLt
  have h1 := (b (offset+1)).isLt
  rw [bufferInteger16]
  omega

lemma storeSector_eq_sectorBytes (buff : Buffer) (s : Sector) {k : ℕ} (hk : k < 512) :
    storeSector buff 0 s k = sectorBytes s k := by
  rw [sectorBytes, storeSector, storeSector, dif_pos (by omega), dif_pos (by omega)]

section Congruence
variable {b b' : Buffer} (h : ∀ k < 512, b k = b' k)
include h

lemma bufferInteger32_congr {offset : ℕ} (hoffset : offset + 3 < 512) :
    bufferInteger32 b offset = bufferInteger32 b' offset := by
  rw [bufferInteger32, h _ hoffset, h _ (by omega), h _ (by omega), h _ (by omega)]
  rfl

lemma bufferInteger16_congr {offset : ℕ} (hoffset : offset + 1 < 512) :
    bufferInteger16 b offset = bufferInteger16 b' offset := by
  rw [bufferInteger16, h _ hoffset, h _ (by omega)]
  rfl

lemma decodeBootSector_congr : decodeBootSector b = decodeBootSector b' := by
  apply BiosParameterBlock.ext
  case volumeLabel =>
    funext k
    change (if k < 11 then b (71+k) else 0) = if k < 11 then b' (71+k) else 0
    split_ifs with hk
    · exact h _ (by omega)
    · rfl
  case systemID =>
    funext k
    change (if k < 8 then b (82+k) else 0) = if k < 8 then b' (82+k) else 0
    split_ifs with hk
    · exact h _ (by omega)
    · rfl
  all_goals simp (disch := omega) only [decodeBootSector, bufferInteger32_congr h,
    bufferInteger16_congr h, h]

lemma partitionSector_congr (k : ℕ) : partitionSector b k = partitionSector b' k := by
  by_cases hk : MAX_PARTITION - 1 < k
  · rw [partitionSector, partitionSector, if_pos hk, if_pos hk]
  · have hstart : startingSector b k = startingSector b' k := by
      apply bufferInteger32_congr h
      unfold MAX_PARTITION at hk
      omega
    rw [partitionSector, partitionSector, h 510 (by decide), h 511 (by decide), hstart]

end Congruence

lemma partitionSector_lt (b : Buffer) (k : ℕ) : partitionSector b k < 2^32 := by
  rw [partitionSector, noPartition]
  split_ifs with hk hsig hzero
  · decide
  · decide
  · exact bufferInteger32_lt _ _
  · decide

variable {d : δ} (hreads : ReadsSectors d sectors) (junk : Buffer)
include hreads

lemma fatAcquirePartitionSector_eq (k : ℕ) : fatAcquirePartitionSector d junk k =
    .ok (partitionSector (sectorBytes (sectors 0)) k) := by
  rw [fatAcquirePartitionSector, hreads 0 (by decide), ok_bind]
  exact congrArg Except.ok
    (partitionSector_congr (fun i hi => storeSector_eq_sectorBytes junk (sectors 0) hi) k)

lemma fatReadSectorBiosParameterBlock_eq :
    fatReadSectorBiosParameterBlock d junk = .ok (readBlock sectors) := by
  rw [fatReadSectorBiosParameterBlock, fatAcquirePartitionSector_eq hreads, ok_bind, fatGetSector,
    hreads _ (partitionSector_lt _ 0), ok_bind]
  exact congrArg Except.ok (decodeBootSector_congr fun i hi => storeSector_eq_sectorBytes junk _ hi)

/-- The loading loop finishes, and as long as the numbers of the cells do not wrap around, it brings
every cell from the disk and leaves those behind them alone. -/
lemma loadFat_eq (fatSector : ℕ) (cells : ℕ → ℕ) (n : ℕ) :
    ∃ FAT, loadFat d junk fatSector cells n = .ok FAT ∧
      (n ≤ 2^25 → ∀ c, FAT c = if c < 128 * n then cellOnDisk sectors fatSector c else cells c) := by
  induction n with
  | zero => exact ⟨cells, rfl, fun _ c => by simp⟩
  | succ n ih =>
    obtain ⟨FAT, hload, hcells⟩ := ih
    rw [loadFat, hload, ok_bind, fatGetSector, hreads _ (Nat.mod_lt _ (by decide)), ok_bind]
    refine ⟨_, rfl, fun hn c => ?_⟩
    rw [loadSector, Nat.mod_eq_of_lt (by omega), hcells (by omega)]
    by_cases hc : n * 128 ≤ c ∧ c < n * 128 + 128
    · rw [if_pos hc, if_pos (by omega), cellOnDisk, show c / 128 = n by omega,
        show c - n * 128 = c % 128 by omega]
      exact bufferInteger32_congr (fun i hi => storeSector_eq_sectorBytes junk _ hi) (by omega)
    · rw [if_neg hc]
      by_cases hlt : c < 128 * n
      · rw [if_pos hlt, if_pos (by omega)]
      · rw [if_neg hlt, if_neg (by omega)]

/-- What a mount returns, in terms of the sectors. -/
lemma fatInitialize_eq (cells : ℕ → ℕ) (mounted k : ℕ) : fatInitialize d junk cells mounted k =
    if partitionSector (sectorBytes (sectors 0)) k = noPartition then .ok (none, mounted)
    else if ¬ (readBlock sectors).IsFat32 then .ok (none, mounted)
    else if mounted = 4 then .ok (none, mounted)
    else do
      let FAT ← loadFat d junk
        ((readBlock sectors).fatSector (partitionSector (sectorBytes (sectors 0)) k)) cells
        (readBlock sectors).sectorsPerFat32
      return (some (mountRecord mounted (partitionSector (sectorBytes (sectors 0)) k)
        (readBlock sectors) FAT), mounted + 1) := by
  rw [fatInitialize, fatAcquirePartitionSector_eq hreads, ok_bind,
    fatReadSectorBiosParameterBlock_eq hreads, ok_bind]
  rfl

end Reading

section Mounting
variable {δ : Type} [Disk δ] {sectors : ℕ → Sector}

lemma partitionSector_present (hsig : Signed sectors) {k : ℕ} (hk : ¬ Absent sectors k) :
    partitionSector (sectorBytes (sectors 0)) k = start sectors k := by
  rw [Absent, not_or, not_or] at hk
  obtain ⟨hlt, hzero, -⟩ := hk
  have hbytes : sectorBytes (sectors 0) 510 = 0x55 ∧ sectorBytes (sectors 0) 511 = 0xAA := hsig
  rw [partitionSector, if_neg (by unfold MAX_PARTITION; omega), if_pos hbytes]
  exact if_neg hzero

lemma partitionSector_eq_noPartition (hsig : Signed sectors) {k : ℕ} :
    partitionSector (sectorBytes (sectors 0)) k = noPartition ↔ Absent sectors k := by
  constructor
  · intro h
    by_contra hk
    rw [partitionSector_present hsig hk] at h
    exact hk (Or.inr (Or.inr h))
  · intro h
    rw [partitionSector]
    split_ifs with hlt hsig' hzero
    · rfl
    · rfl
    · rcases h with hk | hk | hk
      · exact absurd hk (by unfold MAX_PARTITION at hlt; omega)
      · exact absurd hk hzero
      · exact hk
    · rfl

lemma mountsRight_none {mounted k : ℕ} : MountsRight sectors mounted k none ↔
    Absent sectors k ∨ ¬ (bootBlock sectors (start sectors k)).IsFat32 ∨ mounted = 4 := by
  simp [MountsRight]

lemma mountsRight_some {mounted k : ℕ} {v : MountRecord} :
    MountsRight sectors mounted k (some v) ↔ ¬ (Absent sectors k ∨
      ¬ (bootBlock sectors (start sectors k)).IsFat32 ∨ mounted = 4) ∧
        MountedFrom sectors (start sectors k) v := by
  simp only [MountsRight, reduceCtorEq, false_iff, Option.some.injEq, forall_eq']

lemma reservedSectors_lt (sector : ℕ) : (bootBlock sectors sector).reservedSectors < 2^16 :=
  bufferInteger16_lt _ _

lemma add_mod_left_cancel {a b c m : ℕ} (h : (a + b) % m = (a + c) % m) : b % m = c % m :=
  Nat.ModEq.add_left_cancel' a h

/-- A record that was filled from another boot sector describes the volume exactly when the two agree
on everything that it depends on. -/
lemma mountedFrom_mountRecord {sector sector' count : ℕ} {FAT : ℕ → ℕ}
    (hFAT : (bootBlock sectors sector').sectorsPerFat32 ≤ 2^25 →
      ∀ c < 128 * (bootBlock sectors sector').sectorsPerFat32,
        FAT c = cellOnDisk sectors ((bootBlock sectors sector').fatSector sector) c) :
    MountedFrom sectors sector (mountRecord count sector (bootBlock sectors sector') FAT) ↔
      (bootBlock sectors sector').reservedSectors = (bootBlock sectors sector).reservedSectors ∧
      (bootBlock sectors sector').sectorsPerFat32 = (bootBlock sectors sector).sectorsPerFat32 ∧
      (bootBlock sectors sector).sectorsPerFat32 < 2^23 ∧
      (bootBlock sectors sector').fatCount * (bootBlock sectors sector').sectorsPerFat32 % 2^32 =
        (bootBlock sectors sector).fatCount * (bootBlock sectors sector).sectorsPerFat32 % 2^32 ∧
      (bootBlock sectors sector').sectorsPerCluster = (bootBlock sectors sector).sectorsPerCluster := by
  have hres : (bootBlock sectors sector).reservedSectors < 2^16 := reservedSectors_lt sector
  have hres' : (bootBlock sectors sector').reservedSectors < 2^16 := reservedSectors_lt sector'
  generalize hb : bootBlock sectors sector = b at *
  generalize hb' : bootBlock sectors sector' = b' at *
  constructor
  · intro h
    have hfat : b'.fatSector sector = b.fatSector sector := hb ▸ h.fatSector
    have hreserved : b'.reservedSectors = b.reservedSectors := by
      have hmod := add_mod_left_cancel hfat
      omega
    have hsectors : b'.sectorsPerFat32 = b.sectorsPerFat32 := hb ▸ h.sectorsPerFat32
    have hbytes : 512 * b'.sectorsPerFat32 % 2^32 = 512 * b.sectorsPerFat32 := hb ▸ h.bytesPerFat
    have hcluster : (b'.fatSector sector + b'.fatCount * b'.sectorsPerFat32) % 2^32 =
        (b.fatSector sector + b.fatCount * b.sectorsPerFat32) % 2^32 := hb ▸ h.clusterSector
    have hsize : 512 * b'.sectorsPerCluster = 512 * b.sectorsPerCluster := hb ▸ h.clusterSize
    rw [hfat] at hcluster
    exact ⟨hreserved, hsectors, by omega, add_mod_left_cancel hcluster, by omega⟩
  · intro ⟨hreserved, hsectors, hlt, hcopies, hcluster⟩
    have hfat : b'.fatSector sector = b.fatSector sector := by
      rw [BiosParameterBlock.fatSector, hreserved]
      rfl
    refine ⟨rfl, ?_, ?_, ?_, ?_, ?_, ?_⟩
    · rw [hb]
      exact hfat
    · rw [hb]
      change (b'.fatSector sector + b'.fatCount * b'.sectorsPerFat32) % 2^32 = _
      rw [hfat, Nat.add_mod, hcopies, ← Nat.add_mod]
    · rw [hb]
      exact congrArg (512 * ·) hcluster
    · rw [hb]
      exact hsectors
    · rw [hb]
      change 512 * b'.sectorsPerFat32 % 2^32 = _
      omega
    · rw [hb, ← hfat, ← hsectors]
      exact hFAT (by omega)

/-- When mounting partition `k` returns what it should. -/
def MountsWhen (sectors : ℕ → Sector) (mounted k : ℕ) : Prop :=
  Absent sectors k ∨ mounted = 4 ∨ Stands (readBlock sectors) (bootBlock sectors (start sectors k))

variable {d : δ} (hreads : ReadsSectors d sectors) (hsig : Signed sectors) (junk : Buffer)
  (cells : ℕ → ℕ)
include hreads hsig

/-- One call: it finishes, counts the volume that it returns, and is right under the condition. -/
lemma fatInitialize_right (mounted k : ℕ) : ∃ fs, fatInitialize d junk cells mounted k =
    .ok (fs, mounted + fs.toList.length) ∧
      (MountsRight sectors mounted k fs ↔ MountsWhen sectors mounted k) := by
  rw [fatInitialize_eq hreads]
  by_cases habsent : Absent sectors k
  · refine ⟨none, by rw [if_pos ((partitionSector_eq_noPartition hsig).mpr habsent)]; rfl, ?_⟩
    rw [mountsRight_none]
    exact iff_of_true (Or.inl habsent) (Or.inl habsent)
  rw [if_neg fun h => habsent ((partitionSector_eq_noPartition hsig).mp h),
    partitionSector_present hsig habsent]
  by_cases hread : (readBlock sectors).IsFat32
  · rw [if_neg (not_not_intro hread)]
    by_cases hfour : mounted = 4
    · refine ⟨none, by rw [if_pos hfour]; rfl, ?_⟩
      rw [mountsRight_none]
      exact iff_of_true (Or.inr (Or.inr hfour)) (Or.inr (Or.inl hfour))
    · obtain ⟨FAT, hload, hFAT⟩ := loadFat_eq hreads junk
        ((readBlock sectors).fatSector (start sectors k)) cells (readBlock sectors).sectorsPerFat32
      refine ⟨some (mountRecord mounted (start sectors k) (readBlock sectors) FAT),
        by rw [if_neg hfour, hload]; rfl, ?_⟩
      rw [mountsRight_some, readBlock, mountedFrom_mountRecord]
      · constructor
        · intro ⟨hnot, hagree⟩
          have hfat : (bootBlock sectors (start sectors k)).IsFat32 := by
            by_contra hfat
            exact hnot (Or.inr (Or.inl hfat))
          exact Or.inr (Or.inr ⟨iff_of_true hread hfat, fun _ => hagree⟩)
        · intro hwhen
          rcases hwhen with h | h | ⟨hiff, hagree⟩
          · exact absurd h habsent
          · exact absurd h hfour
          · have hfat := hiff.mp hread
            exact ⟨by simp [habsent, hfour, hfat], hagree hfat⟩
      · intro hle c hc
        exact (hFAT hle c).trans (if_pos hc)
  · refine ⟨none, by rw [if_pos hread]; rfl, ?_⟩
    rw [mountsRight_none]
    constructor
    · intro hnone
      rcases hnone with h | hfat | hfour
      · exact absurd h habsent
      · exact Or.inr (Or.inr ⟨iff_of_false hread hfat, fun h => absurd h hfat⟩)
      · exact Or.inr (Or.inl hfour)
    · intro hwhen
      rcases hwhen with h | hfour | ⟨hiff, -⟩
      · exact absurd h habsent
      · exact Or.inr (Or.inr hfour)
      · exact Or.inr (Or.inl fun hfat => hread (hiff.mpr hfat))

/-- The number of volumes that the calls have returned. -/
def mountedBy (calls : List (ℕ × Option MountRecord)) : ℕ := (calls.flatMap (·.2.toList)).length

lemma mountAll_right (count : ℕ) (ks : List ℕ) :
    ∃ calls, mountAll d junk cells count ks = .ok calls ∧ calls.map Prod.fst = ks ∧
      ∀ before k fs after, calls = before ++ (k, fs) :: after →
        (MountsRight sectors (count + mountedBy before) k fs ↔
          MountsWhen sectors (count + mountedBy before) k) := by
  induction ks generalizing count with
  | nil => exact ⟨[], rfl, rfl, fun before k fs after h => by cases before <;> cases h⟩
  | cons k ks ih =>
    obtain ⟨fs, hcall, hright⟩ := fatInitialize_right hreads hsig junk cells count k
    obtain ⟨calls, hcalls, hks, hrest⟩ := ih (count + fs.toList.length)
    refine ⟨(k, fs) :: calls, ?_, by rw [List.map_cons, hks], ?_⟩
    · rw [mountAll, hcall, ok_bind]
      dsimp only
      rw [hcalls]
      rfl
    intro before k' fs' after heq
    cases before with
    | nil =>
      obtain ⟨hhead, -⟩ := List.cons.inj heq
      obtain ⟨rfl, rfl⟩ := Prod.mk.inj hhead
      exact hright
    | cons call before =>
      obtain ⟨rfl, htail⟩ := List.cons.inj heq
      have hsplit : count + mountedBy ((k, fs) :: before) =
          count + fs.toList.length + mountedBy before := by
        simp [mountedBy, Nat.add_assoc]
      rw [hsplit]
      exact hrest before k' fs' after htail

end Mounting

/-- On every disk with a partition table, and for every order of calls: they all finish, and each
returns what the boot sector of its partition asks for if and only if the partition is absent, four
volumes are mounted, or the boot sector that is read for all partitions is as good as its own. -/
theorem fatInitialize_mounts_iff {δ : Type} [Disk δ] {sectors : ℕ → Sector} {d : δ}
    (hreads : ReadsSectors d sectors) (hsig : Signed sectors) (junk : Buffer) (cells : ℕ → ℕ)
    (ks : List ℕ) :
    ∃ calls, mountAll d junk cells 0 ks = .ok calls ∧ calls.map Prod.fst = ks ∧
      ∀ before k fs after, calls = before ++ (k, fs) :: after →
        (MountsRight sectors (mountedBy before) k fs ↔ MountsWhen sectors (mountedBy before) k) := by
  obtain ⟨calls, hcalls, hks, hright⟩ := mountAll_right hreads hsig junk cells 0 ks
  refine ⟨calls, hcalls, hks, fun before k fs after heq => ?_⟩
  have h := hright before k fs after heq
  rwa [Nat.zero_add] at h

section TwoPartitions

/-- A sector of zeros but for these bytes. -/
def poked (bytes : List (ℕ × UCHAR)) : Sector := fun j => (bytes.lookup j.val).getD 0

/-- A boot sector with one table of one sector behind the reserved ones. -/
def bootSector (reserved : UCHAR) : Sector :=
  poked [(13, 1), (14, reserved), (16, 1), (36, 1), (82, 0x46), (83, 0x41), (84, 0x54), (85, 0x33),
    (86, 0x32), (87, 0x20), (88, 0x20), (89, 0x20)]

/-- Two partitions, from sectors 1 and 2 on, of which the second has one more reserved sector. -/
def twoPartitions : Drive := { blank with
  sectors := fun
    | 0 => poked [(454, 1), (470, 2), (510, 0x55), (511, 0xAA)]
    | 1 => bootSector 1
    | 2 => bootSector 2
    | _ => poked [] }

lemma drive_readsSectors (d : Drive) : ReadsSectors d fun s => d.sectors (s % 2^28) := by
  intro s _ buff
  rw [kiATAReadDiskEx_mod, kiATAReadDiskEx_ok d (Nat.mod_lt _ (by decide)) (by decide)]
  rfl

lemma twoPartitions_signed : Signed fun s => twoPartitions.sectors (s % 2^28) :=
  ⟨rfl, rfl⟩

theorem fatInitialize_mounts_iff_two :
    ∃ calls, mountAll twoPartitions (fun _ => 0) (fun _ => 0) 0 [0, 1] = .ok calls ∧
      calls.map Prod.fst = [0, 1] ∧
      ∀ before k fs after, calls = before ++ (k, fs) :: after →
        (MountsRight (fun s => twoPartitions.sectors (s % 2^28)) (mountedBy before) k fs ↔
          MountsWhen (fun s => twoPartitions.sectors (s % 2^28)) (mountedBy before) k) :=
  fatInitialize_mounts_iff (drive_readsSectors twoPartitions) twoPartitions_signed _ _ [0, 1]

/-- The second partition is mounted with the first one's reserved sectors. -/
theorem second_partition_mounted_wrong :
    ¬ ∀ (d : Drive) (junk : Buffer) (cells : ℕ → ℕ) (ks : List ℕ),
      Signed (fun s => d.sectors (s % 2^28)) → ∀ calls, mountAll d junk cells 0 ks = .ok calls →
        ∀ before k fs after, calls = before ++ (k, fs) :: after →
          MountsRight (fun s => d.sectors (s % 2^28)) (mountedBy before) k fs := by
  intro claim
  let sectors : ℕ → Sector := fun s => twoPartitions.sectors (s % 2^28)
  obtain ⟨fs, hcall, hright⟩ := fatInitialize_right (drive_readsSectors twoPartitions)
    twoPartitions_signed (fun _ => 0) (fun _ => 0) 0 1
  have hmount : MountsRight sectors 0 1 fs := claim twoPartitions (fun _ => 0) (fun _ => 0) [1]
    twoPartitions_signed [(1, fs)] (by rw [mountAll, hcall]; rfl) [] 1 fs [] rfl
  have hfat : (bootBlock sectors (start sectors 1)).IsFat32 := by decide
  have habsent : ¬ Absent sectors 1 := by
    intro habsent
    rcases habsent with h | h | h
    · exact absurd h (by decide)
    · exact absurd h (by decide)
    · exact absurd h (by decide)
  rcases hright.mp hmount with h | h | ⟨-, hagree⟩
  · exact habsent h
  · exact absurd h (by decide)
  · exact absurd (hagree hfat).1 (by decide)

end TwoPartitions

end Open98.Fat32
