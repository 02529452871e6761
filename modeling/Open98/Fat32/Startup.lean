import Open98.Fat32.Mount
import Open98.Library.BlockHeap

/-! The `Partition` array and the records that it refers to: `FatInitialize` with its allocations,
as `KiSystemStartup` of `initos.c` calls it, and `FatResolveByPrefix`, over a heap that may hand out
whatever is not allocated. -/
namespace Open98.Fat32
open Open98.Ata Open98.Library

inductive HeapOwner
  | fat32
  | bootSector
  | table
  | other
deriving DecidableEq

section Records

/-- `sizeof( struct FAT32 )`. -/
def sizeofFat32 : ℕ := 112

/-- The bytes of an array, one by one. -/
def arrayCells (offset n : ℕ) (bytes : Buffer) : List (Field × ℕ) :=
  (List.range n).map fun k => (⟨offset + k, 1⟩, (bytes k).toNat)

/-- `fs->BiosParameterBlock`. -/
def BiosParameterBlock.cells (b : BiosParameterBlock) : List (Field × ℕ) := [
  (⟨16, 2⟩, b.bytesPerSector),
  (⟨18, 1⟩, b.sectorsPerCluster),
  (⟨20, 2⟩, b.reservedSectors),
  (⟨22, 1⟩, b.fatCount),
  (⟨24, 2⟩, b.directoryEntries),
  (⟨26, 2⟩, b.totalSectors),
  (⟨28, 1⟩, b.mediaDescriptorType.toNat),
  (⟨30, 2⟩, b.sectorsPerFat),
  (⟨32, 2⟩, b.sectorsPerTrack),
  (⟨34, 2⟩, b.headsOrSizesOnMedia),
  (⟨36, 4⟩, b.hiddenSectors),
  (⟨40, 4⟩, b.largeSectorsOnMedia),
  (⟨44, 4⟩, b.sectorsPerFat32),
  (⟨48, 2⟩, b.flags),
  (⟨50, 2⟩, b.fatVersion),
  (⟨52, 4⟩, b.clusterRootDirectory),
  (⟨56, 2⟩, b.fsInfoSectorNumber),
  (⟨58, 2⟩, b.backupBootSectorNumber),
  (⟨60, 1⟩, b.driveNumber.toNat),
  (⟨61, 1⟩, b.windowsFlags.toNat),
  (⟨62, 1⟩, b.signature.toNat),
  (⟨64, 4⟩, b.volumeSerial)] ++ arrayCells 68 12 b.volumeLabel ++ arrayCells 80 9 b.systemID

/-- `RootPath[ 0 ]`. -/
def letterField : Field := ⟨1, 1⟩

/-- The fields that `FatInitialize` sets itself, with the address of the table. -/
def MountRecord.ownCells (r : MountRecord) (FAT : ℕ) : List (Field × ℕ) := [
  (⟨0, 1⟩, r.letterAssigned.toNat),
  (letterField, (r.rootPath 0).toNat),
  (⟨2, 1⟩, (r.rootPath 1).toNat),
  (⟨8, 8⟩, FAT),
  (⟨92, 4⟩, r.partitionSector),
  (⟨96, 4⟩, r.fatSector),
  (⟨100, 4⟩, r.clusterSector),
  (⟨104, 4⟩, r.clusterSize),
  (⟨108, 4⟩, r.clusterAllocationHint)]

def MountRecord.cells (r : MountRecord) (FAT : ℕ) : List (Field × ℕ) :=
  r.biosParameterBlock.cells ++ r.ownCells FAT

def parameterFields : List Field :=
  [⟨16, 2⟩, ⟨18, 1⟩, ⟨20, 2⟩, ⟨22, 1⟩, ⟨24, 2⟩, ⟨26, 2⟩, ⟨28, 1⟩, ⟨30, 2⟩, ⟨32, 2⟩, ⟨34, 2⟩, ⟨36, 4⟩, ⟨40, 4⟩,
    ⟨44, 4⟩, ⟨48, 2⟩, ⟨50, 2⟩, ⟨52, 4⟩, ⟨56, 2⟩, ⟨58, 2⟩, ⟨60, 1⟩, ⟨61, 1⟩, ⟨62, 1⟩, ⟨64, 4⟩] ++
    (List.range 12).map (fun k => ⟨68 + k, 1⟩) ++ (List.range 9).map fun k => ⟨80 + k, 1⟩

def ownFields : List Field :=
  [⟨0, 1⟩, letterField, ⟨2, 1⟩, ⟨8, 8⟩, ⟨92, 4⟩, ⟨96, 4⟩, ⟨100, 4⟩, ⟨104, 4⟩, ⟨108, 4⟩]

lemma BiosParameterBlock.cells_fields (b : BiosParameterBlock) :
    b.cells.map Prod.fst = parameterFields := rfl

lemma MountRecord.ownCells_fields (r : MountRecord) (FAT : ℕ) :
    (r.ownCells FAT).map Prod.fst = ownFields := rfl

lemma MountRecord.cells_apart (r : MountRecord) (FAT : ℕ) :
    ((r.cells FAT).map Prod.fst).Pairwise Field.Apart := by
  rw [cells, List.map_append, BiosParameterBlock.cells_fields, ownCells_fields]
  decide

lemma BiosParameterBlock.cells_inside (b : BiosParameterBlock) :
    ∀ f ∈ b.cells, f.1.offset + f.1.width ≤ sizeofFat32 := by
  have hfields : ∀ f ∈ parameterFields, f.offset + f.width ≤ sizeofFat32 := by decide
  exact fun f hf => hfields _ (b.cells_fields ▸ List.mem_map_of_mem hf)

lemma MountRecord.ownCells_inside (r : MountRecord) (FAT : ℕ) :
    ∀ f ∈ r.ownCells FAT, f.1.offset + f.1.width ≤ sizeofFat32 := by
  have hfields : ∀ f ∈ ownFields, f.offset + f.width ≤ sizeofFat32 := by decide
  exact fun f hf => hfields _ (r.ownCells_fields FAT ▸ List.mem_map_of_mem hf)

/-- The memory holds the record, with every number as its field can hold it. -/
def HoldsRecord (mem : ByteMemory) (fs : ℕ) (r : MountRecord) (FAT : ℕ) : Prop :=
  ∀ f ∈ r.cells FAT, loadField mem fs f.1 = f.2 % 2^(8*f.1.width)

lemma holdsRecord_storeFields (mem : ByteMemory) (fs : ℕ) (r : MountRecord) (FAT : ℕ) :
    HoldsRecord (storeFields fs (r.cells FAT) mem) fs r FAT :=
  fun _ hf => loadField_storeFields (r.cells_apart FAT) hf

lemma HoldsRecord.congr {mem mem' : ByteMemory} {fs : ℕ} {r : MountRecord} {FAT : ℕ}
    (hholds : HoldsRecord mem fs r FAT) (h : ∀ a, fs ≤ a → a < fs + sizeofFat32 → mem' a = mem a) :
    HoldsRecord mem' fs r FAT := by
  intro f hf
  have hinside : f.1.offset + f.1.width ≤ sizeofFat32 := by
    rcases List.mem_append.mp hf with hf | hf
    · exact r.biosParameterBlock.cells_inside f hf
    · exact r.ownCells_inside FAT f hf
  rw [loadField_congr hinside h]
  exact hholds f hf

end Records

section Model
variable {δ : Type} [Disk δ]

/-- The addresses at which the heap gives one call of `FatInitialize` its blocks. -/
structure MountCall where
  iPartitionNumber : Fin 4
  fs : ℕ
  bootSector : ℕ
  FAT : ℕ

namespace MountCall

def record (c : MountCall) : Block HeapOwner := ⟨c.fs, sizeofFat32, .fat32⟩
def boot (c : MountCall) : Block HeapOwner := ⟨c.bootSector, 512, .bootSector⟩

/-- A request for no bytes is answered like one for a single byte. -/
def table (c : MountCall) (bytesPerFat : ℕ) : Block HeapOwner := ⟨c.FAT, max bytesPerFat 1, .table⟩

end MountCall

/-- The bytes from a pointer on. -/
def bytesAt (mem : ByteMemory) (p : ℕ) : Buffer := fun k => mem (p+k)

/-- The cells from a pointer on. -/
def cellsAt (mem : ByteMemory) (p : ℕ) : ℕ → ℕ := fun c => loadBytes mem (p + 4*c) 4

/-- The bytes of an array of cells. -/
def cellBytes (FAT : ℕ → ℕ) : Buffer := fun k => BitVec.ofNat 8 (FAT (k/4) / 2^(8*(k%4)))

/-- `FatReadSectorBiosParameterBlock` with the block that it allocates; `junk` is the stack. -/
def readParametersIn (d : δ) (junk : Buffer) (h : BlockHeap HeapOwner) (c : MountCall) :
    Result (BiosParameterBlock × BlockHeap HeapOwner) := do
  let h := h.malloc c.boot
  let sector ← fatAcquirePartitionSector d junk 0
  let BootSector ← fatGetSector d (bytesAt h.mem c.bootSector) sector 1
  let h := (h.update (overlay c.bootSector BootSector)).free c.bootSector
  return (decodeBootSector BootSector, h)

/-- What a call returned: the pointer, the heap, `iLastDriveCount`, and the record with the address
of its table if one was filled. -/
structure Mounting where
  fs : ℕ
  heap : BlockHeap HeapOwner
  iLastDriveCount : ℕ
  filled : Option (MountRecord × ℕ)

/-- `FatInitialize` with its allocations; the record is freed before it is returned. -/
def fatInitializeIn (d : δ) (junk : Buffer) (h : BlockHeap HeapOwner) (iLastDriveCount : ℕ)
    (c : MountCall) : Result Mounting := do
  let PartitionSector ← fatAcquirePartitionSector d junk c.iPartitionNumber
  if PartitionSector = noPartition then
    return ⟨0, h, iLastDriveCount, none⟩
  else
    let (b, h) ← readParametersIn d junk (h.malloc c.record) c
    let trimmed := { b with systemID := utilTrimSpaces b.systemID 8 }
    let h := h.update (storeFields c.fs trimmed.cells)
    if ¬ b.IsFat32 then
      return ⟨0, h.free c.fs, iLastDriveCount, none⟩
    else if iLastDriveCount = 4 then
      return ⟨0, h, iLastDriveCount, none⟩
    else
      let r := mountRecord iLastDriveCount PartitionSector b
      let h := h.malloc (c.table (512 * b.sectorsPerFat32 % 2^32))
      let h := h.update (storeFields c.fs ((r fun _ => 0).ownCells c.FAT))
      let FAT ← loadFat d junk (b.fatSector PartitionSector) (cellsAt h.mem c.FAT) b.sectorsPerFat32
      let h := h.update (overlay c.FAT (cellBytes FAT))
      return ⟨c.fs, h.free c.fs, iLastDriveCount + 1, some (r FAT, c.FAT)⟩

/-- `FatResolveByPrefix` on the records as the memory holds them; 0 is `NULL`. -/
def resolveIn (mem : ByteMemory) (partition : Fin 4 → ℕ) (letter : UCHAR) : ℕ :=
  ((List.ofFn partition).find? fun fs => fs ≠ 0 ∧ mem (fs + letterField.offset) = letter).getD 0

/-- The heap, the `Partition` array, and what `FatInitialize` computed for each of its places. -/
structure Volumes where
  heap : BlockHeap HeapOwner
  partition : Fin 4 → ℕ
  iLastDriveCount : ℕ
  computed : Fin 4 → Option (MountRecord × ℕ)

/-- Mounting, and what other code does with the heap. -/
inductive VolumeOp
  | mount (c : MountCall)
  | traffic (t : Traffic HeapOwner)

/-- `Partition[ i ] = FatInitialize( i )`. -/
def Volumes.mounted (s : Volumes) (i : Fin 4) (m : Mounting) : Volumes where
  heap := m.heap
  partition := Function.update s.partition i m.fs
  iLastDriveCount := m.iLastDriveCount
  computed := Function.update s.computed i m.filled

section Mounted
variable (s : Volumes) (m : Mounting) {i j : Fin 4}

@[simp] lemma mounted_partition_self : (s.mounted i m).partition i = m.fs := Function.update_self ..

lemma mounted_partition_of_ne (h : j ≠ i) : (s.mounted i m).partition j = s.partition j :=
  Function.update_of_ne h ..

@[simp] lemma mounted_computed_self : (s.mounted i m).computed i = m.filled := Function.update_self ..

lemma mounted_computed_of_ne (h : j ≠ i) : (s.mounted i m).computed j = s.computed j :=
  Function.update_of_ne h ..

end Mounted

def VolumeOp.step (d : δ) (junk : Buffer) (s : Volumes) : VolumeOp → Option Volumes
  | .mount c => (fatInitializeIn d junk s.heap s.iLastDriveCount c).toOption.map
      (s.mounted c.iPartitionNumber)
  | .traffic t => some { s with heap := t.apply s.heap }

end Model

section Specification

/-- Mounting this partition comes to a FAT32 boot sector. -/
def Finds (sectors : ℕ → Sector) (i : ℕ) : Prop :=
  partitionSector (sectorBytes (sectors 0)) i ≠ noPartition ∧ (readBlock sectors).IsFat32

/-- The size of the table that is allocated. -/
def tableBytes (sectors : ℕ → Sector) : ℕ := 512 * (readBlock sectors).sectorsPerFat32 % 2^32

/-- The heap hands out nothing that is allocated, and other code keeps to its blocks. -/
def VolumeOp.Fair (sectors : ℕ → Sector) (s : Volumes) : VolumeOp → Prop
  | .mount c => partitionSector (sectorBytes (sectors 0)) c.iPartitionNumber ≠ noPartition →
      s.heap.Vacant c.record ∧ (s.heap.malloc c.record).Vacant c.boot ∧
        ((readBlock sectors).IsFat32 → s.iLastDriveCount ≠ 4 →
          (s.heap.malloc c.record).Vacant (c.table (tableBytes sectors)))
  | .traffic t => t.Fair .other s.heap

/-- Every volume in the array is an allocated record of its own that holds what was computed for it,
and its letter leads to it. -/
def VolumesIntact (s : Volumes) : Prop :=
  ∀ i, s.partition i ≠ 0 → ∃ r FAT, s.computed i = some (r, FAT) ∧
    ⟨s.partition i, sizeofFat32, .fat32⟩ ∈ s.heap.blocks ∧ (∀ j, j ≠ i → s.partition j ≠ s.partition i) ∧
    HoldsRecord s.heap.mem (s.partition i) r FAT ∧
    resolveIn s.heap.mem s.partition (r.rootPath 0) = s.partition i

/-- None of the memory that the operation is given belonged to a volume in the array. -/
def VolumeOp.Spares (sectors : ℕ → Sector) (s : Volumes) : VolumeOp → Prop
  | .mount c => ∀ i, s.partition i ≠ 0 → c.record.Clear (s.partition i) sizeofFat32 ∧
      c.boot.Clear (s.partition i) sizeofFat32 ∧
      (c.table (tableBytes sectors)).Clear (s.partition i) sizeofFat32
  | .traffic t => ∀ i, s.partition i ≠ 0 → t.Avoids (s.partition i) sizeofFat32

/-- What is left of that when nothing is handed out again. -/
def VolumesKept (s : Volumes) : Prop :=
  ∀ i, s.partition i ≠ 0 → ∃ r FAT, s.computed i = some (r, FAT) ∧
    (∀ j, j ≠ i → s.partition j ≠ s.partition i) ∧ HoldsRecord s.heap.mem (s.partition i) r FAT ∧
    resolveIn s.heap.mem s.partition (r.rootPath 0) = s.partition i

end Specification

/-- The heap with the parameters in the record, when the boot sector has left this memory. -/
def parametersStored (sectors : ℕ → Sector) (h : BlockHeap HeapOwner) (c : MountCall)
    (mem : ByteMemory) : BlockHeap HeapOwner :=
  (({ (h.malloc c.record).malloc c.boot with mem := mem }).free c.bootSector).update
    (storeFields c.fs (mountRecord 0 0 (readBlock sectors) fun _ => 0).biosParameterBlock.cells)

section Stored
variable {sectors : ℕ → Sector} {h : BlockHeap HeapOwner} {c : MountCall} {mem : ByteMemory}

lemma parametersStored_mem_eq : (parametersStored sectors h c mem).mem =
    storeFields c.fs (mountRecord 0 0 (readBlock sectors) fun _ => 0).biosParameterBlock.cells mem :=
  rfl

lemma parametersStored_subset {b : Block HeapOwner}
    (hb : b ∈ (parametersStored sectors h c mem).blocks) : b ∈ (h.malloc c.record).blocks := by
  obtain ⟨hb, hne⟩ := BlockHeap.mem_free.mp hb
  rcases List.mem_cons.mp hb with rfl | hb
  · exact absurd rfl hne
  · exact hb

lemma parametersStored_sane (hs : h.Sane) (hrecord : h.Vacant c.record)
    (hboot : (h.malloc c.record).Vacant c.boot) : (parametersStored sectors h c mem).Sane :=
  (BlockHeap.Sane.free ((hs.malloc hrecord).malloc hboot |>.update fun _ => mem) _).update _

lemma record_mem_parametersStored (hboot : (h.malloc c.record).Vacant c.boot) :
    c.record ∈ (parametersStored sectors h c mem).blocks := by
  refine BlockHeap.mem_free.mpr ⟨List.mem_cons_of_mem _ List.mem_cons_self, ?_⟩
  have hclear : c.record.Clear c.boot.start c.boot.size := hboot.clear c.record List.mem_cons_self
  exact hclear.start_ne (Nat.zero_lt_succ 111) (Nat.zero_lt_succ 511)

/-- Memory that the record does not meet is not changed by filling it. -/
lemma storeFields_clear {fields : List (Field × ℕ)}
    (hinside : ∀ f ∈ fields, f.1.offset + f.1.width ≤ sizeofFat32) {a : ℕ} (ha : ¬ c.record.Contains a)
    (mem : ByteMemory) : storeFields c.fs fields mem a = mem a := by
  apply storeFields_beyond hinside
  unfold Block.Contains MountCall.record at ha
  dsimp only at ha
  omega

lemma parametersStored_mem {a : ℕ} (hmem : ∀ a, ¬ c.boot.Contains a → mem a = h.mem a)
    (hrecord : ¬ c.record.Contains a) (hboot : ¬ c.boot.Contains a) :
    (parametersStored sectors h c mem).mem a = h.mem a :=
  (storeFields_clear (BiosParameterBlock.cells_inside _) hrecord mem).trans (hmem a hboot)

lemma parametersStored_unallocated {p size : ℕ} (hu : h.Unallocated p size)
    (hrecord : c.record.Clear p size) : (parametersStored sectors h c mem).Unallocated p size :=
  fun b hb => hu.malloc hrecord b (parametersStored_subset hb)

end Stored

/-- A table whose size does not wrap around fills only its own block. -/
lemma overlay_table {sectors : ℕ → Sector} {fatSector : ℕ} {c : MountCall} {mem : ByteMemory}
    {FAT : ℕ → ℕ} (hsize : (readBlock sectors).sectorsPerFat32 < 2^23)
    (hFAT : ∀ k, FAT k = if k < 128 * (readBlock sectors).sectorsPerFat32 then
      cellOnDisk sectors fatSector k else cellsAt mem c.FAT k) {a : ℕ}
    (ha : ¬ (c.table (tableBytes sectors)).Contains a) :
    overlay c.FAT (cellBytes FAT) mem a = mem a := by
  apply overlay_outside
  intro hle
  have hout : ¬ (c.FAT ≤ a ∧ a < c.FAT + max (tableBytes sectors) 1) := ha
  have hbytes : tableBytes sectors = 512 * (readBlock sectors).sectorsPerFat32 := by
    unfold tableBytes
    omega
  rw [cellBytes, hFAT, if_neg (by omega), cellsAt, byte_loadBytes (Nat.mod_lt _ (by decide))]
  congr 1
  omega

section Calls
variable {δ : Type} [Disk δ] {sectors : ℕ → Sector} {d : δ} (hreads : ReadsSectors d sectors)
  (junk : Buffer) {h : BlockHeap HeapOwner} {n : ℕ} {c : MountCall}
include hreads

/-- The boot sector is read into its block, and nothing else changes. -/
lemma readParametersIn_eq : ∃ mem, readParametersIn d junk h c =
      .ok (readBlock sectors, ({ h.malloc c.boot with mem := mem }).free c.bootSector) ∧
    ∀ a, ¬ c.boot.Contains a → mem a = h.mem a := by
  refine ⟨overlay c.bootSector (storeSector (bytesAt h.mem c.bootSector) 0
    (sectors (partitionSector (sectorBytes (sectors 0)) 0))) h.mem, ?_, fun a ha => ?_⟩
  · rw [readParametersIn, fatAcquirePartitionSector_eq hreads]
    dsimp only [ok_bind]
    rw [fatGetSector, hreads _ (partitionSector_lt _ 0)]
    dsimp only [ok_bind]
    rw [decodeBootSector_congr fun i hi => storeSector_eq_sectorBytes _ _ hi]
    rfl
  · apply overlay_outside
    intro hle
    have hout : ¬ (c.bootSector ≤ a ∧ a < c.bootSector + 512) := ha
    rw [storeSector, dif_neg (by omega), bytesAt, Nat.add_sub_cancel' hle]

/-- The outcomes of a call. -/
lemma fatInitializeIn_eq : ∃ mem, (∀ a, ¬ c.boot.Contains a → mem a = h.mem a) ∧
    fatInitializeIn d junk h n c =
      if partitionSector (sectorBytes (sectors 0)) c.iPartitionNumber = noPartition then
        .ok ⟨0, h, n, none⟩
      else if ¬ (readBlock sectors).IsFat32 then
        .ok ⟨0, (parametersStored sectors h c mem).free c.fs, n, none⟩
      else if n = 4 then .ok ⟨0, parametersStored sectors h c mem, n, none⟩
      else do
        let r := mountRecord n (partitionSector (sectorBytes (sectors 0)) c.iPartitionNumber)
          (readBlock sectors)
        let h := ((parametersStored sectors h c mem).malloc (c.table (tableBytes sectors))).update
          (storeFields c.fs ((r fun _ => 0).ownCells c.FAT))
        let FAT ← loadFat d junk ((readBlock sectors).fatSector
          (partitionSector (sectorBytes (sectors 0)) c.iPartitionNumber)) (cellsAt h.mem c.FAT)
          (readBlock sectors).sectorsPerFat32
        return ⟨c.fs, (h.update (overlay c.FAT (cellBytes FAT))).free c.fs, n + 1,
          some (r FAT, c.FAT)⟩ := by
  obtain ⟨mem, hread, hmem⟩ := readParametersIn_eq hreads junk (h := h.malloc c.record) (c := c)
  refine ⟨mem, hmem, ?_⟩
  rw [fatInitializeIn, fatAcquirePartitionSector_eq hreads]
  dsimp only [ok_bind]
  rw [hread]
  rfl

lemma fatInitializeIn_nothing (h : BlockHeap HeapOwner) (n : ℕ)
    (hfinds : ¬ Finds sectors c.iPartitionNumber) :
    ∃ m, fatInitializeIn d junk h n c = .ok m ∧ m.fs = 0 ∧ m.iLastDriveCount = n := by
  obtain ⟨mem, -, heq⟩ := fatInitializeIn_eq hreads junk (h := h) (n := n) (c := c)
  rw [heq]
  by_cases habsent : partitionSector (sectorBytes (sectors 0)) c.iPartitionNumber = noPartition
  · exact ⟨_, if_pos habsent, rfl, rfl⟩
  · have hfat : ¬ (readBlock sectors).IsFat32 := fun hfat => hfinds ⟨habsent, hfat⟩
    exact ⟨_, by rw [if_neg habsent, if_pos hfat], rfl, rfl⟩

lemma fatInitializeIn_found (h : BlockHeap HeapOwner) (hcount : n ≠ 4)
    (hfinds : Finds sectors c.iPartitionNumber) :
    ∃ m, fatInitializeIn d junk h n c = .ok m ∧ m.fs = c.fs ∧ ∀ b ∈ m.heap.blocks, b.start ≠ c.fs := by
  obtain ⟨mem, -, heq⟩ := fatInitializeIn_eq hreads junk (h := h) (n := n) (c := c)
  rw [heq, if_neg hfinds.1, if_neg (not_not_intro hfinds.2), if_neg hcount]
  obtain ⟨FAT, hload, -⟩ := loadFat_eq hreads junk
    ((readBlock sectors).fatSector (partitionSector (sectorBytes (sectors 0)) c.iPartitionNumber))
    (cellsAt (storeFields c.fs ((mountRecord n (partitionSector (sectorBytes (sectors 0))
      c.iPartitionNumber) (readBlock sectors) fun _ => 0).ownCells c.FAT)
      (parametersStored sectors h c mem).mem) c.FAT) (readBlock sectors).sectorsPerFat32
  dsimp only [BlockHeap.update_mem, BlockHeap.malloc_mem]
  rw [hload, ok_bind]
  exact ⟨_, rfl, rfl, fun b hb => (BlockHeap.mem_free.mp hb).2⟩

section Region
variable (hs : h.Sane) (hrecord : h.Vacant c.record) (hboot : (h.malloc c.record).Vacant c.boot)
  (hsize : (readBlock sectors).sectorsPerFat32 < 2^23)
include hs hrecord hboot hsize

/-- A call that mounts a volume leaves its record behind in memory that is no longer allocated, and
memory alone that it is not given. -/
lemma fatInitializeIn_fills (hfinds : Finds sectors c.iPartitionNumber) (hcount : n ≠ 4)
    (htable : (h.malloc c.record).Vacant (c.table (tableBytes sectors))) :
    ∃ heap r, fatInitializeIn d junk h n c = .ok ⟨c.fs, heap, n + 1, some (r, c.FAT)⟩ ∧
      r.rootPath 0 = letterAssignment n ∧ heap.Sane ∧ heap.Unallocated c.fs sizeofFat32 ∧
      HoldsRecord heap.mem c.fs r c.FAT ∧
      ∀ p size, h.Unallocated p size → c.record.Clear p size → c.boot.Clear p size →
        (c.table (tableBytes sectors)).Clear p size → heap.Unallocated p size ∧
          ∀ a, p ≤ a → a < p + size → heap.mem a = h.mem a := by
  obtain ⟨mem, hmem, heq⟩ := fatInitializeIn_eq hreads junk (h := h) (n := n) (c := c)
  rw [heq, if_neg hfinds.1, if_neg (not_not_intro hfinds.2), if_neg hcount]
  dsimp only [BlockHeap.update_mem, BlockHeap.malloc_mem]
  generalize hsector : partitionSector (sectorBytes (sectors 0)) c.iPartitionNumber = sector
  generalize hown : ((mountRecord n sector (readBlock sectors) fun _ => 0).ownCells c.FAT) = own
  have hinside : ∀ f ∈ own, f.1.offset + f.1.width ≤ sizeofFat32 := hown ▸ MountRecord.ownCells_inside _ _
  obtain ⟨FAT, hload, hFAT⟩ := loadFat_eq hreads junk ((readBlock sectors).fatSector sector)
    (cellsAt (storeFields c.fs own (parametersStored sectors h c mem).mem) c.FAT)
    (readBlock sectors).sectorsPerFat32
  rw [hload, ok_bind]
  have hsane : (parametersStored sectors h c mem).Sane := parametersStored_sane hs hrecord hboot
  have hvacant : (parametersStored sectors h c mem).Vacant (c.table (tableBytes sectors)) :=
    htable.of_subset fun _ => parametersStored_subset
  have hloaded := hsane.malloc hvacant
  have hoverlay : ∀ a, ¬ (c.table (tableBytes sectors)).Contains a →
      overlay c.FAT (cellBytes FAT) (storeFields c.fs own (parametersStored sectors h c mem).mem) a =
        storeFields c.fs own (parametersStored sectors h c mem).mem a :=
    fun a => overlay_table hsize (hFAT (by omega))
  have hapart : ∀ a, c.record.Contains a → ¬ (c.table (tableBytes sectors)).Contains a :=
    fun a ha htable' => htable.clear c.record List.mem_cons_self a htable'.1 htable'.2 ha
  refine ⟨_, mountRecord n sector (readBlock sectors) FAT, rfl, rfl,
    ((hloaded.update _).update _).free _, ?_, ?_, ?_⟩
  · exact ((hloaded.update _).update _).free_unallocated (b := c.record)
      (List.mem_cons_of_mem _ (record_mem_parametersStored hboot))
  · have hcells : storeFields c.fs ((mountRecord n sector (readBlock sectors) FAT).cells c.FAT) mem =
        storeFields c.fs own (parametersStored sectors h c mem).mem := by
      rw [parametersStored_mem_eq, ← hown, MountRecord.cells, storeFields_append]
      rfl
    refine (holdsRecord_storeFields mem c.fs _ c.FAT).congr fun a ha hlt => ?_
    rw [hcells]
    exact hoverlay a (hapart a ⟨ha, hlt⟩)
  · intro p size hu hclear hclear' hclear''
    have hun : ((parametersStored sectors h c mem).malloc (c.table (tableBytes sectors))).Unallocated p
        size := (parametersStored_unallocated hu hclear).malloc hclear''
    refine ⟨((hun.update _).update _).free _, fun a ha hlt => ?_⟩
    refine (hoverlay a (hclear'' a ha hlt)).trans ?_
    rw [storeFields_clear hinside (hclear a ha hlt)]
    exact parametersStored_mem hmem (hclear a ha hlt) (hclear' a ha hlt)

omit hsize in
/-- A call that mounts nothing only uses the memory that it is given. -/
lemma fatInitializeIn_keeps (habsent : partitionSector (sectorBytes (sectors 0)) c.iPartitionNumber ≠
      noPartition) (hfull : (readBlock sectors).IsFat32 → n = 4) :
    ∃ heap, fatInitializeIn d junk h n c = .ok ⟨0, heap, n, none⟩ ∧ heap.Sane ∧
      ∀ p, h.Unallocated p sizeofFat32 → c.record.Clear p sizeofFat32 → c.boot.Clear p sizeofFat32 →
        heap.Unallocated p sizeofFat32 ∧ ∀ a, p ≤ a → a < p + sizeofFat32 → heap.mem a = h.mem a := by
  obtain ⟨mem, hmem, heq⟩ := fatInitializeIn_eq hreads junk (h := h) (n := n) (c := c)
  have hsane : (parametersStored sectors h c mem).Sane := parametersStored_sane hs hrecord hboot
  have hregion : ∀ p, h.Unallocated p sizeofFat32 → c.record.Clear p sizeofFat32 →
      c.boot.Clear p sizeofFat32 → (parametersStored sectors h c mem).Unallocated p sizeofFat32 ∧
        ∀ a, p ≤ a → a < p + sizeofFat32 → (parametersStored sectors h c mem).mem a = h.mem a :=
    fun p hu hclear hclear' => ⟨parametersStored_unallocated hu hclear, fun a ha hlt =>
      parametersStored_mem hmem (hclear a ha hlt) (hclear' a ha hlt)⟩
  rw [heq, if_neg habsent]
  by_cases hfat : (readBlock sectors).IsFat32
  · rw [if_neg (not_not_intro hfat), if_pos (hfull hfat)]
    exact ⟨_, rfl, hsane, hregion⟩
  · rw [if_pos hfat]
    refine ⟨_, rfl, hsane.free _, fun p hu hclear hclear' => ?_⟩
    obtain ⟨hun, hsame⟩ := hregion p hu hclear hclear'
    exact ⟨hun.free _, hsame⟩

end Region

end Calls

section Runs
variable {δ : Type} [Disk δ] {sectors : ℕ → Sector} {d : δ} (hreads : ReadsSectors d sectors)
  (junk : Buffer) {s t : Volumes} {op : VolumeOp}

/-- Before the first volume is mounted. -/
structure Unmounted (s : Volumes) : Prop where
  partition : ∀ i, s.partition i = 0
  iLastDriveCount : s.iLastDriveCount = 0

lemma Unmounted.intact (hs : Unmounted s) : VolumesIntact s := fun i hi => absurd (hs.partition i) hi

def VolumeOp.FindsNothing (sectors : ℕ → Sector) : VolumeOp → Prop
  | .mount c => ¬ Finds sectors c.iPartitionNumber
  | .traffic _ => True

lemma step_mount {c : MountCall} {m : Mounting}
    (hcall : fatInitializeIn d junk s.heap s.iLastDriveCount c = .ok m) :
    VolumeOp.step d junk s (.mount c) = some (s.mounted c.iPartitionNumber m) := by
  rw [VolumeOp.step, hcall]
  rfl

include hreads

lemma Unmounted.step (hs : Unmounted s) (hop : op.FindsNothing sectors)
    (hstep : op.step d junk s = some t) : Unmounted t := by
  cases op with
  | mount c =>
    obtain ⟨m, hcall, hfs, hcount⟩ := fatInitializeIn_nothing hreads junk s.heap s.iLastDriveCount hop
    rw [step_mount junk hcall] at hstep
    obtain rfl := Option.some.inj hstep
    refine ⟨fun i => ?_, hcount.trans hs.iLastDriveCount⟩
    by_cases hi : i = c.iPartitionNumber
    · rw [hi, mounted_partition_self, hfs]
    · rw [mounted_partition_of_ne s m hi, hs.partition i]
  | traffic tr =>
    obtain rfl := Option.some.inj hstep
    exact ⟨hs.partition, hs.iLastDriveCount⟩

/-- The first volume that is mounted is not intact when it is. -/
lemma Unmounted.not_intact (hs : Unmounted s) (hfair : op.Fair sectors s)
    (hop : ¬ op.FindsNothing sectors) (hstep : op.step d junk s = some t) : ¬ VolumesIntact t := by
  intro hintact
  cases op with
  | mount c =>
    have hfinds : Finds sectors c.iPartitionNumber := not_not.mp hop
    have hcount : s.iLastDriveCount ≠ 4 := by
      rw [hs.iLastDriveCount]
      decide
    obtain ⟨m, hcall, hfs, hfreed⟩ := fatInitializeIn_found hreads junk s.heap hcount hfinds
    rw [step_mount junk hcall] at hstep
    obtain rfl := Option.some.inj hstep
    have hpointer : (s.mounted c.iPartitionNumber m).partition c.iPartitionNumber = c.fs := by
      rw [mounted_partition_self, hfs]
    have hpos := (hfair hfinds.1).1.start_pos
    obtain ⟨r, FAT, -, hallocated, -⟩ := hintact c.iPartitionNumber
      (hpointer.trans_ne (Nat.pos_iff_ne_zero.mp hpos))
    exact hfreed _ hallocated hpointer
  | traffic tr => exact hop trivial

/-- Over every heap, from an empty `Partition` array on: the mounted volumes are intact all through
a run if and only if no call of `FatInitialize` comes to a FAT32 boot sector, so that nothing is
mounted. -/
theorem volumes_intact_iff {ops : List VolumeOp} (hs : Unmounted s)
    (hrun : GuardedRun (VolumeOp.Fair sectors) (VolumeOp.step d junk) s ops t) :
    (∀ before after u, ops = before ++ after →
      GuardedRun (VolumeOp.Fair sectors) (VolumeOp.step d junk) s before u → VolumesIntact u) ↔
      ∀ c, .mount c ∈ ops → ¬ Finds sectors c.iPartitionNumber := by
  induction hrun with
  | nil s =>
    refine iff_of_true (fun before after u hops hbefore => ?_) (by simp)
    obtain ⟨rfl, rfl⟩ := List.append_eq_nil_iff.mp hops.symm
    cases hbefore
    exact hs.intact
  | @cons s u t op ops hfair hstep tail ih =>
    by_cases hop : op.FindsNothing sectors
    · have hu := hs.step hreads junk hop hstep
      constructor
      · intro hintact c hc
        rcases List.mem_cons.mp hc with rfl | hc
        · exact hop
        · refine (ih hu).mp (fun before after v hops hbefore => ?_) c hc
          exact hintact (op :: before) after v (by rw [hops]; rfl) (.cons hfair hstep hbefore)
      · intro hnothing before after v hops hbefore
        cases hbefore with
        | nil => exact hs.intact
        | cons hfair' hstep' tail' =>
          obtain ⟨hhead, htail⟩ := List.cons.inj hops
          subst hhead
          obtain rfl := Option.some.inj (hstep.symm.trans hstep')
          exact (ih hu).mpr (fun c hc => hnothing c (List.mem_cons_of_mem _ hc)) _ after v htail tail'
    · refine iff_of_false (fun hintact => ?_) fun hnothing => hop ?_
      · exact hs.not_intact hreads junk hfair hop hstep
          (hintact [op] ops u rfl (.cons hfair hstep (.nil u)))
      · cases op with
        | mount c => exact hnothing c List.mem_cons_self
        | traffic tr => trivial

end Runs

section TwoVolumes

def emptyHeap : BlockHeap HeapOwner := ⟨[], fun _ => 0⟩

def noVolumes : Volumes := ⟨emptyHeap, fun _ => 0, 0, fun _ => none⟩

def drive : ℕ → Sector := fun s => twoPartitions.sectors (s % 2^28)

/-- A mount whose record lies at 4096. -/
def mountAt (i : Fin 4) (bootSector FAT : ℕ) : MountCall := ⟨i, 4096, bootSector, FAT⟩

lemma drive_finds : Finds drive 0 ∧ Finds drive 1 := ⟨⟨by decide, by decide⟩, ⟨by decide, by decide⟩⟩

lemma noVolumes_unmounted : Unmounted noVolumes := ⟨fun _ => rfl, rfl⟩

/-- Three blocks of a call that are apart from each other and from what is allocated. -/
lemma mountAt_fair {s : Volumes} {i : Fin 4} {bootSector FAT : ℕ} (hboot : 4208 ≤ bootSector)
    (hFAT : 4208 ≤ FAT) (hle : bootSector + 512 ≤ 2^64) (hle' : FAT + 512 ≤ 2^64)
    (hrecord : s.heap.Unallocated 4096 112) (hclear : s.heap.Unallocated bootSector 512)
    (hclear' : s.heap.Unallocated FAT 512) :
    VolumeOp.Fair drive s (.mount (mountAt i bootSector FAT)) := by
  have hbytes : max (tableBytes drive) 1 = 512 := by decide
  have htable : (mountAt i bootSector FAT).table (tableBytes drive) = ⟨FAT, 512, .table⟩ := by
    rw [MountCall.table, hbytes]
    rfl
  have hown : ∀ p size, 4208 ≤ p → (mountAt i bootSector FAT).record.Clear p size := by
    intro p size hp a ha hlt hcontains
    have hend : a < 4096 + 112 := hcontains.2
    omega
  intro _
  rw [htable]
  refine ⟨⟨Nat.zero_lt_succ 4095, Nat.zero_lt_succ 111, Nat.le_of_ble_eq_true rfl, hrecord⟩,
    ⟨?_, Nat.zero_lt_succ 511, hle, hclear.malloc (hown _ _ hboot)⟩,
    fun _ _ => ⟨?_, Nat.zero_lt_succ 511, hle', hclear'.malloc (hown _ _ hFAT)⟩⟩
  · exact Nat.lt_of_lt_of_le (by decide) hboot
  · exact Nat.lt_of_lt_of_le (by decide) hFAT

lemma empty_unallocated (p size : ℕ) : emptyHeap.Unallocated p size := fun b hb => by cases hb

lemma first_fair : VolumeOp.Fair drive noVolumes (.mount (mountAt 0 8192 16384)) :=
  mountAt_fair (by decide) (by decide) (by decide) (by decide) (empty_unallocated _ _)
    (empty_unallocated _ _) (empty_unallocated _ _)

theorem volumes_intact_iff_one : ∃ t, GuardedRun (VolumeOp.Fair drive)
    (VolumeOp.step twoPartitions fun _ => 0) noVolumes [.mount (mountAt 0 8192 16384)] t ∧
      ((∀ before after u, [VolumeOp.mount (mountAt 0 8192 16384)] = before ++ after →
        GuardedRun (VolumeOp.Fair drive) (VolumeOp.step twoPartitions fun _ => 0) noVolumes before u →
          VolumesIntact u) ↔
        ∀ c, VolumeOp.mount c ∈ [VolumeOp.mount (mountAt 0 8192 16384)] →
          ¬ Finds drive c.iPartitionNumber) := by
  obtain ⟨m, hcall, -, -⟩ := fatInitializeIn_found (c := mountAt 0 8192 16384)
    (drive_readsSectors twoPartitions) (fun _ => 0) emptyHeap (n := 0) (by decide) drive_finds.1
  have hrun : GuardedRun (VolumeOp.Fair drive) (VolumeOp.step twoPartitions fun _ => 0) noVolumes
      [.mount (mountAt 0 8192 16384)] (noVolumes.mounted 0 m) :=
    .cons first_fair (step_mount (s := noVolumes) _ hcall) (.nil _)
  exact ⟨_, hrun, volumes_intact_iff (drive_readsSectors twoPartitions) _ noVolumes_unmounted hrun⟩

/-- Two volumes in the same memory: both places of the array refer to the second one. -/
theorem second_mount_takes_first : ∃ t, GuardedRun (VolumeOp.Fair drive)
    (VolumeOp.step twoPartitions fun _ => 0) noVolumes
      [.mount (mountAt 0 8192 16384), .mount (mountAt 1 12288 20480)] t ∧
    t.partition 0 = 4096 ∧ t.partition 1 = 4096 ∧ ¬ VolumesIntact t := by
  have hreads := drive_readsSectors twoPartitions
  have hsize : (readBlock drive).sectorsPerFat32 < 2^23 := by decide
  obtain ⟨heap, r, hcall, -, -, hun, -, hregion⟩ := fatInitializeIn_fills (c := mountAt 0 8192 16384)
    (h := emptyHeap) (n := 0) hreads (fun _ => 0) ⟨by simp [emptyHeap], by simp [emptyHeap]⟩
    (first_fair drive_finds.1.1).1 (first_fair drive_finds.1.1).2.1 hsize drive_finds.1 (by decide)
    ((first_fair drive_finds.1.1).2.2 drive_finds.1.2 (by decide))
  have hheap : ∀ p size, 4208 ≤ p → p + size ≤ 8192 ∨ (8704 ≤ p ∧ p + size ≤ 16384) ∨ 16896 ≤ p →
      heap.Unallocated p size := by
    intro p size hp happart
    refine (hregion p size (empty_unallocated p size) ?_ ?_ ?_).1
    · intro a ha hlt hcontains
      have hend : a < 4096 + 112 := hcontains.2
      omega
    · intro a ha hlt hcontains
      obtain ⟨hstart, hend⟩ : 8192 ≤ a ∧ a < 8192 + 512 := hcontains
      omega
    · intro a ha hlt hcontains
      have hbytes : max (tableBytes drive) 1 = 512 := by decide
      obtain ⟨hstart, hend⟩ : 16384 ≤ a ∧ a < 16384 + max (tableBytes drive) 1 := hcontains
      omega
  have hfair : VolumeOp.Fair drive (noVolumes.mounted 0 ⟨4096, heap, 1, some (r, 16384)⟩)
      (.mount (mountAt 1 12288 20480)) :=
    mountAt_fair (by decide) (by decide) (by decide) (by decide) hun
      (hheap 12288 512 (by decide) (Or.inr (Or.inl (by decide))))
      (hheap 20480 512 (by decide) (Or.inr (Or.inr (by decide))))
  obtain ⟨m, hcall', hfs, hfreed⟩ := fatInitializeIn_found (c := mountAt 1 12288 20480) hreads
    (fun _ => 0) heap (n := 1) (by decide) drive_finds.2
  refine ⟨_, .cons first_fair (step_mount (s := noVolumes) _ hcall)
    (.cons hfair (step_mount _ hcall') (.nil _)), ?_, ?_, fun hintact => ?_⟩
  · rfl
  · exact hfs
  · obtain ⟨r', FAT, -, hallocated, -⟩ := hintact 1 (hfs.trans_ne (by decide))
    exact hfreed _ hallocated hfs

end TwoVolumes

section Kept
variable {δ : Type} [Disk δ] {sectors : ℕ → Sector} {d : δ} {junk : Buffer} {s t : Volumes}
  {op : VolumeOp}

/-- Every place of the array that is not `NULL` refers to memory that is not allocated and that
still holds the record; the letters are the first ones, each given once. -/
structure Untouched (s : Volumes) : Prop where
  sane : s.heap.Sane
  count : s.iLastDriveCount ≤ 4
  null : ∀ i, s.computed i = none → s.partition i = 0
  held : ∀ i r FAT, s.computed i = some (r, FAT) → s.heap.Unallocated (s.partition i) sizeofFat32 ∧
    HoldsRecord s.heap.mem (s.partition i) r FAT
  letter : ∀ i r FAT, s.computed i = some (r, FAT) →
    ∃ n < s.iLastDriveCount, r.rootPath 0 = letterAssignment n
  nonzero : ∀ i r FAT, s.computed i = some (r, FAT) → s.partition i ≠ 0
  distinct : ∀ i j r FAT r' FAT', i ≠ j → s.computed i = some (r, FAT) →
    s.computed j = some (r', FAT') → s.partition i ≠ s.partition j ∧ r.rootPath 0 ≠ r'.rootPath 0

lemma letterAssignment_inj : ∀ m < 4, ∀ n < 4, letterAssignment m = letterAssignment n → m = n := by
  decide

lemma HoldsRecord.letter {mem : ByteMemory} {fs : ℕ} {r : MountRecord} {FAT : ℕ}
    (h : HoldsRecord mem fs r FAT) : mem (fs + letterField.offset) = r.rootPath 0 := by
  have hload := h (letterField, (r.rootPath 0).toNat) (by simp [MountRecord.cells, MountRecord.ownCells])
  apply BitVec.eq_of_toNat_eq
  have hlt := (r.rootPath 0).isLt
  have hone : loadField mem fs letterField = (mem (fs + letterField.offset)).toNat := by
    simp [loadField, loadBytes, letterField]
  rw [← hone, hload]
  exact Nat.mod_eq_of_lt hlt

/-- The letter of a volume leads to it. -/
lemma Untouched.resolveIn_eq (hs : Untouched s) {i : Fin 4} {r : MountRecord} {FAT : ℕ}
    (hi : s.computed i = some (r, FAT)) :
    resolveIn s.heap.mem s.partition (r.rootPath 0) = s.partition i := by
  unfold resolveIn
  cases hfind : (List.ofFn s.partition).find? fun fs =>
      fs ≠ 0 ∧ s.heap.mem (fs + letterField.offset) = r.rootPath 0 with
  | none =>
    have hno := List.find?_eq_none.mp hfind (s.partition i) (List.mem_ofFn.mpr ⟨i, rfl⟩)
    simp [hs.nonzero i r FAT hi, (hs.held i r FAT hi).2.letter] at hno
  | some fs =>
    have hsome := List.find?_some hfind
    obtain ⟨j, rfl⟩ := List.mem_ofFn.mp (List.mem_of_find?_eq_some hfind)
    obtain ⟨hne, hletter⟩ := of_decide_eq_true hsome
    cases hj : s.computed j with
    | none => exact absurd (hs.null j hj) hne
    | some rj =>
      obtain ⟨r', FAT'⟩ := rj
      by_cases hij : j = i
      · rw [hij, Option.getD_some]
      · rw [(hs.held j r' FAT' hj).2.letter] at hletter
        exact absurd hletter (hs.distinct j i r' FAT' r FAT hij hj hi).2

lemma Untouched.kept (hs : Untouched s) : VolumesKept s := by
  intro i hi
  cases hcomputed : s.computed i with
  | none => exact absurd (hs.null i hcomputed) hi
  | some r =>
    obtain ⟨r, FAT⟩ := r
    refine ⟨r, FAT, rfl, fun j hj heq => ?_, (hs.held i r FAT hcomputed).2, hs.resolveIn_eq hcomputed⟩
    cases hj' : s.computed j with
    | none => exact hi (heq ▸ hs.null j hj')
    | some r' => exact (hs.distinct j i r'.1 r'.2 r FAT hj hj' hcomputed).1 heq

/-- Steps that leave the array alone and the memory of every volume as it is. -/
lemma Untouched.of_heap (hs : Untouched s) {heap : BlockHeap HeapOwner} (hsane : heap.Sane)
    (hkeeps : ∀ i, s.partition i ≠ 0 → heap.Unallocated (s.partition i) sizeofFat32 ∧
      ∀ a, s.partition i ≤ a → a < s.partition i + sizeofFat32 → heap.mem a = s.heap.mem a) :
    Untouched { s with heap := heap } where
  sane := hsane
  count := hs.count
  null := hs.null
  held i r FAT hi := by
    obtain ⟨hun, hmem⟩ := hkeeps i (hs.nonzero i r FAT hi)
    exact ⟨hun, (hs.held i r FAT hi).2.congr hmem⟩
  letter := hs.letter
  nonzero := hs.nonzero
  distinct := hs.distinct

/-- A place of the array is set to `NULL`. -/
lemma Untouched.clear (hs : Untouched s) (k : Fin 4) :
    Untouched (s.mounted k ⟨0, s.heap, s.iLastDriveCount, none⟩) := by
  have hold : ∀ i r, (s.mounted k ⟨0, s.heap, s.iLastDriveCount, none⟩).computed i = some r →
      i ≠ k ∧ s.computed i = some r := by
    intro i r hi
    by_cases hik : i = k
    · rw [hik, mounted_computed_self] at hi
      cases hi
    · exact ⟨hik, (mounted_computed_of_ne s _ hik) ▸ hi⟩
  exact {
    sane := hs.sane
    count := hs.count
    null := fun i hi => by
      by_cases hik : i = k
      · rw [hik, mounted_partition_self]
      · rw [mounted_partition_of_ne s _ hik]
        exact hs.null i (mounted_computed_of_ne s _ hik ▸ hi)
    held := fun i r FAT hi => by
      obtain ⟨hik, hi⟩ := hold i _ hi
      rw [mounted_partition_of_ne s _ hik]
      exact hs.held i r FAT hi
    letter := fun i r FAT hi => hs.letter i r FAT (hold i _ hi).2
    nonzero := fun i r FAT hi => by
      obtain ⟨hik, hi⟩ := hold i _ hi
      rw [mounted_partition_of_ne s _ hik]
      exact hs.nonzero i r FAT hi
    distinct := fun i j r FAT r' FAT' hij hi hj => by
      obtain ⟨hik, hi⟩ := hold i _ hi
      obtain ⟨hjk, hj⟩ := hold j _ hj
      rw [mounted_partition_of_ne s _ hik, mounted_partition_of_ne s _ hjk]
      exact hs.distinct i j r FAT r' FAT' hij hi hj }

/-- A place of the array gets a volume, with the next letter. -/
lemma Untouched.fill (hs : Untouched s) {k : Fin 4} {fs FAT : ℕ} {r : MountRecord} (hfs : fs ≠ 0)
    (hcount : s.iLastDriveCount ≠ 4) (hletter : r.rootPath 0 = letterAssignment s.iLastDriveCount)
    (hun : s.heap.Unallocated fs sizeofFat32) (hholds : HoldsRecord s.heap.mem fs r FAT)
    (hnew : ∀ i, s.partition i ≠ fs) :
    Untouched (s.mounted k ⟨fs, s.heap, s.iLastDriveCount + 1, some (r, FAT)⟩) := by
  have hle := hs.count
  have hcases : ∀ i r' FAT', (s.mounted k ⟨fs, s.heap, s.iLastDriveCount + 1, some (r, FAT)⟩).computed i =
      some (r', FAT') → (i = k ∧ r' = r ∧ FAT' = FAT) ∨ (i ≠ k ∧ s.computed i = some (r', FAT')) := by
    intro i r' FAT' hi
    by_cases hik : i = k
    · rw [hik, mounted_computed_self] at hi
      obtain ⟨rfl, rfl⟩ := Prod.mk.inj (Option.some.inj hi)
      exact Or.inl ⟨hik, rfl, rfl⟩
    · exact Or.inr ⟨hik, mounted_computed_of_ne s _ hik ▸ hi⟩
  have hfresh : ∀ i r' FAT', s.computed i = some (r', FAT') → r'.rootPath 0 ≠ r.rootPath 0 := by
    intro i r' FAT' hi heq
    obtain ⟨n, hn, hr'⟩ := hs.letter i r' FAT' hi
    rw [hr', hletter] at heq
    have := letterAssignment_inj n (by omega) s.iLastDriveCount (by omega) heq
    omega
  exact {
    sane := hs.sane
    count := by
      change s.iLastDriveCount + 1 ≤ 4
      omega
    null := fun i hi => by
      by_cases hik : i = k
      · rw [hik, mounted_computed_self] at hi
        cases hi
      · rw [mounted_partition_of_ne s _ hik]
        exact hs.null i (mounted_computed_of_ne s _ hik ▸ hi)
    held := fun i r' FAT' hi => by
      rcases hcases i r' FAT' hi with ⟨rfl, rfl, rfl⟩ | ⟨hik, hi⟩
      · rw [mounted_partition_self]
        exact ⟨hun, hholds⟩
      · rw [mounted_partition_of_ne s _ hik]
        exact hs.held i r' FAT' hi
    letter := fun i r' FAT' hi => by
      rcases hcases i r' FAT' hi with ⟨rfl, rfl, rfl⟩ | ⟨hik, hi⟩
      · exact ⟨s.iLastDriveCount, Nat.lt_succ_self _, hletter⟩
      · obtain ⟨n, hn, hr'⟩ := hs.letter i r' FAT' hi
        exact ⟨n, Nat.lt_succ_of_lt hn, hr'⟩
    nonzero := fun i r' FAT' hi => by
      rcases hcases i r' FAT' hi with ⟨rfl, rfl, rfl⟩ | ⟨hik, hi⟩
      · rw [mounted_partition_self]
        exact hfs
      · rw [mounted_partition_of_ne s _ hik]
        exact hs.nonzero i r' FAT' hi
    distinct := fun i j r₁ FAT₁ r₂ FAT₂ hij hi hj => by
      rcases hcases i r₁ FAT₁ hi with ⟨rfl, rfl, rfl⟩ | ⟨hik, hold⟩
      · rcases hcases j r₂ FAT₂ hj with ⟨rfl, rfl, rfl⟩ | ⟨hjk, hj⟩
        · exact absurd rfl hij
        · rw [mounted_partition_self, mounted_partition_of_ne s _ hjk]
          exact ⟨(hnew j).symm, (hfresh j r₂ FAT₂ hj).symm⟩
      · rcases hcases j r₂ FAT₂ hj with ⟨rfl, rfl, rfl⟩ | ⟨hjk, hj⟩
        · rw [mounted_partition_self, mounted_partition_of_ne s _ hik]
          exact ⟨hnew i, hfresh i r₁ FAT₁ hold⟩
        · rw [mounted_partition_of_ne s _ hik, mounted_partition_of_ne s _ hjk]
          exact hs.distinct i j r₁ FAT₁ r₂ FAT₂ hij hold hj }

lemma Untouched.step (hreads : ReadsSectors d sectors)
    (hsize : (readBlock sectors).sectorsPerFat32 < 2^23) (hs : Untouched s) (hfair : op.Fair sectors s)
    (hspares : op.Spares sectors s) (hstep : op.step d junk s = some t) : Untouched t := by
  cases op with
  | mount c =>
    by_cases habsent : partitionSector (sectorBytes (sectors 0)) c.iPartitionNumber = noPartition
    · obtain ⟨mem, -, heq⟩ := fatInitializeIn_eq hreads junk (h := s.heap) (n := s.iLastDriveCount)
        (c := c)
      rw [step_mount junk (heq.trans (if_pos habsent))] at hstep
      obtain rfl := Option.some.inj hstep
      exact hs.clear c.iPartitionNumber
    obtain ⟨hrecord, hboot, htable⟩ := hfair habsent
    by_cases hmounts : (readBlock sectors).IsFat32 ∧ s.iLastDriveCount ≠ 4
    · obtain ⟨heap, r, hcall, hletter, hsane, hun, hholds, hregion⟩ := fatInitializeIn_fills hreads junk
        hs.sane hrecord hboot hsize ⟨habsent, hmounts.1⟩ hmounts.2 (htable hmounts.1 hmounts.2)
      rw [step_mount junk hcall] at hstep
      obtain rfl := Option.some.inj hstep
      have hheap : Untouched { s with heap := heap } := by
        refine hs.of_heap hsane fun i hi => ?_
        obtain ⟨hclear, hclear', hclear''⟩ := hspares i hi
        cases hi' : s.computed i with
        | none => exact absurd (hs.null i hi') hi
        | some r => exact hregion _ _ (hs.held i r.1 r.2 hi').1 hclear hclear' hclear''
      have hpos : c.fs ≠ 0 := Nat.pos_iff_ne_zero.mp hrecord.start_pos
      refine hheap.fill hpos hmounts.2 hletter hun hholds fun i heq => ?_
      have hi : s.partition i ≠ 0 := fun hzero => hpos (heq.symm.trans hzero)
      have hclear := (hspares i hi).1 (s.partition i) le_rfl (Nat.lt_add_of_pos_right (by decide))
      exact hclear ⟨heq.ge, heq ▸ Nat.lt_add_of_pos_right (Nat.zero_lt_succ 111)⟩
    · have hfull : (readBlock sectors).IsFat32 → s.iLastDriveCount = 4 := by
        intro hfat
        by_contra hcount
        exact hmounts ⟨hfat, hcount⟩
      obtain ⟨heap, hcall, hsane, hregion⟩ := fatInitializeIn_keeps hreads junk hs.sane hrecord hboot
        habsent hfull
      rw [step_mount junk hcall] at hstep
      obtain rfl := Option.some.inj hstep
      have hheap : Untouched { s with heap := heap } := by
        refine hs.of_heap hsane fun i hi => ?_
        obtain ⟨hclear, hclear', -⟩ := hspares i hi
        cases hi' : s.computed i with
        | none => exact absurd (hs.null i hi') hi
        | some r => exact hregion _ (hs.held i r.1 r.2 hi').1 hclear hclear'
      exact hheap.clear c.iPartitionNumber
  | traffic tr =>
    obtain rfl := Option.some.inj hstep
    refine hs.of_heap (Traffic.Fair.sane hfair hs.sane) fun i hi => ?_
    cases hi' : s.computed i with
    | none => exact absurd (hs.null i hi') hi
    | some r =>
      have hun := (hs.held i r.1 r.2 hi').1
      exact ⟨(hspares i hi).unallocated hun, fun a ha hlt =>
        Traffic.Fair.mem_eq hfair fun b hb _ => hun b hb a ha hlt⟩

/-- In every run that hands no record out again, the volumes are kept and their letters lead to
them. -/
theorem volumes_kept_of_spared (hreads : ReadsSectors d sectors)
    (hsize : (readBlock sectors).sectorsPerFat32 < 2^23) {ops : List VolumeOp} (hs : Untouched s)
    (hrun : GuardedRun (fun s op => VolumeOp.Fair sectors s op ∧ VolumeOp.Spares sectors s op)
      (VolumeOp.step d junk) s ops t) : VolumesKept t := by
  refine (hrun.invariant (I := Untouched) ?_ hs).kept
  exact fun s op t hs hok hstep => hs.step hreads hsize hok.1 hok.2 hstep

end Kept
end Open98.Fat32
