import Open98.Drv.Disk
import Open98.Library.LinkedChain

/-! The mounted volume of `drv/filesystem/fat32/fat32.c`: its geometry, the table in memory, and
the reading and writing of sectors and clusters. Values of type `UINT` are naturals, with the
wrap-around written out where it can happen. Debug output is left out. -/
namespace Open98.Fat32
open Open98.Library

def EOC : ℕ := 0x0FFFFFF8

/-- What mounting reads from the boot sector and computes from it. -/
structure Geometry where
  sectorsPerCluster : ℕ
  sectorsPerFat32 : ℕ
  fatSector : ℕ
  clusterSector : ℕ
  sectorsPerCluster_pos : 0 < sectorsPerCluster

namespace Geometry
variable (g : Geometry)

def clusterSize : ℕ := 512 * g.sectorsPerCluster

/-- The number of cells of the table. -/
def intsPerFat : ℕ := 512 * g.sectorsPerFat32 % 2^32 / 4

/-- `dirs_per_cluster`. -/
def dirsPerCluster : ℕ := g.clusterSize / 32

/-- The number is that of a cluster with a cell of its own. -/
def HasCluster (c : ℕ) : Prop := 2 ≤ c ∧ c < g.intsPerFat

instance (c : ℕ) : Decidable (g.HasCluster c) := inferInstanceAs (Decidable (_ ∧ _))

lemma clusterSize_pos : 0 < g.clusterSize := by
  have := g.sectorsPerCluster_pos
  unfold clusterSize
  omega

lemma dirsPerCluster_eq : g.dirsPerCluster = 16 * g.sectorsPerCluster := by
  unfold dirsPerCluster clusterSize
  omega

lemma clusterSize_eq : g.clusterSize = 32 * g.dirsPerCluster := by
  rw [dirsPerCluster_eq, clusterSize]
  omega

end Geometry

/-- A mounted volume on a disk. `junk` is what memory holds that the code has not written yet. -/
structure FAT32 (δ : Type) where
  geometry : Geometry
  FAT : ℕ → ℕ
  clusterAllocationHint : ℕ
  disk : δ
  junk : Buffer

section Sectors
variable {δ : Type} [Disk δ]

def fatGetSector (d : δ) (buff : Buffer) (sector count : ℕ) : Result Buffer :=
  Disk.kiATAReadDiskEx d sector count buff

def fatPutSector (d : δ) (buff : Buffer) (sector : ℕ) : ℕ → Result δ
  | 0 => .ok d
  | i+1 => do
    let d ← fatPutSector d buff sector i
    Disk.kiATAWriteDisk d ((sector + i) % 2^32) 1 fun k => buff (i*512 + k)

/-- The table as bytes in memory, low byte first. -/
def fatBytes (FAT : ℕ → ℕ) : Buffer := fun k => BitVec.ofNat 8 (FAT (k/4) / 256^(k%4))

def fatFlushFAT (g : Geometry) (d : δ) (FAT : ℕ → ℕ) : Result δ :=
  fatPutSector d (fatBytes FAT) g.fatSector g.sectorsPerFat32

def fatAcquireSectorForCluster (g : Geometry) (cluster : ℕ) : ℕ :=
  (g.clusterSector + (cluster + 2^32 - 2) % 2^32 * g.sectorsPerCluster) % 2^32

def fatGetCluster (g : Geometry) (d : δ) (buff : Buffer) (cluster : ℕ) : Result Buffer :=
  fatGetSector d buff (fatAcquireSectorForCluster g cluster) g.sectorsPerCluster

def fatPutCluster (g : Geometry) (d : δ) (buff : Buffer) (cluster : ℕ) : Result δ :=
  fatPutSector d buff (fatAcquireSectorForCluster g cluster) g.sectorsPerCluster

def fatClearCluster (g : Geometry) (d : δ) (cluster : ℕ) : Result δ :=
  fatPutCluster g d (fun _ => 0) cluster

/-- The first `ClusterSize` bytes of a buffer. -/
def Geometry.cut (g : Geometry) (buff : Buffer) : Buffer :=
  fun k => if k < g.clusterSize then buff k else 0

/-- What `FatGetCluster` reads from a cluster. -/
def content (g : Geometry) (d : δ) (cluster : ℕ) : Buffer :=
  if g.HasCluster cluster then
    match fatGetCluster g d (fun _ => 0) cluster with
    | .ok b => g.cut b
    | .error _ => fun _ => 0
  else fun _ => 0

/-- `FatGetCluster` fills the first `ClusterSize` bytes of its buffer, with the same bytes whatever
the buffer held. -/
def ReadsClusters (g : Geometry) (d : δ) : Prop := ∀ (buff : Buffer) c, g.HasCluster c →
  fatGetCluster g d buff c = .ok fun k => if k < g.clusterSize then content g d c k else buff k

/-- `FatGetCluster` returns what `FatPutCluster` last wrote to the cluster, and writing the table
changes no cluster. -/
structure ClusterStore (g : Geometry) (δ : Type) [Disk δ] : Prop where
  get : ∀ d : δ, ReadsClusters g d
  put : ∀ (d : δ) (buff : Buffer) c, g.HasCluster c → ∃ d', fatPutCluster g d buff c = .ok d' ∧
    content g d' = Function.update (content g d) c (g.cut buff)
  flush : ∀ (d : δ) (FAT : ℕ → ℕ), ∃ d', fatFlushFAT g d FAT = .ok d' ∧ content g d' = content g d

end Sectors

namespace FAT32
variable {δ : Type} [Disk δ] (v : FAT32 δ)

/-- What the clusters of the volume hold. -/
def clusters : ℕ → Buffer := content v.geometry v.disk

end FAT32

section Table
variable {δ : Type} [Disk δ]

def fatGetNextClusterID (v : FAT32 δ) (cluster : ℕ) : ℕ := v.FAT cluster % 2^28

/-- The first free cell among the given number of cells from cell `i` on. -/
def firstFree (FAT : ℕ → ℕ) : ℕ → ℕ → Option ℕ
  | _, 0 => none
  | i, left+1 => if FAT i = 0 then some i else firstFree FAT (i+1) left

/-- What `FatAllocCluster` does with the free cell it has found. -/
def takeCluster (v : FAT32 δ) (i : ℕ) : Result (ℕ × FAT32 δ) := do
  let d ← fatClearCluster v.geometry v.disk i
  return (i, { v with
    FAT := Function.update v.FAT i 0x0FFFFFFF
    disk := d
    clusterAllocationHint := i + 1 })

/-- The cells from the hint on are searched first, then those before it; 0 is "none". -/
def fatAllocCluster (v : FAT32 δ) : Result (ℕ × FAT32 δ) :=
  let hint := v.clusterAllocationHint
  match firstFree v.FAT hint (v.geometry.intsPerFat - hint) with
  | some i => takeCluster v i
  | none =>
    match firstFree v.FAT 0 hint with
    | some i => takeCluster v i
    | none => .ok (0, v)

/-- The cells that a chain goes through are set to 0; more turns than `fuel` count as none
that ends. -/
def zeroChain : ℕ → (ℕ → ℕ) → ℕ → Result (ℕ → ℕ)
  | 0, _, _ => .error .hang
  | fuel+1, FAT, cluster =>
    if cluster < EOC ∧ cluster ≠ 0 then
      zeroChain fuel (Function.update FAT cluster 0) (FAT cluster)
    else .ok FAT

def fatZeroFatChain (fuel : ℕ) (v : FAT32 δ) (startCluster : ℕ) : Result (FAT32 δ) := do
  let FAT ← zeroChain fuel v.FAT startCluster
  let d ← fatFlushFAT v.geometry v.disk FAT
  return { v with FAT := FAT, disk := d }

def fatGetFreeClusters (v : FAT32 δ) : ℕ :=
  ((List.range v.geometry.intsPerFat).filter fun i => v.FAT i = 0).length

end Table

end Open98.Fat32
