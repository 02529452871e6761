import Open98.Fat32.ClusterIO
import Open98.Fat32.Mount

/-! What the calls do to the sectors of the disk: their writes to clusters, and the table that they
write when they are done. -/
namespace Open98.Fat32
open Open98.Library Open98.Ata

/-- The sectors below the limit read back as they were last written. -/
structure SectorStore (δ : Type) [Disk δ] (sectors : δ → ℕ → Sector) (limit : ℕ) : Prop where
  read : ∀ d, ReadsSectors d (sectors d)
  write : WritesSectors δ sectors limit

/-- The driver and its drive, where reading is not cut off. -/
lemma drive_sectorStore : SectorStore Drive (fun d s => d.sectors (s % 2^28)) (2^28) where
  read := drive_readsSectors
  write d buff s hs := by
    obtain ⟨d', hwrite, hsectors⟩ := kiATAWriteDisk_ok d (show s < 2^48 by omega) buff
    refine ⟨d', hwrite, fun t ht => ?_⟩
    dsimp only
    rw [hsectors, Nat.mod_eq_of_lt ht, Function.update_apply]

/-- The table and the clusters of a volume lie below the limit. -/
structure Geometry.Placed (g : Geometry) (limit : ℕ) : Prop where
  limit_le : limit ≤ 2^32
  table : g.fatSector + g.sectorsPerFat32 ≤ limit
  below : ∀ c, g.HasCluster c → g.clusterSector + (c-2+1) * g.sectorsPerCluster ≤ limit

/-- The sector belongs to a cluster. -/
def Geometry.InClusters (g : Geometry) (s : ℕ) : Prop := ∃ c, g.HasCluster c ∧
  fatAcquireSectorForCluster g c ≤ s ∧ s < fatAcquireSectorForCluster g c + g.sectorsPerCluster

/-- The sector belongs to the table that is written. -/
def Geometry.InTable (g : Geometry) (s : ℕ) : Prop :=
  g.fatSector ≤ s ∧ s < g.fatSector + g.sectorsPerFat32

instance (g : Geometry) (s : ℕ) : Decidable (g.InTable s) := inferInstanceAs (Decidable (_ ∧ _))

namespace Geometry.Placed
variable {g : Geometry} {limit : ℕ} (h : g.Placed limit) {c : ℕ} (hc : g.HasCluster c)
include h hc

/-- No address of a cluster wraps around. -/
lemma sector_eq : fatAcquireSectorForCluster g c = g.clusterSector + (c-2) * g.sectorsPerCluster ∧
    fatAcquireSectorForCluster g c + g.sectorsPerCluster ≤ limit :=
  fatAcquireSectorForCluster_eq hc (h.below c hc) h.limit_le

end Geometry.Placed

/-- The clusters lie behind the place where the data area starts. -/
lemma Geometry.Placed.le_of_inClusters {g : Geometry} {limit s : ℕ} (h : g.Placed limit)
    (hs : g.InClusters s) : g.clusterSector ≤ s := by
  obtain ⟨c, hc, hle, -⟩ := hs
  rw [(h.sector_eq hc).1] at hle
  omega

section Writing
variable {δ : Type} [Disk δ] {sectors : δ → ℕ → Sector} {limit : ℕ}
  (store : SectorStore δ sectors limit) {d d' : δ}
include store

lemma fatPutSector_sectors {buff : Buffer} {sector n : ℕ} (hlimit : limit ≤ 2^32)
    (hrun : sector + n ≤ limit) (h : fatPutSector d buff sector n = .ok d') {t : ℕ} (ht : t < limit) :
    sectors d' t =
      if sector ≤ t ∧ t < sector + n then sectorAt buff ((t - sector) * 512) else sectors d t := by
  obtain ⟨e, hput, hsectors⟩ := fatPutSector_ok store.write hlimit d buff hrun
  obtain rfl := Except.ok.inj (h.symm.trans hput)
  exact hsectors t ht

variable {g : Geometry} (placed : g.Placed limit)
include placed

lemma fatPutCluster_sectors {buff : Buffer} {c : ℕ} (hc : g.HasCluster c)
    (h : fatPutCluster g d buff c = .ok d') {t : ℕ} (ht : t < limit) (hout : ¬ g.InClusters t) :
    sectors d' t = sectors d t := by
  rw [fatPutSector_sectors store placed.limit_le (placed.sector_eq hc).2 h ht]
  exact if_neg fun hin => hout ⟨c, hc, hin⟩

lemma fatFlushFAT_sectors {FAT : ℕ → ℕ} (h : fatFlushFAT g d FAT = .ok d') {t : ℕ} (ht : t < limit) :
    sectors d' t =
      if g.InTable t then sectorAt (fatBytes FAT) ((t - g.fatSector) * 512) else sectors d t :=
  fatPutSector_sectors store placed.limit_le placed.table h ht

omit [Disk δ] store placed in
/-- The four bytes that a cell is written as make up the cell again. -/
lemma bufferInteger32_fatBytes {FAT : ℕ → ℕ} {c : ℕ} (hc : FAT c < 2^32) (s : Buffer)
    {offset : ℕ} (hs : ∀ i < 4, s (offset + i) = fatBytes FAT (4*c + i)) :
    bufferInteger32 s offset = FAT c := by
  have hbyte : ∀ i < 4, (s (offset + i)).toNat = FAT c / 256^i % 256 := by
    intro i hi
    rw [hs i hi, fatBytes, show (4*c + i) / 4 = c by omega, show (4*c + i) % 4 = i by omega]
    rfl
  have h0 := hbyte 0 (by decide)
  rw [Nat.add_zero] at h0
  rw [bufferInteger32, h0, hbyte 1 (by decide), hbyte 2 (by decide), hbyte 3 (by decide)]
  omega

omit [Disk δ] store placed in
lemma cellOnDisk_fatBytes {sectors : ℕ → Sector} {FAT : ℕ → ℕ} {fatSector c : ℕ}
    (h : sectors ((fatSector + c / 128) % 2^32) = sectorAt (fatBytes FAT) (c / 128 * 512))
    (hc : FAT c < 2^32) : cellOnDisk sectors fatSector c = FAT c := by
  rw [cellOnDisk, h]
  refine bufferInteger32_fatBytes hc _ fun i hi => ?_
  rw [sectorBytes, storeSector, dif_pos (by omega), sectorAt]
  congr 1
  dsimp only
  omega

/-- What is flushed is what the disk then holds, cell for cell. -/
lemma cellOnDisk_flush {FAT : ℕ → ℕ} (h : fatFlushFAT g d FAT = .ok d') {c : ℕ}
    (hc : c < 128 * g.sectorsPerFat32) (hcell : FAT c < 2^32) :
    cellOnDisk (sectors d') g.fatSector c = FAT c := by
  have hlimit := placed.limit_le
  have htable := placed.table
  apply cellOnDisk_fatBytes _ hcell
  rw [Nat.mod_eq_of_lt (by omega), fatFlushFAT_sectors store placed h (by omega),
    if_pos ⟨by omega, by omega⟩, Nat.add_sub_cancel_left]

end Writing

section Changes
variable {δ : Type} [Disk δ]

/-- What a call does before it writes the table: it writes clusters, changes cells of clusters, and
moves the hint. -/
inductive Changes (v : FAT32 δ) : FAT32 δ → Prop
  | refl : Changes v v
  | put {w c buff d} (h : Changes v w) (hc : w.geometry.HasCluster c)
      (hput : fatPutCluster w.geometry w.disk buff c = .ok d) : Changes v { w with disk := d }
  | table {w FAT} (h : Changes v w)
      (hFAT : ∀ c, FAT c = w.FAT c ∨ w.geometry.HasCluster c ∧ FAT c < 2^32) :
      Changes v { w with FAT := FAT }
  | hint {w i} (h : Changes v w) (hi : i ≤ w.geometry.intsPerFat) :
      Changes v { w with clusterAllocationHint := i }

/-- What a call does as a whole: nothing, or changes and then the flush. Other code may have changed the
memory that is not written yet. -/
inductive Settles (v : FAT32 δ) : FAT32 δ → Prop
  | same (junk) : Settles v { v with junk := junk }
  | flush {w d} (h : Changes v w) (hflush : fatFlushFAT w.geometry w.disk w.FAT = .ok d) :
      Settles v { w with disk := d }

namespace Changes
variable {v w u : FAT32 δ}

lemma trans (h : Changes v w) (h' : Changes w u) : Changes v u := by
  induction h' with
  | refl => exact h
  | put _ hc hput ih => exact .put ih hc hput
  | table _ hFAT ih => exact .table ih hFAT
  | hint _ hi ih => exact .hint ih hi

lemma geometry_eq (h : Changes v w) : w.geometry = v.geometry := by
  induction h with
  | refl => rfl
  | put _ _ _ ih => exact ih
  | table _ _ ih => exact ih
  | hint _ _ ih => exact ih

lemma ready (h : Changes v w) (hv : AllocReady v) : AllocReady w := by
  induction h with
  | refl => exact hv
  | put _ _ _ ih => exact ⟨ih.reserved, ih.hint⟩
  | @table w FAT _ hFAT ih =>
    have hcell : ∀ c < 2, FAT c = w.FAT c := by
      intro c hc
      refine (hFAT c).resolve_right fun hcluster => ?_
      have := hcluster.1.1
      omega
    refine ⟨⟨?_, ?_⟩, ih.hint⟩
    · exact (hcell 0 (by decide)).trans_ne ih.reserved.1
    · exact (hcell 1 (by decide)).trans_ne ih.reserved.2
  | hint _ hi ih => exact ⟨ih.reserved, hi⟩

/-- The cells stay cells of 32 bits. -/
lemma cell_lt (h : Changes v w) {c : ℕ} (hc : v.FAT c < 2^32) : w.FAT c < 2^32 := by
  induction h with
  | refl => exact hc
  | put _ _ _ ih => exact ih
  | table _ hFAT ih =>
    rcases hFAT c with heq | ⟨-, hlt⟩
    · exact heq.trans_lt ih
    · exact hlt
  | hint _ _ ih => exact ih

/-- Behind the table the memory stays as it is. -/
lemma cell_beyond (h : Changes v w) {c : ℕ} (hc : v.geometry.intsPerFat ≤ c) : w.FAT c = v.FAT c := by
  induction h with
  | refl => rfl
  | put _ _ _ ih => exact ih
  | @table w FAT hw hFAT ih =>
    rcases hFAT c with heq | ⟨hcluster, -⟩
    · exact heq.trans ih
    · have := hcluster.2
      rw [hw.geometry_eq] at this
      omega
  | hint _ _ ih => exact ih

/-- Only sectors of clusters change. -/
lemma sectors_eq {sectors : δ → ℕ → Sector} {limit : ℕ} (store : SectorStore δ sectors limit)
    (placed : v.geometry.Placed limit) (h : Changes v w) {s : ℕ} (hs : s < limit)
    (hout : ¬ v.geometry.InClusters s) : sectors w.disk s = sectors v.disk s := by
  induction h with
  | refl => rfl
  | @put w c buff d hw hc hput ih =>
    have hg := hw.geometry_eq
    rw [hg] at hc hput
    exact (fatPutCluster_sectors store placed hc hput hs hout).trans ih
  | table _ _ ih => exact ih
  | hint _ _ ih => exact ih

end Changes

namespace Settles
variable {v w : FAT32 δ}

lemma geometry_eq (h : Settles v w) : w.geometry = v.geometry := by
  cases h with
  | same => rfl
  | flush h => exact h.geometry_eq

lemma ready (h : Settles v w) (hv : AllocReady v) : AllocReady w := by
  cases h with
  | same => exact ⟨hv.reserved, hv.hint⟩
  | flush h => exact ⟨(h.ready hv).reserved, (h.ready hv).hint⟩

lemma cell_beyond (h : Settles v w) {c : ℕ} (hc : v.geometry.intsPerFat ≤ c) : w.FAT c = v.FAT c := by
  cases h with
  | same => rfl
  | flush h => exact h.cell_beyond hc

/-- Only sectors of clusters and of the table change. -/
lemma sectors_eq {sectors : δ → ℕ → Sector} {limit : ℕ} (store : SectorStore δ sectors limit)
    (placed : v.geometry.Placed limit) (h : Settles v w) {s : ℕ} (hs : s < limit)
    (hcluster : ¬ v.geometry.InClusters s) (htable : ¬ v.geometry.InTable s) :
    sectors w.disk s = sectors v.disk s := by
  cases h with
  | same => rfl
  | flush h hflush =>
    rw [h.geometry_eq] at hflush
    dsimp only
    rw [fatFlushFAT_sectors store placed hflush hs, if_neg htable]
    exact h.sectors_eq store placed hs hcluster

end Settles
end Changes

end Open98.Fat32
