import Open98.Drv.Ata
import Open98.Fat32.Table

/-! Reading and writing clusters through the disk driver. Writing goes sector by sector with 512
bytes for each; reading lays the sectors of a cluster 256 bytes apart. -/
namespace Open98.Fat32
open Open98.Ata

/-- No address of a cluster wraps around when its sectors end below 2^32. -/
lemma fatAcquireSectorForCluster_eq {g : Geometry} {c limit : ℕ} (hc : g.HasCluster c)
    (hbelow : g.clusterSector + (c-2+1) * g.sectorsPerCluster ≤ limit) (hlimit : limit ≤ 2^32) :
    fatAcquireSectorForCluster g c = g.clusterSector + (c-2) * g.sectorsPerCluster ∧
      fatAcquireSectorForCluster g c + g.sectorsPerCluster ≤ limit := by
  have hpos := g.sectorsPerCluster_pos
  rw [Nat.add_mul, Nat.one_mul] at hbelow
  have hmul : c-2 ≤ (c-2) * g.sectorsPerCluster := Nat.le_mul_of_pos_right _ hpos
  have hc2 := hc.1
  have hindex : (c + 2^32 - 2) % 2^32 = c - 2 := by omega
  have heq : fatAcquireSectorForCluster g c = g.clusterSector + (c-2) * g.sectorsPerCluster := by
    rw [fatAcquireSectorForCluster, hindex]
    exact Nat.mod_eq_of_lt (by omega)
  exact ⟨heq, by omega⟩

/-- The volumes in question: the sectors of every cluster lie below 2^28, and there are at most
128 of them in a cluster. -/
structure Geometry.Reachable (g : Geometry) : Prop where
  power : ∃ k ≤ 7, g.sectorsPerCluster = 2^k
  below : ∀ c, g.HasCluster c → g.clusterSector + (c-2+1) * g.sectorsPerCluster ≤ 2^28

namespace Geometry.Reachable
variable {g : Geometry} (h : g.Reachable) {c : ℕ}
include h

lemma sectorsPerCluster_le : g.sectorsPerCluster ≤ 128 := by
  obtain ⟨k, hk, hpow⟩ := h.power
  rw [hpow]
  exact Nat.pow_le_pow_right (by decide) hk

/-- The sectors of a cluster: no address wraps around. -/
lemma sector_eq (hc : g.HasCluster c) : fatAcquireSectorForCluster g c =
      g.clusterSector + (c-2) * g.sectorsPerCluster ∧
    fatAcquireSectorForCluster g c + g.sectorsPerCluster ≤ 2^28 :=
  fatAcquireSectorForCluster_eq hc (h.below c hc) (by decide)

/-- Two clusters have no sector in common. -/
lemma sectors_disjoint {c' : ℕ} (hc : g.HasCluster c) (hc' : g.HasCluster c') (hne : c' ≠ c) {s : ℕ}
    (hs : fatAcquireSectorForCluster g c' ≤ s)
    (hlt : s < fatAcquireSectorForCluster g c' + g.sectorsPerCluster) :
    ¬ (fatAcquireSectorForCluster g c ≤ s ∧ s < fatAcquireSectorForCluster g c + g.sectorsPerCluster) := by
  intro ⟨hs', hlt'⟩
  rw [(h.sector_eq hc).1] at hs' hlt'
  rw [(h.sector_eq hc').1] at hs hlt
  have hstep : ∀ a b : ℕ, a < b → a * g.sectorsPerCluster + g.sectorsPerCluster ≤ b * g.sectorsPerCluster :=
    fun a b hab => by
      rw [← Nat.succ_mul]
      exact Nat.mul_le_mul_right _ hab
  have hc2 := hc.1
  have hc2' := hc'.1
  rcases Nat.lt_or_gt_of_ne (show c' - 2 ≠ c - 2 by omega) with hlt2 | hlt2
  · have := hstep _ _ hlt2
    omega
  · have := hstep _ _ hlt2
    omega

end Geometry.Reachable

section Sectors
variable {δ : Type} [Disk δ]

/-- Writing a sector below the limit changes this sector and no other one below it. -/
def WritesSectors (δ : Type) [Disk δ] (sectors : δ → ℕ → Sector) (limit : ℕ) : Prop :=
  ∀ (d : δ) (buff : Buffer), ∀ s < limit, ∃ d', Disk.kiATAWriteDisk d s 1 buff = .ok d' ∧
    ∀ t < limit, sectors d' t = if t = s then sectorAt buff 0 else sectors d t

/-- Writing a run of sectors changes these sectors and no others. -/
lemma fatPutSector_ok {sectors : δ → ℕ → Sector} {limit : ℕ} (writes : WritesSectors δ sectors limit)
    (hlimit : limit ≤ 2^32) (d : δ) (buff : Buffer) {sector n : ℕ} (h : sector + n ≤ limit) :
    ∃ d', fatPutSector d buff sector n = .ok d' ∧ ∀ s < limit, sectors d' s =
      if sector ≤ s ∧ s < sector + n then sectorAt buff ((s - sector) * 512) else sectors d s := by
  induction n with
  | zero => exact ⟨d, rfl, fun s _ => by rw [if_neg (by omega)]⟩
  | succ n ih =>
    obtain ⟨d', hrun, hsectors⟩ := ih (by omega)
    obtain ⟨d'', hwrite, hlast⟩ := writes d' (fun k => buff (n*512 + k)) (sector + n) (by omega)
    refine ⟨d'', ?_, fun s hs => ?_⟩
    · rw [fatPutSector, hrun, ok_bind, Nat.mod_eq_of_lt (by omega)]
      exact hwrite
    · rw [hlast s hs]
      by_cases hsn : s = sector + n
      · rw [if_pos hsn, if_pos (by omega), hsn, Nat.add_sub_cancel_left]
        funext j
        simp [sectorAt]
      · rw [if_neg hsn, hsectors s hs]
        by_cases hin : sector ≤ s ∧ s < sector + n
        · rw [if_pos hin, if_pos (by omega)]
        · rw [if_neg hin, if_neg (by omega)]

end Sectors

section Drive
variable {g : Geometry} {c : ℕ}

lemma drive_writesSectors : WritesSectors Drive Drive.sectors (2^32) := by
  intro d buff s hs
  obtain ⟨d', hwrite, hsectors⟩ := kiATAWriteDisk_ok d (show s < 2^48 by omega) buff
  refine ⟨d', hwrite, fun t _ => ?_⟩
  rw [hsectors, Function.update_apply]

variable (h : g.Reachable) (hc : g.HasCluster c)
include h hc

lemma fatPutCluster_ok (d : Drive) (buff : Buffer) :
    ∃ d', fatPutCluster g d buff c = .ok d' ∧ ∀ s < 2^32, d'.sectors s =
      if fatAcquireSectorForCluster g c ≤ s ∧ s < fatAcquireSectorForCluster g c + g.sectorsPerCluster
      then sectorAt buff ((s - fatAcquireSectorForCluster g c) * 512) else d.sectors s :=
  fatPutSector_ok drive_writesSectors le_rfl d buff (by have := (h.sector_eq hc).2; omega)

lemma fatGetCluster_ok (d : Drive) (buff : Buffer) : fatGetCluster g d buff c =
    .ok (laid d.sectors g.sectorsPerCluster (fatAcquireSectorForCluster g c) 0 buff) := by
  have hle := h.sectorsPerCluster_le
  have hpos := g.sectorsPerCluster_pos
  have hsector := (h.sector_eq hc).2
  exact kiATAReadDiskEx_ok d (by omega) (by omega) buff

/-- Other clusters are read as before. -/
lemma fatGetCluster_frame {d d' : Drive} {buff : Buffer} (hput : fatPutCluster g d buff c = .ok d')
    {c' : ℕ} (hc' : g.HasCluster c') (hne : c' ≠ c) (prior : Buffer) :
    fatGetCluster g d' prior c' = fatGetCluster g d prior c' := by
  obtain ⟨e, he, hsectors⟩ := fatPutCluster_ok h hc d buff
  obtain rfl : e = d' := Except.ok.inj (he.symm.trans hput)
  rw [fatGetCluster_ok h hc' e, fatGetCluster_ok h hc' d]
  congr 1
  refine laid_congr (fun s hs hlt => ?_) 0 prior
  have hend := (h.sector_eq hc').2
  rw [hsectors s (by omega), if_neg (h.sectors_disjoint hc hc' hne hs hlt)]

/-- What comes back is the written cluster, laid down with the stride of the reading loop. -/
lemma fatGetCluster_fatPutCluster {d d' : Drive} {buff : Buffer}
    (hput : fatPutCluster g d buff c = .ok d') (prior : Buffer) : fatGetCluster g d' prior c =
      .ok (laid (fun i => sectorAt buff (i * 512)) g.sectorsPerCluster 0 0 prior) := by
  obtain ⟨e, he, hsectors⟩ := fatPutCluster_ok h hc d buff
  obtain rfl : e = d' := Except.ok.inj (he.symm.trans hput)
  rw [fatGetCluster_ok h hc e, laid_shift]
  congr 1
  refine laid_congr (fun i _ hi => ?_) 0 prior
  have hend := (h.sector_eq hc).2
  rw [hsectors _ (by omega), if_pos (by omega), Nat.add_sub_cancel_left]

end Drive

section RoundTrip

/-- Writing a cluster and reading it back into any buffer gives what was written, and every other
cluster is read as before. -/
def RoundTrips (g : Geometry) (d : Drive) (buff : Buffer) (c : ℕ) : Prop :=
  ∃ d', fatPutCluster g d buff c = .ok d' ∧
    (∀ prior, ∃ b, fatGetCluster g d' prior c = .ok b ∧ ∀ k < g.clusterSize, b k = buff k) ∧
    ∀ c', g.HasCluster c' → c' ≠ c → ∀ prior, fatGetCluster g d' prior c' = fatGetCluster g d prior c'

variable {g : Geometry} (h : g.Reachable) {c : ℕ} (hc : g.HasCluster c) (d : Drive) (buff : Buffer)
include h hc

lemma roundTrips_one (hone : g.sectorsPerCluster = 1) : RoundTrips g d buff c := by
  obtain ⟨d', hput, -⟩ := fatPutCluster_ok h hc d buff
  refine ⟨d', hput, fun prior => ⟨_, fatGetCluster_fatPutCluster h hc hput prior, fun k hk => ?_⟩,
    fun c' hc' hne prior => fatGetCluster_frame h hc hput hc' hne prior⟩
  have hsize : k < 512 := by
    rw [Geometry.clusterSize, hone] at hk
    exact hk
  rw [hone]
  simp [laid, storeSector, sectorAt, hsize]

/-- With more than one sector the last byte of the cluster is not read at all. -/
lemma not_roundTrips (hmany : g.sectorsPerCluster ≠ 1) : ¬ RoundTrips g d buff c := by
  rintro ⟨d', hput, hget, -⟩
  have hpos := g.sectorsPerCluster_pos
  obtain ⟨b, hb, hsame⟩ := hget fun k => buff k + 1
  rw [fatGetCluster_fatPutCluster h hc hput] at hb
  have hlast := hsame (g.clusterSize - 1) (by have := g.clusterSize_pos; omega)
  rw [← Except.ok.inj hb, laid_beyond _ _ _ _ _ (by rw [Geometry.clusterSize]; omega)] at hlast
  exact absurd hlast (by simp)

/-- The round trip holds exactly on volumes with one sector in a cluster. -/
theorem roundTrips_iff : RoundTrips g d buff c ↔ g.sectorsPerCluster = 1 :=
  ⟨fun hround => by_contra fun hmany => not_roundTrips h hc d buff hmany hround,
    roundTrips_one h hc d buff⟩

end RoundTrip

section Volumes

/-- A volume with one sector in a cluster: the round trip holds for its first cluster. -/
theorem roundTrips_iff_one_sector : RoundTrips ⟨1, 1, 32, 33, by decide⟩ blank (fun _ => 7) 2 ↔ 1 = 1 :=
  roundTrips_iff ⟨⟨0, by decide, rfl⟩, fun c hc => by
    have : c < 128 := hc.2
    simp only [Nat.mul_one]
    omega⟩ (by decide) blank fun _ => 7

/-- With two sectors in a cluster, what is read back is not what was written. -/
theorem two_sectors_stale : Geometry.Reachable ⟨2, 1, 32, 33, by decide⟩ ∧
    Geometry.HasCluster ⟨2, 1, 32, 33, by decide⟩ 2 ∧
    ¬ RoundTrips ⟨2, 1, 32, 33, by decide⟩ blank (fun _ => 7) 2 := by
  have hreach : Geometry.Reachable ⟨2, 1, 32, 33, by decide⟩ :=
    ⟨⟨1, by decide, rfl⟩, fun c hc => by
      have : c < 128 := hc.2
      simp only
      omega⟩
  exact ⟨hreach, by decide, not_roundTrips hreach (by decide) blank _ (by decide)⟩

end Volumes

section OneSector
variable {g : Geometry} (h : g.Reachable) (hone : g.sectorsPerCluster = 1)
include h hone

lemma content_one {c : ℕ} (hc : g.HasCluster c) (d : Drive) :
    content g d c = storeSector (fun _ => 0) 0 (d.sectors (fatAcquireSectorForCluster g c)) := by
  funext k
  rw [content, if_pos hc, fatGetCluster_ok h hc, hone]
  simp only [Geometry.cut, Geometry.clusterSize, hone, laid]
  by_cases hk : k < 512
  · rw [if_pos hk]
  · rw [if_neg hk, storeSector, dif_neg (by omega)]

/-- With one sector in a cluster, and the table before the clusters, the driver keeps clusters. -/
theorem clusterStore_drive (hfat : g.fatSector + g.sectorsPerFat32 ≤ g.clusterSector)
    (hclusters : g.clusterSector ≤ 2^28) : ClusterStore g Drive where
  get d buff c hc := by
    rw [fatGetCluster_ok h hc, hone, content_one h hone hc]
    congr 1
    funext k
    rw [Geometry.clusterSize, hone]
    by_cases hk : k < 512 <;> simp [laid, storeSector, hk]
  put d buff c hc := by
    obtain ⟨d', hput, hsectors⟩ := fatPutCluster_ok h hc d buff
    refine ⟨d', hput, ?_⟩
    funext c'
    by_cases hc' : g.HasCluster c'
    · have hlt : fatAcquireSectorForCluster g c' < 2^32 := Nat.mod_lt _ (by decide)
      rw [content_one h hone hc']
      by_cases hne : c' = c
      · obtain rfl := hne
        funext k
        rw [Function.update_self, hsectors _ hlt, if_pos (by omega), Geometry.cut, Geometry.clusterSize,
          hone]
        by_cases hk : k < 512 <;> simp [storeSector, sectorAt, hk]
      · rw [Function.update_of_ne hne, content_one h hone hc', hsectors _ hlt, if_neg]
        exact h.sectors_disjoint hc hc' hne le_rfl (by omega)
    · have hne : c' ≠ c := fun he => hc' (he ▸ hc)
      rw [Function.update_of_ne hne, content, content, if_neg hc', if_neg hc']
  flush d FAT := by
    obtain ⟨d', hflush, hsectors⟩ := fatPutSector_ok drive_writesSectors le_rfl d (fatBytes FAT)
      (show g.fatSector + g.sectorsPerFat32 ≤ 2^32 by omega)
    refine ⟨d', hflush, ?_⟩
    funext c
    by_cases hc : g.HasCluster c
    · have hlt : fatAcquireSectorForCluster g c < 2^32 := Nat.mod_lt _ (by decide)
      rw [content_one h hone hc, content_one h hone hc, hsectors _ hlt, if_neg]
      rw [(h.sector_eq hc).1]
      omega
    · rw [content, content, if_neg hc, if_neg hc]

end OneSector

section Small

/-- A volume of 126 clusters with a sector each, behind one sector of table. -/
def small : Geometry := ⟨1, 1, 32, 33, Nat.one_pos⟩

lemma small_reachable : small.Reachable :=
  ⟨⟨0, by decide, rfl⟩, fun c hc => by
    have : c < 128 := hc.2
    simp only [small, Nat.mul_one]
    omega⟩

lemma small_clusterStore : ClusterStore small Drive :=
  clusterStore_drive small_reachable rfl (by decide) (by decide)

end Small

end Open98.Fat32
