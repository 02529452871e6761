import Open98.Fat32.Remount

/-! The copies of the table on the disk. The geometry makes room for `FatCount` of them; the calls write
the first one. -/
namespace Open98.Fat32
open Open98.Library Open98.Ata

section Cells

/-- The bytes of a word can be told from its value. -/
lemma bufferInteger32_inj {b b' : Buffer} {offset : ℕ}
    (h : bufferInteger32 b offset = bufferInteger32 b' offset) {i : ℕ} (hi : i < 4) :
    b (offset + i) = b' (offset + i) := by
  have hlt : ∀ (x : UCHAR), x.toNat < 2^8 := fun x => x.isLt
  have h0 := hlt (b offset)
  have h1 := hlt (b (offset+1))
  have h2 := hlt (b (offset+2))
  have h0' := hlt (b' offset)
  have h1' := hlt (b' (offset+1))
  have h2' := hlt (b' (offset+2))
  rw [bufferInteger32, bufferInteger32] at h
  apply BitVec.eq_of_toNat_eq
  obtain rfl | rfl | rfl | rfl : i = 0 ∨ i = 1 ∨ i = 2 ∨ i = 3 := by omega
  · rw [Nat.add_zero]
    omega
  · omega
  · omega
  · omega

variable {sectors sectors' : ℕ → Sector} {fatSector n : ℕ}

/-- Two tables of `n` sectors are the same cell for cell exactly when they are so byte for byte. -/
lemma cells_eq_iff (hlt : fatSector + n ≤ 2^32) :
    (∀ c < 128 * n, cellOnDisk sectors fatSector c = cellOnDisk sectors' fatSector c) ↔
      ∀ i < n, sectors (fatSector + i) = sectors' (fatSector + i) := by
  constructor
  · intro h i hi
    funext j
    have hj := j.isLt
    have hcell := h (128 * i + j.val / 4) (by omega)
    rw [cellOnDisk, cellOnDisk, show (128 * i + j.val / 4) / 128 = i by omega,
      show (128 * i + j.val / 4) % 128 = j.val / 4 by omega, Nat.mod_eq_of_lt (by omega)] at hcell
    have hbyte := bufferInteger32_inj hcell (Nat.mod_lt j.val (by decide : 0 < 4))
    have hindex : j.val / 4 * 4 + j.val % 4 = j.val := by omega
    rw [hindex] at hbyte
    simpa [sectorBytes, storeSector, hj] using hbyte
  · intro h c hc
    rw [cellOnDisk, cellOnDisk, Nat.mod_eq_of_lt (by omega), h (c / 128) (by omega)]

end Cells

section Copies

/-- Sector `i` of copy `j`. -/
def Geometry.copySector (g : Geometry) (j i : ℕ) : ℕ := g.fatSector + j * g.sectorsPerFat32 + i

/-- The `FatCount` copies lie one behind the other, between the reserved sectors and the clusters. -/
def Geometry.HasCopies (g : Geometry) (fatCount : ℕ) : Prop :=
  1 ≤ fatCount ∧ g.clusterSector = g.fatSector + fatCount * g.sectorsPerFat32

/-- All copies hold the same bytes. -/
def Identical (sectors : ℕ → Sector) (g : Geometry) (fatCount : ℕ) : Prop :=
  ∀ j < fatCount, ∀ i < g.sectorsPerFat32, sectors (g.copySector j i) = sectors (g.copySector 0 i)

variable {g : Geometry} {limit fatCount : ℕ} (placed : g.Placed limit) (hg : g.Addressable)
  (hcopies : g.HasCopies fatCount)
include hcopies

lemma Geometry.HasCopies.lt {j i : ℕ} (hj : j < fatCount) (hi : i < g.sectorsPerFat32) :
    g.copySector j i < g.clusterSector := by
  have hmul : (j + 1) * g.sectorsPerFat32 ≤ fatCount * g.sectorsPerFat32 :=
    Nat.mul_le_mul_right _ hj
  rw [Nat.add_mul, Nat.one_mul] at hmul
  rw [hcopies.2, Geometry.copySector]
  omega

include placed hg

/-- The copies behind the first one lie outside the sectors that the calls write. -/
lemma Geometry.HasCopies.outside {j i : ℕ} (hpos : 1 ≤ j) (hj : j < fatCount)
    (hi : i < g.sectorsPerFat32) :
    g.copySector j i < limit ∧ ¬ g.InClusters (g.copySector j i) ∧ ¬ g.InTable (g.copySector j i) := by
  have hlt := hcopies.lt hj hi
  have hfirst : g.HasCluster 2 := by
    refine ⟨le_rfl, ?_⟩
    rw [hg.intsPerFat_eq]
    omega
  have hbelow := placed.below 2 hfirst
  have hmul : 1 * g.sectorsPerFat32 ≤ j * g.sectorsPerFat32 := Nat.mul_le_mul_right _ hpos
  refine ⟨by omega, fun hin => ?_, fun hin => ?_⟩
  · have hle := placed.le_of_inClusters hin
    omega
  · have htable := hin.2
    rw [Geometry.copySector] at htable
    omega

end Copies

section Run
variable {δ : Type} [Disk δ] {sectors : δ → ℕ → Sector} {limit : ℕ}
  (sectorStore : SectorStore δ sectors limit) {v₀ v : FAT32 δ} (placed : v₀.geometry.Placed limit)
  (hg : v₀.geometry.Addressable) {fatCount : ℕ} (hcopies : v₀.geometry.HasCopies fatCount)
  (hv : Synced sectors limit v₀ v)
include placed hg hcopies hv

/-- The copies behind the first one are those of the start of the run. -/
lemma Synced.copies_kept {j i : ℕ} (hpos : 1 ≤ j) (hj : j < fatCount)
    (hi : i < v₀.geometry.sectorsPerFat32) :
    sectors v.disk (v₀.geometry.copySector j i) = sectors v₀.disk (v₀.geometry.copySector j i) := by
  obtain ⟨hlt, hcluster, htable⟩ := hcopies.outside placed hg hpos hj hi
  exact hv.kept _ hlt hcluster htable

include sectorStore

/-- The copies are identical when there is only one, or when the table is the one of the start. -/
lemma Synced.identical_iff (loads : LoadsBack v₀)
    (same : Identical (sectors v₀.disk) v₀.geometry fatCount) :
    Identical (sectors v.disk) v₀.geometry fatCount ↔ fatCount = 1 ∨
      ∀ c < 128 * v₀.geometry.sectorsPerFat32, v.FAT c = v₀.FAT c := by
  have htable : v₀.geometry.fatSector + v₀.geometry.sectorsPerFat32 ≤ 2^32 :=
    placed.table.trans placed.limit_le
  have hcells := (loadsBack_iff sectorStore (hv.geometry ▸ hg)).mp hv.loads
  rw [hv.geometry] at hcells
  have hcells₀ := (loadsBack_iff sectorStore hg).mp loads
  -- the table in memory is that of the start when the first copy is
  have hfirst : (∀ c < 128 * v₀.geometry.sectorsPerFat32, v.FAT c = v₀.FAT c) ↔
      ∀ i < v₀.geometry.sectorsPerFat32, sectors v.disk (v₀.geometry.copySector 0 i) =
        sectors v₀.disk (v₀.geometry.copySector 0 i) := by
    simp only [Geometry.copySector, Nat.zero_mul, Nat.add_zero]
    rw [← cells_eq_iff htable]
    refine forall_congr' fun c => forall_congr' fun hc => ?_
    rw [hcells c hc, hcells₀ c hc]
  rw [hfirst]
  constructor
  · intro h
    by_cases hone : fatCount = 1
    · exact .inl hone
    · have hone : 1 < fatCount := by
        have := hcopies.1
        omega
      refine .inr fun i hi => ?_
      calc sectors v.disk (v₀.geometry.copySector 0 i)
        _ = sectors v.disk (v₀.geometry.copySector 1 i) := (h 1 hone i hi).symm
        _ = sectors v₀.disk (v₀.geometry.copySector 1 i) := hv.copies_kept placed hg hcopies le_rfl hone hi
        _ = sectors v₀.disk (v₀.geometry.copySector 0 i) := same 1 hone i hi
  · intro h j hj i hi
    by_cases hzero : j = 0
    · rw [hzero]
    · have hkept := hv.copies_kept placed hg hcopies (Nat.one_le_iff_ne_zero.mpr hzero) hj hi
      rcases h with rfl | h
      · omega
      · rw [hkept, h i hi]
        exact same j hj i hi

end Run

/-- After every sequence of orderly calls the first copy is the table in memory and the other copies are
as they were mounted; all copies are identical if and only if there is only one, or the table is as it
was mounted. -/
theorem fatCopies_identical_iff {δ : Type} [Disk δ] {sectors : δ → ℕ → Sector} {limit : ℕ}
    (sectorStore : SectorStore δ sectors limit) {v₀ v : FAT32 δ} (store : ClusterStore v₀.geometry δ)
    (placed : v₀.geometry.Placed limit) (hg : v₀.geometry.Addressable) (ready : AllocReady v₀)
    (loads : LoadsBack v₀) {fatCount : ℕ} (hcopies : v₀.geometry.HasCopies fatCount)
    (same : Identical (sectors v₀.disk) v₀.geometry fatCount) {fuel : ℕ} {ops : List FatOp}
    (run : GuardedRun FatOp.Orderly (FatOp.apply fuel) v₀ ops v) :
    LoadsBack v ∧
    (∀ j, 1 ≤ j → j < fatCount → ∀ i < v₀.geometry.sectorsPerFat32,
      sectors v.disk (v₀.geometry.copySector j i) = sectors v₀.disk (v₀.geometry.copySector j i)) ∧
    (Identical (sectors v.disk) v₀.geometry fatCount ↔ fatCount = 1 ∨
      ∀ c < 128 * v₀.geometry.sectorsPerFat32, v.FAT c = v₀.FAT c) := by
  have hv := synced_of_run sectorStore store placed hg ready loads run
  exact ⟨hv.loads, fun j hpos hj i hi => hv.copies_kept placed hg hcopies hpos hj hi,
    hv.identical_iff sectorStore placed hg hcopies loads same⟩

section TwoCopies

/-- A drive with two copies of a table, in front of its clusters. -/
def twoCopies : Drive := { blank with
  sectors := fun s => if s = 32 ∨ s = 33 then sectorAt (fatBytes fresh.FAT) 0 else fun _ => 0 }

lemma twoCopies_hasCopies : (placedAt 32 34).HasCopies 2 := ⟨by decide, rfl⟩

lemma twoCopies_identical :
    Identical (fun s => twoCopies.sectors (s % 2^28)) (placedAt 32 34) 2 := by
  intro j hj i hi
  obtain rfl : i = 0 := Nat.lt_one_iff.mp hi
  obtain rfl | rfl : j = 0 ∨ j = 1 := by omega
  · rfl
  · rfl

theorem fatCopies_identical_iff_two : ∃ v : FAT32 Drive,
    GuardedRun FatOp.Orderly (FatOp.apply 200) (freshOn 32 34 twoCopies)
      [.writeFile 2 (fun _ => 7) letterA 3] v ∧ LoadsBack v ∧
    (∀ j, 1 ≤ j → j < 2 → ∀ i < 1, v.disk.sectors ((placedAt 32 34).copySector j i % 2^28) =
      twoCopies.sectors ((placedAt 32 34).copySector j i % 2^28)) ∧
    (Identical (fun s => v.disk.sectors (s % 2^28)) (placedAt 32 34) 2 ↔ 2 = 1 ∨
      ∀ c < 128 * 1, v.FAT c = fresh.FAT c) := by
  have formatted := freshOn_formatted (f := 32) (c := 34) (d := twoCopies) (by decide) rfl
  obtain ⟨v, run, -⟩ := freshOn_run (f := 32) (c := 34) (d := twoCopies) (by decide) (by decide) rfl
  exact ⟨v, run, fatCopies_identical_iff drive_sectorStore
    (placedAt_clusterStore (by decide) (by decide)) (placedAt_placed (by decide) (by decide))
    formatted.addressable ⟨formatted.reserved, formatted.hint⟩ (freshOn_loadsBack (by decide) rfl)
    twoCopies_hasCopies twoCopies_identical run⟩

/-- One file written to a freshly formatted volume with two copies makes them different. -/
theorem second_copy_stale : ¬ ∀ (v₀ v : FAT32 Drive) (fatCount fuel : ℕ) (ops : List FatOp),
    v₀.geometry.HasCopies fatCount → Formatted v₀ → LoadsBack v₀ →
    Identical (fun s => v₀.disk.sectors (s % 2^28)) v₀.geometry fatCount →
    GuardedRun FatOp.Orderly (FatOp.apply fuel) v₀ ops v →
    Identical (fun s => v.disk.sectors (s % 2^28)) v.geometry fatCount := by
  intro claim
  have formatted := freshOn_formatted (f := 32) (c := 34) (d := twoCopies) (by decide) rfl
  have loads : LoadsBack (freshOn 32 34 twoCopies) := freshOn_loadsBack (by decide) rfl
  have placed := placedAt_placed (f := 32) (c := 34) (by decide) (by decide)
  obtain ⟨v, run, k, hk, hfree, hused⟩ :=
    freshOn_run (f := 32) (c := 34) (d := twoCopies) (by decide) (by decide) rfl
  have hv := synced_of_run drive_sectorStore (placedAt_clusterStore (by decide) (by decide)) placed
    formatted.addressable ⟨formatted.reserved, formatted.hint⟩ loads run
  have hsame := claim _ v 2 200 _ twoCopies_hasCopies formatted loads twoCopies_identical run
  rw [hv.geometry] at hsame
  rcases (hv.identical_iff drive_sectorStore placed formatted.addressable twoCopies_hasCopies loads
    twoCopies_identical).mp hsame with hone | hcells
  · exact absurd hone (by decide)
  · exact hused ((hcells k hk).trans hfree)

end TwoCopies

end Open98.Fat32
