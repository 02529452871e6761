import Open98.Fat32.Orderly

/-! Mounting a volume again from the disk that a run of calls has left behind. -/
namespace Open98.Fat32
open Open98.Library Open98.Ata

section Loading
variable {δ : Type} [Disk δ]

/-- The loading loop brings back, from the first copy on the disk, every cell of the table in memory. -/
def LoadsBack (v : FAT32 δ) : Prop := ∀ (junk : Buffer) (cells : ℕ → ℕ), ∃ FAT,
  loadFat v.disk junk v.geometry.fatSector cells v.geometry.sectorsPerFat32 = .ok FAT ∧
    ∀ c < 128 * v.geometry.sectorsPerFat32, FAT c = v.FAT c

variable {sectors : δ → ℕ → Sector} {limit : ℕ} (sectorStore : SectorStore δ sectors limit)
  {v w : FAT32 δ}
include sectorStore

lemma loadsBack_iff (hg : v.geometry.Addressable) : LoadsBack v ↔
    ∀ c < 128 * v.geometry.sectorsPerFat32,
      cellOnDisk (sectors v.disk) v.geometry.fatSector c = v.FAT c := by
  have hle : v.geometry.sectorsPerFat32 ≤ 2^25 := by
    have := hg.cells
    unfold EOC at this
    omega
  constructor
  · intro h c hc
    obtain ⟨FAT, hload, hcells⟩ := h (fun _ => 0) fun _ => 0
    obtain ⟨FAT', hload', hdisk⟩ := loadFat_eq (sectorStore.read v.disk) (fun _ => 0)
      v.geometry.fatSector (fun _ => 0) v.geometry.sectorsPerFat32
    obtain rfl := Except.ok.inj (hload.symm.trans hload')
    have heq := hdisk hle c
    rw [if_pos hc] at heq
    exact heq.symm.trans (hcells c hc)
  · intro h junk cells
    obtain ⟨FAT, hload, hdisk⟩ := loadFat_eq (sectorStore.read v.disk) junk
      v.geometry.fatSector cells v.geometry.sectorsPerFat32
    refine ⟨FAT, hload, fun c hc => ?_⟩
    rw [hdisk hle c, if_pos hc]
    exact h c hc

/-- A call keeps the disk up to date. -/
lemma Settles.loadsBack (placed : v.geometry.Placed limit) (hg : v.geometry.Addressable)
    (h : Settles v w) (hv : LoadsBack v) : LoadsBack w := by
  have hdisk := (loadsBack_iff sectorStore hg).mp hv
  cases h with
  | same junk => exact hv
  | @flush w d h hflush =>
    have hgeometry := h.geometry_eq
    refine (loadsBack_iff sectorStore (v := { w with disk := d }) (hgeometry ▸ hg)).mpr fun c hc => ?_
    change c < 128 * w.geometry.sectorsPerFat32 at hc
    have hlt : v.FAT c < 2^32 := by
      rw [← hdisk c (hgeometry ▸ hc)]
      exact bufferInteger32_lt _ _
    exact cellOnDisk_flush sectorStore (hgeometry ▸ placed) hflush hc (h.cell_lt hlt)

end Loading

section Agreement
variable {δ : Type} [Disk δ] {v : FAT32 δ} (FAT : ℕ → ℕ) (i : ℕ)

/-- The volume with another table in memory, and another hint. -/
def FAT32.withTable (v : FAT32 δ) (FAT : ℕ → ℕ) (i : ℕ) : FAT32 δ :=
  { v with FAT := FAT, clusterAllocationHint := i }

variable {FAT i}

omit [Disk δ] in
lemma fatGetNextClusterID_withTable {c : ℕ} (hc : FAT c = v.FAT c) :
    fatGetNextClusterID (v.withTable FAT i) c = fatGetNextClusterID v c :=
  congrArg (· % 2^28) hc

/-- The cells of its clusters are all that reading a file needs of the table. -/
lemma readClusters_withTable {cluster : ℕ} {cs : List ℕ} (h : WalkChain v cluster cs)
    (hcells : ∀ c ∈ cs, FAT c = v.FAT c) (fileSize fuel : ℕ) (file : Buffer)
    (filecurrptr copiedbytes : ℕ) :
    readClusters (v.withTable FAT i) fileSize fuel cluster file filecurrptr copiedbytes =
      readClusters v fileSize fuel cluster file filecurrptr copiedbytes := by
  induction fuel generalizing cluster cs file filecurrptr copiedbytes with
  | zero => rfl
  | succ fuel ih =>
    have hnext := fatGetNextClusterID_withTable (i := i) (hcells cluster h.links.head_mem)
    rw [readClusters, readClusters, hnext]
    change (fatGetCluster v.geometry v.disk v.junk cluster >>= _) = _
    cases fatGetCluster v.geometry v.disk v.junk cluster with
    | error f => rfl
    | ok cbytes =>
      rw [ok_bind, ok_bind]
      obtain ⟨cs, rfl⟩ := h.links.eq_cons
      rcases h.step with ⟨hstop, rfl⟩ | ⟨hgo, hnext⟩
      · rw [if_pos hstop, if_pos hstop]
        rfl
      · rw [if_neg hgo, if_neg hgo]
        exact ih hnext (fun c hc => hcells c (List.mem_cons_of_mem _ hc)) _ _ _

/-- What follows a cluster of a directory: nothing, or the next cluster of its chain. -/
def Follows (v : FAT32 δ) (cluster : ℕ) (more : List Slot) : Prop :=
  more = [] ∨ v.geometry.HasCluster (fatGetNextClusterID v cluster) ∧
    ∃ rest, more = v.dirSlots (fatGetNextClusterID v cluster) ++ rest

lemma populateCluster_withTable (reads : ReadsClusters v.geometry v.disk) {cluster : ℕ}
    (hcell : FAT cluster = v.FAT cluster) {b : Bool} {more : List Slot}
    (hstream : Stream b (v.dirSlots cluster ++ more)) (hmore : Follows v cluster more)
    (entries : List DirectoryEntry) :
    populateCluster (v.withTable FAT i) ((v.dirSlots cluster).length + 1) (v.dirSlots cluster) cluster
        entries =
      populateCluster v ((v.dirSlots cluster).length + 1) (v.dirSlots cluster) cluster entries := by
  have hnext := fatGetNextClusterID_withTable (i := i) hcell
  obtain ⟨segs, tail, b', hsplit, htail, -, hrest, hin, -⟩ := hstream.split
  have hlt : (segs.flatMap Segment.slots ++ tail).length < (v.dirSlots cluster).length + 1 := by
    rw [← hsplit]
    exact Nat.lt_succ_self _
  obtain ⟨left, hleft, hrun⟩ := populateCluster_segments (v := v) segs tail cluster hlt entries
  obtain ⟨left', hleft', hrun'⟩ :=
    populateCluster_segments (v := v.withTable FAT i) segs tail cluster hlt entries
  rw [← hsplit] at hrun hrun'
  rw [hrun, hrun']
  change populateCluster (v.withTable FAT i) left' tail cluster
    (entries ++ (segs.filterMap Segment.entry?).map (EntrySet.dirent v.junk)) = _
  generalize entries ++ (segs.filterMap Segment.entry?).map (EntrySet.dirent v.junk) = listed
  by_cases htl : tail = []
  · subst htl
    obtain ⟨left, rfl⟩ := Nat.exists_eq_add_one.mpr (Nat.zero_lt_of_lt hleft)
    obtain ⟨left', rfl⟩ := Nat.exists_eq_add_one.mpr (Nat.zero_lt_of_lt hleft')
    rfl
  · rw [hin htl] at hrest
    rcases hmore with rfl | ⟨hsecond, rest, rfl⟩
    · cases hrest
    · have hsecond' : v.geometry.HasCluster (fatGetNextClusterID (v.withTable FAT i) cluster) := by
        rwa [hnext]
      rcases hrest.second with hlongs | ⟨e, after, -, hslots, -⟩
      · rw [populateCluster_fault reads htail hsecond htl hleft hlongs]
        exact populateCluster_fault (v := v.withTable FAT i) reads htail hsecond' htl hleft'
          (by rwa [hnext]) listed
      · rw [populateCluster_straddle reads htail hsecond htl hleft e hslots]
        have hrun := populateCluster_straddle (v := v.withTable FAT i) reads htail hsecond' htl hleft' e
          (by rw [hnext]; exact hslots) listed
        rwa [hnext] at hrun

/-- The cells of its clusters are all that listing a directory needs of the table. -/
lemma populateFrom_withTable (reads : ReadsClusters v.geometry v.disk) {fuel cluster : ℕ}
    {cs : List ℕ} (h : WalkChain v cluster cs) (hcells : ∀ c ∈ cs, FAT c = v.FAT c) {b : Bool}
    (hstream : Stream b (cs.flatMap v.dirSlots)) (entries : List DirectoryEntry) :
    populateFrom (v.withTable FAT i) fuel cluster entries = populateFrom v fuel cluster entries := by
  induction fuel generalizing cluster cs b entries with
  | zero => rfl
  | succ fuel ih =>
    -- what follows a cluster, whichever of them the inner loop ended in
    have hgo : ∀ {c : ℕ} {l : List ℕ} {b : Bool} (listed : List DirectoryEntry),
        WalkChain v c (c :: l) → (∀ x ∈ c :: l, FAT x = v.FAT x) → Stream b (l.flatMap v.dirSlots) →
        (if EOC ≤ fatGetNextClusterID (v.withTable FAT i) c then .ok listed
          else populateFrom (v.withTable FAT i) fuel (fatGetNextClusterID (v.withTable FAT i) c) listed) =
        (if EOC ≤ fatGetNextClusterID v c then .ok listed
          else populateFrom v fuel (fatGetNextClusterID v c) listed) := by
      intro c l b listed hc hx hl
      rw [fatGetNextClusterID_withTable (hx c (by simp))]
      rcases hc.step with ⟨hstop, rfl⟩ | ⟨hgo, hnext⟩
      · rw [if_pos hstop, if_pos hstop]
      · rw [if_neg hgo, if_neg hgo]
        exact ih hnext (fun x hx' => hx x (List.mem_cons_of_mem _ hx')) hl listed
    obtain ⟨cs, rfl⟩ := h.links.eq_cons
    rw [List.flatMap_cons] at hstream
    have hget : fatGetSlots (v.withTable FAT i) cluster = .ok (v.dirSlots cluster) :=
      fatGetSlots_ok (v := v.withTable FAT i) reads h.head
    have hsame : Follows v cluster (cs.flatMap v.dirSlots) := by
      rcases h.step with ⟨-, rfl⟩ | ⟨-, hnext⟩
      · exact .inl rfl
      · obtain ⟨cs', rfl⟩ := hnext.links.eq_cons
        exact .inr ⟨hnext.head, _, List.flatMap_cons ..⟩
    rw [populateFrom, populateFrom, hget, fatGetSlots_ok reads h.head, ok_bind,
      ok_bind, populateCluster_withTable reads (hcells cluster (by simp)) hstream hsame]
    obtain ⟨tail, left, listed, b', htail, hleft, -, hrest, hin, -, hrun⟩ :=
      populateCluster_split hstream entries
    rw [hrun]
    by_cases htl : tail = []
    · subst htl
      obtain ⟨left, rfl⟩ := Nat.exists_eq_add_one.mpr (Nat.zero_lt_of_lt hleft)
      exact hgo listed h hcells hrest
    · rw [hin htl] at hrest
      obtain ⟨cs', rfl, hchain⟩ := h.goes_on hrest
      rw [List.flatMap_cons] at hrest
      rcases populateCluster_second reads htail htl hleft hchain.head hrest listed with
        ⟨-, hfault⟩ | ⟨s, d, b'', -, -, hinner, hmore⟩
      · rw [hfault, error_bind, error_bind]
      · rw [hinner]
        exact hgo _ hchain (fun x hx => hcells x (List.mem_cons_of_mem _ hx)) hmore

/-- A volume with the same geometry, disk and cells: what it lists and reads is the same. -/
structure SameVolume (v u : FAT32 δ) : Prop where
  geometry : u.geometry = v.geometry
  disk : u.disk = v.disk
  cells : ∀ c < 128 * v.geometry.sectorsPerFat32, u.FAT c = v.FAT c
  lists : ∀ fuel d l, WalkChain v d l → Stream false (l.flatMap v.dirSlots) →
    fatPopulateDir fuel u d = fatPopulateDir fuel v d
  reads : ∀ fuel e l, WalkChain v e.firstCluster l → fatReadFile fuel u e = fatReadFile fuel v e

lemma SameVolume.ofCells (reads : ReadsClusters v.geometry v.disk) (hg : v.geometry.Addressable)
    (hcells : ∀ c < 128 * v.geometry.sectorsPerFat32, FAT c = v.FAT c) (i : ℕ) :
    SameVolume v (v.withTable FAT i) := by
  have hwalk : ∀ {start l}, WalkChain v start l → ∀ c ∈ l, FAT c = v.FAT c := by
    intro start l h c hc
    apply hcells
    rw [← hg.intsPerFat_eq]
    exact (h.cells c hc).2
  refine ⟨rfl, rfl, hcells, fun fuel d l h hstream => ?_, fun fuel e l h => ?_⟩
  · rw [fatPopulateDir, fatPopulateDir, populateFrom_withTable reads h (hwalk h) hstream]
  · exact readClusters_withTable h (hwalk h) _ _ _ _ _

end Agreement

section Mounting
variable {δ : Type} [Disk δ]

/-- The sectors that a mount looks at before the table: the one with the partition table and the boot
sector. -/
def bootSectors (sectors : ℕ → Sector) : List ℕ := [0, partitionSector (sectorBytes (sectors 0)) 0]

/-- The geometry in a record. -/
def MountRecord.geometry (m : MountRecord) (h : 0 < m.biosParameterBlock.sectorsPerCluster) :
    Geometry where
  sectorsPerCluster := m.biosParameterBlock.sectorsPerCluster
  sectorsPerFat32 := m.biosParameterBlock.sectorsPerFat32
  fatSector := m.fatSector
  clusterSector := m.clusterSector
  sectorsPerCluster_pos := h

/-- The volume in a record, on a disk. -/
def MountRecord.volume (m : MountRecord) (h : 0 < m.biosParameterBlock.sectorsPerCluster) (d : δ)
    (junk : Buffer) : FAT32 δ where
  geometry := m.geometry h
  FAT := m.FAT
  clusterAllocationHint := m.clusterAllocationHint
  disk := d
  junk := junk

/-- Mounting partition `k` gives the record, which has this geometry, and what it looks at lies outside
the table and the clusters. -/
structure MountsAs (sectors : δ → ℕ → Sector) (limit : ℕ) (d : δ) (g : Geometry) (mounted k : ℕ)
    (m : MountRecord) : Prop where
  record : ∃ junk cells n, fatInitialize d junk cells mounted k = .ok (some m, n)
  geometry : ∃ h, m.geometry h = g
  outside : ∀ s ∈ bootSectors (sectors d), s < limit ∧ ¬ g.InClusters s ∧ ¬ g.InTable s

/-- Mounting partition `k` of the volume's disk again gives the record but for the table, and with it
the same volume. -/
def Remounts (v : FAT32 δ) (mounted k : ℕ) (m : MountRecord) : Prop :=
  ∀ junk cells, ∃ FAT n h,
    fatInitialize v.disk junk cells mounted k = .ok (some { m with FAT := FAT }, n) ∧
      SameVolume v (MountRecord.volume { m with FAT := FAT } h v.disk v.junk)

/-- A disk with the same boot sectors is mounted in the same way, but for the table. -/
lemma fatInitialize_again {d d' : δ} {sectors sectors' : ℕ → Sector} (hreads : ReadsSectors d sectors)
    (hreads' : ReadsSectors d' sectors') (hboot : ∀ s ∈ bootSectors sectors, sectors' s = sectors s)
    {junk : Buffer} {cells : ℕ → ℕ} {mounted k n : ℕ} {m : MountRecord}
    (hmount : fatInitialize d junk cells mounted k = .ok (some m, n)) {junk' : Buffer}
    {cells' FAT : ℕ → ℕ} (hload : loadFat d' junk' m.fatSector cells'
      m.biosParameterBlock.sectorsPerFat32 = .ok FAT) :
    fatInitialize d' junk' cells' mounted k = .ok (some { m with FAT := FAT }, n) := by
  have hzero : sectors' 0 = sectors 0 := hboot 0 (by simp [bootSectors])
  have hread : readBlock sectors' = readBlock sectors := by
    rw [readBlock, readBlock, bootBlock, bootBlock, hzero, hboot _ (by simp [bootSectors])]
  rw [fatInitialize_eq hreads] at hmount
  rw [fatInitialize_eq hreads', hzero, hread]
  split_ifs at hmount ⊢ with hnone hfat hfour
  · cases (Prod.mk.inj (Except.ok.inj hmount)).1
  · cases (Prod.mk.inj (Except.ok.inj hmount)).1
  · obtain ⟨FAT₀, -, hm⟩ := bind_eq_ok.mp hmount
    obtain ⟨hrecord, rfl⟩ := Prod.mk.inj (Except.ok.inj hm)
    obtain rfl := Option.some.inj hrecord
    exact bind_eq_ok.mpr ⟨FAT, hload, rfl⟩
  · cases (Prod.mk.inj (Except.ok.inj hmount)).1

variable {sectors : δ → ℕ → Sector} {limit : ℕ}

lemma LoadsBack.remounts (sectorStore : SectorStore δ sectors limit) {v : FAT32 δ}
    (reads : ReadsClusters v.geometry v.disk) (hg : v.geometry.Addressable) (hv : LoadsBack v) {d : δ}
    {mounted k : ℕ} {m : MountRecord} (hm : MountsAs sectors limit d v.geometry mounted k m)
    (hboot : ∀ s ∈ bootSectors (sectors d), sectors v.disk s = sectors d s) :
    Remounts v mounted k m := by
  intro junk cells
  obtain ⟨_, _, n, hmount⟩ := hm.record
  obtain ⟨h, hgeometry⟩ := hm.geometry
  obtain ⟨FAT, hload, hcells⟩ := hv junk cells
  rw [← hgeometry] at hload
  refine ⟨FAT, n, h, fatInitialize_again (sectorStore.read d) (sectorStore.read v.disk) hboot hmount
    hload, ?_⟩
  have hsame : MountRecord.volume { m with FAT := FAT } h v.disk v.junk =
      v.withTable FAT m.clusterAllocationHint := by
    rw [FAT32.withTable, ← hgeometry]
    rfl
  rw [hsame]
  exact SameVolume.ofCells reads hg hcells _

end Mounting

section Run
variable {δ : Type} [Disk δ] {sectors : δ → ℕ → Sector} {limit : ℕ}

/-- What holds in every state that orderly calls lead to. -/
structure Synced (sectors : δ → ℕ → Sector) (limit : ℕ) (v₀ v : FAT32 δ) : Prop where
  geometry : v.geometry = v₀.geometry
  ready : AllocReady v
  loads : LoadsBack v
  kept : ∀ s < limit, ¬ v₀.geometry.InClusters s → ¬ v₀.geometry.InTable s →
    sectors v.disk s = sectors v₀.disk s

lemma synced_of_run (sectorStore : SectorStore δ sectors limit) {v₀ v : FAT32 δ}
    (store : ClusterStore v₀.geometry δ) (placed : v₀.geometry.Placed limit)
    (hg : v₀.geometry.Addressable) (ready : AllocReady v₀) (loads : LoadsBack v₀) {fuel : ℕ}
    {ops : List FatOp} (run : GuardedRun FatOp.Orderly (FatOp.apply fuel) v₀ ops v) :
    Synced sectors limit v₀ v := by
  refine run.invariant (I := Synced sectors limit v₀) ?_
    ⟨rfl, ready, loads, fun _ _ _ _ => rfl⟩
  intro u o w hu ho hw
  have hgeometry := hu.geometry
  have hsettles := ho.settles (hgeometry ▸ store) (hgeometry ▸ hg) hu.ready hw
  refine ⟨hsettles.geometry_eq.trans hgeometry, hsettles.ready hu.ready,
    hsettles.loadsBack sectorStore (hgeometry ▸ placed) (hgeometry ▸ hg) hu.loads,
    fun s hs hcluster htable => ?_⟩
  rw [← hu.kept s hs hcluster htable]
  rw [← hgeometry] at hcluster htable placed
  exact hsettles.sectors_eq sectorStore placed hs hcluster htable

/-- After every sequence of orderly calls the loading loop brings back the table in memory, and a mount
from the disk gives the running volume again, but for the hint. -/
theorem remount_same_volume (sectorStore : SectorStore δ sectors limit) {v₀ v : FAT32 δ}
    (store : ClusterStore v₀.geometry δ) (placed : v₀.geometry.Placed limit)
    (hg : v₀.geometry.Addressable) (ready : AllocReady v₀) (loads : LoadsBack v₀) {fuel : ℕ}
    {ops : List FatOp} (run : GuardedRun FatOp.Orderly (FatOp.apply fuel) v₀ ops v) :
    LoadsBack v ∧ ∀ mounted k m, MountsAs sectors limit v₀.disk v₀.geometry mounted k m →
      Remounts v mounted k m := by
  have hv := synced_of_run sectorStore store placed hg ready loads run
  refine ⟨hv.loads, fun mounted k m hm => ?_⟩
  have hboot : ∀ s ∈ bootSectors (sectors v₀.disk), sectors v.disk s = sectors v₀.disk s := by
    intro s hs
    obtain ⟨hlt, hcluster, htable⟩ := hm.outside s hs
    exact hv.kept s hlt hcluster htable
  rw [← hv.geometry] at store hg hm
  exact hv.loads.remounts sectorStore (store.get _) hg hm hboot

end Run

section Volumes

/-- A geometry of 126 clusters with a sector each, behind a table of one sector. -/
def placedAt (fatSector clusterSector : ℕ) : Geometry := ⟨1, 1, fatSector, clusterSector, Nat.one_pos⟩

/-- A freshly formatted volume on a drive. -/
def freshOn (fatSector clusterSector : ℕ) (d : Drive) : FAT32 Drive :=
  { fresh with geometry := placedAt fatSector clusterSector, disk := d }

section FreshOn
variable {f c : ℕ}

lemma placedAt_intsPerFat : (placedAt f c).intsPerFat = 128 := by simp [placedAt, Geometry.intsPerFat]

lemma placedAt_addressable : (placedAt f c).Addressable := ⟨show 128 * 1 ≤ EOC by decide⟩

/-- The table on the drive is that of the freshly formatted volume. -/
lemma freshOn_loadsBack {d : Drive} (hlt : f < 2^28) (hd : d.sectors f = sectorAt (fatBytes fresh.FAT) 0) :
    LoadsBack (freshOn f c d) := by
  refine (loadsBack_iff drive_sectorStore placedAt_addressable).mpr fun k hk => ?_
  have hk : k < 128 := hk
  have hdiv : k / 128 = 0 := Nat.div_eq_of_lt hk
  have hsector : (f + 0) % 2^32 % 2^28 = f := by omega
  refine cellOnDisk_fatBytes ?_ ?_
  · rw [hdiv]
    change d.sectors ((f + 0) % 2^32 % 2^28) = _
    rw [hsector, hd]
    rfl
  · change fresh.FAT k < 2^32
    rw [fresh]
    dsimp only
    split_ifs
    · decide
    · decide
    · decide

variable (hf : f + 1 ≤ c) (hc : c ≤ 2^20)
include hc

lemma placedAt_reachable : (placedAt f c).Reachable :=
  ⟨⟨0, by decide, rfl⟩, fun k hk => by
    have hlt := hk.2
    rw [placedAt_intsPerFat] at hlt
    simp only [placedAt, Nat.mul_one]
    omega⟩

include hf

lemma placedAt_clusterStore : ClusterStore (placedAt f c) Drive :=
  clusterStore_drive (placedAt_reachable hc) rfl hf (hc.trans (by decide))

lemma placedAt_placed : (placedAt f c).Placed (2^28) :=
  ⟨by decide, by simp only [placedAt]; omega, (placedAt_reachable hc).below⟩

variable {d : Drive} (hzero : d.sectors c = fun _ => 0)
include hzero

omit hf in
lemma freshOn_formatted : Formatted (freshOn f c d) where
  addressable := placedAt_addressable
  reserved := fresh_formatted.reserved
  hint := Nat.zero_le _
  root := fresh_formatted.root
  zeroed k _ := by
    have hcell : (placedAt f c).HasCluster 2 := fresh_formatted.root.1
    have hsector : fatAcquireSectorForCluster (placedAt f c) 2 = c := by
      rw [((placedAt_reachable hc).sector_eq hcell).1]
      rfl
    rw [FAT32.clusters]
    change content (placedAt f c) d 2 k = 0
    rw [content_one (placedAt_reachable hc) rfl hcell, hsector, hzero]
    simp [storeSector]
  free := fresh_formatted.free

/-- A file is written to the volume, and a further cell is in use. -/
lemma freshOn_run : ∃ v, GuardedRun FatOp.Orderly (FatOp.apply 200) (freshOn f c d)
    [.writeFile 2 (fun _ => 7) letterA 3] v ∧ ∃ k < 128, (freshOn f c d).FAT k = 0 ∧ v.FAT k ≠ 0 := by
  have store : ClusterStore (freshOn f c d).geometry Drive := placedAt_clusterStore hf hc
  have formatted := freshOn_formatted (f := f) hc hzero
  have hfuel : (freshOn f c d).geometry.intsPerFat < 200 := show small.intsPerFat < 200 by decide
  obtain ⟨L, hL, -⟩ := formatted.holds
  have hspace : EnoughSpace (freshOn f c d) 2 letterA 3 := by
    refine ⟨fresh_allowed.2.2.2.data, fun _ => ?_⟩
    have hfree : fatGetFreeClusters (freshOn f c d) = 125 := fresh_space
    rw [hfree]
    exact show requiredClusters small 3 + 1 ≤ 125 by decide
  obtain ⟨v, L', e, l₁, l₂, hwrite, created⟩ := hL.create store formatted.addressable .root
    letterA_valid (show (0 : UCHAR) ≠ LFN by decide) (fun h0 => absurd h0 (by decide))
    (show 3 < 2^32 by decide) hspace hfuel fun _ => 7
  have hlive : fatNaming.Live L'.sets 2 := .root
  have he : e ∈ L'.sets 2 := (created.inserts.mem_after .root).mpr (.inr ⟨rfl, rfl⟩)
  have hchain := created.holds.isChain (s := e.first) (hlive.node_mem he)
  have hcell := hchain.cells _ hchain.links.head_mem
  rw [created.geometry] at hcell
  refine ⟨v, .cons ⟨⟨_, hL.isChain (s := 2) (.inl rfl)⟩, hspace⟩ (congrArg Except.toOption hwrite)
    (.nil v), e.first, hcell.2.trans_eq placedAt_intsPerFat, ?_, hchain.cell_ne_zero hchain.links.head_mem⟩
  exact formatted.free _ hcell (created.holds.tree.notRoot 2 e hlive he)

end FreshOn

/-- A drive with one partition, from sector 1 on: a boot sector, the table and the clusters. -/
def bootable : Drive := { blank with
  sectors := fun
    | 0 => poked [(454, 1), (510, 0x55), (511, 0xAA)]
    | 1 => bootSector 1
    | 2 => sectorAt (fatBytes fresh.FAT) 0
    | _ => fun _ => 0 }

lemma bootable_partitionSector :
    partitionSector (sectorBytes (bootable.sectors (0 % 2^28))) 0 = 1 := by decide

lemma bootable_block : let b := bootBlock (fun s => bootable.sectors (s % 2^28)) 1
    b.IsFat32 ∧ b.sectorsPerCluster = 1 ∧ b.sectorsPerFat32 = 1 ∧ b.fatCount = 1 ∧
      b.reservedSectors = 1 := by decide

lemma bootable_mounts : ∃ m, MountsAs (fun (d : Drive) s => d.sectors (s % 2^28)) (2^28) bootable
    (placedAt 2 3) 0 0 m := by
  have hreads := drive_readsSectors bootable
  have hpart := bootable_partitionSector
  have hread : readBlock (fun s => bootable.sectors (s % 2^28)) =
      bootBlock (fun s => bootable.sectors (s % 2^28)) 1 := by
    rw [readBlock, hpart]
  obtain ⟨hfat, hcluster, htable, hcopies, hreserved⟩ := bootable_block
  obtain ⟨FAT, hload, -⟩ := loadFat_eq hreads (fun _ => 0)
    ((bootBlock (fun s => bootable.sectors (s % 2^28)) 1).fatSector 1) (fun _ => 0)
    (bootBlock (fun s => bootable.sectors (s % 2^28)) 1).sectorsPerFat32
  have hmount := fatInitialize_eq hreads (fun _ => 0) (fun _ => 0) 0 0
  rw [hpart, hread] at hmount
  generalize bootBlock (fun s => bootable.sectors (s % 2^28)) 1 = b at *
  rw [if_neg (by decide), if_neg (not_not_intro hfat), if_neg (by decide), hload] at hmount
  refine ⟨mountRecord 0 1 b FAT, ⟨fun _ => 0, fun _ => 0, 1, hmount⟩,
    ⟨hcluster.symm ▸ Nat.one_pos, ?_⟩, fun s hs => ?_⟩
  · simp [MountRecord.geometry, mountRecord, placedAt, BiosParameterBlock.fatSector, hcluster, htable,
      hcopies, hreserved]
  · have hs : s = 0 ∨ s = 1 := by
      rw [bootSectors, hpart] at hs
      simpa using hs
    have hplaced := placedAt_placed (f := 2) (c := 3) (by decide) (by decide)
    refine ⟨by omega, fun hcluster => ?_, fun htable => ?_⟩
    · have hle : 3 ≤ s := hplaced.le_of_inClusters hcluster
      omega
    · have hle : 2 ≤ s := htable.1
      omega

/-- A file has been written, and the volume is mounted again. -/
theorem remount_same_volume_one_file : ∃ v m, GuardedRun FatOp.Orderly (FatOp.apply 200)
    (freshOn 2 3 bootable) [.writeFile 2 (fun _ => 7) letterA 3] v ∧ LoadsBack v ∧ Remounts v 0 0 m := by
  have formatted := freshOn_formatted (f := 2) (c := 3) (d := bootable) (by decide) rfl
  obtain ⟨v, run, -⟩ := freshOn_run (f := 2) (c := 3) (d := bootable) (by decide) (by decide) rfl
  obtain ⟨m, hm⟩ := bootable_mounts
  obtain ⟨hloads, hremounts⟩ := remount_same_volume drive_sectorStore
    (placedAt_clusterStore (by decide) (by decide)) (placedAt_placed (by decide) (by decide))
    formatted.addressable ⟨formatted.reserved, formatted.hint⟩
    (freshOn_loadsBack (by decide) rfl) run
  exact ⟨v, m, run, hloads, hremounts 0 0 m hm⟩

end Volumes

end Open98.Fat32
