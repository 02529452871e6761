import Open98.Fat32.Insertion
import Open98.Fat32.OutOfSpace
import Open98.Fat32.Remount

/-! Where the clusters lie that the calls write. The table is rounded up to whole sectors, and the
allocator searches all of it, also the cells behind that of the last cluster. -/
namespace Open98.Fat32
open Open98.Library

section Clusters

/-- The number of clusters that the data area has room for. -/
def BiosParameterBlock.dataClusters (b : BiosParameterBlock) : ℕ :=
  (b.largeSectorsOnMedia - (b.reservedSectors + b.fatCount * b.sectorsPerFat32)) / b.sectorsPerCluster

/-- A boot sector that describes a volume at the given sector: all its areas have room, its sectors
have numbers, and the table has a cell for each cluster. -/
structure BiosParameterBlock.Fitted (b : BiosParameterBlock) (partitionSector : ℕ) : Prop where
  clusters : 0 < b.sectorsPerCluster
  copies : 0 < b.fatCount
  areas : b.reservedSectors + b.fatCount * b.sectorsPerFat32 ≤ b.largeSectorsOnMedia
  numbers : partitionSector + b.largeSectorsOnMedia ≤ 2^32
  cells : b.dataClusters + 2 ≤ 128 * b.sectorsPerFat32

/-- The sectors of the table and of the clusters below `count` lie below the limit. -/
structure Geometry.Bounded (g : Geometry) (count limit : ℕ) : Prop where
  cells : count ≤ g.intsPerFat
  table : g.fatSector + g.sectorsPerFat32 ≤ limit
  below : ∀ c, 2 ≤ c → c < count → g.clusterSector + (c-2+1) * g.sectorsPerCluster ≤ limit
  limit_le : limit ≤ 2^32

/-- The geometry that is mounted from such a boot sector. -/
lemma BiosParameterBlock.Fitted.bounded {b : BiosParameterBlock} {partitionSector : ℕ}
    (h : b.Fitted partitionSector) {n : ℕ} {FAT : ℕ → ℕ}
    (hg : ((mountRecord n partitionSector b FAT).geometry h.clusters).Addressable) :
    ((mountRecord n partitionSector b FAT).geometry h.clusters).Bounded (b.dataClusters + 2)
      (partitionSector + b.largeSectorsOnMedia) := by
  have hareas := h.areas
  have hnumbers := h.numbers
  have hcopy : b.sectorsPerFat32 ≤ b.fatCount * b.sectorsPerFat32 := Nat.le_mul_of_pos_left _ h.copies
  have hspace : b.dataClusters * b.sectorsPerCluster ≤
      b.largeSectorsOnMedia - (b.reservedSectors + b.fatCount * b.sectorsPerFat32) := Nat.div_mul_le_self _ _
  have hfat : ((mountRecord n partitionSector b FAT).geometry h.clusters).fatSector ≤
      partitionSector + b.reservedSectors := Nat.mod_le _ _
  have hdata : ((mountRecord n partitionSector b FAT).geometry h.clusters).clusterSector ≤
      partitionSector + b.reservedSectors + b.fatCount * b.sectorsPerFat32 :=
    (Nat.mod_le _ _).trans (Nat.add_le_add_right hfat _)
  refine ⟨?_, ?_, fun c hc hlt => ?_, hnumbers⟩
  · rw [hg.intsPerFat_eq]
    exact h.cells
  · change _ + b.sectorsPerFat32 ≤ _
    omega
  · have hle : (c-2+1) * b.sectorsPerCluster ≤ b.dataClusters * b.sectorsPerCluster :=
      Nat.mul_le_mul_right _ (by omega)
    change _ + (c-2+1) * b.sectorsPerCluster ≤ _
    omega

end Clusters

section Log
variable {δ : Type} {limit s : ℕ} {d d' d'' : Logged δ}

/-- Only sectors below the limit are written between `d` and `d'`. -/
def LogsBelow (limit : ℕ) (d d' : Logged δ) : Prop :=
  ∃ new, d'.written = new ++ d.written ∧ ∀ s ∈ new, s < limit

lemma LogsBelow.refl (limit : ℕ) (d : Logged δ) : LogsBelow limit d d := ⟨[], rfl, by simp⟩

lemma LogsBelow.trans (h : LogsBelow limit d d') (h' : LogsBelow limit d' d'') : LogsBelow limit d d'' := by
  obtain ⟨new, hnew, hbelow⟩ := h
  obtain ⟨more, hmore, hbelow'⟩ := h'
  refine ⟨more ++ new, by rw [hmore, hnew, List.append_assoc], fun s hs => ?_⟩
  rcases List.mem_append.mp hs with hs | hs
  · exact hbelow' s hs
  · exact hbelow s hs

lemma LogsBelow.lt (h : LogsBelow limit d d') (hs : Wrote s d d') : s < limit := by
  obtain ⟨new, hnew, hbelow⟩ := h
  obtain ⟨new', hnew', hmem⟩ := hs
  rw [List.append_cancel_right (hnew'.symm.trans hnew)] at hmem
  exact hbelow s hmem

variable [Disk δ]

lemma fatPutSector_logsBelow {buff : Buffer} {sector n : ℕ} (hle : sector + n ≤ limit)
    (h : fatPutSector d buff sector n = .ok d') : LogsBelow limit d d' := by
  refine ⟨_, fatPutSector_written h, fun s hs => ?_⟩
  obtain ⟨i, hi, rfl⟩ := List.mem_map.mp (List.mem_reverse.mp hs)
  have hi := List.mem_range.mp hi
  exact (Nat.mod_le _ _).trans_lt (by omega)

variable {g : Geometry} {count : ℕ} (bounded : g.Bounded count limit)
include bounded

lemma Geometry.Bounded.sector_le {c : ℕ} (hc : g.HasCluster c) (hlt : c < count) :
    fatAcquireSectorForCluster g c + g.sectorsPerCluster ≤ limit :=
  (fatAcquireSectorForCluster_eq hc (bounded.below c hc.1 hlt) bounded.limit_le).2

lemma fatPutCluster_logsBelow {buff : Buffer} {c : ℕ} (hc : g.HasCluster c) (hlt : c < count)
    (h : fatPutCluster g d buff c = .ok d') : LogsBelow limit d d' :=
  fatPutSector_logsBelow (bounded.sector_le hc hlt) h

lemma fatFlushFAT_logsBelow {FAT : ℕ → ℕ} (h : fatFlushFAT g d FAT = .ok d') : LogsBelow limit d d' :=
  fatPutSector_logsBelow bounded.table h

end Log

section Ahead
variable {δ : Type} {count : ℕ} {v : FAT32 δ}

/-- The allocator is ready, the hint is not past the cell `count`, and the cells from there on are
free. -/
structure Inside (count : ℕ) (v : FAT32 δ) : Prop where
  ready : AllocReady v
  hint : v.clusterAllocationHint ≤ count
  beyond : ∀ c, count ≤ c → c < v.geometry.intsPerFat → v.FAT c = 0

/-- The free cells from the hint up to the cell `count`. -/
def ahead (count : ℕ) (v : FAT32 δ) : Finset ℕ :=
  (freeCells v.FAT count).filter (v.clusterAllocationHint ≤ ·)

lemma mem_ahead {c : ℕ} :
    c ∈ ahead count v ↔ v.clusterAllocationHint ≤ c ∧ c < count ∧ v.FAT c = 0 := by
  rw [ahead, Finset.mem_filter, mem_freeCells, and_comm]

/-- The allocator can be called `n` times before it comes to the cell `count`, if there is one. -/
def Spare (count : ℕ) (v : FAT32 δ) (n : ℕ) : Prop :=
  v.geometry.intsPerFat ≤ count ∨ n ≤ (ahead count v).card

/-- The cells in use are those of clusters below `count`. -/
lemma Inside.lt (h : Inside count v) {c : ℕ} (hc : v.geometry.HasCluster c) (hused : v.FAT c ≠ 0) :
    c < count := by
  by_contra hge
  exact hused (h.beyond c (by omega) hc.2)

lemma Inside.withDisk (h : Inside count v) (d : δ) : Inside count { v with disk := d } :=
  ⟨⟨h.ready.reserved, h.ready.hint⟩, h.hint, h.beyond⟩

variable [Disk δ] {w : FAT32 δ}

/-- While there is a free cell from the hint on, the allocator takes the first one of them. -/
lemma fatAllocCluster_first {k c : ℕ} (hk : v.clusterAllocationHint ≤ k) (hlt : k < v.geometry.intsPerFat)
    (hfree : v.FAT k = 0) (h : fatAllocCluster v = .ok (c, w)) :
    v.clusterAllocationHint ≤ c ∧ c ≤ k ∧ ∀ i, v.clusterAllocationHint ≤ i → i < c → v.FAT i ≠ 0 := by
  rw [fatAllocCluster] at h
  cases hfirst : firstFree v.FAT v.clusterAllocationHint
      (v.geometry.intsPerFat - v.clusterAllocationHint) with
  | none => exact absurd hfree (firstFree_eq_none.mp hfirst k hk (by omega))
  | some i =>
    rw [hfirst] at h
    obtain ⟨d, -, hd⟩ := bind_eq_ok.mp h
    obtain ⟨rfl, -⟩ := Prod.mk.inj (Except.ok.inj hd)
    obtain ⟨hle, -, -, hbefore⟩ := firstFree_eq_some.mp hfirst
    refine ⟨hle, ?_, hbefore⟩
    by_contra hgt
    exact hbefore k hk (by omega) hfree

/-- It takes a cell below `count` while there is one ahead of the hint. -/
lemma fatAllocCluster_ahead (h : Inside count v) (hcount : count ≤ v.geometry.intsPerFat) {c : ℕ}
    (hpos : 0 < (ahead count v).card) (halloc : fatAllocCluster v = .ok (c, w)) :
    c < count ∧ Inside count w ∧ (ahead count w).card + 1 = (ahead count v).card := by
  obtain ⟨k, hk⟩ := Finset.card_pos.mp hpos
  obtain ⟨hle, hlt, hfree⟩ := mem_ahead.mp hk
  obtain ⟨hhc, hck, hbefore⟩ := fatAllocCluster_first hle (by omega) hfree halloc
  rcases fatAllocCluster_eq_ok halloc with ⟨-, -, hnone⟩ | ⟨d, -, hzero, -, hw⟩
  · exact absurd hfree (cells_used hnone (by omega))
  have hcc : c < count := by omega
  have hready := (h.ready.hasCluster (by omega) hzero).1
  have hFAT : ∀ k, k ≠ c → w.FAT k = v.FAT k := fun k hk => by
    rw [hw]
    exact Function.update_of_ne hk _ _
  have hself : w.FAT c ≠ 0 := by
    rw [hw]
    dsimp only
    rw [Function.update_self]
    decide
  have hhint : w.clusterAllocationHint = c + 1 := by rw [hw]
  have hg : w.geometry = v.geometry := by rw [hw]
  refine ⟨hcc, ⟨⟨?_, by rw [hg]; omega⟩, by omega, fun k hk hkN => ?_⟩, ?_⟩
  · rw [hFAT 0 (by omega), hFAT 1 (by omega)]
    exact h.ready.reserved
  · rw [hFAT k (by omega)]
    exact h.beyond k hk (hg ▸ hkN)
  · have herase : ahead count w = (ahead count v).erase c := by
      ext i
      rw [Finset.mem_erase, mem_ahead, mem_ahead, hhint]
      by_cases hic : i = c
      · simp [hic, hself]
      · rw [hFAT i hic]
        constructor
        · intro ⟨hi, hrest⟩
          exact ⟨hic, by omega, hrest⟩
        · intro ⟨_, hi, hilt, hzero⟩
          have hge : ¬ i < c := fun hlt => hbefore i hi hlt hzero
          exact ⟨by omega, hilt, hzero⟩
    rw [herase]
    exact Finset.card_erase_add_one (mem_ahead.mpr ⟨hhc, hcc, hzero⟩)

/-- The same with a table that ends there. -/
lemma fatAllocCluster_spare (h : Inside count v) (hcount : count ≤ v.geometry.intsPerFat) {n c : ℕ}
    (spare : Spare count v (n+1)) (halloc : fatAllocCluster v = .ok (c, w)) (hc : c ≠ 0) :
    c < count ∧ Inside count w ∧ Spare count w n := by
  rcases fatAllocCluster_took h.ready halloc with ⟨hzero, -⟩ | took
  · exact absurd hzero hc
  have hg := took.changes.geometry_eq
  rcases spare with hall | hsome
  · have hlt := took.hasCluster.2
    have hready := took.changes.ready h.ready
    refine ⟨by omega, ⟨hready, ?_, fun k hk hkN => ?_⟩, .inl (hg ▸ hall)⟩
    · have := hready.hint
      rw [hg] at this
      omega
    · rw [hg] at hkN
      omega
  · obtain ⟨hlt, hinside, hcard⟩ := fatAllocCluster_ahead h hcount (Nat.zero_lt_of_lt hsome) halloc
    exact ⟨hlt, hinside, .inr (by omega)⟩

/-- With none ahead of the hint it takes the cell `count`. -/
lemma fatAllocCluster_beyond (h : Inside count v) (hcount : count < v.geometry.intsPerFat) {c : ℕ}
    (hnone : (ahead count v).card = 0) (halloc : fatAllocCluster v = .ok (c, w)) : c = count := by
  have hfree := h.beyond count le_rfl hcount
  obtain ⟨hle, hlt, -⟩ := fatAllocCluster_first h.hint hcount hfree halloc
  rcases fatAllocCluster_eq_ok halloc with ⟨-, -, hfull⟩ | ⟨d, -, hzero, -, -⟩
  · exact absurd hfree (cells_used hfull hcount)
  · by_contra hne
    have hmem : c ∈ ahead count v := mem_ahead.mpr ⟨hle, by omega, hzero⟩
    rw [Finset.card_eq_zero.mp hnone] at hmem
    exact absurd hmem (Finset.notMem_empty c)

omit [Disk δ] in
lemma Spare.of_ahead {u : FAT32 δ} (hg : u.geometry = v.geometry) (hahead : ahead count u = ahead count v)
    {n : ℕ} (spare : Spare count v n) : Spare count u n := by
  rwa [Spare, hg, hahead]

omit [Disk δ] in
/-- A link is written into a cell in use. -/
lemma Inside.link (h : Inside count v) {c x : ℕ} (hc : v.geometry.HasCluster c) (hused : v.FAT c ≠ 0)
    (hx : x ≠ 0) (d : δ) :
    Inside count { v with FAT := Function.update v.FAT c x, disk := d } ∧
      ahead count { v with FAT := Function.update v.FAT c x, disk := d } = ahead count v := by
  have hlt := h.lt hc hused
  have hcell : ∀ k < 2, Function.update v.FAT c x k = v.FAT k := by
    intro k hk
    have := hc.1
    exact Function.update_of_ne (by omega) _ _
  refine ⟨⟨⟨?_, h.ready.hint⟩, h.hint, fun k hk hkN => ?_⟩, ?_⟩
  · dsimp only
    rw [hcell 0 (by decide), hcell 1 (by decide)]
    exact h.ready.reserved
  · exact (Function.update_of_ne (by omega) _ _).trans (h.beyond k hk hkN)
  · rw [ahead, ahead, freeCells_relink hx hused]

/-- The state in which the next iteration of the write loop starts. -/
structure NextIteration (count : ℕ) (u w : FAT32 δ) (c : ℕ) : Prop where
  inside : Inside count w
  ahead : ahead count w = ahead count u
  free : fatGetFreeClusters w = fatGetFreeClusters u
  used : w.FAT c ≠ 0

lemma Took.next {c : ℕ} (took : Took v w c) (h : Inside count w) {prev : ℕ}
    (hprev : prev ≠ 0 → v.geometry.HasCluster prev ∧ v.FAT prev ≠ 0) (d : δ) :
    NextIteration count w { w with
      FAT := if prev ≠ 0 then Function.update w.FAT prev c else w.FAT, disk := d } c := by
  have hg := took.changes.geometry_eq
  have hused : w.FAT c ≠ 0 := by
    rw [took.FAT, Function.update_self]
    decide
  by_cases hp : prev = 0
  · rw [if_neg (not_not.mpr hp)]
    exact ⟨h.withDisk d, rfl, rfl, hused⟩
  · obtain ⟨hpc, hpused⟩ := hprev hp
    have hpused' : w.FAT prev ≠ 0 := by
      rw [took.FAT, Function.update_apply]
      split_ifs
      · decide
      · exact hpused
    obtain ⟨hinside, hahead⟩ := h.link (hg ▸ hpc) hpused' took.hasCluster.ne_zero d
    rw [if_pos hp]
    refine ⟨hinside, hahead, congrArg Finset.card (freeCells_relink took.hasCluster.ne_zero hpused'), ?_⟩
    dsimp only
    rw [Function.update_apply]
    split_ifs
    · exact took.hasCluster.ne_zero
    · exact hused

end Ahead

section Staying
variable {δ : Type} [Disk δ] {count limit : ℕ} {v w u : FAT32 (Logged δ)}

/-- From `v` to `w` only sectors below the limit are written, and the clusters in use stay below
`count`. -/
structure Stays (count limit : ℕ) (v w : FAT32 (Logged δ)) : Prop where
  geometry : w.geometry = v.geometry
  inside : Inside count w
  log : LogsBelow limit v.disk w.disk

omit [Disk δ] in
lemma Stays.trans (h : Stays count limit v w) (h' : Stays count limit w u) : Stays count limit v u :=
  ⟨h'.geometry.trans h.geometry, h'.inside, h.log.trans h'.log⟩

variable (bounded : v.geometry.Bounded count limit) (h : Inside count v)
include bounded h

lemma Inside.alloc {n c : ℕ} (spare : Spare count v (n+1)) (halloc : fatAllocCluster v = .ok (c, w))
    (hc : c ≠ 0) : Stays count limit v w ∧ c < count ∧ Spare count w n := by
  obtain ⟨hlt, hinside, hspare⟩ := fatAllocCluster_spare h bounded.cells spare halloc hc
  obtain ⟨d, hclear, hzero, hcell, rfl⟩ :=
    (fatAllocCluster_eq_ok halloc).resolve_left fun hnone => hc hnone.1
  have hready := h.ready.hint
  have hcluster := h.ready.hasCluster (by omega) hzero
  exact ⟨⟨rfl, hinside, fatPutCluster_logsBelow bounded hcluster hlt hclear⟩, hlt, hspare⟩

/-- The write loop, with as many clusters to spare as it takes. -/
lemma writeClusters_stays {file : Buffer} {flen left writtenbytes prev first r : ℕ}
    (hfree : left ≤ fatGetFreeClusters v) (spare : Spare count v left)
    (hprev : prev ≠ 0 → v.geometry.HasCluster prev ∧ v.FAT prev ≠ 0)
    (hwrite : writeClusters file flen left v writtenbytes prev first = .ok (r, w)) :
    Stays count limit v w := by
  induction left generalizing v writtenbytes prev first with
  | zero =>
    obtain ⟨-, rfl⟩ := Prod.mk.inj (Except.ok.inj hwrite)
    exact ⟨rfl, h, .refl _ _⟩
  | succ left ih =>
    obtain ⟨⟨c, u⟩, halloc, hrest⟩ := bind_eq_ok.mp hwrite
    obtain ⟨d, hput, hrest⟩ := bind_eq_ok.mp hrest
    rcases fatAllocCluster_took h.ready halloc with ⟨-, -, hnone⟩ | took
    · omega
    obtain ⟨hstays, hlt, hspare⟩ := h.alloc bounded spare halloc took.hasCluster.ne_zero
    have hg := hstays.geometry
    have hc : u.geometry.HasCluster c := hg ▸ took.hasCluster
    have hlog := fatPutCluster_logsBelow (hg ▸ bounded) hc hlt hput
    have next := took.next hstays.inside hprev d
    have hcount := took.free
    dsimp only at hrest
    generalize hx : ({ u with
      FAT := if prev ≠ 0 then Function.update u.FAT prev c else u.FAT, disk := d } : FAT32 (Logged δ)) = x
      at next hrest
    have hgx : x.geometry = u.geometry := by rw [← hx]
    have hstep : Stays count limit u x := ⟨hgx, next.inside, by rw [← hx]; exact hlog⟩
    refine hstays.trans (hstep.trans ?_)
    exact ih (by rwa [hgx, hg]) next.inside (by rw [next.free]; omega) (hspare.of_ahead hgx next.ahead)
      (fun _ => ⟨by rwa [hgx], next.used⟩) hrest

/-- The search for the slots takes at most one cluster, and only if the directory has no room. -/
lemma Located.stays {l l' : List ℕ} {n c index : ℕ} {found : List Slot} {dir : ℕ}
    (hl : IsChain v.geometry v.FAT dir l) (located : Located v l n w l' c found index) {need : ℕ}
    (hneed : Spare count v need) (hroom : ¬ Room v dir n → Spare count v (need + 1)) :
    Stays count limit v w ∧ Spare count w need := by
  cases located with
  | room => exact ⟨⟨rfl, h, .refl _ _⟩, hneed⟩
  | @extended _ disk hne hfull halloc hx hfree hclear hle =>
    have hspare : Spare count v (need + 1) :=
      hroom fun ⟨m, hm, y, hy, hfound⟩ => hfound (hfull y (by rwa [hl.unique hm]))
    obtain ⟨hstays, hlt, hspare⟩ := h.alloc bounded hspare halloc hx.ne_zero
    have hlast := List.getLast_mem hne
    have hused : Function.update v.FAT c 0x0FFFFFFF (l.getLast hne) ≠ 0 :=
      update_ne_zero (hl.cell_ne_zero hlast) c
    obtain ⟨hinside, hahead⟩ := hstays.inside.link (hl.cells _ hlast) hused hx.ne_zero disk
    exact ⟨⟨rfl, hinside, hstays.log⟩, hspare.of_ahead (by rfl) hahead⟩

end Staying

section Calls
variable {δ : Type} [Disk δ] {count limit : ℕ} {v w : FAT32 (Logged δ)}

/-- The call needs no more clusters than there are free ones from the hint up to the last cluster of the
volume, if the table has cells behind that cluster's. -/
structure FitsAhead (count : ℕ) (v : FAT32 δ) (d : ℕ) (fname : List UCHAR) (flen : ℕ) : Prop where
  data : Spare count v (requiredClusters v.geometry flen)
  directory : ¬ Room v d (longEntries fname + 1) → Spare count v (requiredClusters v.geometry flen + 1)

def FatOp.FitsAhead (count : ℕ) (v : FAT32 δ) : FatOp → Prop
  | writeFile dir _ fname flen => Fat32.FitsAhead count v dir fname flen
  | makeDirectory dir dirname => Fat32.FitsAhead count v dir dirname 0
  | _ => True

variable (bounded : v.geometry.Bounded count limit) (h : Inside count v)
  (store : ClusterStore v.geometry (Logged δ)) (hg : v.geometry.Addressable)
include bounded h store hg

lemma fatWriteFileImplementation_stays {dir : ℕ} {l : List ℕ} (hl : IsChain v.geometry v.FAT dir l)
    {fname : List UCHAR} {flen : ℕ} (space : EnoughSpace v dir fname flen)
    (fits : FitsAhead count v dir fname flen) {fuel : ℕ} {file : Buffer} {attrs : UCHAR}
    (hwrite : fatWriteFileImplementation fuel v dir file fname flen attrs 0 = .ok w) :
    Stays count limit v w := by
  obtain ⟨u, c, found, index, longs, slots, first, x, d₁, d₂, hlocate, -, hdata, hput, hflush, rfl⟩ :=
    fatWriteFileImplementation_steps hwrite
  obtain ⟨l', located⟩ := fatLocateEntries_place store hg h.ready hl (Nat.succ_pos _) space.place hlocate
  obtain ⟨hstays, hspare⟩ := located.stays bounded h hl fits.data fits.directory
  have hchain := located.isChain hg hl
  have hmem := (located.prepared h.ready hl.cells fun y hy => hl.cell_ne_zero hy).mem
  have hneed := located.space (fun y hy => hl.cell_ne_zero hy) space.data fun hfull =>
    space.directory fun ⟨m, hm, y, hy, hroom⟩ => hroom (hfull y (by rwa [hl.unique hm]))
  have hgu := hstays.geometry
  rw [← hgu] at hneed hspare
  have hdataStays := writeClusters_stays (hgu ▸ bounded) hstays.inside hneed hspare
    (fun hp => absurd rfl hp) hdata
  have hgx : x.geometry = v.geometry := hdataStays.geometry.trans hgu
  have hc : v.geometry.HasCluster c := hgu ▸ hchain.cells c hmem
  have hlt := hstays.inside.lt (hchain.cells c hmem) (hchain.cell_ne_zero hmem)
  have hlog : LogsBelow limit x.disk d₂ := by
    rw [hgx] at hput hflush
    exact (fatPutCluster_logsBelow bounded hc hlt hput).trans (fatFlushFAT_logsBelow bounded hflush)
  exact (hstays.trans hdataStays).trans ⟨rfl, hdataStays.inside.withDisk d₂, hlog⟩

omit bounded h store hg in
/-- Freeing a chain sets cells to 0 and to nothing else. -/
lemma zeroChain_cell {fuel start : ℕ} {FAT r : ℕ → ℕ} (hzero : zeroChain fuel FAT start = .ok r) (c : ℕ) :
    r c = 0 ∨ r c = FAT c := by
  induction fuel generalizing FAT start with
  | zero => cases hzero
  | succ fuel ih =>
    rw [zeroChain] at hzero
    split_ifs at hzero with hgo
    · rcases ih hzero with hnone | hsame
      · exact .inl hnone
      · by_cases hc : c = start
        · exact .inl (by rw [hsame, hc, Function.update_self])
        · exact .inr (by rw [hsame, Function.update_of_ne hc])
    · exact .inr (congrFun (Except.ok.inj hzero) c).symm

omit h store hg in
lemma PutsIn.logsBelow {cs : List ℕ} {d d' : Logged δ} (hputs : PutsIn v.geometry cs d d')
    (hcs : ∀ c ∈ cs, v.geometry.HasCluster c ∧ c < count) : LogsBelow limit d d' := by
  induction hputs with
  | refl => exact .refl _ _
  | put _ hc hput ih =>
    exact ih.trans (fatPutCluster_logsBelow bounded (hcs _ hc).1 (hcs _ hc).2 hput)

lemma deleteFrom_stays {chainFuel fuel dir : ℕ} {filename : List UCHAR} {l : List ℕ}
    (tidy : TidyDir v dir l) (hdelete : deleteFrom chainFuel v filename fuel dir = .ok w) :
    Stays count limit v w := by
  have hready := (deleteFrom_settles store hg tidy hdelete).ready h.ready
  rcases deleteFrom_erases store tidy.walk tidy.stream hdelete with rfl | ⟨e, d, erases, hzero⟩
  · exact ⟨rfl, h, .refl _ _⟩
  · obtain ⟨FAT, hchain, hrest⟩ := bind_eq_ok.mp hzero
    obtain ⟨d', hflush, hrest⟩ := bind_eq_ok.mp hrest
    obtain rfl := Except.ok.inj hrest
    have hlog := erases.puts.logsBelow bounded fun c hc =>
      ⟨tidy.walk.cells c hc, h.lt (tidy.walk.cells c hc) (tidy.walk.cell_ne_zero hc)⟩
    refine ⟨rfl, ⟨hready, h.hint, fun c hc hcN => ?_⟩, hlog.trans (fatFlushFAT_logsBelow bounded hflush)⟩
    rcases zeroChain_cell hchain c with hnone | hsame
    · exact hnone
    · exact hsame.trans (h.beyond c hc hcN)

/-- A call whose clusters fit ahead of the hint stays inside. -/
theorem FatOp.FitsAhead.stays {o : FatOp} (ho : o.Orderly v) (fits : o.FitsAhead count v) {fuel : ℕ}
    (happly : o.apply fuel v = some w) : Stays count limit v w := by
  cases o with
  | writeFile dir file fname flen =>
    obtain ⟨⟨l, hl⟩, space⟩ := ho
    exact fatWriteFileImplementation_stays bounded h store hg hl space fits (toOption_eq_some.mp happly)
  | makeDirectory dir dirname =>
    obtain ⟨⟨l, hl⟩, space⟩ := ho
    have hwrite := fatMakeDirectory_writes (toOption_eq_some.mp happly)
    exact fatWriteFileImplementation_stays bounded h store hg hl space fits hwrite
  | deleteFile dir filename =>
    obtain ⟨l, tidy⟩ := ho
    exact deleteFrom_stays bounded h store hg tidy (toOption_eq_some.mp happly)
  | scribble junk =>
    obtain rfl := Option.some.inj happly
    exact ⟨rfl, ⟨⟨h.ready.reserved, h.ready.hint⟩, h.hint, h.beyond⟩, .refl _ _⟩

end Calls

section Runs
variable {δ : Type} [Disk δ]

/-- In every run from the mount on whose calls fit ahead of the hint, all sectors that are written lie in
the partition, and so do those of every cluster in use. The allocator clears each cluster it returns, so
these sectors are among the ones written. -/
theorem allocation_inside {b : BiosParameterBlock} {partitionSector : ℕ} (fitted : b.Fitted partitionSector)
    {n : ℕ} {FAT : ℕ → ℕ} {d : Logged δ} {junk : Buffer} {v₀ : FAT32 (Logged δ)}
    (hv₀ : v₀ = (mountRecord n partitionSector b FAT).volume fitted.clusters d junk)
    (hreserved : FAT 0 ≠ 0 ∧ FAT 1 ≠ 0)
    (hbeyond : ∀ c, b.dataClusters + 2 ≤ c → c < 128 * b.sectorsPerFat32 → FAT c = 0)
    (hg : v₀.geometry.Addressable) (store : ClusterStore v₀.geometry δ) {fuel : ℕ} {ops : List FatOp}
    {v : FAT32 (Logged δ)}
    (run : GuardedRun (fun v o => o.Orderly v ∧ o.FitsAhead (b.dataClusters + 2) v) (FatOp.apply fuel)
      v₀ ops v) :
    (∀ s, Wrote s v₀.disk v.disk → s < partitionSector + b.largeSectorsOnMedia) ∧
    ∀ c, v₀.geometry.HasCluster c → v.FAT c ≠ 0 → c < b.dataClusters + 2 ∧
      fatAcquireSectorForCluster v₀.geometry c + v₀.geometry.sectorsPerCluster ≤
        partitionSector + b.largeSectorsOnMedia := by
  have bounded : v₀.geometry.Bounded (b.dataClusters + 2) (partitionSector + b.largeSectorsOnMedia) := by
    subst hv₀
    exact fitted.bounded hg
  have hstart : Inside (b.dataClusters + 2) v₀ := by
    subst hv₀
    exact ⟨⟨hreserved, Nat.zero_le _⟩, Nat.zero_le _,
      fun c hc hlt => hbeyond c hc (lt_of_lt_of_eq hlt hg.intsPerFat_eq)⟩
  have hstays : Stays (b.dataClusters + 2) (partitionSector + b.largeSectorsOnMedia) v₀ v := by
    refine run.invariant (I := Stays (b.dataClusters + 2) (partitionSector + b.largeSectorsOnMedia) v₀)
      ?_ ⟨rfl, hstart, .refl _ _⟩
    intro u o w hu ⟨ho, hfits⟩ hw
    have hgu := hu.geometry
    exact hu.trans (hfits.stays (hgu ▸ bounded) hu.inside (hgu ▸ store.logged) (hgu ▸ hg) ho hw)
  refine ⟨fun s hs => hstays.log.lt hs, fun c hc hcell => ?_⟩
  have hlt := hstays.inside.lt (hstays.geometry.symm ▸ hc) hcell
  exact ⟨hlt, bounded.sector_le hc hlt⟩

end Runs

section Overrun
variable {δ : Type} [Disk δ] {count : ℕ} {v w : FAT32 (Logged δ)} (hcount : count < v.geometry.intsPerFat)
  (h : Inside count v)
include hcount h

/-- A write loop that takes more clusters than there are ahead of the hint writes the one behind the
last. -/
lemma writeClusters_overruns {file : Buffer} {flen left writtenbytes prev first r : ℕ}
    (hshort : (ahead count v).card < left) (hprev : prev ≠ 0 → v.geometry.HasCluster prev ∧ v.FAT prev ≠ 0)
    (hwrite : writeClusters file flen left v writtenbytes prev first = .ok (r, w)) :
    Wrote (fatAcquireSectorForCluster v.geometry count) v.disk w.disk := by
  induction left generalizing v writtenbytes prev first with
  | zero => exact absurd hshort (Nat.not_lt_zero _)
  | succ left ih =>
    obtain ⟨⟨c, u⟩, halloc, hrest⟩ := bind_eq_ok.mp hwrite
    obtain ⟨d, hput, hrest⟩ := bind_eq_ok.mp hrest
    have hgrows := (fatPutSector_grows hput).trans (writeClusters_grows hrest)
    obtain ⟨hgeometry, hlog⟩ := fatAllocCluster_grows halloc
    by_cases hnone : (ahead count v).card = 0
    · obtain rfl := fatAllocCluster_beyond h hcount hnone halloc
      have hwrote := (fatPutCluster_wrote hput).before (writeClusters_grows hrest)
      rw [hgeometry] at hwrote
      exact hwrote.after hlog
    · obtain ⟨hlt, hinside, hcard⟩ :=
        fatAllocCluster_ahead h hcount.le (Nat.pos_of_ne_zero hnone) halloc
      rcases fatAllocCluster_took h.ready halloc with ⟨-, -, hfull⟩ | took
      · exact absurd (h.beyond count le_rfl hcount) (cells_used hfull hcount)
      have next := took.next hinside hprev d
      dsimp only at hrest
      generalize hx : ({ u with
        FAT := if prev ≠ 0 then Function.update u.FAT prev c else u.FAT, disk := d } : FAT32 (Logged δ)) = x
        at next hrest
      have hgx : x.geometry = v.geometry := by rw [← hx, ← hgeometry]
      have hdx : v.disk.written <:+ x.disk.written := by
        rw [← hx]
        exact hlog.trans (fatPutSector_grows hput)
      have hwrote := ih (by rwa [hgx]) next.inside (by rw [next.ahead]; omega)
        (fun _ => ⟨by rw [hgx]; exact took.hasCluster, next.used⟩) hrest
      rw [hgx] at hwrote
      exact hwrote.after hdx

/-- A call that does not fit ahead of the hint, and returns, has written the cluster behind the last. -/
theorem fatWriteFileImplementation_overruns (store : ClusterStore v.geometry (Logged δ))
    (hg : v.geometry.Addressable) {dir : ℕ} {l : List ℕ} (hl : IsChain v.geometry v.FAT dir l)
    {fname : List UCHAR} {flen : ℕ} (space : EnoughSpace v dir fname flen)
    (hfits : ¬ FitsAhead count v dir fname flen) {fuel : ℕ} {file : Buffer} {attrs : UCHAR}
    (hwrite : fatWriteFileImplementation fuel v dir file fname flen attrs 0 = .ok w) :
    Wrote (fatAcquireSectorForCluster v.geometry count) v.disk w.disk := by
  obtain ⟨u, c, found, index, longs, slots, first, x, d₁, d₂, hlocate, -, hdata, hput, hflush, rfl⟩ :=
    fatWriteFileImplementation_steps hwrite
  have hgrows : x.disk.written <:+ d₂.written := (fatPutSector_grows hput).trans (fatPutSector_grows hflush)
  obtain ⟨l', located⟩ := fatLocateEntries_place store hg h.ready hl (Nat.succ_pos _) space.place hlocate
  cases located with
  | @room p _ q _ hsplit hfull hfind =>
    have hshort : (ahead count v).card < requiredClusters v.geometry flen := by
      by_contra hge
      refine hfits ⟨.inr (by omega), fun hroom => absurd ⟨l, hl, c, by simp [hsplit], ?_⟩ hroom⟩
      rw [hfind]
      simp
    exact (writeClusters_overruns hcount h hshort (fun hp => absurd rfl hp) hdata).before hgrows
  | @extended _ disk hne hfull halloc hx hfree hclear hle =>
    have hlog : v.disk.written <:+ disk.written := (fatAllocCluster_grows halloc).2
    by_cases hnone : (ahead count v).card = 0
    · obtain rfl := fatAllocCluster_beyond h hcount hnone halloc
      obtain ⟨d, hclear, -, -, hd⟩ :=
        (fatAllocCluster_eq_ok halloc).resolve_left fun hzero => hx.ne_zero hzero.1
      obtain rfl : disk = d := congrArg FAT32.disk hd
      exact (fatPutCluster_wrote hclear).before ((writeClusters_grows hdata).trans hgrows)
    · obtain ⟨hlt, hinside, hcard⟩ :=
        fatAllocCluster_ahead h hcount.le (Nat.pos_of_ne_zero hnone) halloc
      have hshort : (ahead count v).card < requiredClusters v.geometry flen + 1 := by
        by_contra hge
        exact hfits ⟨.inr (by omega), fun _ => .inr (by omega)⟩
      have hlast := List.getLast_mem hne
      have hused : Function.update v.FAT c 0x0FFFFFFF (l.getLast hne) ≠ 0 :=
        update_ne_zero (hl.cell_ne_zero hlast) c
      obtain ⟨hinside', hahead⟩ := hinside.link (hl.cells _ hlast) hused hx.ne_zero disk
      have hcard' : (ahead count (v.extended (l.getLast hne) c disk)).card + 1 = (ahead count v).card := by
        rw [← hcard]
        exact congrArg (·.card + 1) hahead
      have hwrote := writeClusters_overruns (v := v.extended (l.getLast hne) c disk) hcount hinside'
        (by change _ < requiredClusters v.geometry flen; omega) (fun hp => absurd rfl hp) hdata
      exact (hwrote.before hgrows).after hlog

end Overrun

section Examples
open Open98.Ata

/-- The boot sector of a volume at sector 1 with 100 clusters of a sector each, and a table of one sector
with cells for 126. -/
def roundedUp : BiosParameterBlock where
  bytesPerSector := 512
  sectorsPerCluster := 1
  reservedSectors := 31
  fatCount := 1
  directoryEntries := 0
  totalSectors := 0
  mediaDescriptorType := 0xF8
  sectorsPerFat := 0
  sectorsPerTrack := 0
  headsOrSizesOnMedia := 0
  hiddenSectors := 1
  largeSectorsOnMedia := 132
  sectorsPerFat32 := 1
  flags := 0
  fatVersion := 0
  clusterRootDirectory := 2
  fsInfoSectorNumber := 0
  backupBootSectorNumber := 0
  driveNumber := 0x80
  windowsFlags := 0
  signature := 0x29
  volumeSerial := 0
  volumeLabel _ := 0x20
  systemID _ := 0x20

lemma roundedUp_fitted : roundedUp.Fitted 1 :=
  ⟨by decide, by decide, by decide, by decide, by decide⟩

lemma roundedUp_clusters : 0 < roundedUp.sectorsPerCluster := roundedUp_fitted.clusters

/-- It is mounted when it has just been formatted. -/
def roundedVolume : FAT32 (Logged Drive) :=
  (mountRecord 0 1 roundedUp fresh.FAT).volume roundedUp_clusters ⟨blank, []⟩ fun _ => 0

lemma roundedVolume_geometry : roundedVolume.geometry = small := rfl

lemma roundedVolume_formatted : Formatted roundedVolume where
  addressable := small_addressable
  reserved := by decide
  hint := by decide
  root := by decide
  zeroed k hk := fresh_formatted.zeroed k hk
  free := fresh_formatted.free

lemma roundedVolume_free : fatGetFreeClusters roundedVolume = 125 := fresh_space

lemma roundedVolume_ahead : (ahead 102 roundedVolume).card = 99 := by decide +kernel

/-- Writing a file to the volume: the call is orderly, and returns. -/
lemma roundedVolume_writes (flen : ℕ) (hlt : flen < 2^32) (hspace : requiredClusters small flen + 1 ≤ 125) :
    (FatOp.writeFile 2 (fun _ => 7) letterA flen).Orderly roundedVolume ∧
      ∃ v, (FatOp.writeFile 2 (fun _ => 7) letterA flen).apply 200 roundedVolume = some v := by
  have sup : Supported roundedVolume.geometry (Logged Drive) 200 :=
    ⟨small_clusterStore.logged, small_addressable, by decide⟩
  obtain ⟨L, hL, -⟩ := roundedVolume_formatted.holds
  have hspace' : requiredClusters roundedVolume.geometry flen + 1 ≤ fatGetFreeClusters roundedVolume := by
    rwa [roundedVolume_free, roundedVolume_geometry]
  have hallowed : FatOp.Allowed 200 roundedVolume (.writeFile 2 (fun _ => 7) letterA flen) := by
    refine ⟨.root, ⟨letterA_valid, fun es hes e he => ?_⟩, hlt, ⟨by omega, fun _ => hspace'⟩⟩
    rw [hes.unique (roundedVolume_formatted.lists_nil sup.store sup.fuel)] at he
    cases he
  obtain ⟨v, -, hv, -, -⟩ := hL.step sup hallowed
  exact ⟨hL.orderly sup hallowed, v, hv⟩

/-- A file of one cluster fits. -/
theorem allocation_inside_one_file : ∃ v, GuardedRun (fun v o => o.Orderly v ∧ o.FitsAhead 102 v)
      (FatOp.apply 200) roundedVolume [.writeFile 2 (fun _ => 7) letterA 3] v ∧
    (∀ s, Wrote s roundedVolume.disk v.disk → s < 1 + 132) ∧
    ∀ c, small.HasCluster c → v.FAT c ≠ 0 → c < 102 ∧ fatAcquireSectorForCluster small c + 1 ≤ 1 + 132 := by
  obtain ⟨horderly, v, hv⟩ := roundedVolume_writes 3 (by decide) (by decide)
  have hfits : (FatOp.writeFile 2 (fun _ => 7) letterA 3).FitsAhead 102 roundedVolume := by
    refine ⟨.inr ?_, fun _ => .inr ?_⟩
    · rw [roundedVolume_ahead]
      decide
    · rw [roundedVolume_ahead]
      decide
  have run : GuardedRun (fun v o => FatOp.Orderly v o ∧ o.FitsAhead 102 v) (FatOp.apply 200) roundedVolume
      [.writeFile 2 (fun _ => 7) letterA 3] v := .cons ⟨horderly, hfits⟩ hv (.nil v)
  refine ⟨v, run, allocation_inside roundedUp_fitted rfl (by decide) (fun c hc hlt => ?_) small_addressable
    small_clusterStore run⟩
  have hge : 102 ≤ c := hc
  simp only [fresh]
  rw [if_neg (by omega), if_neg (by omega)]

/-- A file of 100 clusters is given the one behind the partition, as all cells before it are in use. -/
theorem cluster_behind_partition_written : roundedUp.Fitted 1 ∧ roundedUp.dataClusters + 2 = 102 ∧
    (∀ c, 102 ≤ c → roundedVolume.FAT c = 0) ∧ ∃ v,
      GuardedRun FatOp.Orderly (FatOp.apply 200) roundedVolume
        [.writeFile 2 (fun _ => 7) letterA 51200] v ∧
      Wrote 133 roundedVolume.disk v.disk ∧ ¬ 133 < 1 + roundedUp.largeSectorsOnMedia := by
  have hbeyond : ∀ c, 102 ≤ c → roundedVolume.FAT c = 0 := by
    intro c hc
    change fresh.FAT c = 0
    simp only [fresh]
    rw [if_neg (by omega), if_neg (by omega)]
  obtain ⟨horderly, v, hv⟩ := roundedVolume_writes 51200 (by decide) (by decide +kernel)
  obtain ⟨⟨l, hl⟩, space⟩ := horderly
  have hinside : Inside 102 roundedVolume :=
    ⟨⟨by decide, by decide⟩, by decide, fun c hc _ => hbeyond c hc⟩
  have hfits : ¬ FitsAhead 102 roundedVolume 2 letterA 51200 := by
    intro fits
    rcases fits.data with hall | hsome
    · exact absurd hall (by decide)
    · rw [roundedVolume_ahead] at hsome
      exact absurd hsome (by decide +kernel)
  have hwrite : fatWriteFile 200 roundedVolume 2 (fun _ => 7) letterA 51200 = .ok v :=
    toOption_eq_some.mp hv
  have hwrote := fatWriteFileImplementation_overruns (by decide) hinside small_clusterStore.logged
    small_addressable hl space hfits hwrite
  exact ⟨roundedUp_fitted, by decide, hbeyond, v, .cons ⟨⟨l, hl⟩, space⟩ hv (.nil v), hwrote, by decide⟩

end Examples

end Open98.Fat32
