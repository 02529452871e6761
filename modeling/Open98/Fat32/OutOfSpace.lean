import Open98.Fat32.Runs

/-! Calls that need more clusters than are free. A failed `FatLocateEntries` is used as a pointer,
and a failed `FatAllocCluster` as the number of a cluster. -/
namespace Open98.Fat32
open Open98.Library

/-- A disk with a record of the sectors that are written, the last one first. -/
structure Logged (δ : Type) where
  disk : δ
  written : List ℕ

section Log
variable {δ : Type} [Disk δ]

instance : Disk (Logged δ) where
  kiATAReadDiskEx d lba sectorcount buff := Disk.kiATAReadDiskEx d.disk lba sectorcount buff
  kiATAWriteDisk d lba sectorcount buff := do
    let disk ← Disk.kiATAWriteDisk d.disk lba sectorcount buff
    return ⟨disk, ((List.range sectorcount).map (lba + ·)).reverse ++ d.written⟩

/-- The sector `s` is among those written between `d` and `d'`. -/
def Wrote (s : ℕ) (d d' : Logged δ) : Prop := ∃ new, d'.written = new ++ d.written ∧ s ∈ new

variable {d d' d'' : Logged δ} {s : ℕ}

omit [Disk δ] in
lemma Wrote.after (h : d.written <:+ d'.written) (hs : Wrote s d' d'') : Wrote s d d'' := by
  obtain ⟨old, hold⟩ := h
  obtain ⟨new, hnew, hmem⟩ := hs
  exact ⟨new ++ old, by rw [hnew, ← hold, List.append_assoc], List.mem_append_left _ hmem⟩

omit [Disk δ] in
lemma Wrote.before (hs : Wrote s d d') (h : d'.written <:+ d''.written) : Wrote s d d'' := by
  obtain ⟨new, hnew, hmem⟩ := hs
  obtain ⟨more, hmore⟩ := h
  exact ⟨more ++ new, by rw [← hmore, hnew, List.append_assoc], List.mem_append_right _ hmem⟩

/-- Writing sectors records them. -/
lemma fatPutSector_written {buff : Buffer} {sector n : ℕ} (h : fatPutSector d buff sector n = .ok d') :
    d'.written = ((List.range n).map fun i => (sector + i) % 2^32).reverse ++ d.written := by
  induction n generalizing d' with
  | zero =>
    obtain rfl := Except.ok.inj h
    rfl
  | succ n ih =>
    obtain ⟨u, hu, hwrite⟩ := bind_eq_ok.mp h
    obtain ⟨disk, -, hd⟩ := bind_eq_ok.mp hwrite
    obtain rfl := Except.ok.inj hd
    have hbefore := ih hu
    simp [List.range_succ, hbefore]

lemma fatPutSector_grows {buff : Buffer} {sector n : ℕ} (h : fatPutSector d buff sector n = .ok d') :
    d.written <:+ d'.written :=
  ⟨_, (fatPutSector_written h).symm⟩

/-- Writing a cluster writes its first sector, whatever number it has. -/
lemma fatPutCluster_wrote {g : Geometry} {buff : Buffer} {c : ℕ}
    (h : fatPutCluster g d buff c = .ok d') : Wrote (fatAcquireSectorForCluster g c) d d' := by
  refine ⟨_, fatPutSector_written h, ?_⟩
  rw [List.mem_reverse, List.mem_map]
  refine ⟨0, List.mem_range.mpr g.sectorsPerCluster_pos, ?_⟩
  rw [Nat.add_zero]
  exact Nat.mod_eq_of_lt (Nat.mod_lt _ (by decide))

/-- The record changes nothing about what the disk does. -/
lemma fatPutSector_logged (d : Logged δ) {buff : Buffer} {sector n : ℕ} {x : δ}
    (h : fatPutSector d.disk buff sector n = .ok x) :
    ∃ d', fatPutSector d buff sector n = .ok d' ∧ d'.disk = x := by
  induction n generalizing x with
  | zero => exact ⟨d, rfl, Except.ok.inj h⟩
  | succ n ih =>
    obtain ⟨y, hy, hwrite⟩ := bind_eq_ok.mp h
    obtain ⟨d', hd', rfl⟩ := ih hy
    refine ⟨⟨x, _⟩, bind_eq_ok.mpr ⟨d', hd', bind_eq_ok.mpr ⟨x, hwrite, rfl⟩⟩, rfl⟩

lemma ClusterStore.logged {g : Geometry} (store : ClusterStore g δ) : ClusterStore g (Logged δ) where
  get d := store.get d.disk
  put d buff c hc := by
    obtain ⟨x, hput, hcontent⟩ := store.put d.disk buff c hc
    obtain ⟨d', hd', rfl⟩ := fatPutSector_logged d hput
    exact ⟨d', hd', hcontent⟩
  flush d FAT := by
    obtain ⟨x, hflush, hcontent⟩ := store.flush d.disk FAT
    obtain ⟨d', hd', rfl⟩ := fatPutSector_logged d hflush
    exact ⟨d', hd', hcontent⟩

end Log

section Later
variable {δ : Type} [Disk δ] {v w u : FAT32 (Logged δ)}

/-- The state `w` comes after `v`, with no more free clusters. -/
structure Later (v w : FAT32 (Logged δ)) : Prop where
  geometry : w.geometry = v.geometry
  ready : AllocReady w
  free : fatGetFreeClusters w ≤ fatGetFreeClusters v
  log : v.disk.written <:+ w.disk.written

omit [Disk δ] in
lemma Later.refl (ready : AllocReady v) : Later v v := ⟨rfl, ready, le_rfl, List.suffix_rfl⟩

omit [Disk δ] in
lemma Later.trans (h : Later v w) (h' : Later w u) : Later v u :=
  ⟨h'.geometry.trans h.geometry, h'.ready, h'.free.trans h.free, h.log.trans h'.log⟩

omit [Disk δ] in
/-- Linking a cluster frees none. -/
lemma Later.relink (h : Later v w) {d : Logged δ} (hd : w.disk.written <:+ d.written) (c : ℕ) {x : ℕ}
    (hx : x ≠ 0) : Later v { w with FAT := Function.update w.FAT c x, disk := d } := by
  refine ⟨h.geometry, ⟨?_, h.ready.hint⟩, le_trans ?_ h.free, h.log.trans hd⟩
  · have hcell : ∀ k, w.FAT k ≠ 0 → Function.update w.FAT c x k ≠ 0 := by
      intro k hk
      rw [Function.update_apply]
      split_ifs
      · exact hx
      · exact hk
    exact ⟨hcell 0 h.ready.reserved.1, hcell 1 h.ready.reserved.2⟩
  · rw [fatGetFreeClusters_eq, fatGetFreeClusters_eq, freeCells_update hx]
    exact Finset.card_le_card (Finset.erase_subset _ _)

/-- What a call of the allocator does to the log and to the number of free clusters. -/
lemma fatAllocCluster_later (ready : AllocReady v) {c : ℕ} (h : fatAllocCluster v = .ok (c, w)) :
    (c = 0 ∧ w = v) ∨ c ≠ 0 ∧ Later v w ∧ fatGetFreeClusters w + 1 = fatGetFreeClusters v := by
  rcases fatAllocCluster_eq_ok h with ⟨hc, hw, -⟩ | ⟨d, hclear, hzero, hlt, rfl⟩
  · exact .inl ⟨hc, hw⟩
  · have hhint := ready.hint
    have hc := ready.hasCluster (c := c) (by omega) hzero
    have hcount := card_freeCells_take (show 0x0FFFFFFF ≠ 0 by decide) hc.2 hzero
    refine .inr ⟨hc.ne_zero, ⟨rfl, ⟨?_, hc.2⟩, ?_, fatPutSector_grows hclear⟩, hcount⟩
    · exact ((Later.refl ready).relink List.suffix_rfl c (by decide)).ready.reserved
    · exact Nat.le_of_lt_succ (Nat.lt_succ_of_lt (Nat.lt_of_succ_le hcount.le))

lemma fatAllocCluster_grows {c : ℕ} (h : fatAllocCluster v = .ok (c, w)) :
    w.geometry = v.geometry ∧ v.disk.written <:+ w.disk.written := by
  rcases fatAllocCluster_eq_ok h with ⟨-, rfl, -⟩ | ⟨d, hclear, -, -, rfl⟩
  · exact ⟨rfl, List.suffix_rfl⟩
  · exact ⟨rfl, fatPutSector_grows hclear⟩

/-- A search that succeeds frees no cluster. -/
lemma fatLocateEntries_later (ready : AllocReady v) {count fuel d : ℕ} {r : ℕ × List Slot × ℕ}
    (h : fatLocateEntries count fuel v d = .ok (some r, w)) : Later v w := by
  induction fuel generalizing v d with
  | zero => cases h
  | succ fuel ih =>
    obtain ⟨clusterBuffer, -, h⟩ := bind_eq_ok.mp h
    cases hfind : findRun count clusterBuffer 0 0 with
    | some index =>
      rw [hfind] at h
      obtain ⟨-, rfl⟩ := Prod.mk.inj (Except.ok.inj h)
      exact .refl ready
    | none =>
      rw [hfind] at h
      dsimp only at h
      by_cases hend : EOC ≤ v.FAT d
      · rw [if_pos hend] at h
        obtain ⟨⟨c, u⟩, halloc, hrest⟩ := bind_eq_ok.mp h
        dsimp only at hrest
        rcases fatAllocCluster_later ready halloc with ⟨hc, -⟩ | ⟨hc, later, -⟩
        · rw [if_pos hc] at hrest
          cases (Prod.mk.inj (Except.ok.inj hrest)).1
        · rw [if_neg hc] at hrest
          have hlink := later.relink List.suffix_rfl d hc
          exact hlink.trans (ih hlink.ready hrest)
      · rw [if_neg hend] at h
        exact ih ready h

end Later

section Shortage
variable {δ : Type} [Disk δ] {v w : FAT32 (Logged δ)}

lemma writeClusters_grows {file : Buffer} {flen left writtenbytes prev first r : ℕ}
    (h : writeClusters file flen left v writtenbytes prev first = .ok (r, w)) :
    v.disk.written <:+ w.disk.written := by
  induction left generalizing v writtenbytes prev first with
  | zero =>
    obtain ⟨-, rfl⟩ := Prod.mk.inj (Except.ok.inj h)
    exact List.suffix_rfl
  | succ left ih =>
    obtain ⟨⟨c, u⟩, halloc, hrest⟩ := bind_eq_ok.mp h
    obtain ⟨d, hput, hrest⟩ := bind_eq_ok.mp hrest
    exact (fatAllocCluster_grows halloc).2.trans ((fatPutSector_grows hput).trans (ih hrest))

/-- With too few free clusters the write loop comes to a failed allocation, and writes the cluster
with the number 0. -/
lemma writeClusters_wrote (ready : AllocReady v) {file : Buffer}
    {flen left writtenbytes prev first r : ℕ} (hfree : fatGetFreeClusters v < left)
    (h : writeClusters file flen left v writtenbytes prev first = .ok (r, w)) :
    Wrote (fatAcquireSectorForCluster v.geometry 0) v.disk w.disk := by
  induction left generalizing v writtenbytes prev first with
  | zero => exact absurd hfree (Nat.not_lt_zero _)
  | succ left ih =>
    obtain ⟨⟨c, u⟩, halloc, hrest⟩ := bind_eq_ok.mp h
    obtain ⟨d, hput, hrest⟩ := bind_eq_ok.mp hrest
    rcases fatAllocCluster_later ready halloc with ⟨rfl, rfl⟩ | ⟨hc, later, hcount⟩
    · exact (fatPutCluster_wrote hput).before (writeClusters_grows hrest)
    · have hlink : Later u { u with
          FAT := if prev ≠ 0 then Function.update u.FAT prev c else u.FAT, disk := d } := by
        split_ifs
        · exact (Later.refl later.ready).relink (fatPutSector_grows hput) prev hc
        · exact ⟨rfl, ⟨later.ready.reserved, later.ready.hint⟩, le_rfl, fatPutSector_grows hput⟩
      have hfree' := hlink.free
      have hwrote := ih hlink.ready (by omega) hrest
      rw [← later.geometry]
      exact hwrote.after (later.log.trans hlink.log)

/-- A directory without room is extended, if the search succeeds. -/
lemma fatLocateEntries_took (reads : ReadsClusters v.geometry v.disk) (hg : v.geometry.Addressable)
    (ready : AllocReady v) {count d fuel : ℕ} {l : List ℕ} (hl : IsChain v.geometry v.FAT d l)
    (hroom : ¬ Room v d count) {r : ℕ × List Slot × ℕ}
    (h : fatLocateEntries count fuel v d = .ok (some r, w)) :
    fatGetFreeClusters w + 1 ≤ fatGetFreeClusters v := by
  have hfull : ∀ c ∈ l, findRun count (v.dirSlots c) 0 0 = none := by
    intro c hc
    by_contra hne
    exact hroom ⟨l, hl, c, hc, hne⟩
  have hmore := fatLocateEntries_mono l.length h
  rw [Nat.add_comm, fatLocateEntries_full reads hg hl hfull] at hmore
  obtain ⟨⟨c, u⟩, halloc, hrest⟩ := bind_eq_ok.mp hmore
  dsimp only at hrest
  rcases fatAllocCluster_later ready halloc with ⟨hc, -⟩ | ⟨hc, later, hcount⟩
  · rw [if_pos hc] at hrest
    cases (Prod.mk.inj (Except.ok.inj hrest)).1
  · rw [if_neg hc] at hrest
    have hlink := (Later.refl later.ready).relink List.suffix_rfl
      (l.getLast hl.links.ne_nil) hc
    have hless := (fatLocateEntries_later hlink.ready hrest).free.trans hlink.free
    omega

/-- If a call returns although it needs more clusters than are free, it has written the cluster with
the number 0. -/
theorem fatWriteFileImplementation_wrote (reads : ReadsClusters v.geometry v.disk)
    (hg : v.geometry.Addressable) (ready : AllocReady v) {d : ℕ} {l : List ℕ}
    (hl : IsChain v.geometry v.FAT d l) {fname : List UCHAR} {flen : ℕ}
    (hspace : ¬ EnoughSpace v d fname flen) {fuel : ℕ} {file : Buffer} {attrs : UCHAR}
    (h : fatWriteFileImplementation fuel v d file fname flen attrs 0 = .ok w) :
    Wrote (fatAcquireSectorForCluster v.geometry 0) v.disk w.disk := by
  obtain ⟨u, cluster, rootCluster, index, longs, slots, first, x, d₁, d₂, hlocate, -, hwrite, hput, hflush, rfl⟩ :=
    fatWriteFileImplementation_steps h
  have later := fatLocateEntries_later ready hlocate
  have hfree : fatGetFreeClusters u < requiredClusters v.geometry flen := by
    by_contra henough
    have hle := later.free
    refine hspace ⟨by omega, fun hroom => ?_⟩
    have := fatLocateEntries_took reads hg ready hl hroom hlocate
    omega
  have hwrote := writeClusters_wrote later.ready (by rwa [later.geometry]) hwrite
  rw [later.geometry] at hwrote
  exact (hwrote.after later.log).before ((fatPutSector_grows hput).trans (fatPutSector_grows hflush))

end Shortage

section Outcome
variable {δ : Type} [Disk δ] {v : FAT32 δ} {L : Layout}

/-- Writing a sector with a number of 32 bits succeeds. -/
def Writable (δ : Type) [Disk δ] : Prop := ∀ (d : δ) (buff : Buffer) lba, lba < 2^32 →
  ∃ d', Disk.kiATAWriteDisk d lba 1 buff = .ok d'

lemma Writable.fatPutSector (writes : Writable δ) (d : δ) (buff : Buffer) (sector n : ℕ) :
    ∃ d', fatPutSector d buff sector n = .ok d' := by
  induction n with
  | zero => exact ⟨d, rfl⟩
  | succ n ih =>
    obtain ⟨u, hu⟩ := ih
    obtain ⟨d', hd'⟩ := writes u (fun k => buff (n*512 + k)) _ (Nat.mod_lt (sector + n) (by decide))
    exact ⟨d', bind_eq_ok.mpr ⟨u, hu, hd'⟩⟩

lemma Writable.takeCluster (writes : Writable δ) (v : FAT32 δ) (i : ℕ) :
    ∃ r, takeCluster v i = .ok r := by
  obtain ⟨d, hd⟩ := writes.fatPutSector v.disk (fun _ => 0) (fatAcquireSectorForCluster v.geometry i)
    v.geometry.sectorsPerCluster
  exact ⟨_, bind_eq_ok.mpr ⟨d, hd, rfl⟩⟩

lemma Writable.fatAllocCluster (writes : Writable δ) (v : FAT32 δ) :
    ∃ r, fatAllocCluster v = .ok r := by
  rw [Fat32.fatAllocCluster]
  cases firstFree v.FAT v.clusterAllocationHint (v.geometry.intsPerFat - v.clusterAllocationHint) with
  | some i => exact writes.takeCluster v i
  | none =>
    cases firstFree v.FAT 0 v.clusterAllocationHint with
    | some i => exact writes.takeCluster v i
    | none => exact ⟨_, rfl⟩

/-- The write loop always returns: it does not look at what the allocator returns. -/
lemma Writable.writeClusters (writes : Writable δ) (file : Buffer) (flen left : ℕ) (v : FAT32 δ)
    (writtenbytes prev first : ℕ) :
    ∃ r, writeClusters file flen left v writtenbytes prev first = .ok r := by
  induction left generalizing v writtenbytes prev first with
  | zero => exact ⟨_, rfl⟩
  | succ left ih =>
    obtain ⟨⟨c, u⟩, halloc⟩ := writes.fatAllocCluster v
    obtain ⟨d, hput⟩ := writes.fatPutSector u.disk (dataBuffer file writtenbytes
      (min (flen - writtenbytes) u.geometry.clusterSize)) (fatAcquireSectorForCluster u.geometry c)
      u.geometry.sectorsPerCluster
    obtain ⟨r, hr⟩ := ih { u with
      FAT := if prev ≠ 0 then Function.update u.FAT prev c else u.FAT, disk := d } (writtenbytes +
        min (flen - writtenbytes) u.geometry.clusterSize) c (if first = 0 then c else first)
    exact ⟨r, bind_eq_ok.mpr ⟨_, halloc, bind_eq_ok.mpr ⟨d, hput, hr⟩⟩⟩

variable (h : Holds v L) {d : ℕ} (hd : fatNaming.Live L.sets d) {fname : List UCHAR} (file : Buffer)
  (flen : ℕ) (attrs : UCHAR) {fuel : ℕ}
include h hd

/-- With no free cluster and no room in the directory the null pointer is written through. -/
theorem Holds.nullPointer (reads : ReadsClusters v.geometry v.disk) (hg : v.geometry.Addressable)
    (hfuel : v.geometry.intsPerFat ≤ fuel) (hfull : fatGetFreeClusters v = 0)
    (hroom : ¬ Room v d (longEntries fname + 1)) :
    fatWriteFileImplementation fuel v d file fname flen attrs 0 = .error .nullPointer := by
  have hchain := h.isChain hd.mem_nodes
  have hnone : ∀ c ∈ L.chain d, findRun (longEntries fname + 1) (v.dirSlots c) 0 0 = none := by
    intro c hc
    by_contra hne
    exact hroom ⟨_, hchain, c, hc, hne⟩
  obtain ⟨n, rfl⟩ : ∃ n, fuel = (L.chain d).length + n :=
    ⟨fuel - (L.chain d).length, by have := hchain.length_le; omega⟩
  rw [fatWriteFileImplementation]
  dsimp only
  rw [fatLocateEntries_full reads hg hchain hnone, fatAllocCluster_full h.ready.hint hfull]
  rfl

/-- Otherwise the call returns, however many clusters the data need. -/
theorem Holds.returns (store : ClusterStore v.geometry δ) (writes : Writable δ)
    (hg : v.geometry.Addressable) (hfuel : v.geometry.intsPerFat < fuel) (hname : ValidName fname)
    (hspace : Room v d (longEntries fname + 1) ∨ 0 < fatGetFreeClusters v) :
    ∃ w, fatWriteFileImplementation fuel v d file fname flen attrs 0 = .ok w := by
  obtain ⟨u, M, c, pre, run, post, hlocate, -, -, -, -, hrun, -, -⟩ :=
    h.locate store hg hd (Nat.succ_pos _) (hname.slots_le _) (Nat.zero_le _)
      (fun hroom => hspace.resolve_left hroom) hfuel
  obtain ⟨longs, hlongs, -⟩ := writeLongNames_ok hname.longEntries_bounds.1 pre post hrun
  obtain ⟨⟨first, x⟩, hwrite⟩ := writes.writeClusters file flen (requiredClusters u.geometry flen) u 0 0 0
  obtain ⟨d₁, hput⟩ := writes.fatPutSector x.disk _ (fatAcquireSectorForCluster x.geometry c)
    x.geometry.sectorsPerCluster
  obtain ⟨d₂, hflush⟩ := writes.fatPutSector d₁ (fatBytes x.FAT) x.geometry.fatSector
    x.geometry.sectorsPerFat32
  exact ⟨_, bind_eq_ok.mpr ⟨_, hlocate, bind_eq_ok.mpr ⟨longs, hlongs,
    bind_eq_ok.mpr ⟨_, hwrite, bind_eq_ok.mpr ⟨d₁, hput, bind_eq_ok.mpr ⟨d₂, hflush, rfl⟩⟩⟩⟩⟩⟩

end Outcome

section Harm
variable {δ : Type} [Disk δ]

/-- The sector is one of a free cluster. -/
def FreeSector (v : FAT32 (Logged δ)) (s : ℕ) : Prop :=
  ∃ c, v.geometry.HasCluster c ∧ v.FAT c = 0 ∧ fatAcquireSectorForCluster v.geometry c ≤ s ∧
    s < fatAcquireSectorForCluster v.geometry c + v.geometry.sectorsPerCluster

/-- All files and directories of the layout have the same chains and contents in `w` as in `v`, and
only sectors of clusters that are free in `v` have been written. -/
structure Harmless (v w : FAT32 (Logged δ)) (L : Layout) : Prop where
  chains : ∀ s ∈ fatNaming.Nodes L.sets, IsChain v.geometry w.FAT s (L.chain s)
  contents : ∀ s ∈ fatNaming.Nodes L.sets, ∀ c ∈ L.chain s, w.clusters c = v.clusters c
  sectors : ∀ s, Wrote s v.disk w.disk → FreeSector v s

/-- The call writes a file or makes a directory, and needs more clusters than are free. -/
def FatOp.OutOfSpace (v : FAT32 δ) (L : Layout) : FatOp → Prop
  | writeFile dir _ fname flen => fatNaming.Live L.sets dir ∧ ¬ EnoughSpace v dir fname flen
  | makeDirectory dir dirname => fatNaming.Live L.sets dir ∧ ¬ EnoughSpace v dir dirname 0
  | _ => False

/-- The sectors of the cluster with the number 0 belong to no cluster: they lie before the first
one, or far behind the last one if they wrap around. -/
lemma Geometry.Reachable.not_sector_zero {g : Geometry} (h : g.Reachable) {c : ℕ} (hc : g.HasCluster c) :
    ¬ (fatAcquireSectorForCluster g c ≤ fatAcquireSectorForCluster g 0 ∧
      fatAcquireSectorForCluster g 0 < fatAcquireSectorForCluster g c + g.sectorsPerCluster) := by
  obtain ⟨heq, hbelow⟩ := h.sector_eq hc
  have hle := h.sectorsPerCluster_le
  have hpos := g.sectorsPerCluster_pos
  rw [heq] at hbelow ⊢
  generalize (c-2) * g.sectorsPerCluster = m at *
  have hzero : fatAcquireSectorForCluster g 0 =
      (g.clusterSector + (2^32 - 2) * g.sectorsPerCluster) % 2^32 := rfl
  by_cases hwrap : 2 * g.sectorsPerCluster ≤ g.clusterSector
  · omega
  · omega

variable {v : FAT32 (Logged δ)} {L : Layout} (reads : ReadsClusters v.geometry v.disk)
  (hg : v.geometry.Addressable) (h : Holds v L)
include reads hg h

lemma FatOp.OutOfSpace.wrote {o : FatOp} (ho : o.OutOfSpace v L) {fuel : ℕ} {w : FAT32 (Logged δ)}
    (hw : o.apply fuel v = some w) :
    Wrote (fatAcquireSectorForCluster v.geometry 0) v.disk w.disk := by
  cases o with
  | writeFile d file fname flen =>
    obtain ⟨hd, hspace⟩ := ho
    exact fatWriteFileImplementation_wrote reads hg h.ready (h.isChain hd.mem_nodes) hspace
      (toOption_eq_some.mp hw)
  | makeDirectory d dirname =>
    obtain ⟨hd, hspace⟩ := ho
    have hu := fatMakeDirectory_writes (toOption_eq_some.mp hw)
    exact fatWriteFileImplementation_wrote reads hg h.ready (h.isChain hd.mem_nodes) hspace hu
  | deleteFile d filename => exact ho.elim
  | scribble junk => exact ho.elim

/-- On no consistent volume a call that needs more clusters than are free is harmless. -/
theorem out_of_space_not_harmless (hr : v.geometry.Reachable) {o : FatOp} (ho : o.OutOfSpace v L)
    (fuel : ℕ) : ¬ ∃ w, o.apply fuel v = some w ∧ Harmless v w L := by
  rintro ⟨w, hw, harmless⟩
  obtain ⟨c, hc, -, hle, hlt⟩ := harmless.sectors _ (ho.wrote reads hg h hw)
  exact hr.not_sector_zero hc ⟨hle, hlt⟩

end Harm

section Scarce
open Open98.Ata

/-- A volume of 254 clusters with a sector each, behind two sectors of table, freshly formatted. -/
def scarce : FAT32 (Logged Drive) where
  geometry := ⟨1, 2, 32, 34, Nat.one_pos⟩
  FAT := fresh.FAT
  clusterAllocationHint := 0
  disk := ⟨blank, []⟩
  junk _ := 0

lemma scarce_reachable : scarce.geometry.Reachable :=
  ⟨⟨0, by decide, rfl⟩, fun c hc => by
    have : c < 256 := hc.2
    simp only [scarce, Nat.mul_one]
    omega⟩

lemma scarce_clusterStore : ClusterStore scarce.geometry (Logged Drive) :=
  (clusterStore_drive scarce_reachable rfl (by decide) (by decide)).logged

lemma scarce_writable : Writable (Logged Drive) := by
  intro d buff lba hlba
  obtain ⟨x, hx, -⟩ := kiATAWriteDisk_ok d.disk (show lba < 2^48 by omega) buff
  exact ⟨_, bind_eq_ok.mpr ⟨x, hx, rfl⟩⟩

lemma scarce_formatted : Formatted scarce where
  addressable := ⟨by decide⟩
  reserved := by decide
  hint := by decide
  root := by decide
  zeroed k _ := by
    change content scarce.geometry blank 2 k = 0
    rw [content_one scarce_reachable rfl (by decide)]
    simp [storeSector, blank]
  free c hc hne := by
    have := hc.1
    simp only [scarce, fresh]
    rw [if_neg (by omega), if_neg (by omega)]

lemma scarce_free : fatGetFreeClusters scarce = 253 := by decide +kernel

/-- More data than the volume holds. -/
def tooLong : FatOp := .writeFile 2 (fun _ => 7) letterA 129537

lemma tooLong_outOfSpace (L : Layout) : tooLong.OutOfSpace scarce L := by
  refine ⟨.root, fun space => ?_⟩
  have hdata := space.data
  rw [scarce_free] at hdata
  exact absurd hdata (by decide)

theorem out_of_space_not_harmless_scarce : ∃ L, Holds scarce L ∧
    ¬ ∃ w, tooLong.apply 300 scarce = some w ∧ Harmless scarce w L := by
  obtain ⟨L, hL, -⟩ := scarce_formatted.holds
  exact ⟨L, hL, out_of_space_not_harmless (scarce_clusterStore.get _) scarce_formatted.addressable hL
    scarce_reachable (tooLong_outOfSpace L) 300⟩

/-- The call returns, and the first sector of the table is among those that it writes as the cluster
with the number 0. -/
theorem table_overwritten : ∃ L w, Holds scarce L ∧ tooLong.OutOfSpace scarce L ∧
    tooLong.apply 300 scarce = some w ∧
    fatAcquireSectorForCluster scarce.geometry 0 = scarce.geometry.fatSector ∧
    Wrote scarce.geometry.fatSector scarce.disk w.disk ∧ ¬ Harmless scarce w L := by
  obtain ⟨L, hL, -⟩ := scarce_formatted.holds
  have ho := tooLong_outOfSpace L
  obtain ⟨w, hw⟩ := hL.returns (d := 2) .root (fun _ => 7) 129537 0 scarce_clusterStore
    scarce_writable scarce_formatted.addressable (show scarce.geometry.intsPerFat < 300 by decide)
    letterA_valid (.inr (by rw [scarce_free]; decide))
  have hfile : fatWriteFile 300 scarce 2 (fun _ => 7) letterA 129537 = .ok w := hw
  have happly : tooLong.apply 300 scarce = some w := by
    rw [tooLong, FatOp.apply, hfile]
    rfl
  have hwrote := ho.wrote (scarce_clusterStore.get _) scarce_formatted.addressable hL happly
  refine ⟨L, w, hL, ho, happly, rfl, hwrote, fun harmless => ?_⟩
  obtain ⟨c, hc, -, hle, hlt⟩ := harmless.sectors _ hwrote
  exact scarce_reachable.not_sector_zero hc ⟨hle, hlt⟩

end Scarce

end Open98.Fat32
