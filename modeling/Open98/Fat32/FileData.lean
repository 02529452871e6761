import Open98.Fat32.Entry
import Open98.Fat32.Table

/-! The data of a file: the loop of `FatWriteFileImplementation` that allocates and fills its
clusters, and `FatReadFile`. -/
namespace Open98.Fat32
open Open98.Library

section Model
variable {δ : Type} [Disk δ]

/-- The bytes of one cluster of the file: what is left of the data, then zeros. -/
def dataBuffer (file : Buffer) (writtenbytes bytesToWrite : ℕ) : Buffer :=
  fun k => if k < bytesToWrite then file (writtenbytes + k) else 0

/-- The write loop with the given number of iterations left; it returns the first cluster. -/
def writeClusters (file : Buffer) (flen : ℕ) :
    ℕ → FAT32 δ → (writtenbytes prevcluster firstcluster : ℕ) → Result (ℕ × FAT32 δ)
  | 0, v, _, _, firstcluster => .ok (firstcluster, v)
  | left+1, v, writtenbytes, prevcluster, firstcluster => do
    let (currcluster, v) ← fatAllocCluster v
    let firstcluster := if firstcluster = 0 then currcluster else firstcluster
    let bytesToWrite := min (flen - writtenbytes) v.geometry.clusterSize
    let d ← fatPutCluster v.geometry v.disk (dataBuffer file writtenbytes bytesToWrite) currcluster
    let FAT := if prevcluster ≠ 0 then Function.update v.FAT prevcluster currcluster else v.FAT
    writeClusters file flen left { v with FAT := FAT, disk := d } (writtenbytes + bytesToWrite)
      currcluster firstcluster

def requiredClusters (g : Geometry) (flen : ℕ) : ℕ :=
  let n := flen / g.clusterSize + if flen % g.clusterSize ≠ 0 then 1 else 0
  if n = 0 then 1 else n

/-- The read loop from a cluster on; `copiedbytes` never passes the file size. -/
def readClusters (v : FAT32 δ) (fileSize : ℕ) :
    ℕ → (cluster : ℕ) → (file : Buffer) → (filecurrptr copiedbytes : ℕ) → Result Buffer
  | 0, _, _, _, _ => .error .hang
  | fuel+1, cluster, file, filecurrptr, copiedbytes => do
    let cbytes ← fatGetCluster v.geometry v.disk v.junk cluster
    let toCopy := min (fileSize - copiedbytes) v.geometry.clusterSize
    let file : Buffer := fun k =>
      if filecurrptr ≤ k ∧ k < filecurrptr + toCopy then cbytes (k - filecurrptr) else file k
    let next := fatGetNextClusterID v cluster
    if EOC ≤ next then .ok file
    else
      readClusters v fileSize fuel next file (filecurrptr + v.geometry.clusterSize)
        (copiedbytes + toCopy)

def fatReadFile (fuel : ℕ) (v : FAT32 δ) (dirent : DirectoryEntry) : Result Buffer :=
  readClusters v dirent.fileSize fuel dirent.firstCluster v.junk 0 0

end Model

/-- The bytes of the clusters of a chain one after another. -/
def chainBytes (g : Geometry) (clusters : ℕ → Buffer) (l : List ℕ) : Buffer :=
  fun k => clusters (l.getD (k / g.clusterSize) 0) (k % g.clusterSize)

section ChainBytes
variable {g : Geometry} {clusters : ℕ → Buffer} {c : ℕ} {l : List ℕ} {k : ℕ}

lemma chainBytes_cons_of_lt (hk : k < g.clusterSize) :
    chainBytes g clusters (c :: l) k = clusters c k := by
  simp [chainBytes, Nat.div_eq_of_lt hk, Nat.mod_eq_of_lt hk]

lemma chainBytes_cons_of_ge (hk : g.clusterSize ≤ k) :
    chainBytes g clusters (c :: l) k = chainBytes g clusters l (k - g.clusterSize) := by
  have hdiv : k / g.clusterSize = (k - g.clusterSize) / g.clusterSize + 1 :=
    Nat.div_eq_sub_div g.clusterSize_pos hk
  simp only [chainBytes, hdiv, List.getD_cons_succ, Nat.mod_eq_sub_mod hk]

/-- Byte `x` of the cluster at place `i`. -/
lemma chainBytes_at {i x : ℕ} (hi : l[i]? = some c) (hx : x < g.clusterSize) :
    chainBytes g clusters l (i * g.clusterSize + x) = clusters c x := by
  have hdiv : (i * g.clusterSize + x) / g.clusterSize = i := by
    rw [Nat.mul_comm, Nat.mul_add_div g.clusterSize_pos, Nat.div_eq_of_lt hx, Nat.add_zero]
  have hmod : (i * g.clusterSize + x) % g.clusterSize = x := by
    rw [Nat.mul_comm, Nat.mul_add_mod, Nat.mod_eq_of_lt hx]
  have hget : l.getD i 0 = c := by rw [List.getD_eq_getElem?_getD, hi, Option.getD_some]
  rw [chainBytes, hdiv, hmod, hget]

lemma chainBytes_congr {clusters' : ℕ → Buffer} (heq : ∀ c ∈ l, clusters' c = clusters c)
    (hk : k < l.length * g.clusterSize) :
    chainBytes g clusters' l k = chainBytes g clusters l k := by
  have hlt : k / g.clusterSize < l.length := (Nat.div_lt_iff_lt_mul g.clusterSize_pos).mpr hk
  have hget : l.getD (k / g.clusterSize) 0 = l[k / g.clusterSize] := by simp [hlt]
  unfold chainBytes
  rw [hget, heq _ (List.getElem_mem hlt)]

end ChainBytes

section Reading
variable {δ : Type} [Disk δ] {v : FAT32 δ}

/-- One turn of the read loop: what is left of the file, at most a cluster of it, is copied. -/
lemma readClusters_cluster (reads : ReadsClusters v.geometry v.disk) {c : ℕ}
    (hc : v.geometry.HasCluster c) (fileSize fuel cur : ℕ) (file : Buffer) :
    readClusters v fileSize (fuel+1) c file cur (min fileSize cur) =
      let file : Buffer := fun k => if cur ≤ k ∧ k < min fileSize (cur + v.geometry.clusterSize) then
        v.clusters c (k - cur) else file k
      if EOC ≤ fatGetNextClusterID v c then .ok file
      else readClusters v fileSize fuel (fatGetNextClusterID v c) file (cur + v.geometry.clusterSize)
        (min fileSize (cur + v.geometry.clusterSize)) := by
  have hcopied : min fileSize cur + min (fileSize - min fileSize cur) v.geometry.clusterSize =
      min fileSize (cur + v.geometry.clusterSize) := by omega
  have hfile : (fun k => if cur ≤ k ∧ k < cur + min (fileSize - min fileSize cur) v.geometry.clusterSize
      then (if k - cur < v.geometry.clusterSize then content v.geometry v.disk c (k - cur)
        else v.junk (k - cur)) else file k) =
      fun k => if cur ≤ k ∧ k < min fileSize (cur + v.geometry.clusterSize) then
        v.clusters c (k - cur) else file k := by
    funext k
    by_cases hk : cur ≤ k ∧ k < min fileSize (cur + v.geometry.clusterSize)
    · rw [if_pos hk, if_pos (by omega), if_pos (by omega)]
      rfl
    · rw [if_neg hk, if_neg (by omega)]
  rw [readClusters, reads v.junk c hc, ok_bind]
  dsimp only
  rw [hcopied, hfile]

lemma readClusters_ok (reads : ReadsClusters v.geometry v.disk) (fileSize : ℕ) {c j fuel : ℕ} {l : List ℕ}
    (h : WalkChain v c l) (hfuel : l.length ≤ fuel) (file : Buffer) :
    readClusters v fileSize fuel c file (j * v.geometry.clusterSize)
        (min fileSize (j * v.geometry.clusterSize)) =
      .ok fun k => if j * v.geometry.clusterSize ≤ k ∧
          k < min fileSize ((j + l.length) * v.geometry.clusterSize) then
        chainBytes v.geometry v.clusters l (k - j * v.geometry.clusterSize) else file k := by
  have hsize := v.geometry.clusterSize_pos
  induction h using WalkChain.induct generalizing j fuel file with
  | last c hc hstop =>
    obtain ⟨fuel, rfl⟩ := Nat.exists_eq_add_one.mpr hfuel
    rw [readClusters_cluster reads hc]
    dsimp only
    rw [if_pos hstop, List.length_singleton, Nat.succ_mul]
    generalize j * v.geometry.clusterSize = cur
    congr 1
    funext k
    by_cases hk : cur ≤ k ∧ k < min fileSize (cur + v.geometry.clusterSize)
    · rw [if_pos hk, if_pos hk, chainBytes_cons_of_lt (by omega)]
    · rw [if_neg hk, if_neg hk]
  | link c t hc hgo tail ih =>
    obtain ⟨fuel, rfl⟩ := Nat.exists_eq_add_one.mpr (Nat.zero_lt_of_lt hfuel)
    have hend : (j + 1 + t.length) * v.geometry.clusterSize =
        (j + (c :: t).length) * v.geometry.clusterSize := by
      rw [List.length_cons, Nat.add_assoc, Nat.add_comm 1]
    have hone : (j + 1) * v.geometry.clusterSize ≤ (j + (c :: t).length) * v.geometry.clusterSize :=
      Nat.mul_le_mul_right _ (by simp)
    rw [readClusters_cluster reads hc]
    dsimp only
    rw [if_neg hgo, ← Nat.succ_mul, ih (Nat.le_of_succ_le_succ hfuel), hend]
    rw [Nat.succ_mul] at hone ⊢
    generalize j * v.geometry.clusterSize = cur at *
    congr 1
    funext k
    by_cases hk : cur ≤ k ∧ k < min fileSize ((j + (c :: t).length) * v.geometry.clusterSize)
    · rw [if_pos hk]
      by_cases hfar : cur + v.geometry.clusterSize ≤ k
      · rw [if_pos (by omega), chainBytes_cons_of_ge (by omega), Nat.sub_add_eq]
      · rw [if_neg (by omega), if_pos (by omega), chainBytes_cons_of_lt (by omega)]
    · rw [if_neg hk, if_neg (by omega), if_neg (by omega)]

/-- Reading a file gives the bytes of its chain, as far as its size and its chain go. -/
theorem fatReadFile_ok (reads : ReadsClusters v.geometry v.disk) {dirent : DirectoryEntry}
    {fuel : ℕ} {l : List ℕ} (h : WalkChain v dirent.firstCluster l) (hfuel : l.length ≤ fuel) :
    fatReadFile fuel v dirent = .ok fun k =>
      if k < min dirent.fileSize (l.length * v.geometry.clusterSize) then
        chainBytes v.geometry v.clusters l k else v.junk k := by
  have hread := readClusters_ok reads dirent.fileSize (j := 0) h hfuel v.junk
  simpa [fatReadFile] using hread

end Reading

section Writing
variable {δ : Type} [Disk δ]

/-- The state `w` after one iteration of the write loop: it took the free cluster `i`, linked it
behind `prev` and wrote the next piece of the data to it. -/
structure TookCluster (v w : FAT32 δ) (file : Buffer) (flen writtenbytes prev i : ℕ) : Prop where
  geometry : w.geometry = v.geometry
  junk : w.junk = v.junk
  ready : AllocReady w
  count : fatGetFreeClusters w + 1 = fatGetFreeClusters v
  cluster : v.geometry.HasCluster i
  fresh : v.FAT i = 0
  table : w.FAT = if prev ≠ 0 then Function.update (Function.update v.FAT i 0x0FFFFFFF) prev i
    else Function.update v.FAT i 0x0FFFFFFF
  clusters : w.clusters = Function.update v.clusters i (v.geometry.cut
    (dataBuffer file writtenbytes (min (flen - writtenbytes) v.geometry.clusterSize)))

/-- The state `w` after the write loop has taken the clusters `cs` for the data from
`writtenbytes` on: they were free, nothing else changed but the cell of `prev`, and one after
another they hold the data followed by zeros. -/
structure WroteClusters (v w : FAT32 δ) (file : Buffer) (flen writtenbytes prev : ℕ)
    (cs : List ℕ) : Prop where
  geometry : w.geometry = v.geometry
  junk : w.junk = v.junk
  ready : AllocReady w
  fresh : ∀ c ∈ cs, v.FAT c = 0
  table : ∀ c, c ∉ cs → (prev = 0 ∨ c ≠ prev) → w.FAT c = v.FAT c
  kept : ∀ c, c ∉ cs → w.clusters c = v.clusters c
  data : ∀ k < cs.length * v.geometry.clusterSize, chainBytes v.geometry w.clusters cs k =
    if writtenbytes + k < flen then file (writtenbytes + k) else 0

lemma dataBuffer_apply (file : Buffer) {flen writtenbytes size k : ℕ} (hk : k < size) :
    dataBuffer file writtenbytes (min (flen - writtenbytes) size) k =
      if writtenbytes + k < flen then file (writtenbytes + k) else 0 := by
  unfold dataBuffer
  by_cases h : writtenbytes + k < flen
  · rw [if_pos h, if_pos (by omega)]
  · rw [if_neg h, if_neg (by omega)]

/-- One iteration: the cluster it takes, and the state in which the next one starts. -/
lemma writeClusters_step {v : FAT32 δ} (store : ClusterStore v.geometry δ) (ready : AllocReady v)
    (hfree : 0 < fatGetFreeClusters v) (file : Buffer) (flen left writtenbytes : ℕ)
    {prev : ℕ} (hprev : prev ≠ 0 → v.geometry.HasCluster prev ∧ v.FAT prev ≠ 0) (first : ℕ) :
    ∃ i w, TookCluster v w file flen writtenbytes prev i ∧
      writeClusters file flen (left+1) v writtenbytes prev first =
        writeClusters file flen left w
          (writtenbytes + min (flen - writtenbytes) v.geometry.clusterSize) i
          (if first = 0 then i else first) := by
  obtain ⟨i, d, halloc, hi, hzero, hclear⟩ := fatAllocCluster_ok store ready hfree
  obtain ⟨d', hput, hdata⟩ := store.put d
    (dataBuffer file writtenbytes (min (flen - writtenbytes) v.geometry.clusterSize)) i hi
  have hcount := card_freeCells_take (show 0x0FFFFFFF ≠ 0 by decide) hi.2 hzero
  refine ⟨i, ⟨v.geometry, if prev ≠ 0 then Function.update (Function.update v.FAT i 0x0FFFFFFF) prev i
    else Function.update v.FAT i 0x0FFFFFFF, i + 1, d', v.junk⟩,
    ⟨rfl, rfl, ⟨?_, hi.2⟩, ?_, hi, hzero, rfl, ?_⟩, ?_⟩
  · have hne : ∀ c < 2, c ≠ i := fun c hc hci => by have := hi.1; omega
    by_cases hp : prev = 0
    · simpa [hp, hne 0, hne 1] using ready.reserved
    · have hpc := (hprev hp).1.1
      have hnp : ∀ c < 2, c ≠ prev := fun c hc hcp => by omega
      simpa [hp, hne 0, hne 1, hnp 0, hnp 1] using ready.reserved
  · by_cases hp : prev = 0
    · simpa [hp, fatGetFreeClusters_eq] using hcount
    · have hused : Function.update v.FAT i 0x0FFFFFFF prev ≠ 0 := update_ne_zero (hprev hp).2 i
      simp only [fatGetFreeClusters_eq, ne_eq, hp, not_false_eq_true, if_true,
        freeCells_relink hi.ne_zero hused]
      exact hcount
  · change content v.geometry d' = _
    rw [hdata, hclear, Function.update_idem]
  · rw [writeClusters, halloc, ok_bind]
    dsimp only
    rw [hput, ok_bind]

/-- An iteration and the iterations after it. -/
lemma WroteClusters.cons {v w u : FAT32 δ} {file : Buffer} {flen writtenbytes prev i : ℕ}
    {cs : List ℕ} (first : TookCluster v w file flen writtenbytes prev i) (hics : i ∉ cs)
    (rest : WroteClusters w u file flen
      (writtenbytes + min (flen - writtenbytes) v.geometry.clusterSize) i cs) :
    WroteClusters v u file flen writtenbytes prev (i :: cs) := by
  have hcell : ∀ c, c ≠ i → (prev = 0 ∨ c ≠ prev) → w.FAT c = v.FAT c := by
    intro c hci hcp
    rw [first.table]
    by_cases hp : prev = 0
    · simp [hp, hci]
    · have hcp : c ≠ prev := hcp.resolve_left hp
      simp [hp, hci, hcp]
  refine ⟨rest.geometry.trans first.geometry, rest.junk.trans first.junk, rest.ready, ?_, ?_, ?_, ?_⟩
  · intro c hc
    rcases List.mem_cons.mp hc with rfl | hc
    · exact first.fresh
    · have hfresh := rest.fresh c hc
      have hcp : prev = 0 ∨ c ≠ prev := by
        by_contra hcon
        obtain ⟨hp, hcp⟩ := not_or.mp hcon
        obtain rfl : c = prev := not_not.mp hcp
        rw [first.table, if_pos hp, Function.update_self] at hfresh
        exact first.cluster.ne_zero hfresh
      rwa [hcell c (fun hci => hics (hci ▸ hc)) hcp] at hfresh
  · intro c hc hcp
    obtain ⟨hci, hcs⟩ := not_or.mp (mt List.mem_cons.mpr hc)
    rw [rest.table c hcs (.inr hci), hcell c hci hcp]
  · intro c hc
    obtain ⟨hci, hcs⟩ := not_or.mp (mt List.mem_cons.mpr hc)
    rw [rest.kept c hcs, first.clusters, Function.update_of_ne hci]
  · intro k hk
    by_cases hnear : k < v.geometry.clusterSize
    · rw [chainBytes_cons_of_lt hnear, rest.kept i hics, first.clusters, Function.update_self,
        Geometry.cut, if_pos hnear, dataBuffer_apply file hnear]
    · have hlt : k - v.geometry.clusterSize < cs.length * v.geometry.clusterSize := by
        rw [List.length_cons, Nat.succ_mul] at hk
        omega
      have hrest := rest.data (k - v.geometry.clusterSize) (by rwa [first.geometry])
      rw [first.geometry] at hrest
      rw [chainBytes_cons_of_ge (by omega), hrest]
      -- a short piece of data is the last one, and zeros follow it
      by_cases hfull : v.geometry.clusterSize ≤ flen - writtenbytes
      · rw [Nat.min_eq_right hfull]
        have hpos : writtenbytes + v.geometry.clusterSize + (k - v.geometry.clusterSize) =
            writtenbytes + k := by omega
        rw [hpos]
      · rw [if_neg (by omega), if_neg (by omega)]

/-- The iterations after the first append the clusters they take to the chain built so far. -/
lemma writeClusters_append {v : FAT32 δ} (store : ClusterStore v.geometry δ)
    (hg : v.geometry.Addressable) (ready : AllocReady v) (file : Buffer) (flen left writtenbytes : ℕ)
    (hfree : left ≤ fatGetFreeClusters v) {start : ℕ} {l : List ℕ} (hstart : start ≠ 0)
    (h : IsChain v.geometry v.FAT start l) :
    ∃ w cs, writeClusters file flen left v writtenbytes (l.getLast h.links.ne_nil) start =
        .ok (start, w) ∧ cs.length = left ∧ IsChain v.geometry w.FAT start (l ++ cs) ∧
      WroteClusters v w file flen writtenbytes (l.getLast h.links.ne_nil) cs := by
  induction left generalizing v writtenbytes l with
  | zero =>
    exact ⟨v, [], rfl, rfl, by simpa using h, rfl, rfl, ready, by simp, fun c _ _ => rfl,
      fun c _ => rfl, by simp⟩
  | succ left ih =>
    have hlast : l.getLast h.links.ne_nil ∈ l := List.getLast_mem _
    obtain ⟨i, w, took, hstep⟩ := writeClusters_step store ready (by omega) file flen left writtenbytes
      (fun _ => ⟨h.cells _ hlast, h.cell_ne_zero hlast⟩) start
    have hil : i ∉ l := h.notMem_of_free took.fresh
    have hne : l.getLast h.links.ne_nil ≠ 0 := (h.cells _ hlast).ne_zero
    have hchain : IsChain w.geometry w.FAT start (l ++ [i]) := by
      rw [took.geometry, took.table, if_pos hne]
      refine ⟨(h.links.update_of_notMem hil 0x0FFFFFFF).snoc hil ?_ (hg.not_endMark took.cluster), ?_⟩
      · rw [Function.update_self]
        decide
      · intro c hc
        rcases List.mem_append.mp hc with hc | hc
        · exact h.cells c hc
        · exact List.mem_singleton.mp hc ▸ took.cluster
    obtain ⟨u, cs, hrun, hlen, hchain', hrest⟩ := ih (took.geometry ▸ store) (took.geometry ▸ hg)
      took.ready (writtenbytes + min (flen - writtenbytes) v.geometry.clusterSize)
      (by have := took.count; omega) hchain
    have hgetLast : (l ++ [i]).getLast hchain.links.ne_nil = i := by simp
    rw [hgetLast] at hrun hrest
    have hics : i ∉ cs := by
      have hnodup := hchain'.nodup
      rw [List.append_assoc] at hnodup
      exact (List.nodup_cons.mp hnodup.of_append_right).1
    rw [if_neg hstart] at hstep
    exact ⟨u, i :: cs, by rw [hstep, hrun], by simp [hlen],
      by simpa [took.geometry] using hchain', hrest.cons took hics⟩

/-- Writing at least one cluster from a ready state makes a new chain that holds the data. -/
theorem writeClusters_ok {v : FAT32 δ} (store : ClusterStore v.geometry δ)
    (hg : v.geometry.Addressable) (ready : AllocReady v) (file : Buffer) (flen : ℕ) {n : ℕ}
    (hpos : 0 < n) (hfree : n ≤ fatGetFreeClusters v) :
    ∃ w first cs, writeClusters file flen n v 0 0 0 = .ok (first, w) ∧ cs.length = n ∧
      IsChain v.geometry w.FAT first cs ∧ WroteClusters v w file flen 0 0 cs := by
  obtain ⟨left, rfl⟩ : ∃ left, n = left+1 := ⟨n-1, by omega⟩
  obtain ⟨i, w, took, hstep⟩ :=
    writeClusters_step store ready (by omega) file flen left 0 (fun h => absurd rfl h) 0
  have hchain : IsChain w.geometry w.FAT i [i] := by
    rw [took.geometry, took.table]
    refine ⟨.last ?_, by simpa using took.cluster⟩
    simp only [ne_eq, not_true_eq_false, if_false, Function.update_self]
    decide
  obtain ⟨u, cs, hrun, hlen, hchain', hrest⟩ := writeClusters_append (took.geometry ▸ store)
    (took.geometry ▸ hg) took.ready file flen left (0 + min (flen - 0) v.geometry.clusterSize)
    (by have := took.count; omega) took.cluster.ne_zero hchain
  rw [took.geometry] at hchain'
  have hics : i ∉ cs := (List.nodup_cons.mp hchain'.nodup).1
  rw [List.getLast_singleton] at hrun hrest
  exact ⟨u, i, i :: cs, by rw [hstep, if_pos rfl, hrun], by simp [hlen], hchain',
    hrest.cons took hics⟩

end Writing
end Open98.Fat32
