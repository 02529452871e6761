import Open98.Fat32.ClusterIO
import Open98.Fat32.FileData

/-! The streams of `drv/filesystem/fat32/file.c`. An `INT` is kept as its 32-bit pattern, which is
positive from 1 to 2^31 - 1. -/
namespace Open98.Fat32
open Open98.Library

/-- An open stream. `currbuf` is the memory from the flexible member on: the bytes of the current
cluster, and what lies behind them. -/
structure FILE where
  currCluster : ℕ
  fileSize : ℕ
  fptr : ℕ
  buffptr : ℕ
  path : Fin 3 → UCHAR
  currbuf : Buffer

/-- A mounted partition: its root path and its volume. -/
structure Mounted (δ : Type) where
  rootPath : Fin 2 → UCHAR
  fs : FAT32 δ

section Model
variable {δ : Type} [Disk δ]

/-- The first mounted partition with the drive letter of the path. -/
def fatResolveByPrefix (partition : Fin 4 → Option (Mounted δ)) (pcPath : Fin 3 → UCHAR) :
    Option (FAT32 δ) :=
  (List.ofFn partition).findSome? fun mounted =>
    mounted.bind fun m => if pcPath 0 = m.rootPath 0 then some m.fs else none

/-- `fopen`, from the entry that `FileEntryForPath` has found; the stream is allocated in the
given memory. -/
def fopen (filesystem : FAT32 δ) (entry : DirectoryEntry) (pathname : Fin 3 → UCHAR)
    (memory : Buffer) : Result FILE := do
  let currbuf ← fatGetCluster filesystem.geometry filesystem.disk memory entry.firstCluster
  return {
    currCluster := entry.firstCluster
    fileSize := entry.fileSize
    fptr := 0
    buffptr := 0
    path := pathname
    currbuf := currbuf }

def memcpy (target : Buffer) (offset : ℕ) (source : Buffer) (n : ℕ) : Buffer :=
  fun k => if offset ≤ k ∧ k < offset + n then source (k - offset) else target k

/-- `stream->currbuf + stream->buffptr`, where `currbuf` has elements of four bytes. -/
def FILE.bufferPointer (stream : FILE) : Buffer := fun k => stream.currbuf (4 * stream.buffptr + k)

/-- The loop of `fread`, with the `fptr += bytes_read` at its two ends. -/
def freadLoop (filesystem : FAT32 δ) :
    ℕ → FILE → (bytesToRead bytesRead : ℕ) → (ptr : Buffer) → Result (ℕ × Buffer × FILE)
  | 0, _, _, _, _ => .error .hang
  | fuel+1, stream, bytesToRead, bytesRead, ptr =>
    if 0 < bytesToRead ∧ bytesToRead < 2^31 then
      if filesystem.geometry.clusterSize < stream.buffptr + bytesToRead then do
        let toReadInThisCluster := filesystem.geometry.clusterSize - stream.buffptr
        let ptr := memcpy ptr bytesRead stream.bufferPointer toReadInThisCluster
        let bytesRead := bytesRead + toReadInThisCluster
        let stream := { stream with
          buffptr := 0
          currCluster := fatGetNextClusterID filesystem stream.currCluster }
        if EOC ≤ stream.currCluster then
          .ok (bytesRead, ptr, { stream with fptr := (stream.fptr + bytesRead) % 2^32 })
        else do
          let currbuf ← fatGetCluster filesystem.geometry filesystem.disk stream.currbuf
            stream.currCluster
          freadLoop filesystem fuel { stream with currbuf := currbuf }
            (bytesToRead - toReadInThisCluster) bytesRead ptr
      else
        let ptr := memcpy ptr bytesRead stream.bufferPointer bytesToRead
        freadLoop filesystem fuel { stream with buffptr := stream.buffptr + bytesToRead } 0
          (bytesRead + bytesToRead) ptr
    else .ok (bytesRead, ptr, { stream with fptr := (stream.fptr + bytesRead) % 2^32 })

/-- The number of bytes read, the caller's buffer and the stream. -/
def fread (fuel : ℕ) (partition : Fin 4 → Option (Mounted δ)) (ptr : Buffer) (size nmemb : ℕ)
    (stream : FILE) : Result (ℕ × Buffer × FILE) :=
  let bytesToRead := size * nmemb % 2^32
  match fatResolveByPrefix partition stream.path with
  | none => .ok (0, ptr, stream)
  | some filesystem =>
    let bytesToRead :=
      if stream.fileSize < (stream.fptr + bytesToRead) % 2^32 then
        (stream.fileSize + 2^32 - stream.fptr) % 2^32
      else bytesToRead
    freadLoop filesystem fuel stream bytesToRead 0 ptr

/-- A call of `fread`: its sizes, and its buffer before the call. -/
structure Request where
  size : ℕ
  nmemb : ℕ
  ptr : Buffer

/-- A sequence of calls; for each of them what it returned and its buffer. -/
def freadAll (fuel : ℕ) (partition : Fin 4 → Option (Mounted δ)) :
    List Request → FILE → Result (List (ℕ × Buffer) × FILE)
  | [], stream => .ok ([], stream)
  | q :: qs, stream => do
    let (count, ptr, stream) ← fread fuel partition q.ptr q.size q.nmemb stream
    let (outs, stream) ← freadAll fuel partition qs stream
    return ((count, ptr) :: outs, stream)

end Model

section Loop
variable {δ : Type} [Disk δ] {v : FAT32 δ} {l : List ℕ}

/-- The stream stands at byte `b` of the cluster at place `i` of the chain; right behind a
cluster's last byte it may still be in that cluster. -/
structure FILE.At (stream : FILE) (v : FAT32 δ) (l : List ℕ) (i b : ℕ) : Prop where
  cluster : l[i]? = some stream.currCluster
  buffptr : stream.buffptr = b
  le : b ≤ v.geometry.clusterSize
  loaded : ∀ k < v.geometry.clusterSize, stream.currbuf k = v.clusters stream.currCluster k

lemma freadLoop_zero (fuel : ℕ) (stream : FILE) (bytesRead : ℕ) (ptr : Buffer) :
    freadLoop v (fuel+1) stream 0 bytesRead ptr =
      .ok (bytesRead, ptr, { stream with fptr := (stream.fptr + bytesRead) % 2^32 }) := by
  rw [freadLoop, if_neg (by omega)]

/-- The bytes of a chain from a position on. -/
def chainFrom (v : FAT32 δ) (l : List ℕ) (position : ℕ) : Buffer :=
  fun k => chainBytes v.geometry v.clusters l (position + k)

lemma memcpy_congr (ptr : Buffer) (offset : ℕ) {source source' : Buffer} {n : ℕ}
    (h : ∀ k < n, source k = source' k) : memcpy ptr offset source n = memcpy ptr offset source' n := by
  funext k
  by_cases hk : offset ≤ k ∧ k < offset + n
  · simp [memcpy, hk, h (k - offset) (by omega)]
  · simp [memcpy, hk]

/-- Two copies one behind the other are one copy. -/
lemma memcpy_append (ptr : Buffer) (offset : ℕ) (source : Buffer) (m n : ℕ) :
    memcpy (memcpy ptr offset source m) (offset + m) (fun k => source (m + k)) n =
      memcpy ptr offset source (m + n) := by
  funext k
  simp only [memcpy]
  by_cases hfar : offset + m ≤ k ∧ k < offset + m + n
  · have hk : m + (k - (offset + m)) = k - offset := by omega
    rw [if_pos hfar, if_pos (by omega), hk]
  · rw [if_neg hfar]
    by_cases hnear : offset ≤ k ∧ k < offset + m
    · rw [if_pos hnear, if_pos (by omega)]
    · rw [if_neg hnear, if_neg (by omega)]

/-- A copy of what is left of the current cluster, from its start or from behind its end. -/
lemma memcpy_cluster {stream : FILE} {i b : ℕ} (hat : stream.At v l i b)
    (hb : b = 0 ∨ b = v.geometry.clusterSize) {n : ℕ} (hn : b + n ≤ v.geometry.clusterSize)
    (ptr : Buffer) (bytesRead : ℕ) : memcpy ptr bytesRead stream.bufferPointer n =
      memcpy ptr bytesRead (chainFrom v l (i * v.geometry.clusterSize + b)) n := by
  refine memcpy_congr ptr bytesRead fun k hk => ?_
  obtain rfl : b = 0 := by omega
  rw [FILE.bufferPointer, hat.buffptr, Nat.mul_zero, Nat.zero_add, hat.loaded k (by omega), chainFrom,
    Nat.add_zero, chainBytes_at hat.cluster (by omega)]

variable (reads : ReadsClusters v.geometry v.disk) {start : ℕ} (h : WalkChain v start l)
include reads h

/-- One turn of the loop that goes past the current cluster loads the next one of the chain. -/
lemma freadLoop_next {i b m : ℕ} {stream : FILE} (hat : stream.At v l i b)
    (hb : b = 0 ∨ b = v.geometry.clusterSize) (hmore : v.geometry.clusterSize < b + m) (hint : m < 2^31)
    (hnext : i+1 < l.length) (fuel bytesRead : ℕ) (ptr : Buffer) :
    ∃ stream' : FILE, stream'.At v l (i+1) 0 ∧ stream'.fptr = stream.fptr ∧
      stream'.fileSize = stream.fileSize ∧ stream'.path = stream.path ∧
      freadLoop v (fuel+1) stream m bytesRead ptr = freadLoop v fuel stream'
        (m - (v.geometry.clusterSize - b)) (bytesRead + (v.geometry.clusterSize - b))
        (memcpy ptr bytesRead (chainFrom v l (i * v.geometry.clusterSize + b))
          (v.geometry.clusterSize - b)) := by
  have hle := hat.le
  obtain ⟨hcluster, hgo⟩ := h.links.getElem?_succ hat.cluster hnext
  have hcell := h.cells _ (List.mem_of_getElem? hcluster)
  refine ⟨{ stream with
    buffptr := 0
    currCluster := fatGetNextClusterID v stream.currCluster
    currbuf := fun k => if k < v.geometry.clusterSize then
      content v.geometry v.disk (fatGetNextClusterID v stream.currCluster) k
      else stream.currbuf k },
    ⟨hcluster, rfl, Nat.zero_le _, fun k hk => if_pos hk⟩, rfl, rfl, rfl, ?_⟩
  rw [freadLoop, if_pos ⟨by omega, hint⟩, hat.buffptr, if_pos hmore]
  dsimp only
  rw [if_neg hgo, reads _ _ hcell, ok_bind, memcpy_cluster hat hb (by omega)]

/-- From the start of a cluster, or from behind its end, the loop reads on along the chain. -/
lemma freadLoop_ok {i b m fuel : ℕ} {stream : FILE} (hat : stream.At v l i b)
    (hb : b = 0 ∨ b = v.geometry.clusterSize ∨ m = 0)
    (hm : i * v.geometry.clusterSize + b + m ≤ l.length * v.geometry.clusterSize) (hint : m < 2^31)
    (hfuel : l.length < i + fuel) (bytesRead : ℕ) (ptr : Buffer) :
    ∃ i' b' stream', freadLoop v fuel stream m bytesRead ptr = .ok (bytesRead + m,
        memcpy ptr bytesRead (chainFrom v l (i * v.geometry.clusterSize + b)) m, stream') ∧
      stream'.At v l i' b' ∧
      i' * v.geometry.clusterSize + b' = i * v.geometry.clusterSize + b + m ∧
      stream'.fptr = (stream.fptr + (bytesRead + m)) % 2^32 ∧
      stream'.fileSize = stream.fileSize ∧ stream'.path = stream.path := by
  have hi : i < l.length := (List.getElem?_eq_some_iff.mp hat.cluster).1
  induction fuel generalizing i b m stream bytesRead ptr with
  | zero => omega
  | succ fuel ih =>
    by_cases hzero : m = 0
    · subst hzero
      have hnothing : memcpy ptr bytesRead (chainFrom v l (i * v.geometry.clusterSize + b)) 0 = ptr := by
        funext k
        rw [memcpy, if_neg (by omega)]
      exact ⟨i, b, { stream with fptr := (stream.fptr + bytesRead) % 2^32 },
        by rw [freadLoop_zero, hnothing]; rfl, ⟨hat.cluster, hat.buffptr, hat.le, hat.loaded⟩,
        rfl, rfl, rfl, rfl⟩
    have hb : b = 0 ∨ b = v.geometry.clusterSize := by omega
    have hle := hat.le
    by_cases hmore : v.geometry.clusterSize < b + m
    · -- the request goes past the current cluster, so the chain does too
      have hsucc : (i+1) * v.geometry.clusterSize = i * v.geometry.clusterSize + v.geometry.clusterSize :=
        Nat.succ_mul _ _
      have hnext : i+1 < l.length := by
        by_contra hlast
        have := Nat.mul_le_mul_right v.geometry.clusterSize (show l.length ≤ i+1 by omega)
        omega
      obtain ⟨stream₁, hat₁, hfptr₁, hsize₁, hpath₁, hturn⟩ :=
        freadLoop_next reads h hat hb hmore hint hnext fuel bytesRead ptr
      obtain ⟨i', b', stream', hrun, hat', hpos, hfptr, hsize, hpath⟩ := ih
        (m := m - (v.geometry.clusterSize - b)) hat₁ (.inl rfl) (by omega) (by omega)
        (by omega) (bytesRead + (v.geometry.clusterSize - b))
        (memcpy ptr bytesRead (chainFrom v l (i * v.geometry.clusterSize + b))
          (v.geometry.clusterSize - b)) hnext
      have hcopy := memcpy_append ptr bytesRead (chainFrom v l (i * v.geometry.clusterSize + b))
        (v.geometry.clusterSize - b) (m - (v.geometry.clusterSize - b))
      have hfrom : (fun k => chainFrom v l (i * v.geometry.clusterSize + b)
          (v.geometry.clusterSize - b + k)) = chainFrom v l ((i+1) * v.geometry.clusterSize + 0) := by
        funext k
        rw [chainFrom, chainFrom]
        congr 1
        omega
      have hm' : v.geometry.clusterSize - b + (m - (v.geometry.clusterSize - b)) = m := by omega
      rw [hfrom, hm'] at hcopy
      rw [hcopy, Nat.add_assoc, hm'] at hrun
      refine ⟨i', b', stream', hturn.trans hrun, hat', by omega, ?_, hsize.trans hsize₁,
        hpath.trans hpath₁⟩
      rw [hfptr, hfptr₁, Nat.add_assoc bytesRead, hm']
    · obtain ⟨fuel, rfl⟩ : ∃ n, fuel = n+1 := ⟨fuel-1, by omega⟩
      obtain rfl : b = 0 := by omega
      rw [freadLoop, if_pos ⟨by omega, hint⟩, hat.buffptr, if_neg hmore]
      dsimp only
      rw [freadLoop_zero, memcpy_cluster hat (.inl rfl) (by omega)]
      exact ⟨i, m, _, rfl, ⟨hat.cluster, by simp, by omega, hat.loaded⟩, rfl, rfl, rfl, rfl⟩

end Loop

/-- Every call of the sequence starts at a cluster boundary or at the end of the file, and asks for
bytes below the position 2^32. -/
def ClusterWise (g : Geometry) (fileSize : ℕ) : (position : ℕ) → List Request → Prop
  | _, [] => True
  | position, q :: qs => (g.clusterSize ∣ position ∨ position = fileSize) ∧
      position + q.size * q.nmemb < 2^32 ∧
      ClusterWise g fileSize (min fileSize (position + q.size * q.nmemb)) qs

/-- The bytes that a call delivered. -/
def deliveredBytes (out : ℕ × Buffer) : List UCHAR := (List.range out.1).map out.2

/-- The calls on a freshly opened stream deliver the file from its start on, as `FatReadFile` reads
it; each returns the number of bytes it has written to its buffer, and `fptr` is their sum. -/
def ReadsSequentially {δ : Type} [Disk δ] (fuel : ℕ) (partition : Fin 4 → Option (Mounted δ))
    (v : FAT32 δ) (entry : DirectoryEntry) (path : Fin 3 → UCHAR) (memory : Buffer)
    (qs : List Request) : Prop :=
  ∃ stream whole outs stream', fopen v entry path memory = .ok stream ∧
    fatReadFile fuel v entry = .ok whole ∧
    freadAll fuel partition qs stream = .ok (outs, stream') ∧
    outs.flatMap deliveredBytes =
      (List.range (min (qs.map fun q => q.size * q.nmemb).sum entry.fileSize)).map whole ∧
    List.Forall₂ (fun q out => ∀ k, out.1 ≤ k → out.2 k = q.ptr k) qs outs ∧
    stream'.fptr = (outs.map Prod.fst).sum

section Runs
variable {δ : Type} [Disk δ] {v : FAT32 δ} {l : List ℕ} (reads : ReadsClusters v.geometry v.disk)
  {start : ℕ} (h : WalkChain v start l) {partition : Fin 4 → Option (Mounted δ)} {fuel : ℕ}
  (hfuel : l.length < fuel)
include reads h hfuel

/-- A call from a cluster boundary, or at the end of the file, delivers what is asked for as far as
the file goes. -/
lemma fread_ok {i b : ℕ} {stream : FILE} (hat : stream.At v l i b)
    (hmount : fatResolveByPrefix partition stream.path = some v)
    (hfptr : stream.fptr = i * v.geometry.clusterSize + b)
    (hle : stream.fptr ≤ stream.fileSize) (hsize : stream.fileSize < 2^32)
    (hcover : stream.fileSize ≤ l.length * v.geometry.clusterSize) {size nmemb : ℕ}
    (hint : size * nmemb < 2^31)
    (hboundary : v.geometry.clusterSize ∣ stream.fptr ∨ stream.fptr = stream.fileSize)
    (hwrap : stream.fptr + size * nmemb < 2^32) (ptr : Buffer) :
    ∃ n i' b' stream', n = min (size * nmemb) (stream.fileSize - stream.fptr) ∧
      fread fuel partition ptr size nmemb stream =
        .ok (n, memcpy ptr 0 (chainFrom v l stream.fptr) n, stream') ∧
      stream'.At v l i' b' ∧ stream'.fptr = i' * v.geometry.clusterSize + b' ∧
      stream'.fptr = stream.fptr + n ∧ stream'.fileSize = stream.fileSize ∧
      stream'.path = stream.path := by
  have hn : (if stream.fileSize < (stream.fptr + size * nmemb % 2^32) % 2^32 then
      (stream.fileSize + 2^32 - stream.fptr) % 2^32 else size * nmemb % 2^32) =
      min (size * nmemb) (stream.fileSize - stream.fptr) := by
    generalize size * nmemb = asked at *
    by_cases hclamp : stream.fileSize < stream.fptr + asked
    · rw [if_pos (by omega)]
      omega
    · rw [if_neg (by omega)]
      omega
  generalize hamount : min (size * nmemb) (stream.fileSize - stream.fptr) = n at hn
  have hb : b = 0 ∨ b = v.geometry.clusterSize ∨ n = 0 := by
    rcases hboundary with hdvd | hend
    · rw [hfptr, Nat.dvd_add_right (Nat.dvd_mul_left ..)] at hdvd
      have hle := hat.le
      rcases Nat.eq_zero_or_pos b with hzero | hpos
      · exact .inl hzero
      · exact .inr (.inl (le_antisymm hle (Nat.le_of_dvd hpos hdvd)))
    · exact .inr (.inr (by omega))
  obtain ⟨i', b', stream', hrun, hat', hpos, hfptr', hsize', hpath'⟩ :=
    freadLoop_ok reads h hat hb (by omega) (by omega) (show l.length < i + fuel by omega) 0 ptr
  refine ⟨n, i', b', stream', rfl, ?_, hat', ?_, ?_, hsize', hpath'⟩
  · rw [fread, hmount]
    dsimp only
    rw [hn, hrun, hfptr, Nat.zero_add]
  · omega
  · omega

lemma freadAll_ok {i b : ℕ} {stream : FILE} (hat : stream.At v l i b)
    (hmount : fatResolveByPrefix partition stream.path = some v)
    (hfptr : stream.fptr = i * v.geometry.clusterSize + b)
    (hle : stream.fptr ≤ stream.fileSize) (hsize : stream.fileSize < 2^32)
    (hcover : stream.fileSize ≤ l.length * v.geometry.clusterSize) {qs : List Request}
    (hint : ∀ q ∈ qs, q.size * q.nmemb < 2^31)
    (hqs : ClusterWise v.geometry stream.fileSize stream.fptr qs) :
    ∃ outs stream', freadAll fuel partition qs stream = .ok (outs, stream') ∧
      outs.flatMap deliveredBytes = (List.range (min (qs.map fun q => q.size * q.nmemb).sum
        (stream.fileSize - stream.fptr))).map (chainFrom v l stream.fptr) ∧
      List.Forall₂ (fun q out => ∀ k, out.1 ≤ k → out.2 k = q.ptr k) qs outs ∧
      stream'.fptr = stream.fptr + (outs.map Prod.fst).sum := by
  induction qs generalizing i b stream with
  | nil => exact ⟨[], stream, rfl, by simp, .nil, rfl⟩
  | cons q qs ih =>
    obtain ⟨hboundary, hwrap, hrest⟩ := hqs
    obtain ⟨n, i', b', stream₁, hn, hread, hat₁, hfptr₁, hnext, hsize₁, hpath₁⟩ :=
      fread_ok reads h hfuel hat hmount hfptr hle hsize hcover (hint q (by simp)) hboundary hwrap q.ptr
    have hposition : min stream.fileSize (stream.fptr + q.size * q.nmemb) = stream₁.fptr := by omega
    rw [hposition, ← hsize₁] at hrest
    obtain ⟨outs, stream₂, hall, hbytes, hkept, hend⟩ := ih hat₁ (hpath₁ ▸ hmount) hfptr₁ (by omega)
      (by omega) (by omega) (fun q hq => hint q (List.mem_cons_of_mem _ hq)) hrest
    refine ⟨(n, memcpy q.ptr 0 (chainFrom v l stream.fptr) n) :: outs, stream₂, ?_, ?_, ?_, ?_⟩
    · rw [freadAll, hread, ok_bind]
      dsimp only
      rw [hall, ok_bind]
      rfl
    · have htotal : min ((q :: qs).map fun q => q.size * q.nmemb).sum (stream.fileSize - stream.fptr) =
          n + min (qs.map fun q => q.size * q.nmemb).sum (stream₁.fileSize - stream₁.fptr) := by
        rw [List.map_cons, List.sum_cons]
        omega
      have hcopied : deliveredBytes (n, memcpy q.ptr 0 (chainFrom v l stream.fptr) n) =
          (List.range n).map (chainFrom v l stream.fptr) := by
        refine List.map_congr_left fun k hk => ?_
        have hlt := List.mem_range.mp hk
        change memcpy q.ptr 0 (chainFrom v l stream.fptr) n k = _
        rw [memcpy, if_pos (by omega), Nat.sub_zero]
      have hfrom : chainFrom v l stream₁.fptr = chainFrom v l stream.fptr ∘ (n + ·) := by
        funext k
        simp only [chainFrom, Function.comp_apply, hnext, Nat.add_assoc]
      rw [List.flatMap_cons, hcopied, hbytes, htotal, List.range_add, List.map_append, List.map_map,
        hfrom]
    · refine .cons (fun k hk => ?_) hkept
      change memcpy q.ptr 0 (chainFrom v l stream.fptr) n k = _
      rw [memcpy, if_neg (by simpa using hk)]
    · rw [hend, hnext, List.map_cons, List.sum_cons, Nat.add_assoc]

end Runs

/-- A run of calls that start at cluster boundaries reads the file sequentially. -/
theorem fread_sequential {δ : Type} [Disk δ] {v : FAT32 δ} {entry : DirectoryEntry} {l : List ℕ}
    {partition : Fin 4 → Option (Mounted δ)} {path : Fin 3 → UCHAR} {fuel : ℕ} {qs : List Request}
    (reads : ReadsClusters v.geometry v.disk) (h : WalkChain v entry.firstCluster l)
    (hsize : entry.fileSize < 2^32) (hcover : entry.fileSize ≤ l.length * v.geometry.clusterSize)
    (hmount : fatResolveByPrefix partition path = some v) (hfuel : l.length < fuel)
    (hint : ∀ q ∈ qs, 0 < q.size ∧ 0 < q.nmemb ∧ q.size * q.nmemb < 2^31)
    (hqs : ClusterWise v.geometry entry.fileSize 0 qs) (memory : Buffer) :
    ReadsSequentially fuel partition v entry path memory qs := by
  obtain ⟨t, rfl⟩ := h.links.eq_cons
  have hopen : fopen v entry path memory = .ok ⟨entry.firstCluster, entry.fileSize, 0, 0, path,
      fun k => if k < v.geometry.clusterSize then v.clusters entry.firstCluster k else memory k⟩ := by
    rw [fopen, reads _ _ (h.cells _ (by simp)), ok_bind]
    rfl
  have hat : FILE.At ⟨entry.firstCluster, entry.fileSize, 0, 0, path, fun k =>
      if k < v.geometry.clusterSize then v.clusters entry.firstCluster k else memory k⟩ v
      (entry.firstCluster :: t) 0 0 := ⟨rfl, rfl, Nat.zero_le _, fun k hk => if_pos hk⟩
  obtain ⟨outs, stream', hall, hbytes, hkept, hend⟩ := freadAll_ok reads h hfuel hat hmount (by simp) (Nat.zero_le _) hsize
    hcover (fun q hq => (hint q hq).2.2) hqs
  refine ⟨_, _, outs, stream', hopen, fatReadFile_ok reads h hfuel.le, hall, ?_, hkept, ?_⟩
  · rw [hbytes]
    refine List.map_congr_left fun k hk => ?_
    have hlt := List.mem_range.mp hk
    have hk : k < min entry.fileSize ((entry.firstCluster :: t).length * v.geometry.clusterSize) := by
      simp only [Nat.sub_zero] at hlt
      omega
    rw [if_pos hk, chainFrom, Nat.zero_add]
  · rw [hend, Nat.zero_add]

section Volumes
open Open98.Ata

/-- A volume whose clusters hold the numbers of their bytes, with the chain of clusters 2 and 3. -/
def numbered : FAT32 Drive where
  geometry := small
  FAT c := if c = 2 then 3 else 0x0FFFFFFF
  clusterAllocationHint := 4
  disk := { blank with sectors := fun _ j => BitVec.ofNat 8 j }
  junk _ := 0

def numberedEntry : DirectoryEntry := ⟨fun _ => 0, 0, 2, 1000⟩

def pathC : Fin 3 → UCHAR := fun i => [0x43, 0x3A, 0x5C].getD i 0

/-- The volume is mounted as drive C. -/
def driveC (i : Fin 4) : Option (Mounted Drive) :=
  if i = 0 then some ⟨fun i => [0x43, 0x3A].getD i 0, numbered⟩ else none

lemma numbered_walk : WalkChain numbered 2 [2, 3] where
  links := .link (by decide) (.last (by decide))
  cells := by decide

/-- A request that ends at the cluster boundary and one for the rest of the file. -/
theorem fread_sequential_two_clusters : ReadsSequentially 3 driveC numbered numberedEntry pathC
    (fun _ => 0) [⟨512, 1, fun _ => 0⟩, ⟨1, 600, fun _ => 0⟩] :=
  fread_sequential (small_clusterStore.get _) numbered_walk (by decide) (by decide) rfl (by decide)
    (by simp) (by simp [ClusterWise, numbered, numberedEntry, small, Geometry.clusterSize]) _

/-- Two requests of one byte: the second one delivers byte 4 instead of byte 1. -/
theorem second_byte_wrong : ¬ ReadsSequentially 3 driveC numbered numberedEntry pathC
    (fun _ => 0) [⟨1, 1, fun _ => 0⟩, ⟨1, 1, fun _ => 0⟩] := by
  intro ⟨stream, whole, outs, stream', hopen, hwhole, hall, hbytes, _⟩
  have hdelivered : (do
      let stream ← fopen numbered numberedEntry pathC fun _ => 0
      let (outs, _) ← freadAll 3 driveC [⟨1, 1, fun _ => 0⟩, ⟨1, 1, fun _ => 0⟩] stream
      return outs.flatMap deliveredBytes : Result (List UCHAR)) = .ok [0, 4] := by
    rfl
  have hstart : (do return (List.range 2).map (← fatReadFile 3 numbered numberedEntry) :
      Result (List UCHAR)) = .ok [0, 1] := by
    rfl
  rw [hopen, ok_bind, hall] at hdelivered
  rw [hwhole] at hstart
  have h04 : outs.flatMap deliveredBytes = [0, 4] := Except.ok.inj hdelivered
  have h01 : (List.range 2).map whole = [0, 1] := Except.ok.inj hstart
  have hmin : min ([⟨1, 1, fun _ => 0⟩, ⟨1, 1, fun _ => 0⟩].map fun q : Request => q.size * q.nmemb).sum
      numberedEntry.fileSize = 2 := by
    decide
  rw [hmin, h04, h01] at hbytes
  exact absurd hbytes (by decide)

end Volumes

end Open98.Fat32
