import Open98.NtDef
import Open98.Library.Keeps
import Open98.Mm.PmmRuns

/-! The kernel heap: `mm/liballoc.c` over the page hooks of `mm/heap.c`. Memory is the map
from virtual addresses to bytes, and the structures of liballoc are read and written in it at
their field offsets, so that a corrupted or stale structure behaves as it does on the machine.
The statistics counters, the debug output and the locks (`KeTryAcquireMutex` gets its lock by
value and never waits) are left out. -/
namespace Open98.Mm

abbrev Memory := PVOID → BitVec 8

def physMemOffset : PVOID := 0xffff800000000000#64

/-- What is remembered of a block that `allocate_new_page` made: its physical address, the
size that was asked for, and the page allocator before and after the call of `liballoc_alloc`
that made it. -/
structure MajorRecord where
  adr : ℕ
  request : UINT
  before : Pmm
  after : Pmm

/-- Memory, the page allocator and the static variables of liballoc. `live` are the major
blocks that exist, `ranges` the pages that other code has from `pmalloc`. -/
structure Heap where
  mem : Memory
  pmm : Pmm
  memRoot : PVOID
  bestBet : PVOID
  live : List MajorRecord
  ranges : List PageRange

/-- A computation on the heap; one that never returns has no result. -/
abbrev HeapM := StateT Heap Option

/-- An `if` without `else`. -/
def when (c : Prop) [Decidable c] (x : HeapM Unit) : HeapM Unit := if c then x else pure ()

section Memory

def load32 (p : PVOID) : HeapM UINT := do
  let m := (← get).mem
  return m (p + 3) ++ m (p + 2) ++ m (p + 1) ++ m p

def load64 (p : PVOID) : HeapM PVOID := do
  return (← load32 (p + 4)) ++ (← load32 p)

def store8 (p : PVOID) (v : BitVec 8) : HeapM Unit :=
  modify fun h => { h with mem := Function.update h.mem p v }

def store32 (p : PVOID) (v : UINT) : HeapM Unit := do
  store8 p (v.extractLsb' 0 8)
  store8 (p + 1) (v.extractLsb' 8 8)
  store8 (p + 2) (v.extractLsb' 16 8)
  store8 (p + 3) (v.extractLsb' 24 8)

def store64 (p v : PVOID) : HeapM Unit := do
  store32 p (v.extractLsb' 0 32)
  store32 (p + 4) (v.extractLsb' 32 32)

/-- The `n` bytes from `s` on are set to `c`. -/
def memset (s : PVOID) (c : BitVec 8) (n : ℕ) : HeapM Unit :=
  modify fun h => { h with mem := fun p => if (p - s).toNat < n then c else h.mem p }

/-- The first loop of `liballoc_memcpy`: 4-byte units, from unit `i` on. -/
def memcpyUnits (s1 s2 : PVOID) (i : ℕ) : ℕ → HeapM Unit
  | 0 => pure ()
  | n+1 => do
    store32 (s1 + BitVec.ofNat 64 (4*i)) (← load32 (s2 + BitVec.ofNat 64 (4*i)))
    memcpyUnits s1 s2 (i+1) n

/-- The second loop of `liballoc_memcpy`: single bytes, from byte `i` on. -/
def memcpyBytes (s1 s2 : PVOID) (i : ℕ) : ℕ → HeapM Unit
  | 0 => pure ()
  | n+1 => do
    store8 (s1 + BitVec.ofNat 64 i) ((← get).mem (s2 + BitVec.ofNat 64 i))
    memcpyBytes s1 s2 (i+1) n

def liballocMemcpy (s1 s2 : PVOID) (n : ℕ) : HeapM Unit := do
  memcpyUnits s1 s2 0 (n/4)
  memcpyBytes s1 s2 (4*(n/4)) (n%4)

end Memory

/-! `struct liballoc_major` and `struct liballoc_minor`: the addresses of their fields. Both
structures are 40 bytes long. -/

def majPrev (maj : PVOID) : PVOID := maj
def majNext (maj : PVOID) : PVOID := maj + 8
def majPages (maj : PVOID) : PVOID := maj + 16
def majSize (maj : PVOID) : PVOID := maj + 20
def majUsage (maj : PVOID) : PVOID := maj + 24
def majFirst (maj : PVOID) : PVOID := maj + 32

def minPrev (min : PVOID) : PVOID := min
def minNext (min : PVOID) : PVOID := min + 8
def minBlock (min : PVOID) : PVOID := min + 16
def minMagic (min : PVOID) : PVOID := min + 24
def minSize (min : PVOID) : PVOID := min + 28
def minReqSize (min : PVOID) : PVOID := min + 32

def liballocMagic : UINT := 0xc001c0de#32
def liballocDead : UINT := 0xdeaddead#32

/-- `ROUND_UP` on two `int`s: a number of units, not a rounded number. -/
def roundUp (a b : UINT) : UINT := (a + (b - 1)).sdiv b

/-- `memset` takes its length as an `int`, so the byte count is cut to 32 bits, and a negative
one sets nothing. -/
def pcalloc (pages : ULONG64) : HeapM ULONG64 := do
  match pmalloc (← get).pmm pages.toNat with
  | none => fun _ => none
  | some (adr, pmm) =>
    modify fun h => { h with pmm := pmm }
    let ret := BitVec.ofNat 64 adr
    if ret = 0 then return 0
    memset (ret + physMemOffset) 0 ((pages * 0x1000#64).truncate 32).toInt.toNat
    return ret

def liballocAlloc (size : UINT) : HeapM PVOID := do
  return (← pcalloc ((roundUp size 0x1000#32).signExtend 64)) + physMemOffset

def liballocFree_ (ptr : PVOID) (pages : UINT) : HeapM Unit :=
  modify fun h => { h with
    pmm := pmmFreePages h.pmm (ptr - physMemOffset).toNat ((pages + 1).signExtend 64).toNat }

/-- The number of pages that `allocate_new_page` decides on. -/
def pagesFor (size : UINT) : UINT :=
  let st := size + 40 + 40
  let st := if st % 0x1000#32 = 0 then st / 0x1000#32 else st / 0x1000#32 + 1
  if st < 16#32 then 16#32 else st

/-- The fields of a new major block. -/
def fillMajor (maj : PVOID) (st : UINT) : HeapM Unit := do
  store64 (majPrev maj) 0
  store64 (majNext maj) 0
  store32 (majPages maj) st
  store32 (majSize maj) (st * 0x1000#32)
  store32 (majUsage maj) 40#32
  store64 (majFirst maj) 0

def allocateNewPage (size : UINT) : HeapM PVOID := do
  let st := pagesFor size
  let before := (← get).pmm
  let maj ← liballocAlloc st
  if maj = 0 then return 0
  modify fun h => { h with
    live := ⟨(maj - physMemOffset).toNat, size, before, h.pmm⟩ :: h.live }
  fillMajor maj st
  return maj

/-- `ALIGN`. -/
def align (ptr : PVOID) : HeapM PVOID := do
  let ptr := ptr + 16
  let diff := ptr &&& 15
  let diff := if diff = 0 then 0 else 16 - diff
  let ptr := ptr + diff
  store8 (ptr - 16) ((diff + 16).truncate 8)
  return ptr

/-- `UNALIGN`. -/
def unalign (ptr : PVOID) : HeapM PVOID := do
  let diff := ((← get).mem (ptr - 16)).signExtend 64
  return if diff < 32#64 then ptr - diff else ptr

/-- `maj->usage += size + sizeof( struct liballoc_minor )`. -/
def addUsage (maj : PVOID) (size : ULONG64) : HeapM Unit := do
  let usage ← load32 (majUsage maj)
  store32 (majUsage maj) ((usage.zeroExtend 64 + (size + 40)).truncate 32)

/-- The fields of a minor block that every case writes. -/
def fillMinor (min maj : PVOID) (size reqSize : ULONG64) : HeapM Unit := do
  store32 (minMagic min) liballocMagic
  store64 (minBlock min) maj
  store32 (minSize min) (size.truncate 32)
  store32 (minReqSize min) (reqSize.truncate 32)

/-- Case 2: a brand new block. -/
def mallocFirst (maj : PVOID) (size reqSize : ULONG64) : HeapM PVOID := do
  let min := maj + 40
  store64 (majFirst maj) min
  store64 (minPrev min) 0
  store64 (minNext min) 0
  fillMinor min maj size reqSize
  addUsage maj size
  align (min + 40)

/-- Case 3: enough space at the start of the block. -/
def mallocFront (maj first : PVOID) (size reqSize : ULONG64) : HeapM PVOID := do
  let min := maj + 40
  store64 (minPrev first) min
  store64 (minNext min) first
  store64 (majFirst maj) min
  store64 (minPrev min) 0
  fillMinor min maj size reqSize
  addUsage maj size
  align (min + 40)

/-- Cases 4.1 and 4.2: enough space behind the minor block `min`. -/
def mallocBehind (maj min next : PVOID) (size reqSize : ULONG64) : HeapM PVOID := do
  let new := min + 40 + (← load32 (minSize min)).zeroExtend 64
  store64 (minNext new) next
  store64 (minPrev new) min
  fillMinor new maj size reqSize
  when (next ≠ 0) (store64 (minPrev next) new)
  store64 (minNext min) new
  addUsage maj size
  align (new + 40)

/-- Case 4: the walk over the minor blocks of a block, from `min` on. -/
def mallocBetween (maj : PVOID) (size reqSize : ULONG64) : ℕ → PVOID → HeapM (Option PVOID)
  | 0, _ => fun _ => none
  | fuel+1, min => do
    if min = 0 then return none
    let next ← load64 (minNext min)
    let blockEnd := maj + (← load32 (majSize maj)).zeroExtend 64
    let stop := if next = 0 then blockEnd else next
    let diff := stop - min - 40 - (← load32 (minSize min)).zeroExtend 64
    if diff ≥ size + 40 then return some (← mallocBehind maj min next size reqSize)
    mallocBetween maj size reqSize fuel next

/-- How a turn of the loop over the major blocks ends. -/
inductive Turn
  | done (p : PVOID)
  | again (maj : PVOID) (startedBet : Bool) (bestSize : ULONG64)

/-- Cases 2 to 5 for the block `maj`. -/
def mallocIn (fuel : ℕ) (size reqSize : ULONG64) (maj : PVOID) (startedBet : Bool)
    (bestSize : ULONG64) : HeapM Turn := do
  let first ← load64 (majFirst maj)
  if first = 0 then return .done (← mallocFirst maj size reqSize)
  if first - maj - 40 ≥ size + 40 then return .done (← mallocFront maj first size reqSize)
  match ← mallocBetween maj size reqSize fuel first with
  | some p => return .done p
  | none =>
    let next ← load64 (majNext maj)
    if next ≠ 0 then return .again next startedBet bestSize
    if startedBet then return .again (← get).memRoot false bestSize
    let fresh ← allocateNewPage (size.truncate 32)
    store64 (majNext maj) fresh
    if fresh = 0 then return .done 0
    store64 (majPrev fresh) maj
    return .again fresh startedBet bestSize

/-- One turn of the loop: case 1 and, if the block (or the block made next to it) is to be
used, the cases after it. -/
def mallocTurn (fuel : ℕ) (size reqSize : ULONG64) (maj : PVOID) (startedBet : Bool)
    (bestSize : ULONG64) : HeapM Turn := do
  let diff := ((← load32 (majSize maj)) - (← load32 (majUsage maj))).zeroExtend 64
  when (bestSize < diff) (modify fun h => { h with bestBet := maj })
  let bestSize := if bestSize < diff then diff else bestSize
  if diff < size + 40 then
    let next ← load64 (majNext maj)
    if next ≠ 0 then return .again next startedBet bestSize
    if startedBet then return .again (← get).memRoot false bestSize
    let fresh ← allocateNewPage (size.truncate 32)
    store64 (majNext maj) fresh
    if fresh = 0 then return .done 0
    store64 (majPrev fresh) maj
    mallocIn fuel size reqSize fresh startedBet bestSize
  else mallocIn fuel size reqSize maj startedBet bestSize

def mallocLoop (size reqSize : ULONG64) : ℕ → PVOID → Bool → ULONG64 → HeapM PVOID
  | 0, _, _, _ => fun _ => none
  | fuel+1, maj, startedBet, bestSize => do
    if maj = 0 then return 0
    match ← mallocTurn fuel size reqSize maj startedBet bestSize with
    | .done p => return p
    | .again maj startedBet bestSize => mallocLoop size reqSize fuel maj startedBet bestSize

/-- The search for space from the best bet, or from the first block. -/
def mallocSearch (fuel : ℕ) (size reqSize : ULONG64) : HeapM PVOID := do
  let h ← get
  if h.bestBet = 0 then mallocLoop size reqSize fuel h.memRoot false 0
  else
    let bestSize := ((← load32 (majSize h.bestBet)) - (← load32 (majUsage h.bestBet))).zeroExtend 64
    if bestSize > size + 40 then mallocLoop size reqSize fuel h.bestBet true bestSize
    else mallocLoop size reqSize fuel h.memRoot false bestSize

/-- A request whose size wraps to 0 is served as a request for one byte. -/
def liballocMalloc (fuel : ℕ) (reqSize : ULONG64) : HeapM PVOID := do
  let reqSize := if reqSize + 32 = 0 then 1 else reqSize
  let size := reqSize + 32
  if (← get).memRoot = 0 then
    let root ← allocateNewPage (size.truncate 32)
    modify fun h => { h with memRoot := root }
    if root = 0 then return 0
    mallocSearch fuel size reqSize
  else mallocSearch fuel size reqSize

/-- The block is gone: the first record with its address is dropped. -/
def forgetMajor (maj : PVOID) : HeapM Unit :=
  modify fun h => { h with live := h.live.eraseP fun r => r.adr = (maj - physMemOffset).toNat }

/-- What `liballoc_free` does with a block that has lost its last minor block. -/
def releaseMajor (maj : PVOID) : HeapM Unit := do
  let prev ← load64 (majPrev maj)
  let next ← load64 (majNext maj)
  modify fun h => { h with
    memRoot := if h.memRoot = maj then next else h.memRoot
    bestBet := if h.bestBet = maj then 0 else h.bestBet }
  when (prev ≠ 0) (store64 (majNext prev) next)
  let next ← load64 (majNext maj)
  let prev ← load64 (majPrev maj)
  when (next ≠ 0) (store64 (majPrev next) prev)
  forgetMajor maj
  liballocFree_ maj (← load32 (majPages maj))

/-- What `liballoc_free` does with a block that is still in use: it may be the new best bet. -/
def reconsiderBet (maj : PVOID) : HeapM Unit := do
  let bestBet := (← get).bestBet
  let bestSize := (← load32 (majSize bestBet)) - (← load32 (majUsage bestBet))
  let majSize := (← load32 (majSize maj)) - (← load32 (majUsage maj))
  when (bestBet ≠ 0 ∧ bestSize.slt majSize) (modify fun h => { h with bestBet := maj })

/-- The minor block is taken out of the list of its block. -/
def unlinkMinor (min maj : PVOID) : HeapM Unit := do
  let next ← load64 (minNext min)
  let prev ← load64 (minPrev min)
  when (next ≠ 0) (store64 (minPrev next) prev)
  let next ← load64 (minNext min)
  let prev ← load64 (minPrev min)
  when (prev ≠ 0) (store64 (minNext prev) next)
  let next ← load64 (minNext min)
  let prev ← load64 (minPrev min)
  when (prev = 0) (store64 (majFirst maj) next)

def liballocFree (ptr : PVOID) : HeapM Unit := do
  if ptr = 0 then return
  let min := (← unalign ptr) - 40
  if (← load32 (minMagic min)) ≠ liballocMagic then return
  let maj ← load64 (minBlock min)
  let size := (← load32 (minSize min)).zeroExtend 64 + 40
  let usage := (← load32 (majUsage maj)).zeroExtend 64
  store32 (majUsage maj) ((usage - size).truncate 32)
  store32 (minMagic min) liballocDead
  unlinkMinor min maj
  if (← load64 (majFirst maj)) = 0 then releaseMajor maj else reconsiderBet maj

/-- The check of the magic number has no effect here: the return behind it is commented out. -/
def liballocRealloc (fuel : ℕ) (p : PVOID) (size : ULONG64) : HeapM PVOID := do
  if size = 0 then
    liballocFree p
    return 0
  if p = 0 then liballocMalloc fuel size
  else
    let min := (← unalign p) - 40
    let realSize ← load32 (minReqSize min)
    if realSize.zeroExtend 64 ≥ size then
      store32 (minReqSize min) (size.truncate 32)
      return p
    let ptr ← liballocMalloc fuel size
    liballocMemcpy ptr p realSize.toNat
    liballocFree p
    return ptr

end Open98.Mm
