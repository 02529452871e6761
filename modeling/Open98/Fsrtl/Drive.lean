import Open98.NtDef
import Open98.Library.BlockHeap

/-! File handles: `NtCreateFile`, `NtReadFile` and `NtClose` of `fsrtl/drive.c` over a heap that may
hand out whatever is not allocated. `fopen` is what it does with the heap and the stream that it
returns, and `fread` the bytes that it writes. -/
namespace Open98.Fsrtl
open Open98.Library

inductive Owner
  | ioFile
  | stream
  | other
deriving DecidableEq

/-- `IO_FILE`. -/
@[ext] structure IoFile where
  lpFileName : PVOID
  dwDesiredAccess : UINT
  dwShareMode : ULONG64
  lpSecurityAttributes : ULONG64
  dwCreationDisposition : ULONG64
  dwFlagsAndAttributes : ULONG64
  hTemplateFile : ULONG64
  stream : PVOID
deriving DecidableEq

def GENERIC_READ : UINT := 1
def GENERIC_ALL : UINT := 3
def OPEN_EXISTING : ULONG64 := 3

/-- `sizeof( IO_FILE )`. -/
def sizeofIoFile : ℕ := 64

namespace IoFile

/-- The fields that `NtCreateFile` sets from its arguments, with their offsets. -/
def arguments (r : IoFile) : List (Field × ℕ) := [
  (⟨0, 8⟩, r.lpFileName.toNat),
  (⟨8, 4⟩, r.dwDesiredAccess.toNat),
  (⟨16, 8⟩, r.dwShareMode.toNat),
  (⟨24, 8⟩, r.lpSecurityAttributes.toNat),
  (⟨32, 8⟩, r.dwCreationDisposition.toNat),
  (⟨40, 8⟩, r.dwFlagsAndAttributes.toNat),
  (⟨48, 8⟩, r.hTemplateFile.toNat)]

def streamField : Field := ⟨56, 8⟩

def cells (r : IoFile) : List (Field × ℕ) := r.arguments ++ [(streamField, r.stream.toNat)]

/-- The record that the memory holds at an address, whatever was stored there. -/
def load (mem : ByteMemory) (p : ℕ) : IoFile where
  lpFileName := .ofNat 64 (loadField mem p ⟨0, 8⟩)
  dwDesiredAccess := .ofNat 32 (loadField mem p ⟨8, 4⟩)
  dwShareMode := .ofNat 64 (loadField mem p ⟨16, 8⟩)
  lpSecurityAttributes := .ofNat 64 (loadField mem p ⟨24, 8⟩)
  dwCreationDisposition := .ofNat 64 (loadField mem p ⟨32, 8⟩)
  dwFlagsAndAttributes := .ofNat 64 (loadField mem p ⟨40, 8⟩)
  hTemplateFile := .ofNat 64 (loadField mem p ⟨48, 8⟩)
  stream := .ofNat 64 (loadField mem p streamField)

/-- The checks of `NtReadFile`: the stream that is read, if the read is allowed. -/
def readable (r : IoFile) : Option PVOID :=
  if r.dwDesiredAccess ≠ GENERIC_READ ∧ r.dwDesiredAccess ≠ GENERIC_ALL then none
  else if r.dwCreationDisposition ≠ OPEN_EXISTING then none
  else if r.stream = 0 then none
  else some r.stream

lemma cells_apart (r : IoFile) : (r.cells.map Prod.fst).Pairwise Field.Apart := by
  change List.Pairwise Field.Apart [⟨0, 8⟩, ⟨8, 4⟩, ⟨16, 8⟩, ⟨24, 8⟩, ⟨32, 8⟩, ⟨40, 8⟩, ⟨48, 8⟩, streamField]
  decide

lemma cells_inside (r : IoFile) : ∀ f ∈ r.cells, f.1.offset + f.1.width ≤ sizeofIoFile := by
  simp [cells, arguments, streamField, sizeofIoFile]

/-- A record that has been stored is read back. -/
theorem load_storeFields (r : IoFile) (p : ℕ) (mem : ByteMemory) :
    load (storeFields p r.cells mem) p = r := by
  have hfield : ∀ f ∈ r.cells, loadField (storeFields p r.cells mem) p f.1 = f.2 % 2^(8*f.1.width) :=
    fun f hf => loadField_storeFields r.cells_apart hf
  generalize storeFields p r.cells mem = mem' at hfield
  simp only [cells, arguments, List.cons_append, List.nil_append, List.forall_mem_cons] at hfield
  obtain ⟨hname, haccess, hshare, hsecurity, hdisposition, hflags, htemplate, hstream, -⟩ := hfield
  ext1
  case lpFileName => rw [load, hname, ofNat_toNat_mod]
  case dwDesiredAccess => rw [load, haccess, ofNat_toNat_mod]
  case dwShareMode => rw [load, hshare, ofNat_toNat_mod]
  case lpSecurityAttributes => rw [load, hsecurity, ofNat_toNat_mod]
  case dwCreationDisposition => rw [load, hdisposition, ofNat_toNat_mod]
  case dwFlagsAndAttributes => rw [load, hflags, ofNat_toNat_mod]
  case hTemplateFile => rw [load, htemplate, ofNat_toNat_mod]
  case stream =>
    rw [load, hstream]
    exact ofNat_toNat_mod r.stream

/-- Only the bytes of the record matter. -/
lemma load_congr {mem mem' : ByteMemory} {p : ℕ}
    (h : ∀ a, p ≤ a → a < p + sizeofIoFile → mem a = mem' a) : load mem p = load mem' p := by
  have hfield : ∀ f : Field, f.offset + f.width ≤ sizeofIoFile → loadField mem p f = loadField mem' p f :=
    fun f hf => loadField_congr hf h
  simp (disch := decide) only [load, hfield]

end IoFile

section Model

/-- What `fopen` does: the steps of the heap while it looks for the file, and the block and the
contents of the stream, unless it returns `NULL`. -/
structure Fopen where
  traffic : List (Traffic Owner)
  stream : Option (Block Owner × ByteMemory)

/-- The address that `fopen` returns. -/
def Fopen.result (f : Fopen) : PVOID := f.stream.elim 0 fun s => .ofNat 64 s.1.start

/-- The heap when the stream is allocated. -/
def Fopen.searched (f : Fopen) (h : BlockHeap Owner) : BlockHeap Owner := f.traffic.foldl Traffic.apply h

def Fopen.run (f : Fopen) (h : BlockHeap Owner) : BlockHeap Owner :=
  match f.stream with
  | none => f.searched h
  | some (block, contents) => ((f.searched h).malloc block).update fun mem a =>
      if block.Contains a then contents a else mem a

/-- The arguments of `NtCreateFile`, the address at which the heap gives it its block, and what
`fopen` does. -/
structure CreateCall where
  lpFileName : PVOID
  dwDesiredAccess : UINT
  dwShareMode : ULONG64
  lpSecurityAttributes : ULONG64
  dwCreationDisposition : UINT
  dwFlagsAndAttributes : ULONG64
  hTemplateFile : ULONG64
  pioFile : ℕ
  fopen : Fopen

namespace CreateCall

/-- The record that the call establishes. -/
def record (c : CreateCall) : IoFile where
  lpFileName := c.lpFileName
  dwDesiredAccess := c.dwDesiredAccess
  dwShareMode := c.dwShareMode
  lpSecurityAttributes := c.lpSecurityAttributes
  dwCreationDisposition := c.dwCreationDisposition.setWidth 64
  dwFlagsAndAttributes := c.dwFlagsAndAttributes
  hTemplateFile := c.hTemplateFile
  stream := c.fopen.result

def block (c : CreateCall) : Block Owner := ⟨c.pioFile, sizeofIoFile, .ioFile⟩

lemma block_contains (c : CreateCall) : c.block.Contains c.pioFile :=
  ⟨le_rfl, Nat.lt_add_of_pos_right (Nat.zero_lt_succ 63)⟩

/-- The heap when `fopen` is called. -/
def filled (c : CreateCall) (h : BlockHeap Owner) : BlockHeap Owner :=
  (h.malloc c.block).update (storeFields c.pioFile c.record.arguments)

end CreateCall

/-- The handle and the heap; the record is freed before it is returned. -/
def ntCreateFile (h : BlockHeap Owner) (c : CreateCall) : ℕ × BlockHeap Owner :=
  if c.dwCreationDisposition = 0 then (0, h)
  else
    let h := c.fopen.run (c.filled h)
    let h := h.update (storeFields c.pioFile [(IoFile.streamField, c.fopen.result.toNat)])
    (c.pioFile, h.free c.pioFile)

/-- The stream that is passed to `fread`; there is none where the return value is `FALSE`. -/
def ntReadFile (mem : ByteMemory) (hFile : ℕ) : Option PVOID :=
  if hFile = 0 then none else (IoFile.load mem hFile).readable

def ntClose (h : BlockHeap Owner) (hHandle : ℕ) : BlockHeap Owner :=
  h.free (IoFile.load h.mem hHandle).stream.toNat

/-- The heap, and the handles of the files that are open, each with what its call established. -/
structure Files where
  heap : BlockHeap Owner
  opened : List (ℕ × IoFile)

/-- The calls on files, and what other code does in between. A read comes with the bytes that
`fread` writes when it is called. -/
inductive FileOp
  | create (c : CreateCall)
  | read (hFile : ℕ) (written : List (ℕ × UCHAR))
  | close (hHandle : ℕ)
  | traffic (t : Traffic Owner)

def writeAll (written : List (ℕ × UCHAR)) (mem : ByteMemory) : ByteMemory :=
  written.foldl (fun mem w => Function.update mem w.1 w.2) mem

def FileOp.apply (s : Files) : FileOp → Files
  | .create c =>
    let (hFile, heap) := ntCreateFile s.heap c
    ⟨heap, if hFile = 0 then s.opened else (hFile, c.record) :: s.opened⟩
  | .read hFile written =>
    match ntReadFile s.heap.mem hFile with
    | none => s
    | some _ => { s with heap := s.heap.update (writeAll written) }
  | .close hHandle => ⟨ntClose s.heap hHandle, s.opened.eraseP fun f => f.1 = hHandle⟩
  | .traffic t => { s with heap := t.apply s.heap }

/-- `fopen` gets and uses only memory that is not allocated. -/
def Fopen.Fair (f : Fopen) (h : BlockHeap Owner) : Prop :=
  Traffic.Run .other h f.traffic (f.searched h) ∧ ∀ block contents, f.stream = some (block, contents) →
    block.owner = .stream ∧ (f.searched h).Vacant block

/-- The heap hands out nothing that is allocated, and other code keeps to its blocks. -/
def FileOp.Fair (s : Files) : FileOp → Prop
  | .create c => c.dwCreationDisposition ≠ 0 →
      s.heap.Vacant c.block ∧ c.fopen.Fair (c.filled s.heap)
  | .traffic t => t.Fair .other s.heap
  | _ => True

end Model

section Specification

/-- The open handles denote different allocated records, and reading from each of them is decided
by what the call that returned it established. -/
structure HandlesSound (s : Files) : Prop where
  distinct : (s.opened.map Prod.fst).Nodup
  allocated : ∀ f ∈ s.opened, ⟨f.1, sizeofIoFile, .ioFile⟩ ∈ s.heap.blocks
  reads : ∀ f ∈ s.opened, ntReadFile s.heap.mem f.1 = f.2.readable

/-- None of the memory that the operation is given was the record of an open handle, and `fread`
writes only into memory that is allocated. -/
def FileOp.Spares (s : Files) : FileOp → Prop
  | .create c => c.dwCreationDisposition ≠ 0 → ∀ f ∈ s.opened, c.block.Clear f.1 sizeofIoFile ∧
      (∀ t ∈ c.fopen.traffic, t.Avoids f.1 sizeofIoFile) ∧
      ∀ block contents, c.fopen.stream = some (block, contents) → block.Clear f.1 sizeofIoFile
  | .read _ written => ∀ w ∈ written, ∃ b ∈ s.heap.blocks, b.Contains w.1
  | .close _ => True
  | .traffic t => ∀ f ∈ s.opened, t.Avoids f.1 sizeofIoFile

/-- What is left of soundness when nothing is handed out again: the handles are different and reads
are decided by what was established. -/
structure HandlesKept (s : Files) : Prop where
  distinct : (s.opened.map Prod.fst).Nodup
  reads : ∀ f ∈ s.opened, ntReadFile s.heap.mem f.1 = f.2.readable

end Specification

section Steps
variable {h : BlockHeap Owner}

/-- `fopen` neither allocates nor frees records, and leaves those that are allocated alone. -/
lemma Fopen.run_spec {f : Fopen} (hs : h.Sane) (hfair : f.Fair h) : (f.run h).Sane ∧
    ∀ b : Block Owner, b.owner = .ioFile → (b ∈ (f.run h).blocks ↔ b ∈ h.blocks) ∧
      (b ∈ h.blocks → ∀ a, b.Contains a → (f.run h).mem a = h.mem a) := by
  obtain ⟨htraffic, hstream⟩ := hfair
  have hsearched := htraffic.sane hs
  have hkeeps : ∀ b : Block Owner, b.owner = .ioFile → (b ∈ (f.searched h).blocks ↔ b ∈ h.blocks) ∧
      (b ∈ h.blocks → ∀ a, b.Contains a → (f.searched h).mem a = h.mem a) := by
    intro b hb
    have hother : b.owner ≠ .other := by simp [hb]
    exact ⟨htraffic.mem_blocks hs hother, fun hmem => htraffic.block_mem hs hmem hother⟩
  unfold Fopen.run
  cases hf : f.stream with
  | none => exact ⟨hsearched, hkeeps⟩
  | some s =>
    obtain ⟨block, contents⟩ := s
    obtain ⟨howner, hvacant⟩ := hstream block contents hf
    refine ⟨(hsearched.malloc hvacant).update _, fun b hb => ?_⟩
    obtain ⟨hmem, hcontents⟩ := hkeeps b hb
    have hne : b ≠ block := by
      rintro rfl
      simp [hb] at howner
    refine ⟨by simp [hne, hmem], fun hin a ha => ?_⟩
    dsimp only [BlockHeap.update_mem, BlockHeap.malloc_mem]
    rw [if_neg fun hcontains => hvacant.clear b (hmem.mpr hin) a hcontains.1 hcontains.2 ha]
    exact hcontents hin a ha

/-- It leaves memory alone that it is not given. -/
lemma Fopen.run_unallocated {f : Fopen} {p size : ℕ} (hfair : f.Fair h) (hu : h.Unallocated p size)
    (havoid : ∀ t ∈ f.traffic, t.Avoids p size)
    (hclear : ∀ block contents, f.stream = some (block, contents) → block.Clear p size) :
    (f.run h).Unallocated p size ∧ ∀ a, p ≤ a → a < p + size → (f.run h).mem a = h.mem a := by
  obtain ⟨hun, hmem⟩ := hfair.1.unallocated hu havoid
  unfold Fopen.run
  cases hf : f.stream with
  | none => exact ⟨hun, hmem⟩
  | some s =>
    obtain ⟨block, contents⟩ := s
    have hblock := hclear block contents hf
    refine ⟨hun.malloc hblock, fun a ha hlt => ?_⟩
    dsimp only [BlockHeap.update_mem, BlockHeap.malloc_mem]
    rw [if_neg (hblock a ha hlt)]
    exact hmem a ha hlt

section Create
variable {c : CreateCall} (hdisposition : c.dwCreationDisposition ≠ 0)

lemma ntCreateFile_eq (hdisposition : c.dwCreationDisposition ≠ 0) : ntCreateFile h c =
    (c.pioFile, ((c.fopen.run (c.filled h)).update
      (storeFields c.pioFile [(IoFile.streamField, c.fopen.result.toNat)])).free c.pioFile) :=
  if_neg hdisposition

lemma filled_sane (hs : h.Sane) (hvacant : h.Vacant c.block) : (c.filled h).Sane :=
  (hs.malloc hvacant).update _

/-- Memory outside the record is not changed by filling it. -/
lemma storeFields_clear {fields : List (Field × ℕ)} (hfields : ∀ f ∈ fields, f ∈ c.record.cells)
    {mem : ByteMemory} {p a : ℕ} (hclear : c.block.Clear p sizeofIoFile) (ha : p ≤ a)
    (hlt : a < p + sizeofIoFile) : storeFields c.pioFile fields mem a = mem a := by
  apply storeFields_beyond fun f hf => c.record.cells_inside f (hfields f hf)
  have hout := hclear a ha hlt
  unfold Block.Contains CreateCall.block at hout
  dsimp only at hout
  omega

variable (hfopen : c.fopen.Fair (c.filled h))
include hdisposition hfopen

/-- When `NtCreateFile` returns, its record lies in memory that is no longer allocated, and no
record is allocated that was not before. -/
lemma ntCreateFile_freed (hs : h.Sane) (hvacant : h.Vacant c.block) : (ntCreateFile h c).2.Sane ∧
    (∀ b ∈ (ntCreateFile h c).2.blocks, b.owner = .ioFile → b ∈ h.blocks) ∧
    (ntCreateFile h c).2.Unallocated c.pioFile sizeofIoFile ∧
    IoFile.load (ntCreateFile h c).2.mem c.pioFile = c.record := by
  rw [ntCreateFile_eq hdisposition]
  obtain ⟨hsane, hkeeps⟩ := c.fopen.run_spec (filled_sane hs hvacant) hfopen
  obtain ⟨hblock, hmem⟩ := hkeeps c.block rfl
  have hallocated : c.block ∈ (c.filled h).blocks := List.mem_cons_self
  refine ⟨(hsane.update _).free _, ?_, ?_, ?_⟩
  · intro b hb howner
    obtain ⟨hb, hne⟩ := BlockHeap.mem_free.mp hb
    have hin := (hkeeps b howner).1.mp hb
    rcases List.mem_cons.mp hin with rfl | hin
    · exact absurd rfl hne
    · exact hin
  · exact (hsane.update _).free_unallocated (b := c.block) (hblock.mpr hallocated)
  · have hfields : storeFields c.pioFile c.record.cells h.mem =
        storeFields c.pioFile [(IoFile.streamField, c.fopen.result.toNat)] (c.filled h).mem :=
      storeFields_append _ _ _ _
    rw [← c.record.load_storeFields c.pioFile h.mem, hfields]
    refine IoFile.load_congr fun a ha hlt => ?_
    change storeBytes _ _ _ _ a = storeBytes _ _ _ _ a
    rw [storeBytes, storeBytes, hmem hallocated a ⟨ha, hlt⟩]

/-- It leaves memory alone that it is not given. -/
lemma ntCreateFile_unallocated {p : ℕ} (hu : h.Unallocated p sizeofIoFile)
    (hclear : c.block.Clear p sizeofIoFile) (havoid : ∀ t ∈ c.fopen.traffic, t.Avoids p sizeofIoFile)
    (hstream : ∀ block contents, c.fopen.stream = some (block, contents) →
      block.Clear p sizeofIoFile) :
    (ntCreateFile h c).2.Unallocated p sizeofIoFile ∧
      IoFile.load (ntCreateFile h c).2.mem p = IoFile.load h.mem p := by
  rw [ntCreateFile_eq hdisposition]
  obtain ⟨hun, hmem⟩ := Fopen.run_unallocated (p := p) hfopen (hu.malloc hclear) havoid hstream
  refine ⟨hun.free _, IoFile.load_congr fun a ha hlt => ?_⟩
  dsimp only [BlockHeap.free_mem, BlockHeap.update_mem]
  rw [storeFields_clear (by simp [IoFile.cells, CreateCall.record]) hclear ha hlt, hmem a ha hlt]
  exact storeFields_clear (fun f hf => List.mem_append_left _ hf) hclear ha hlt

end Create

/-- Between the calls no record is allocated. -/
structure Idle (s : Files) : Prop where
  sane : s.heap.Sane
  unallocated : ∀ b ∈ s.heap.blocks, b.owner ≠ .ioFile

lemma Idle.step {s : Files} {op : FileOp} (hs : Idle s) (hfair : op.Fair s) : Idle (op.apply s) := by
  cases op with
  | create c =>
    by_cases hzero : c.dwCreationDisposition = 0
    · rw [FileOp.apply, ntCreateFile, if_pos hzero]
      exact ⟨hs.sane, hs.unallocated⟩
    · obtain ⟨hvacant, hfopen⟩ := hfair hzero
      obtain ⟨hsane, hold, -, -⟩ := ntCreateFile_freed hzero hfopen hs.sane hvacant
      exact ⟨hsane, fun b hb howner => hs.unallocated b (hold b hb howner) howner⟩
  | read hFile written =>
    rw [FileOp.apply]
    cases ntReadFile s.heap.mem hFile with
    | none => exact hs
    | some stream => exact ⟨hs.sane.update _, hs.unallocated⟩
  | close hHandle => exact ⟨hs.sane.free _, fun b hb => hs.unallocated b (BlockHeap.mem_free.mp hb).1⟩
  | traffic t =>
    refine ⟨Traffic.Fair.sane hfair hs.sane, fun b hb howner => ?_⟩
    have hother : b.owner ≠ .other := by simp [howner]
    exact hs.unallocated b ((Traffic.Fair.mem_blocks hfair hs.sane hother).mp hb) howner

/-- Only a file that was really opened makes a handle. -/
lemma opened_nil_step {s : Files} {op : FileOp} (hs : s.opened = [])
    (hop : ∀ c, op = .create c → c.dwCreationDisposition = 0) : (op.apply s).opened = [] := by
  cases op with
  | create c =>
    rw [FileOp.apply, ntCreateFile, if_pos (hop c rfl)]
    exact hs
  | read hFile written =>
    rw [FileOp.apply]
    cases ntReadFile s.heap.mem hFile with
    | none => exact hs
    | some stream => exact hs
  | close hHandle => simp [FileOp.apply, hs]
  | traffic t => exact hs

/-- The memory of every open handle is not allocated, and still holds what was established. -/
structure Undisturbed (s : Files) : Prop where
  distinct : (s.opened.map Prod.fst).Nodup
  nonzero : ∀ f ∈ s.opened, f.1 ≠ 0
  unallocated : ∀ f ∈ s.opened, s.heap.Unallocated f.1 sizeofIoFile
  holds : ∀ f ∈ s.opened, IoFile.load s.heap.mem f.1 = f.2

lemma Undisturbed.kept {s : Files} (hs : Undisturbed s) : HandlesKept s :=
  ⟨hs.distinct, fun f hf => by rw [ntReadFile, if_neg (hs.nonzero f hf), hs.holds f hf]⟩

lemma writeAll_outside {written : List (ℕ × UCHAR)} {a : ℕ} (h : ∀ w ∈ written, w.1 ≠ a)
    (mem : ByteMemory) : writeAll written mem a = mem a := by
  induction written generalizing mem with
  | nil => rfl
  | cons w rest ih =>
    rw [writeAll, List.foldl_cons]
    refine (ih (fun w hw => h w (List.mem_cons_of_mem _ hw)) _).trans ?_
    exact Function.update_of_ne (h w List.mem_cons_self).symm _ _

lemma Undisturbed.step {s : Files} {op : FileOp} (hs : Undisturbed s) (hidle : Idle s)
    (hfair : op.Fair s) (hspares : op.Spares s) : Undisturbed (op.apply s) := by
  cases op with
  | create c =>
    by_cases hzero : c.dwCreationDisposition = 0
    · rw [FileOp.apply, ntCreateFile, if_pos hzero]
      exact hs
    obtain ⟨hvacant, hfopen⟩ := hfair hzero
    obtain ⟨-, -, hun, hload⟩ := ntCreateFile_freed hzero hfopen hidle.sane hvacant
    have hpos : c.pioFile ≠ 0 := Nat.pos_iff_ne_zero.mp hvacant.start_pos
    have hothers : ∀ f ∈ s.opened, (ntCreateFile s.heap c).2.Unallocated f.1 sizeofIoFile ∧
        IoFile.load (ntCreateFile s.heap c).2.mem f.1 = f.2 := by
      intro f hf
      obtain ⟨hclear, havoid, hstream⟩ := hspares hzero f hf
      rw [← hs.holds f hf]
      exact ntCreateFile_unallocated hzero hfopen (hs.unallocated f hf) hclear havoid hstream
    have hnew : c.pioFile ∉ s.opened.map Prod.fst := by
      intro hmem
      obtain ⟨f, hf, hp⟩ := List.mem_map.mp hmem
      have hclear := (hspares hzero f hf).1 c.pioFile (by omega) (by unfold sizeofIoFile; omega)
      exact hclear c.block_contains
    have hfst : (ntCreateFile s.heap c).1 = c.pioFile := by rw [ntCreateFile_eq hzero]
    have happly : FileOp.apply s (.create c) =
        ⟨(ntCreateFile s.heap c).2, (c.pioFile, c.record) :: s.opened⟩ := by
      rw [FileOp.apply, ← hfst]
      dsimp only
      rw [if_neg (hfst.trans_ne hpos)]
    rw [happly]
    exact {
      distinct := List.nodup_cons.mpr ⟨hnew, hs.distinct⟩
      nonzero := List.forall_mem_cons.mpr ⟨hpos, hs.nonzero⟩
      unallocated := List.forall_mem_cons.mpr ⟨hun, fun f hf => (hothers f hf).1⟩
      holds := List.forall_mem_cons.mpr ⟨hload, fun f hf => (hothers f hf).2⟩ }
  | read hFile written =>
    rw [FileOp.apply]
    cases ntReadFile s.heap.mem hFile with
    | none => exact hs
    | some stream =>
      refine ⟨hs.distinct, hs.nonzero, hs.unallocated, fun f hf => ?_⟩
      rw [← hs.holds f hf]
      refine IoFile.load_congr fun a ha hlt => writeAll_outside ?_ _
      rintro w hw rfl
      obtain ⟨b, hb, hcontains⟩ := hspares w hw
      exact hs.unallocated f hf b hb w.1 ha hlt hcontains
  | close hHandle =>
    have hsub : (s.opened.eraseP fun f => f.1 = hHandle).Sublist s.opened := List.eraseP_sublist
    exact {
      distinct := hs.distinct.sublist (hsub.map _)
      nonzero := fun f hf => hs.nonzero f (hsub.subset hf)
      unallocated := fun f hf => (hs.unallocated f (hsub.subset hf)).free _
      holds := fun f hf => hs.holds f (hsub.subset hf) }
  | traffic t =>
    exact {
      distinct := hs.distinct
      nonzero := hs.nonzero
      unallocated := fun f hf => (hspares f hf).unallocated (hs.unallocated f hf)
      holds := fun f hf => by
        rw [← hs.holds f hf]
        exact IoFile.load_congr fun a ha hlt =>
          Traffic.Fair.mem_eq hfair fun b hb _ => hs.unallocated f hf b hb a ha hlt }

end Steps

section Runs

def FileOp.step (s : Files) (op : FileOp) : Option Files := some (op.apply s)

variable {h : BlockHeap Owner} {ops : List FileOp} {s : Files}

/-- Before any file is opened. -/
def idle (h : BlockHeap Owner) : Files := ⟨h, []⟩

/-- In every run that hands no record out again, reads go on as the calls established them. -/
theorem handles_kept_of_spared (hsane : h.Sane) (hnone : ∀ b ∈ h.blocks, b.owner ≠ .ioFile)
    (hrun : GuardedRun (fun s op => FileOp.Fair s op ∧ FileOp.Spares s op) FileOp.step (idle h) ops s) :
    HandlesKept s := by
  have hboth : Idle s ∧ Undisturbed s := by
    refine hrun.invariant (I := fun s => Idle s ∧ Undisturbed s) ?_ ⟨⟨hsane, hnone⟩, ?_⟩
    · intro s op t hs hok hstep
      obtain rfl := Option.some.inj hstep
      exact ⟨hs.1.step hok.1, hs.2.step hs.1 hok.1 hok.2⟩
    · exact ⟨List.nodup_nil, by simp [idle], by simp [idle], by simp [idle]⟩
  exact hboth.2.kept

lemma idle_of_run (hsane : h.Sane) (hnone : ∀ b ∈ h.blocks, b.owner ≠ .ioFile)
    (hrun : GuardedRun FileOp.Fair FileOp.step (idle h) ops s) : Idle s := by
  refine hrun.invariant ?_ ⟨hsane, hnone⟩
  intro s op t hs hfair hstep
  obtain rfl := Option.some.inj hstep
  exact hs.step hfair

lemma opened_nil_of_run {t : Files} (hrun : GuardedRun FileOp.Fair FileOp.step t ops s)
    (hops : ∀ c, .create c ∈ ops → c.dwCreationDisposition = 0) (hnil : t.opened = []) :
    s.opened = [] := by
  induction hrun with
  | nil s => exact hnil
  | cons hfair hstep tail ih =>
    obtain rfl := Option.some.inj hstep
    refine ih (fun c hc => hops c (List.mem_cons_of_mem _ hc)) ?_
    exact opened_nil_step hnil fun c hc => hops c (hc ▸ List.mem_cons_self)

/-- As soon as a file is open, its handle denotes no allocated record. -/
lemma Idle.sound_iff (hs : Idle s) : HandlesSound s ↔ s.opened = [] := by
  constructor
  · intro hsound
    apply List.eq_nil_iff_forall_not_mem.mpr
    intro f hf
    exact hs.unallocated _ (hsound.allocated f hf) rfl
  · intro hnil
    exact ⟨by simp [hnil], by simp [hnil], by simp [hnil]⟩

/-- Over every heap, the handles are sound all through a run if and only if no file is opened in it:
every call of `NtCreateFile` is one that returns `NULL`. -/
theorem handles_sound_iff (hsane : h.Sane) (hnone : ∀ b ∈ h.blocks, b.owner ≠ .ioFile)
    (hrun : GuardedRun FileOp.Fair FileOp.step (idle h) ops s) :
    (∀ before after u, ops = before ++ after →
      GuardedRun FileOp.Fair FileOp.step (idle h) before u → HandlesSound u) ↔
      ∀ c, .create c ∈ ops → c.dwCreationDisposition = 0 := by
  constructor
  · intro hsound c hc
    obtain ⟨before, after, hops⟩ := List.append_of_mem hc
    have hsplit : ops = (before ++ [.create c]) ++ after := by simp [hops]
    obtain ⟨u, hbefore, -⟩ := (hsplit ▸ hrun).split
    obtain ⟨t, hto, hlast⟩ := hbefore.split
    have hnil := (idle_of_run hsane hnone hbefore).sound_iff.mp (hsound _ _ u hsplit hbefore)
    cases hlast with
    | cons hfair hstep tail =>
      cases tail
      obtain rfl := Option.some.inj hstep
      by_contra hzero
      have hpos := (hfair hzero).1.start_pos
      have hne : (ntCreateFile t.heap c).1 ≠ 0 := by
        rw [ntCreateFile_eq hzero]
        exact Nat.pos_iff_ne_zero.mp hpos
      simp [FileOp.apply, hne] at hnil
  · intro hzero before after u hsplit hbefore
    rw [(idle_of_run hsane hnone hbefore).sound_iff]
    exact opened_nil_of_run hbefore (fun c hc => hzero c (hsplit ▸ List.mem_append_left _ hc)) rfl

end Runs

section TwoFiles

/-- An opening for reading of a file whose stream lies at an address, with the record at 4096. -/
def opening (stream : ℕ) : CreateCall where
  lpFileName := 0
  dwDesiredAccess := GENERIC_READ
  dwShareMode := 0
  lpSecurityAttributes := 0
  dwCreationDisposition := 3
  dwFlagsAndAttributes := 0
  hTemplateFile := 0
  pioFile := 4096
  fopen := ⟨[], some (⟨stream, 32, .stream⟩, fun _ => 0)⟩

def nothing : BlockHeap Owner := ⟨[], fun _ => 0⟩

/-- The heap may give it the record and a stream behind the record when both are vacant. -/
lemma opening_fair {s : Files} {stream : ℕ} (hstream : 4160 ≤ stream) (hle : stream + 32 ≤ 2^64)
    (hrecord : ∀ b ∈ s.heap.blocks, b.Clear 4096 64) (hclear : ∀ b ∈ s.heap.blocks, b.Clear stream 32) :
    FileOp.Fair s (.create (opening stream)) := by
  intro _
  have hblock : (opening stream).block = ⟨4096, 64, .ioFile⟩ := rfl
  refine ⟨?_, .nil _, fun block contents heq => ?_⟩
  · rw [hblock]
    exact ⟨by simp, by simp, by simp, hrecord⟩
  obtain ⟨rfl, -⟩ := Prod.mk.inj (Option.some.inj heq)
  refine ⟨rfl, ⟨by dsimp only; omega, by simp, hle, ?_⟩⟩
  refine List.forall_mem_cons.mpr ⟨fun a ha hlt hcontains => ?_, hclear⟩
  have hend : a < 4096 + 64 := hcontains.2
  dsimp only at ha
  omega

lemma nothing_sane : nothing.Sane := ⟨by simp [nothing], by simp [nothing]⟩

lemma first_opening_fair : FileOp.Fair (idle nothing) (.create (opening 8192)) :=
  opening_fair (by decide) (by decide) (by simp [idle, nothing]) (by simp [idle, nothing])

theorem handles_sound_iff_one : ∃ s,
    GuardedRun FileOp.Fair FileOp.step (idle nothing) [.create (opening 8192)] s ∧
      ((∀ before after u, [FileOp.create (opening 8192)] = before ++ after →
        GuardedRun FileOp.Fair FileOp.step (idle nothing) before u → HandlesSound u) ↔
        ∀ c, FileOp.create c ∈ [FileOp.create (opening 8192)] → c.dwCreationDisposition = 0) :=
  ⟨_, .cons first_opening_fair rfl (.nil _), handles_sound_iff nothing_sane (by simp [nothing])
    (.cons first_opening_fair rfl (.nil _))⟩

/-- The second file gets the record of the first, and the handle of both reads the second file. -/
theorem second_open_takes_first : ∃ s, GuardedRun FileOp.Fair FileOp.step (idle nothing)
    [.create (opening 8192), .create (opening 12288)] s ∧ ¬ HandlesSound s ∧
      s.opened = [(4096, (opening 12288).record), (4096, (opening 8192).record)] ∧
      (opening 8192).record.readable = some 8192 ∧ ntReadFile s.heap.mem 4096 = some 12288 := by
  have hblocks : (FileOp.apply (idle nothing) (.create (opening 8192))).heap.blocks =
      [⟨8192, 32, .stream⟩] := by decide
  have hsecond : FileOp.Fair (FileOp.apply (idle nothing) (.create (opening 8192)))
      (.create (opening 12288)) := by
    apply opening_fair (by decide) (by decide)
    · rw [hblocks, List.forall_mem_singleton]
      intro a ha hlt hcontains
      have hstart : 8192 ≤ a := hcontains.1
      omega
    · rw [hblocks, List.forall_mem_singleton]
      intro a ha hlt hcontains
      have hend : a < 8192 + 32 := hcontains.2
      omega
  refine ⟨_, .cons first_opening_fair rfl (.cons hsecond rfl (.nil _)), fun hsound => ?_, by decide, by decide,
    by decide⟩
  exact absurd hsound.distinct (by decide)

end TwoFiles
end Open98.Fsrtl
