import Mathlib.Logic.Function.Basic
import Mathlib.Tactic.IntervalCases
import Open98.Drv.Disk

/-! The PIO disk driver of `drv/filesystem/ata.c` and the drive behind its ports. The drive stores
512-byte sectors, is always ready, and transfers, for each data request, the next sector of the
addressed run; a request that does not come is waited for in vain. -/
namespace Open98.Ata

abbrev Sector := Fin 512 → UCHAR

/-- A task-file register keeps the last two bytes written to it. -/
structure Register where
  latest : UCHAR
  previous : UCHAR

def Register.write (r : Register) (value : UCHAR) : Register := ⟨value, r.latest⟩

/-- The run of sectors that is left of a command. -/
inductive Transfer
  | none
  | reading (lba left : ℕ)
  | writing (lba left : ℕ)

structure Drive where
  sectors : ℕ → Sector
  driveHead : UCHAR
  seccount : Register
  lbaLo : Register
  lbaMid : Register
  lbaHi : Register
  transfer : Transfer

inductive Port
  | err
  | seccount
  | lbaLo
  | lbaMid
  | lbaHi
  | driveHead
  | command

/-- A drive of zeroed sectors. -/
def blank : Drive := ⟨fun _ _ => 0, 0, ⟨0, 0⟩, ⟨0, 0⟩, ⟨0, 0⟩, ⟨0, 0⟩, .none⟩

section Drive
variable (d : Drive)

/-- The sector that a 28-bit command addresses. -/
def Drive.lba28 : ℕ :=
  d.lbaLo.latest.toNat + d.lbaMid.latest.toNat * 2^8 + d.lbaHi.latest.toNat * 2^16 +
    d.driveHead.toNat % 16 * 2^24

/-- The sector that a 48-bit command addresses. -/
def Drive.lba48 : ℕ :=
  d.lbaLo.latest.toNat + d.lbaMid.latest.toNat * 2^8 + d.lbaHi.latest.toNat * 2^16 +
    d.lbaLo.previous.toNat * 2^24 + d.lbaMid.previous.toNat * 2^32 + d.lbaHi.previous.toNat * 2^40

def Drive.count28 : ℕ := if d.seccount.latest = 0 then 256 else d.seccount.latest.toNat

def Drive.count48 : ℕ :=
  let n := d.seccount.latest.toNat + d.seccount.previous.toNat * 2^8
  if n = 0 then 65536 else n

/-- Reading with 28 and with 48 bits and writing with 48 bits start a transfer. -/
def Drive.command (c : UCHAR) : Drive := { d with
  transfer := if c = 0x20 then .reading d.lba28 d.count28
    else if c = 0x24 then .reading d.lba48 d.count48
    else if c = 0x34 then .writing d.lba48 d.count48
    else .none }

def Drive.outb (value : UCHAR) : Port → Drive
  | .err => d
  | .seccount => { d with seccount := d.seccount.write value }
  | .lbaLo => { d with lbaLo := d.lbaLo.write value }
  | .lbaMid => { d with lbaMid := d.lbaMid.write value }
  | .lbaHi => { d with lbaHi := d.lbaHi.write value }
  | .driveHead => { d with driveHead := value }
  | .command => d.command value

/-- `STAT_DRQ`. -/
def Drive.drq : Bool :=
  match d.transfer with
  | .none => false
  | .reading _ left | .writing _ left => 0 < left

/-- The sector that 256 words read from the data port are, and the drive after them. -/
def Drive.insw : Sector × Drive :=
  match d.transfer with
  | .reading lba left => (d.sectors lba, { d with transfer := .reading (lba+1) (left-1) })
  | _ => (fun _ => 0, d)

/-- The drive after 256 words written to the data port. -/
def Drive.outsw (s : Sector) : Drive :=
  match d.transfer with
  | .writing lba left => { d with
      sectors := Function.update d.sectors lba s, transfer := .writing (lba+1) (left-1) }
  | _ => d

end Drive

section Driver

/-- The 512 bytes from an offset on. -/
def sectorAt (b : Buffer) (offset : ℕ) : Sector := fun j => b (offset + j)

def storeSector (b : Buffer) (offset : ℕ) (s : Sector) : Buffer :=
  fun k => if h : offset ≤ k ∧ k < offset + 512 then s ⟨k - offset, by omega⟩ else b k

/-- The loop of the reading functions; `i` is a `UCHAR`, and `target` advances by 256. -/
def readLoop (sectorcount : ℕ) : ℕ → Drive → (i offset : ℕ) → Buffer → Result (Drive × Buffer)
  | 0, _, _, _, _ => .error .hang
  | fuel+1, d, i, offset, target =>
    if i < sectorcount then
      if d.drq then
        let (s, d) := d.insw
        readLoop sectorcount fuel d ((i+1) % 256) (offset + 256) (storeSector target offset s)
      else .error .hang
    else .ok (d, target)

/-- The loop of `KiATAWriteDisk`. -/
def writeLoop (sectorcount : ℕ) (target : Buffer) : ℕ → Drive → (i offset : ℕ) → Result Drive
  | 0, _, _, _ => .error .hang
  | fuel+1, d, i, offset =>
    if i < sectorcount then
      if d.drq then
        writeLoop sectorcount target fuel (d.outsw (sectorAt target offset)) ((i+1) % 256)
          (offset + 256)
      else .error .hang
    else .ok d

/-- The bits of a value from bit `k` on, as a byte. -/
def byteAt (value k : ℕ) : UCHAR := BitVec.ofNat 8 (value / 2^k)

def kiATAReadDiskEx (d : Drive) (LBA sectorcount : ℕ) (target : Buffer) : Result (Drive × Buffer) :=
  let sectorcount := sectorcount % 2^8
  let d := d.outb (0xE0 ||| (byteAt LBA 24 &&& 0x0F)) .driveHead
  let d := d.outb 0x00 .err
  let d := d.outb (byteAt sectorcount 0) .seccount
  let d := d.outb (byteAt LBA 0) .lbaLo
  let d := d.outb (byteAt LBA 8) .lbaMid
  let d := d.outb (byteAt LBA 16) .lbaHi
  let d := d.outb 0x20 .command
  readLoop sectorcount (sectorcount + 1) d 0 0 target

/-- The registers of a 48-bit command, high bytes first. -/
def select48 (d : Drive) (LBA sectorcount : ℕ) : Drive :=
  let d := d.outb 0x40 .driveHead
  let d := d.outb (byteAt sectorcount 8) .seccount
  let d := d.outb (byteAt LBA 24) .lbaLo
  let d := d.outb (byteAt LBA 32) .lbaMid
  let d := d.outb (byteAt LBA 40) .lbaHi
  let d := d.outb (byteAt sectorcount 0) .seccount
  let d := d.outb (byteAt LBA 0) .lbaLo
  let d := d.outb (byteAt LBA 8) .lbaMid
  d.outb (byteAt LBA 16) .lbaHi

def kiATAReadDisk (d : Drive) (LBA sectorcount : ℕ) (target : Buffer) : Result (Drive × Buffer) :=
  let sectorcount := sectorcount % 2^16
  readLoop sectorcount (sectorcount + 1) ((select48 d LBA sectorcount).outb 0x24 .command) 0 0 target

/-- The cache flush at the end leaves the drive without a transfer; it is never busy. -/
def kiATAWriteDisk (d : Drive) (LBA sectorcount : ℕ) (target : Buffer) : Result Drive := do
  let sectorcount := sectorcount % 2^16
  let d ← writeLoop sectorcount target (sectorcount + 1)
    ((select48 d LBA sectorcount).outb 0x34 .command) 0 0
  return d.outb 0xE7 .command

/-- The driver on this drive. Each command writes all the registers it depends on, so what a read
leaves in them is not kept. -/
instance : Disk Drive where
  kiATAReadDiskEx d lba sectorcount target := (kiATAReadDiskEx d lba sectorcount target).map Prod.snd
  kiATAWriteDisk := kiATAWriteDisk

end Driver

section Commands

lemma toNat_byteAt (value k : ℕ) : (byteAt value k).toNat = value / 2^k % 256 := rfl

lemma low_nibble (b : UCHAR) : (0xE0 ||| (b &&& 0x0F)).toNat % 16 = b.toNat % 16 := by
  revert b
  decide

/-- What the reading loop leaves in the buffer: each sector is laid 256 bytes behind the one
before it. -/
def laid (sectors : ℕ → Sector) : ℕ → (lba offset : ℕ) → Buffer → Buffer
  | 0, _, _, b => b
  | left+1, lba, offset, b =>
    laid sectors left (lba+1) (offset+256) (storeSector b offset (sectors lba))

lemma readLoop_ok {sectorcount left : ℕ} (hcount : sectorcount < 256) {d : Drive} {lba i : ℕ}
    (htransfer : left ≠ 0 → d.transfer = .reading lba left) (hi : i + left = sectorcount)
    {fuel : ℕ} (hfuel : left < fuel) (offset : ℕ) (target : Buffer) :
    ∃ d', readLoop sectorcount fuel d i offset target =
      .ok (d', laid d.sectors left lba offset target) := by
  induction left generalizing d lba i fuel offset target with
  | zero =>
    obtain ⟨fuel, rfl⟩ : ∃ n, fuel = n+1 := ⟨fuel-1, by omega⟩
    exact ⟨d, by rw [readLoop, if_neg (by omega)]; rfl⟩
  | succ left ih =>
    obtain ⟨fuel, rfl⟩ : ∃ n, fuel = n+1 := ⟨fuel-1, by omega⟩
    have hd := htransfer (by omega)
    have hdrq : d.drq = true := by simp [Drive.drq, hd]
    have hinsw : d.insw = (d.sectors lba, { d with transfer := .reading (lba+1) left }) := by
      simp [Drive.insw, hd]
    have hnext : left ≠ 0 → ({ d with transfer := .reading (lba+1) left } : Drive).transfer =
        .reading (lba+1) left := fun _ => rfl
    obtain ⟨d', hrun⟩ := ih (i := i+1) hnext (by omega) (show left < fuel by omega) (offset+256)
      (storeSector target offset (d.sectors lba))
    refine ⟨d', ?_⟩
    rw [readLoop, if_pos (by omega), if_pos hdrq, hinsw, Nat.mod_eq_of_lt (by omega)]
    exact hrun

/-- Below 2^28 the reading command reads the run of sectors that was asked for. -/
theorem kiATAReadDiskEx_ok (d : Drive) {LBA sectorcount : ℕ} (hLBA : LBA < 2^28)
    (hcount : sectorcount < 256) (target : Buffer) :
    Disk.kiATAReadDiskEx d LBA sectorcount target =
      .ok (laid d.sectors sectorcount LBA 0 target) := by
  have hlba : (byteAt LBA 0).toNat + (byteAt LBA 8).toNat * 2^8 + (byteAt LBA 16).toNat * 2^16 +
      (0xE0 ||| (byteAt LBA 24 &&& 0x0F)).toNat % 16 * 2^24 = LBA := by
    rw [low_nibble]
    simp only [toNat_byteAt]
    omega
  have hn : sectorcount % 2^8 = sectorcount := Nat.mod_eq_of_lt hcount
  have hbyte : (byteAt sectorcount 0).toNat = sectorcount := by
    rw [toNat_byteAt]
    omega
  have hzero : sectorcount ≠ 0 → byteAt sectorcount 0 ≠ 0 := by
    intro hne h
    rw [h] at hbyte
    exact hne hbyte.symm
  have htransfer : sectorcount ≠ 0 → (({ d with
      driveHead := 0xE0 ||| (byteAt LBA 24 &&& 0x0F)
      seccount := d.seccount.write (byteAt sectorcount 0)
      lbaLo := d.lbaLo.write (byteAt LBA 0)
      lbaMid := d.lbaMid.write (byteAt LBA 8)
      lbaHi := d.lbaHi.write (byteAt LBA 16) } : Drive).outb 0x20 .command).transfer =
        .reading LBA sectorcount := by
    intro hne
    simp only [Drive.outb, Drive.command, Drive.lba28, Drive.count28, Register.write, if_true,
      hlba, hzero hne, if_false, hbyte]
  obtain ⟨d', hrun⟩ := readLoop_ok hcount htransfer (Nat.zero_add _) (Nat.lt_succ_self _) 0 target
  simp only [Disk.kiATAReadDiskEx, kiATAReadDiskEx, hn]
  exact congrArg (Except.map Prod.snd) hrun

/-- The reading command uses 28 bits of the sector's number. -/
lemma kiATAReadDiskEx_mod (d : Drive) (LBA sectorcount : ℕ) (target : Buffer) :
    Disk.kiATAReadDiskEx d LBA sectorcount target =
      Disk.kiATAReadDiskEx d (LBA % 2^28) sectorcount target := by
  have h0 : byteAt LBA 0 = byteAt (LBA % 2^28) 0 := by
    apply BitVec.eq_of_toNat_eq
    rw [toNat_byteAt, toNat_byteAt]
    omega
  have h8 : byteAt LBA 8 = byteAt (LBA % 2^28) 8 := by
    apply BitVec.eq_of_toNat_eq
    rw [toNat_byteAt, toNat_byteAt]
    omega
  have h16 : byteAt LBA 16 = byteAt (LBA % 2^28) 16 := by
    apply BitVec.eq_of_toNat_eq
    rw [toNat_byteAt, toNat_byteAt]
    omega
  have hnibble : byteAt LBA 24 &&& 0x0F = byteAt (LBA % 2^28) 24 &&& 0x0F := by
    have hmask : (0x0F : UCHAR).toNat = 2^4 - 1 := rfl
    apply BitVec.eq_of_toNat_eq
    rw [BitVec.toNat_and, BitVec.toNat_and, hmask, Nat.and_two_pow_sub_one_eq_mod,
      Nat.and_two_pow_sub_one_eq_mod, toNat_byteAt, toNat_byteAt]
    omega
  simp only [Disk.kiATAReadDiskEx, kiATAReadDiskEx, h0, h8, h16, hnibble]

/-- Writing one sector puts it where it was meant to go. -/
theorem kiATAWriteDisk_ok (d : Drive) {LBA : ℕ} (hLBA : LBA < 2^48) (target : Buffer) :
    ∃ d', Disk.kiATAWriteDisk d LBA 1 target = .ok d' ∧
      d'.sectors = Function.update d.sectors LBA (sectorAt target 0) := by
  have hlba : ((select48 d LBA 1).outb 0x34 .command).transfer = .writing LBA 1 := by
    have haddr : (select48 d LBA 1).lba48 = LBA := by
      simp only [Drive.lba48, select48, Drive.outb, Register.write, toNat_byteAt]
      omega
    have hcount : (select48 d LBA 1).count48 = 1 := by
      simp [Drive.count48, select48, Drive.outb, Register.write, byteAt]
    simp [Drive.outb, Drive.command, haddr, hcount]
  have hsectors : ((select48 d LBA 1).outb 0x34 .command).sectors = d.sectors := rfl
  have hn : 1 % 2^16 = 1 := by decide
  simp only [Disk.kiATAWriteDisk, kiATAWriteDisk, hn]
  generalize (select48 d LBA 1).outb 0x34 .command = c at hlba hsectors
  have hdrq : c.drq = true := by simp [Drive.drq, hlba]
  have houtsw : c.outsw (sectorAt target 0) = { c with
      sectors := Function.update c.sectors LBA (sectorAt target 0)
      transfer := .writing (LBA+1) 0 } := by
    simp [Drive.outsw, hlba]
  refine ⟨(c.outsw (sectorAt target 0)).outb 0xE7 .command, ?_, ?_⟩
  · rw [writeLoop, if_pos (by decide), if_pos hdrq, writeLoop, if_neg (by decide), ok_bind]
    rfl
  · rw [houtsw, ← hsectors]
    rfl

/-- Only the sectors of the run decide what is laid into the buffer. -/
lemma laid_congr {sectors sectors' : ℕ → Sector} {left lba : ℕ}
    (h : ∀ s, lba ≤ s → s < lba + left → sectors' s = sectors s) (offset : ℕ) (b : Buffer) :
    laid sectors' left lba offset b = laid sectors left lba offset b := by
  induction left generalizing lba offset b with
  | zero => rfl
  | succ left ih =>
    rw [laid, laid, h lba le_rfl (by omega)]
    exact ih (fun s hs hlt => h s (by omega) (by omega)) _ _

lemma laid_shift (sectors : ℕ → Sector) (left lba offset : ℕ) (b : Buffer) :
    laid sectors left lba offset b = laid (fun i => sectors (lba + i)) left 0 offset b := by
  induction left generalizing sectors lba offset b with
  | zero => rfl
  | succ left ih =>
    rw [laid, laid, ih, ih _ 1]
    simp only [Nat.add_assoc, Nat.add_zero]

/-- The loop leaves the buffer alone behind the last sector it lays down. -/
lemma laid_beyond (sectors : ℕ → Sector) (left lba offset : ℕ) (b : Buffer) {k : ℕ}
    (hk : offset + (left+1) * 256 ≤ k) : laid sectors left lba offset b k = b k := by
  induction left generalizing lba offset b with
  | zero => rfl
  | succ left ih =>
    have hout : ¬ (offset ≤ k ∧ k < offset + 512) := by omega
    rw [laid, ih (lba+1) (offset+256) (storeSector b offset (sectors lba)) (by omega), storeSector,
      dif_neg hout]

end Commands

end Open98.Ata
