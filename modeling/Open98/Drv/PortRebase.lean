import Mathlib.Tactic.IntervalCases
import Open98.Drv.Disk
import Open98.Library.Polling
import Open98.Library.Records
import Open98.Library.Stores

/-! `port_rebase` of `drv/ahci.c`. The registers of the controller lie in memory, where loops over its bytes reach
them, too. -/
namespace Open98.Drv
open Library

section Layout

def AHCI_BASE : ℕ := 0x400000

/-- `hba_mem_t`. -/
def HbaMem.pi : Field := ⟨0x0C, 4⟩

/-- The address of `ports[ i ]`. -/
def hbaPort (hba i : ℕ) : ℕ := hba + 0x100 + 0x80 * i

/-- `hba_port_t`. -/
def HbaPort.clb : Field := ⟨0, 4⟩
def HbaPort.clbu : Field := ⟨4, 4⟩
def HbaPort.fb : Field := ⟨8, 4⟩
def HbaPort.fbu : Field := ⟨12, 4⟩
def HbaPort.cmd : Field := ⟨24, 4⟩

/-- `hba_cmd_header_t`. -/
def HbaCmdHeader.prdtl : Field := ⟨2, 2⟩
def HbaCmdHeader.ctba : Field := ⟨8, 4⟩
def HbaCmdHeader.ctbau : Field := ⟨12, 4⟩
def sizeofHbaCmdHeader : ℕ := 32

end Layout

section Model

def storeField (memory : ByteMemory) (p : ℕ) (f : Field) (v : ℕ) : ByteMemory :=
  storeBytes memory (p + f.offset) f.width v

def memset (memory : ByteMemory) (s : ℕ) (c : UCHAR) (n : ℕ) : ByteMemory :=
  assign (fun i => s + i) (fun _ => c) (List.range n) memory

/-- What the command engines show in bits 14 and 15 of `cmd`, by the time of the read, the port and the other bits. -/
structure Engines where
  status : (time port : ℕ) → UINT → UINT
  /-- Once `ST` and `FRE` are clear, an engine stops. -/
  stops : ∀ port cmd, cmd.getLsbD 0 = false → cmd.getLsbD 4 = false → ∃ T, ∀ t, T ≤ t →
    (status t port cmd).getLsbD 14 = false ∧ (status t port cmd).getLsbD 15 = false

/-- The memory, and how often an engine has been asked. -/
structure Bus where
  memory : ByteMemory
  time : ℕ

variable (E : Engines) (fuel hba i : ℕ)

def readCmd (b : Bus) : UINT × Bus :=
  let cmd := BitVec.ofNat 32 (loadField b.memory (hbaPort hba i) HbaPort.cmd) &&& ~~~0xC000#32
  let cmd := cmd ||| (E.status b.time i cmd &&& 0xC000#32)
  (cmd, ⟨storeField b.memory (hbaPort hba i) HbaPort.cmd cmd.toNat, b.time + 1⟩)

def writeCmd (cmd : UINT) (b : Bus) : Bus :=
  { b with memory := storeField b.memory (hbaPort hba i) HbaPort.cmd cmd.toNat }

/-- One turn of the loop of `stop_cmd`. -/
def stopPoll (b : Bus) : Bool × Bus :=
  let (cmd, b) := readCmd E hba i b
  if cmd &&& (1#32 <<< 14) ≠ 0 then (false, b)
  else
    let (cmd, b) := readCmd E hba i b
    (cmd &&& (1#32 <<< 15) = 0, b)

def stopCmd (b : Bus) : Result Bus :=
  let (cmd, b) := readCmd E hba i b
  let b := writeCmd hba i (cmd &&& ~~~1#32) b
  let (cmd, b) := readCmd E hba i b
  let b := writeCmd hba i (cmd &&& ~~~(1#32 <<< 4)) b
  pollUntil .hang (stopPoll E hba i) fuel b

/-- One turn of the loop of `start_cmd`. -/
def startPoll (b : Bus) : Bool × Bus :=
  let (cmd, b) := readCmd E hba i b
  (cmd &&& (1#32 <<< 15) = 0, b)

def startCmd (b : Bus) : Result Bus := do
  let b ← pollUntil .hang (startPoll E hba i) fuel b
  let (cmd, b) := readCmd E hba i b
  let b := writeCmd hba i (cmd ||| (1#32 <<< 4)) b
  let (cmd, b) := readCmd E hba i b
  return writeCmd hba i (cmd ||| 1#32) b

/-- One turn of the inner loop, the number of which hides that of the port. -/
def setHeader (cmdHeader : ℕ) (memory : ByteMemory) (i : ℕ) : ByteMemory :=
  let header := cmdHeader + sizeofHbaCmdHeader * i
  let memory := storeField memory header HbaCmdHeader.prdtl 8
  let memory := storeField memory header HbaCmdHeader.ctba (AHCI_BASE + (40 <<< 10) + (i <<< 13) + (i <<< 8))
  let memory := storeField memory header HbaCmdHeader.ctbau 0
  memset memory (header + HbaCmdHeader.ctba.offset) 0 256

/-- The two bases: `memset` gets the addresses of the registers. -/
def rebaseRegisters (memory : ByteMemory) : ByteMemory :=
  let port := hbaPort hba i
  let memory := storeField memory port HbaPort.clb (AHCI_BASE + (i <<< 10))
  let memory := storeField memory port HbaPort.clbu 0
  let memory := memset memory (port + HbaPort.clb.offset) 0 1024
  let memory := storeField memory port HbaPort.fb (AHCI_BASE + (32 <<< 10) + (i <<< 8))
  let memory := storeField memory port HbaPort.fbu 0
  memset memory (port + HbaPort.fb.offset) 0 256

/-- What is done between stopping and starting the engine. -/
def rebaseMemory (memory : ByteMemory) : ByteMemory :=
  let memory := rebaseRegisters hba i memory
  (List.range 32).foldl (setHeader (loadField memory (hbaPort hba i) HbaPort.clb)) memory

def rebasePort (b : Bus) : Result Bus := do
  let b ← stopCmd E fuel hba i b
  startCmd E fuel hba i { b with memory := rebaseMemory hba i b.memory }

/-- The loop over the ports. -/
def portLoop : (left i : ℕ) → UINT → Bus → Result Bus
  | 0, _, _, b => .ok b
  | left+1, i, pi, b => do
    let b ← if pi &&& 1 ≠ 0 then rebasePort E fuel hba i b else .ok b
    portLoop left (i+1) (pi >>> 1) b

def portRebase (b : Bus) : Result Bus :=
  portLoop E fuel hba 32 0 (BitVec.ofNat 32 (loadField b.memory hba HbaMem.pi)) b

end Model

section Clearing
variable {memory : ByteMemory} {p a i : ℕ}

lemma memset_apply (memory : ByteMemory) (s : ℕ) (c : UCHAR) (n a : ℕ) :
    memset memory s c n a = if s ≤ a ∧ a < s + n then c else memory a :=
  assign_range (fun _ => c) memory s n a

/-- What is stored into a field and then cleared from another field on has left nothing. -/
lemma memset_storeField {f g : Field} {v n : ℕ} {c : UCHAR} (hle : g.offset ≤ f.offset)
    (hend : f.offset + f.width ≤ g.offset + n) :
    memset (storeField memory p f v) (p + g.offset) c n = memset memory (p + g.offset) c n := by
  funext a
  rw [memset_apply, memset_apply]
  split_ifs with ha
  · rfl
  · exact storeBytes_outside (by omega)

lemma storeField_outside {f : Field} {v : ℕ} (h : a < p + f.offset ∨ p + f.offset + f.width ≤ a) :
    storeField memory p f v a = memory a := storeBytes_outside h

/-- What the command headers at address 0 have in them in the end: `prdtl` is 8, and zeros go from the first `ctba`
to the end of the last 256 bytes. -/
def headerByte (a : ℕ) : Option UCHAR :=
  if a < 1024 ∧ a % 32 = 2 then some 8
  else if a < 1024 ∧ a % 32 = 3 then some 0
  else if 8 ≤ a ∧ a < 1256 then some 0
  else none

lemma setHeader_apply (memory : ByteMemory) (i a : ℕ) : setHeader 0 memory i a =
    if 32 * i + 8 ≤ a ∧ a < 32 * i + 264 then 0
    else if a = 32 * i + 2 then 8
    else if a = 32 * i + 3 then 0
    else memory a := by
  have hheader : setHeader 0 memory i =
      memset (storeField memory (32 * i) HbaCmdHeader.prdtl 8) (32 * i + 8) 0 256 := by
    rw [setHeader, memset_storeField (by decide) (by decide), memset_storeField (by decide) (by decide), Nat.zero_add]
    rfl
  rw [hheader, memset_apply, Nat.add_assoc]
  by_cases hcleared : 32 * i + 8 ≤ a ∧ a < 32 * i + 264
  · rw [if_pos hcleared, if_pos hcleared]
  · rw [if_neg hcleared, if_neg hcleared]
    split_ifs with hfirst hsecond
    · rw [hfirst, storeField, storeBytes, if_pos ⟨le_rfl, Nat.lt_add_of_pos_right (by decide)⟩]
      simp [HbaCmdHeader.prdtl]
    · rw [hsecond, storeField, storeBytes, if_pos (by simp only [HbaCmdHeader.prdtl]; omega)]
      simp [HbaCmdHeader.prdtl]
    · exact storeField_outside (by simp only [HbaCmdHeader.prdtl]; omega)

/-- The headers one after another: each one clears the bytes of the next ones. -/
lemma setHeaders_apply (memory : ByteMemory) (n a : ℕ) : (List.range n).foldl (setHeader 0) memory a =
    if a < 32 * n ∧ a % 32 = 2 then 8
    else if a < 32 * n ∧ a % 32 = 3 then 0
    else if 0 < n ∧ 8 ≤ a ∧ a < 32 * n + 232 then 0
    else memory a := by
  induction n with
  | zero => simp
  | succ n ih =>
    rw [List.range_succ, List.foldl_append, List.foldl_cons, List.foldl_nil, setHeader_apply, ih]
    split_ifs <;> first | rfl | omega

/-- The second `memset` stays in what the first one has cleared. -/
lemma rebaseRegisters_apply (memory : ByteMemory) (hba i a : ℕ) : rebaseRegisters hba i memory a =
    if hbaPort hba i ≤ a ∧ a < hbaPort hba i + 1024 then 0 else memory a := by
  have hcleared : rebaseRegisters hba i memory =
      memset (memset memory (hbaPort hba i) 0 1024) (hbaPort hba i + 8) 0 256 := by
    rw [rebaseRegisters, memset_storeField (by decide) (by decide), memset_storeField (by decide) (by decide),
      memset_storeField (by decide) (by decide), memset_storeField (by decide) (by decide)]
    rfl
  rw [hcleared, memset_apply, memset_apply]
  split_ifs with hsecond hfirst
  · rfl
  · omega
  · rfl
  · rfl

/-- The register is zero when the address of the headers is taken from it. -/
lemma rebaseMemory_apply (memory : ByteMemory) (hba i a : ℕ) : rebaseMemory hba i memory a =
    (headerByte a).getD (if hbaPort hba i ≤ a ∧ a < hbaPort hba i + 1024 then 0 else memory a) := by
  have hclb : loadField (rebaseRegisters hba i memory) (hbaPort hba i) HbaPort.clb = 0 := by
    refine (loadBytes_digits (v := 0) fun k (hk : k < 4) => ?_).trans (Nat.zero_mod _)
    rw [rebaseRegisters_apply, if_pos (by simp only [HbaPort.clb]; omega), Nat.zero_div]
    rfl
  rw [rebaseMemory, hclb, setHeaders_apply, rebaseRegisters_apply, headerByte]
  split_ifs <;> first | rfl | omega

end Clearing

section Waiting
variable {E : Engines} {hba i a k : ℕ} {b b' b'' : Bus}

/-- The `cmd` register of a port. -/
def cmdAt (hba i : ℕ) (b : Bus) : UINT := BitVec.ofNat 32 (loadField b.memory (hbaPort hba i) HbaPort.cmd)

/-- `cmd` without what its engine shows. -/
def control (cmd : UINT) : UINT := cmd &&& ~~~0xC000#32

def CmdByte (hba i a : ℕ) : Prop := hbaPort hba i + 24 ≤ a ∧ a < hbaPort hba i + 28

/-- No other byte than those of the port's `cmd` changes. -/
def OnlyCmd (hba i : ℕ) (b b' : Bus) : Prop := ∀ a, ¬ CmdByte hba i a → b'.memory a = b.memory a

lemma OnlyCmd.trans (h : OnlyCmd hba i b b') (h' : OnlyCmd hba i b' b'') : OnlyCmd hba i b b'' :=
  fun a ha => (h' a ha).trans (h a ha)

lemma getLsbD_control (cmd : UINT) (hk : k ≠ 14 ∧ k ≠ 15) : (control cmd).getLsbD k = cmd.getLsbD k := by
  by_cases hlt : k < 32
  · have hmask : (0xC000#32).getLsbD k = false := by
      revert hk
      interval_cases k <;> decide
    rw [control, BitVec.getLsbD_and, BitVec.getLsbD_not, hmask]
    simp [hlt]
  · rw [BitVec.getLsbD_of_ge _ _ (by omega), BitVec.getLsbD_of_ge _ _ (by omega)]

lemma and_bit_eq_zero_iff (cmd : UINT) (hk : k < 32) : cmd &&& (1#32 <<< k) = 0 ↔ cmd.getLsbD k = false := by
  change cmd &&& BitVec.twoPow 32 k = 0 ↔ _
  have hbit : BitVec.twoPow 32 k ≠ 0 := by
    intro hzero
    have hnat := congrArg BitVec.toNat hzero
    rw [BitVec.toNat_twoPow_of_lt hk] at hnat
    exact absurd hnat (Nat.two_pow_pos k).ne'
  rw [BitVec.and_twoPow]
  split_ifs with h
  · exact iff_of_false hbit (by simp [h])
  · exact iff_of_true rfl (by simpa using h)

lemma cmdAt_writeCmd (cmd : UINT) (b : Bus) : cmdAt hba i (writeCmd hba i cmd b) = cmd := by
  have hload : loadField (storeField b.memory (hbaPort hba i) HbaPort.cmd cmd.toNat) (hbaPort hba i) HbaPort.cmd =
      cmd.toNat % 2^32 := loadBytes_storeBytes _ _ _ _
  rw [cmdAt, writeCmd, hload, ofNat_toNat_mod]

lemma onlyCmd_writeCmd (cmd : UINT) (b : Bus) : OnlyCmd hba i b (writeCmd hba i cmd b) := by
  intro a ha
  refine storeField_outside ?_
  simp only [CmdByte, HbaPort.cmd] at ha ⊢
  omega

lemma control_merged (cmd status : UINT) : control (control cmd ||| (status &&& 0xC000#32)) = control cmd := by
  ext k hk
  simp only [control, BitVec.getElem_and, BitVec.getElem_or, BitVec.getElem_not]
  cases cmd[k] <;> cases status[k] <;> cases (0xC000#32)[k] <;> rfl

lemma getLsbD_merged (cmd status : UINT) (hk : k = 14 ∨ k = 15) :
    (control cmd ||| (status &&& 0xC000#32)).getLsbD k = status.getLsbD k := by
  have hmask : (0xC000#32).getLsbD k = true := by rcases hk with rfl | rfl <;> decide
  rw [control, BitVec.getLsbD_or, BitVec.getLsbD_and, BitVec.getLsbD_and, BitVec.getLsbD_not, hmask]
  simp

structure Read (E : Engines) (hba i : ℕ) (b : Bus) : Prop where
  only : OnlyCmd hba i b (readCmd E hba i b).2
  time : (readCmd E hba i b).2.time = b.time + 1
  cmd : cmdAt hba i (readCmd E hba i b).2 = (readCmd E hba i b).1
  control : control (readCmd E hba i b).1 = control (cmdAt hba i b)
  status : ∀ k, k = 14 ∨ k = 15 →
    (readCmd E hba i b).1.getLsbD k = (E.status b.time i (Drv.control (cmdAt hba i b))).getLsbD k

lemma readCmd_read (E : Engines) (hba i : ℕ) (b : Bus) : Read E hba i b :=
  ⟨onlyCmd_writeCmd _ b, rfl, cmdAt_writeCmd _ b, control_merged _ _, fun _ hk => getLsbD_merged _ _ hk⟩

/-- What the polls keep: everything but the two bits. -/
structure Waits (hba i : ℕ) (b b' : Bus) : Prop where
  only : OnlyCmd hba i b b'
  control : control (cmdAt hba i b') = control (cmdAt hba i b)

lemma Waits.refl (hba i : ℕ) (b : Bus) : Waits hba i b b := ⟨fun _ _ => rfl, rfl⟩

lemma Waits.read (h : Waits hba i b b') (E : Engines) : Waits hba i b (readCmd E hba i b').2 := by
  have hread := readCmd_read E hba i b'
  exact ⟨h.only.trans hread.only, by rw [hread.cmd, hread.control, h.control]⟩

/-- The engine of a port has been asked to stop. -/
structure Asked (hba i : ℕ) (b : Bus) : Prop where
  st : (cmdAt hba i b).getLsbD 0 = false
  fre : (cmdAt hba i b).getLsbD 4 = false

lemma Asked.stops (h : Asked hba i b) (E : Engines) : ∃ T, ∀ t, T ≤ t → ∀ k, k = 14 ∨ k = 15 →
    (E.status t i (control (cmdAt hba i b))).getLsbD k = false := by
  obtain ⟨T, hT⟩ := E.stops i (control (cmdAt hba i b)) (by rw [getLsbD_control _ (by decide), h.st])
    (by rw [getLsbD_control _ (by decide), h.fre])
  refine ⟨T, fun t ht k hk => ?_⟩
  rcases hk with rfl | rfl
  · exact (hT t ht).1
  · exact (hT t ht).2

/-- A read at a time when the engine has stopped. -/
lemma Waits.clear (h : Waits hba i b b') {T : ℕ}
    (hT : ∀ t, T ≤ t → ∀ k, k = 14 ∨ k = 15 → (E.status t i (Drv.control (cmdAt hba i b))).getLsbD k = false)
    (ht : T ≤ b'.time) (hk : k = 14 ∨ k = 15) : (readCmd E hba i b').1.getLsbD k = false := by
  rw [(readCmd_read E hba i b').status k hk, h.control]
  exact hT _ ht k hk

lemma stopPoll_answers (h : Asked hba i b) (E : Engines) :
    ∃ b', Answers (fun fuel => pollUntil Fault.hang (stopPoll E hba i) fuel b) b' ∧ Waits hba i b b' := by
  obtain ⟨T, hT⟩ := h.stops E
  refine pollUntil_answers Bus.time (T := T) (Waits.refl hba i b) (fun b' hb' => ?_) fun b' hb' ht => ?_
  · have htime := (readCmd_read E hba i b').time
    have htime' := (readCmd_read E hba i (readCmd E hba i b').2).time
    rw [stopPoll]
    dsimp only
    split_ifs
    · exact ⟨hb'.read E, by dsimp only; omega⟩
    · exact ⟨(hb'.read E).read E, by dsimp only; omega⟩
  · have hfr : (readCmd E hba i b').1.getLsbD 14 = false := hb'.clear hT ht (.inl rfl)
    have hlater : T ≤ (readCmd E hba i b').2.time := by
      rw [(readCmd_read E hba i b').time]
      omega
    have hcr : (readCmd E hba i (readCmd E hba i b').2).1.getLsbD 15 = false :=
      (hb'.read E).clear hT hlater (.inr rfl)
    rw [stopPoll]
    dsimp only
    rw [if_neg (not_not.mpr ((and_bit_eq_zero_iff _ (by decide)).mpr hfr))]
    exact decide_eq_true ((and_bit_eq_zero_iff _ (by decide)).mpr hcr)

lemma startPoll_answers (h : Asked hba i b) (E : Engines) :
    ∃ b', Answers (fun fuel => pollUntil Fault.hang (startPoll E hba i) fuel b) b' ∧ Waits hba i b b' := by
  obtain ⟨T, hT⟩ := h.stops E
  refine pollUntil_answers Bus.time (T := T) (Waits.refl hba i b) (fun b' hb' => ?_) fun b' hb' ht => ?_
  · have htime := (readCmd_read E hba i b').time
    exact ⟨hb'.read E, by rw [startPoll]; dsimp only; omega⟩
  · have hcr : (readCmd E hba i b').1.getLsbD 15 = false := hb'.clear hT ht (.inr rfl)
    exact decide_eq_true ((and_bit_eq_zero_iff _ (by decide)).mpr hcr)

/-- A command engine is stopped, and nothing else changes. -/
lemma stopCmd_answers (E : Engines) (hba i : ℕ) (b : Bus) :
    ∃ b', Answers (fun fuel => stopCmd E fuel hba i b) b' ∧ OnlyCmd hba i b b' := by
  have hread := readCmd_read E hba i b
  let b₁ := writeCmd hba i ((readCmd E hba i b).1 &&& ~~~1#32) (readCmd E hba i b).2
  have hread₁ := readCmd_read E hba i b₁
  let b₂ := writeCmd hba i ((readCmd E hba i b₁).1 &&& ~~~(1#32 <<< 4)) (readCmd E hba i b₁).2
  have hst : (readCmd E hba i b₁).1.getLsbD 0 = false := by
    rw [← getLsbD_control _ (by decide), hread₁.control, getLsbD_control _ (by decide), cmdAt_writeCmd]
    simp
  have hasked : Asked hba i b₂ := by
    refine ⟨?_, ?_⟩
    · rw [cmdAt_writeCmd, BitVec.getLsbD_and, hst, Bool.false_and]
    · rw [cmdAt_writeCmd]
      simp
  obtain ⟨b', hb', hwaits⟩ := stopPoll_answers hasked E
  exact ⟨b', hb', (((hread.only.trans (onlyCmd_writeCmd _ _)).trans hread₁.only).trans
    (onlyCmd_writeCmd _ _)).trans hwaits.only⟩

lemma startCmd_answers (h : Asked hba i b) (E : Engines) :
    ∃ b', Answers (fun fuel => startCmd E fuel hba i b) b' ∧ OnlyCmd hba i b b' := by
  obtain ⟨b₁, hb₁, hwaits⟩ := startPoll_answers h E
  have hread := readCmd_read E hba i b₁
  let b₂ := writeCmd hba i ((readCmd E hba i b₁).1 ||| (1#32 <<< 4)) (readCmd E hba i b₁).2
  have hread₂ := readCmd_read E hba i b₂
  refine ⟨_, hb₁.bind (.const _), ?_⟩
  exact (((hwaits.only.trans hread.only).trans (onlyCmd_writeCmd _ _)).trans hread₂.only).trans (onlyCmd_writeCmd _ _)

end Waiting

section Effects
variable {E : Engines} {hba i a : ℕ} {ports ports' : ℕ → Prop} {m m' m'' : ByteMemory}

/-- The bytes that are cleared for a port: its registers, and those of the next seven. -/
def Covers (hba p a : ℕ) : Prop := hbaPort hba p ≤ a ∧ a < hbaPort hba p + 1024

/-- No byte of the `cmd` registers of these ports. -/
def Plain (hba : ℕ) (ports : ℕ → Prop) (a : ℕ) : Prop := ∀ p, ports p → ¬ CmdByte hba p a

/-- What setting up some ports does to the memory, their `cmd` registers apart. -/
structure Effect (hba : ℕ) (ports : ℕ → Prop) (m m' : ByteMemory) : Prop where
  header : ∀ a v, Plain hba ports a → (∃ p, ports p) → headerByte a = some v → m' a = v
  cleared : ∀ a p, Plain hba ports a → ports p → Covers hba p a → headerByte a = none → m' a = 0
  kept : ∀ a, Plain hba ports a → (∀ p, ports p → ¬ Covers hba p a) → headerByte a = none → m' a = m a
  idle : (∀ p, ¬ ports p) → m' = m

lemma Effect.refl (h : ∀ p, ¬ ports p) (m : ByteMemory) : Effect hba ports m m :=
  ⟨fun _ _ _ ⟨p, hp⟩ => absurd hp (h p), fun _ p _ hp => absurd hp (h p), fun _ _ _ _ => rfl, fun _ => rfl⟩

lemma Effect.congr (h : Effect hba ports m m') (hports : ∀ p, ports p ↔ ports' p) : Effect hba ports' m m' := by
  obtain rfl : ports = ports' := funext fun p => propext (hports p)
  exact h

/-- The ports of a later part come on top. -/
lemma Effect.trans (h : Effect hba ports m m') (h' : Effect hba ports' m' m'') :
    Effect hba (fun p => ports p ∨ ports' p) m m'' := by
  refine ⟨fun a v hplain hsome hv => ?_, fun a p hplain hp hcovers hnone => ?_, fun a hplain hfree hnone => ?_,
    fun hnot => ?_⟩
  · by_cases hlater : ∃ p, ports' p
    · exact h'.header a v (fun p hp => hplain p (.inr hp)) hlater hv
    · obtain ⟨p, hp⟩ := hsome
      have hp : ports p := hp.resolve_right fun hp' => hlater ⟨p, hp'⟩
      rw [h'.idle fun p hp' => hlater ⟨p, hp'⟩]
      exact h.header a v (fun p hp => hplain p (.inl hp)) ⟨p, hp⟩ hv
  · have hplain' : Plain hba ports' a := fun p hp => hplain p (.inr hp)
    by_cases hlater : ∃ p', ports' p' ∧ Covers hba p' a
    · obtain ⟨p', hp', hcovers'⟩ := hlater
      exact h'.cleared a p' hplain' hp' hcovers' hnone
    · push Not at hlater
      have hp : ports p := hp.resolve_right fun hp' => hlater p hp' hcovers
      rw [h'.kept a hplain' hlater hnone]
      exact h.cleared a p (fun p hp => hplain p (.inl hp)) hp hcovers hnone
  · rw [h'.kept a (fun p hp => hplain p (.inr hp)) (fun p hp => hfree p (.inr hp)) hnone]
    exact h.kept a (fun p hp => hplain p (.inl hp)) (fun p hp => hfree p (.inl hp)) hnone
  · rw [h'.idle fun p hp => hnot p (.inr hp)]
    exact h.idle fun p hp => hnot p (.inl hp)

/-- What the code wants to point to its own memory is cleared, or is a part of the headers at address 0. -/
lemma Effect.low (h : Effect hba ports m m') (hplain : Plain hba ports a) {p : ℕ} (hp : ports p)
    (hcovers : Covers hba p a) : m' a = 0 ∨ m' a = 8 := by
  cases hbyte : headerByte a with
  | none => exact .inl (h.cleared a p hplain hp hcovers hbyte)
  | some v =>
    rw [h.header a v hplain ⟨p, hp⟩ hbyte]
    rw [headerByte] at hbyte
    split_ifs at hbyte
    · exact .inr (Option.some.inj hbyte).symm
    · exact .inl (Option.some.inj hbyte).symm
    · exact .inl (Option.some.inj hbyte).symm

lemma rebaseMemory_effect (hba i : ℕ) (m : ByteMemory) : Effect hba (· = i) m (rebaseMemory hba i m) := by
  refine ⟨fun a v _ _ hv => ?_, fun a p _ hp hcovers hnone => ?_, fun a _ hfree hnone => ?_,
    fun hnot => absurd rfl (hnot i)⟩
  · rw [rebaseMemory_apply, hv, Option.getD_some]
  · obtain rfl : p = i := hp
    rw [rebaseMemory_apply, hnone, Option.getD_none]
    exact if_pos hcovers
  · rw [rebaseMemory_apply, hnone, Option.getD_none]
    exact if_neg (hfree i rfl)

lemma getLsbD_cmdAt (b : Bus) {k : ℕ} (hk : k < 8) :
    (cmdAt hba i b).getLsbD k = (b.memory (hbaPort hba i + 24)).getLsbD k := by
  have hload : loadField b.memory (hbaPort hba i) HbaPort.cmd =
      2^8 * loadBytes b.memory (hbaPort hba i + 24 + 1) 3 + (b.memory (hbaPort hba i + 24)).toNat :=
    Nat.add_comm _ _
  rw [cmdAt, hload, BitVec.getLsbD_ofNat, Nat.testBit_two_pow_mul_add _ (BitVec.isLt _), if_pos hk,
    BitVec.testBit_toNat]
  simp [show k < 32 by omega]

lemma asked_of_byte {b : Bus} (h : b.memory (hbaPort hba i + 24) = 0 ∨ b.memory (hbaPort hba i + 24) = 8) :
    Asked hba i b := by
  refine ⟨?_, ?_⟩
  · rw [getLsbD_cmdAt _ (by decide)]
    rcases h with h | h <;> rw [h] <;> decide
  · rw [getLsbD_cmdAt _ (by decide)]
    rcases h with h | h <;> rw [h] <;> decide

/-- The `cmd` register is cleared as well. -/
lemma asked_rebaseMemory (hba i : ℕ) (b : Bus) : Asked hba i { b with memory := rebaseMemory hba i b.memory } := by
  apply asked_of_byte
  dsimp only
  rw [rebaseMemory_apply, if_pos (by omega), headerByte]
  split_ifs
  · exact .inr rfl
  · exact .inl rfl
  · exact .inl rfl
  · exact .inl rfl

/-- Stopping and starting an engine is of no effect elsewhere. -/
lemma Effect.between {m₁ m₂ m₃ : ByteMemory} (h : Effect hba (· = i) m₁ m₂)
    (hstop : ∀ a, ¬ CmdByte hba i a → m₁ a = m a) (hstart : ∀ a, ¬ CmdByte hba i a → m₃ a = m₂ a) :
    Effect hba (· = i) m m₃ := by
  refine ⟨fun a v hplain hsome hv => ?_, fun a p hplain hp hcovers hnone => ?_, fun a hplain hfree hnone => ?_,
    fun hnot => absurd rfl (hnot i)⟩
  · rw [hstart a (hplain i rfl)]
    exact h.header a v hplain hsome hv
  · rw [hstart a (hplain i rfl)]
    exact h.cleared a p hplain hp hcovers hnone
  · rw [hstart a (hplain i rfl), h.kept a hplain hfree hnone]
    exact hstop a (hplain i rfl)

/-- One implemented port. -/
lemma rebasePort_answers (E : Engines) (hba i : ℕ) (b : Bus) :
    ∃ b', Answers (fun fuel => rebasePort E fuel hba i b) b' ∧ Effect hba (· = i) b.memory b'.memory := by
  obtain ⟨b₁, hb₁, hstop⟩ := stopCmd_answers E hba i b
  obtain ⟨b₂, hb₂, hstart⟩ := startCmd_answers (asked_rebaseMemory hba i b₁) E
  refine ⟨b₂, hb₁.bind hb₂, (rebaseMemory_effect hba i b₁.memory).between hstop fun a ha => ?_⟩
  rw [hstart a ha]

/-- The ports that a mask has from a number on. -/
def Masked (left i : ℕ) (pi : UINT) (p : ℕ) : Prop := ∃ k < left, pi.getLsbD k = true ∧ p = i + k

lemma masked_succ (left i : ℕ) (pi : UINT) (p : ℕ) :
    Masked (left+1) i pi p ↔ (pi.getLsbD 0 = true ∧ p = i) ∨ Masked left (i+1) (pi >>> 1) p := by
  constructor
  · rintro ⟨k, hk, hbit, rfl⟩
    cases k with
    | zero => exact .inl ⟨hbit, rfl⟩
    | succ k =>
      refine .inr ⟨k, by omega, ?_, by omega⟩
      rwa [BitVec.getLsbD_ushiftRight, Nat.add_comm]
  · rintro (⟨hbit, rfl⟩ | ⟨k, hk, hbit, rfl⟩)
    · exact ⟨0, Nat.succ_pos _, hbit, rfl⟩
    · refine ⟨k+1, by omega, ?_, by omega⟩
      rwa [BitVec.getLsbD_ushiftRight, Nat.add_comm] at hbit

/-- The run over all ports. -/
theorem portLoop_answers (E : Engines) (hba left i : ℕ) (pi : UINT) (b : Bus) :
    ∃ b', Answers (fun fuel => portLoop E fuel hba left i pi b) b' ∧
      Effect hba (Masked left i pi) b.memory b'.memory := by
  induction left generalizing i pi b with
  | zero => exact ⟨b, .const b, .refl (fun p ⟨k, hk, _⟩ => absurd hk (Nat.not_lt_zero k)) _⟩
  | succ left ih =>
    have hbit : pi &&& 1 = 0 ↔ pi.getLsbD 0 = false := and_bit_eq_zero_iff pi (k := 0) (by decide)
    by_cases hset : pi &&& 1 = 0
    · obtain ⟨b', hb', hrest⟩ := ih (i+1) (pi >>> 1) b
      refine ⟨b', ?_, hrest.congr fun p => ?_⟩
      · simp only [portLoop, hset, ne_eq, not_true_eq_false, if_false, ok_bind]
        exact hb'
      · rw [masked_succ, hbit.mp hset]
        simp
    · obtain ⟨b₁, hb₁, heffect⟩ := rebasePort_answers E hba i b
      obtain ⟨b₂, hb₂, hrest⟩ := ih (i+1) (pi >>> 1) b₁
      refine ⟨b₂, ?_, (heffect.trans hrest).congr fun p => ?_⟩
      · simp only [portLoop, hset, ne_eq, not_false_eq_true, if_true]
        exact hb₁.bind hb₂
      · rw [masked_succ, and_iff_right (by simpa using mt hbit.mpr hset)]

end Effects

end Open98.Drv
