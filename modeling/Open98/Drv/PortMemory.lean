import Open98.Drv.PortRebase

/-! The memory that the ports use after `port_rebase`. -/
namespace Open98.Drv
open Library

variable {hba p : ℕ} {m m' : ByteMemory}

/-- The port is in the mask of the implemented ones. -/
def Implemented (hba : ℕ) (m : ByteMemory) (p : ℕ) : Prop :=
  p < 32 ∧ (BitVec.ofNat 32 (loadField m hba HbaMem.pi)).getLsbD p = true

/-- What the registers and the command headers say where memory is used. -/
inductive Region
  | commandList (port : ℕ)
  | receivedFis (port : ℕ)
  | commandTable (port slot : ℕ)

namespace Region

def base (hba : ℕ) (m : ByteMemory) : Region → ℕ
  | commandList p => loadField m (hbaPort hba p) HbaPort.clb
  | receivedFis p => loadField m (hbaPort hba p) HbaPort.fb
  | commandTable p slot =>
    loadField m (loadField m (hbaPort hba p) HbaPort.clb + sizeofHbaCmdHeader * slot) HbaCmdHeader.ctba

def size : Region → ℕ
  | commandList _ => 1024
  | receivedFis _ => 256
  | commandTable _ _ => 256

def InUse (hba : ℕ) (m : ByteMemory) : Region → Prop
  | commandList p => Implemented hba m p
  | receivedFis p => Implemented hba m p
  | commandTable p slot => Implemented hba m p ∧ slot < 32

end Region

/-- Each implemented port has memory of its own, at the places that the comments give, and no register but the
bases and `cmd` has changed. -/
structure Rebased (hba : ℕ) (before after : ByteMemory) : Prop where
  clb : ∀ p, Implemented hba before p → loadField after (hbaPort hba p) HbaPort.clb = AHCI_BASE + 2^10 * p
  fb : ∀ p, Implemented hba before p → loadField after (hbaPort hba p) HbaPort.fb = AHCI_BASE + 2^15 + 2^8 * p
  apart : ∀ r r' : Region, r.InUse hba before → r'.InUse hba before → r ≠ r' →
    r.base hba after + r.size ≤ r'.base hba after ∨ r'.base hba after + r'.size ≤ r.base hba after
  frame : ∀ q < 32, ∀ o < 0x80, 16 ≤ o → ¬ (24 ≤ o ∧ o < 28) → after (hbaPort hba q + o) = before (hbaPort hba q + o)

/-- Where the code wants the regions, with the numbers of the port and of the slot kept apart. -/
def Region.planned : Region → ℕ
  | commandList p => AHCI_BASE + (p <<< 10)
  | receivedFis p => AHCI_BASE + (32 <<< 10) + (p <<< 8)
  | commandTable p slot => AHCI_BASE + (40 <<< 10) + (p <<< 13) + (slot <<< 8)

lemma Region.planned_apart {r r' : Region} (hr : r.InUse hba m) (hr' : r'.InUse hba m) (hne : r ≠ r') :
    r.planned + r.size ≤ r'.planned ∨ r'.planned + r'.size ≤ r.planned := by
  cases r with
  | commandList p =>
    have hp : p < 32 := hr.1
    cases r' with
    | commandList p' =>
      have hports : p ≠ p' := fun h => hne (congrArg _ h)
      simp only [planned, size, Nat.shiftLeft_eq]
      omega
    | receivedFis p' => simp only [planned, size, Nat.shiftLeft_eq]; omega
    | commandTable p' slot' => simp only [planned, size, Nat.shiftLeft_eq]; omega
  | receivedFis p =>
    have hp : p < 32 := hr.1
    cases r' with
    | commandList p' =>
      have hp' : p' < 32 := hr'.1
      simp only [planned, size, Nat.shiftLeft_eq]
      omega
    | receivedFis p' =>
      have hports : p ≠ p' := fun h => hne (congrArg _ h)
      simp only [planned, size, Nat.shiftLeft_eq]
      omega
    | commandTable p' slot' => simp only [planned, size, Nat.shiftLeft_eq]; omega
  | commandTable p slot =>
    have hslot : slot < 32 := hr.2
    cases r' with
    | commandList p' =>
      have hp' : p' < 32 := hr'.1
      simp only [planned, size, Nat.shiftLeft_eq]
      omega
    | receivedFis p' =>
      have hp' : p' < 32 := hr'.1
      simp only [planned, size, Nat.shiftLeft_eq]
      omega
    | commandTable p' slot' =>
      have hslot' : slot' < 32 := hr'.2
      have hplaces : ¬ (p = p' ∧ slot = slot') := fun ⟨hports, hslots⟩ => hne (by rw [hports, hslots])
      simp only [planned, size, Nat.shiftLeft_eq]
      omega

/-- The plan would do. -/
theorem Rebased.of_planned {before after : ByteMemory}
    (hbase : ∀ r : Region, r.InUse hba before → r.base hba after = r.planned)
    (hframe : ∀ q < 32, ∀ o < 0x80, 16 ≤ o → ¬ (24 ≤ o ∧ o < 28) →
      after (hbaPort hba q + o) = before (hbaPort hba q + o)) : Rebased hba before after := by
  refine ⟨fun p hp => ?_, fun p hp => ?_, fun r r' hr hr' hne => ?_, hframe⟩
  · have hclb := hbase (.commandList p) hp
    simp only [Region.base, Region.planned, Nat.shiftLeft_eq] at hclb
    omega
  · have hfb := hbase (.receivedFis p) hp
    simp only [Region.base, Region.planned, Nat.shiftLeft_eq] at hfb
    omega
  · rw [hbase r hr, hbase r' hr']
    exact Region.planned_apart hr hr' hne

lemma masked_iff (hba : ℕ) (m : ByteMemory) (p : ℕ) :
    Masked 32 0 (BitVec.ofNat 32 (loadField m hba HbaMem.pi)) p ↔ Implemented hba m p := by
  constructor
  · rintro ⟨k, hk, hbit, rfl⟩
    rw [Nat.zero_add]
    exact ⟨hk, hbit⟩
  · rintro ⟨hlt, hbit⟩
    exact ⟨p, hlt, hbit, (Nat.zero_add p).symm⟩

/-- The loops end, and this is what they do to the memory. -/
theorem portRebase_answers (E : Engines) (hba : ℕ) (b : Bus) :
    ∃ b', Answers (fun fuel => portRebase E fuel hba b) b' ∧
      Effect hba (Implemented hba b.memory) b.memory b'.memory := by
  obtain ⟨b', hb', heffect⟩ := portLoop_answers E hba 32 0 (BitVec.ofNat 32 (loadField b.memory hba HbaMem.pi)) b
  exact ⟨b', hb', heffect.congr (masked_iff hba b.memory)⟩

lemma exists_implemented (h : loadField m hba HbaMem.pi ≠ 0) : ∃ p, Implemented hba m p := by
  by_contra hnone
  push Not at hnone
  have hzero : BitVec.ofNat 32 (loadField m hba HbaMem.pi) = 0#32 := by
    refine BitVec.eq_of_getLsbD_eq fun p hp => ?_
    rw [BitVec.getLsbD_zero]
    exact Bool.eq_false_of_not_eq_true fun hbit => hnone p ⟨hp, hbit⟩
  have hlt : loadField m hba HbaMem.pi < 2^32 := loadBytes_lt _ _ 4
  have hnat := congrArg BitVec.toNat hzero
  rw [BitVec.toNat_ofNat, Nat.mod_eq_of_lt hlt] at hnat
  exact h hnat

/-- Bytes of a port's registers other than `cmd`. -/
lemma plain_register {ports : ℕ → Prop} {q o : ℕ} (ho : o < 0x80) (hcmd : ¬ (24 ≤ o ∧ o < 28)) :
    Plain hba ports (hbaPort hba q + o) := by
  intro p _ hp
  rw [CmdByte, hbaPort, hbaPort] at hp
  omega

/-- No port has its base. -/
lemma Effect.not_rebased (h : Effect hba (Implemented hba m) m m') (hp : Implemented hba m p) : ¬ Rebased hba m m' := by
  intro hrebased
  have hlt := hp.1
  have hbyte : BitVec.ofNat 8 (loadField m' (hbaPort hba p) HbaPort.clb / 2^(8*2)) = m' (hbaPort hba p + 2) :=
    byte_loadBytes (by decide)
  have hbase : (AHCI_BASE + 2^10 * p) / 2^(8*2) = 64 := by
    rw [AHCI_BASE]
    omega
  rw [hrebased.clb p hp, hbase] at hbyte
  rcases h.low (plain_register (by decide) (by decide)) hp ⟨Nat.le_add_right _ 2, by omega⟩ with hlow | hlow
  · rw [hlow] at hbyte
    exact absurd hbyte (by decide)
  · rw [hlow] at hbyte
    exact absurd hbyte (by decide)

/-- Without a port nothing is done. -/
lemma Effect.rebased (h : Effect hba (Implemented hba m) m m') (hnone : ∀ p, ¬ Implemented hba m p) :
    Rebased hba m m' := by
  rw [h.idle hnone]
  refine ⟨fun p hp => absurd hp (hnone p), fun p hp => absurd hp (hnone p), fun r r' hr => ?_, fun _ _ _ _ _ _ => rfl⟩
  cases r with
  | commandList p => exact absurd hr (hnone p)
  | receivedFis p => exact absurd hr (hnone p)
  | commandTable p slot => exact absurd hr.1 (hnone p)

/-- The ports get their memory exactly if there is none. -/
theorem portRebase_rebased_iff (E : Engines) (hba : ℕ) (b : Bus) :
    ∃ b', Answers (fun fuel => portRebase E fuel hba b) b' ∧
      (Rebased hba b.memory b'.memory ↔ loadField b.memory hba HbaMem.pi = 0) := by
  obtain ⟨b', hb', heffect⟩ := portRebase_answers E hba b
  refine ⟨b', hb', fun hrebased => ?_, fun hzero => heffect.rebased fun p hp => ?_⟩
  · by_contra hne
    obtain ⟨p, hp⟩ := exists_implemented hne
    exact heffect.not_rebased hp hrebased
  · have hbit := hp.2
    rw [hzero] at hbit
    exact absurd hbit (by simp)

/-- No engine ever runs. -/
def idleEngines : Engines := ⟨fun _ _ _ => 0, fun _ _ _ _ => ⟨0, fun _ _ => ⟨rfl, rfl⟩⟩⟩

/-- A controller with one port. -/
def onePort : Bus := ⟨fun a => if a = 0xFEBF000C then 1 else 0, 0⟩

theorem one_port_not_rebased : ∃ b', Answers (fun fuel => portRebase idleEngines fuel 0xFEBF0000 onePort) b' ∧
    ¬ Rebased 0xFEBF0000 onePort.memory b'.memory := by
  obtain ⟨b', hb', heffect⟩ := portRebase_answers idleEngines 0xFEBF0000 onePort
  exact ⟨b', hb', heffect.not_rebased (p := 0) ⟨by decide, by decide⟩⟩

lemma covers_register {q o : ℕ} (ho : o < 0x80) : Covers hba p (hbaPort hba q + o) ↔ p ≤ q ∧ q < p + 8 := by
  rw [Covers, hbaPort, hbaPort]
  omega

lemma headerByte_register {q o : ℕ} (hfar : 1256 ≤ hba + 0x100) : headerByte (hbaPort hba q + o) = none := by
  rw [headerByte, hbaPort]
  split_ifs
  · omega
  · omega
  · omega
  · rfl

/-- With the controller not at address 0: the registers of a port and of the next seven are cleared, and all
others kept. -/
theorem portRebase_registers (E : Engines) (b : Bus) (hfar : 1256 ≤ hba + 0x100) :
    ∃ b', Answers (fun fuel => portRebase E fuel hba b) b' ∧ ∀ q, ∀ o < 0x80, ¬ (24 ≤ o ∧ o < 28) →
      ((∃ p, Implemented hba b.memory p ∧ p ≤ q ∧ q < p + 8) → b'.memory (hbaPort hba q + o) = 0) ∧
      ((∀ p, Implemented hba b.memory p → ¬ (p ≤ q ∧ q < p + 8)) →
        b'.memory (hbaPort hba q + o) = b.memory (hbaPort hba q + o)) := by
  obtain ⟨b', hb', heffect⟩ := portRebase_answers E hba b
  refine ⟨b', hb', fun q o ho hcmd => ⟨fun ⟨p, hp, hnear⟩ => ?_, fun hfree => ?_⟩⟩
  · exact heffect.cleared _ p (plain_register ho hcmd) hp ((covers_register ho).mpr hnear) (headerByte_register hfar)
  · exact heffect.kept _ (plain_register ho hcmd) (fun p hp => mt (covers_register ho).mp (hfree p hp))
      (headerByte_register hfar)

/-- All command lists and all received FISes are at address 0. -/
theorem portRebase_bases_zero (E : Engines) (b : Bus) (hfar : 1256 ≤ hba + 0x100) :
    ∃ b', Answers (fun fuel => portRebase E fuel hba b) b' ∧ ∀ p, Implemented hba b.memory p →
      (Region.commandList p).base hba b'.memory = 0 ∧ (Region.receivedFis p).base hba b'.memory = 0 := by
  obtain ⟨b', hb', hregisters⟩ := portRebase_registers E b hfar
  have hzero : ∀ p, Implemented hba b.memory p → ∀ f : Field, f.width = 4 → f.offset + 4 ≤ 24 →
      loadField b'.memory (hbaPort hba p) f = 0 := by
    intro p hp f hwidth hoffset
    refine (loadBytes_digits (v := 0) fun k hk => ?_).trans (Nat.zero_mod _)
    rw [Nat.add_assoc, (hregisters p (f.offset + k) (by omega) (by omega)).1 ⟨p, hp, le_rfl, by omega⟩, Nat.zero_div]
    rfl
  exact ⟨b', hb', fun p hp => ⟨hzero p hp _ rfl (by decide), hzero p hp _ rfl (by decide)⟩⟩

end Open98.Drv
