import Open98.Library.Records
import Open98.Library.Run

/-! A heap that may hand out any memory that is not allocated: blocks of addresses over a byte
memory, each with the owner that asked for it. What is freed keeps its contents until it is handed
out again. -/
namespace Open98.Library

variable {κ : Type*}

/-- The `size` addresses from `start` on. -/
structure Block (κ : Type*) where
  start : ℕ
  size : ℕ
  owner : κ
deriving DecidableEq

def Block.Contains (b : Block κ) (a : ℕ) : Prop := b.start ≤ a ∧ a < b.start + b.size

instance (b : Block κ) : DecidablePred b.Contains := fun a =>
  inferInstanceAs (Decidable (b.start ≤ a ∧ a < b.start + b.size))

/-- The block does not meet the `size` addresses from `p` on. -/
def Block.Clear (b : Block κ) (p size : ℕ) : Prop := ∀ a, p ≤ a → a < p + size → ¬ b.Contains a

structure BlockHeap (κ : Type*) where
  blocks : List (Block κ)
  mem : ByteMemory

namespace BlockHeap
variable {h : BlockHeap κ}

/-- A block that the heap may hand out. -/
structure Vacant (h : BlockHeap κ) (b : Block κ) : Prop where
  start_pos : 0 < b.start
  size_pos : 0 < b.size
  le : b.start + b.size ≤ 2^64
  clear : ∀ c ∈ h.blocks, c.Clear b.start b.size

def malloc (h : BlockHeap κ) (b : Block κ) : BlockHeap κ := { h with blocks := b :: h.blocks }

def free (h : BlockHeap κ) (p : ℕ) : BlockHeap κ :=
  { h with blocks := h.blocks.filter fun b => b.start ≠ p }

def update (h : BlockHeap κ) (f : ByteMemory → ByteMemory) : BlockHeap κ := { h with mem := f h.mem }

@[simp] lemma malloc_blocks (b : Block κ) : (h.malloc b).blocks = b :: h.blocks := rfl
@[simp] lemma malloc_mem (b : Block κ) : (h.malloc b).mem = h.mem := rfl
@[simp] lemma free_mem (p : ℕ) : (h.free p).mem = h.mem := rfl
@[simp] lemma update_blocks (f : ByteMemory → ByteMemory) : (h.update f).blocks = h.blocks := rfl
@[simp] lemma update_mem (f : ByteMemory → ByteMemory) : (h.update f).mem = f h.mem := rfl

lemma mem_free {p : ℕ} {b : Block κ} : b ∈ (h.free p).blocks ↔ b ∈ h.blocks ∧ b.start ≠ p := by
  simp [free]

/-- Allocated blocks have addresses, and no two of them meet. -/
structure Sane (h : BlockHeap κ) : Prop where
  size_pos : ∀ b ∈ h.blocks, 0 < b.size
  apart : ∀ b ∈ h.blocks, ∀ c ∈ h.blocks, b ≠ c → b.Clear c.start c.size

/-- None of the `size` addresses from `p` on is allocated. -/
def Unallocated (h : BlockHeap κ) (p size : ℕ) : Prop := ∀ b ∈ h.blocks, b.Clear p size

end BlockHeap

lemma Block.Clear.symm {b c : Block κ} (h : b.Clear c.start c.size) : c.Clear b.start b.size :=
  fun a ha hlt hc => h a hc.1 hc.2 ⟨ha, hlt⟩

/-- Two blocks that do not meet start at different addresses. -/
lemma Block.Clear.start_ne {b c : Block κ} (h : b.Clear c.start c.size) (hb : 0 < b.size)
    (hc : 0 < c.size) : b.start ≠ c.start := by
  intro heq
  exact h b.start heq.ge (by omega) ⟨le_rfl, by omega⟩

namespace BlockHeap
variable {h : BlockHeap κ}

lemma Sane.eq_of_start (hs : h.Sane) {b c : Block κ} (hb : b ∈ h.blocks) (hc : c ∈ h.blocks)
    (hstart : b.start = c.start) : b = c := by
  by_contra hne
  exact (hs.apart b hb c hc hne).start_ne (hs.size_pos b hb) (hs.size_pos c hc) hstart

lemma Sane.malloc (hs : h.Sane) {b : Block κ} (hb : h.Vacant b) : (h.malloc b).Sane where
  size_pos c hc := by
    rcases List.mem_cons.mp hc with rfl | hc
    · exact hb.size_pos
    · exact hs.size_pos c hc
  apart c hc e he hne := by
    rcases List.mem_cons.mp hc with hcb | hc
    · rw [hcb] at hne ⊢
      rcases List.mem_cons.mp he with heb | he
      · exact absurd heb.symm hne
      · exact (hb.clear e he).symm
    · rcases List.mem_cons.mp he with heb | he
      · rw [heb]
        exact hb.clear c hc
      · exact hs.apart c hc e he hne

lemma Sane.free (hs : h.Sane) (p : ℕ) : (h.free p).Sane where
  size_pos b hb := hs.size_pos b (mem_free.mp hb).1
  apart b hb c hc := hs.apart b (mem_free.mp hb).1 c (mem_free.mp hc).1

lemma Sane.update (hs : h.Sane) (f : ByteMemory → ByteMemory) : (h.update f).Sane :=
  ⟨hs.size_pos, hs.apart⟩

lemma Vacant.of_subset {h' : BlockHeap κ} {b : Block κ} (hb : h.Vacant b)
    (hsub : ∀ c ∈ h'.blocks, c ∈ h.blocks) : h'.Vacant b :=
  ⟨hb.start_pos, hb.size_pos, hb.le, fun c hc => hb.clear c (hsub c hc)⟩

/-- What a block held is unallocated once it is freed. -/
lemma Sane.free_unallocated (hs : h.Sane) {b : Block κ} (hb : b ∈ h.blocks) :
    (h.free b.start).Unallocated b.start b.size := by
  intro c hc
  obtain ⟨hc, hne⟩ := mem_free.mp hc
  exact hs.apart c hc b hb fun heq => hne (congrArg Block.start heq)

lemma Unallocated.free {p size : ℕ} (hu : h.Unallocated p size) (q : ℕ) :
    (h.free q).Unallocated p size := fun b hb => hu b (mem_free.mp hb).1

lemma Unallocated.update {p size : ℕ} (hu : h.Unallocated p size) (f : ByteMemory → ByteMemory) :
    (h.update f).Unallocated p size := fun b hb => hu b hb

lemma Unallocated.malloc {p size : ℕ} (hu : h.Unallocated p size) {b : Block κ}
    (hb : b.Clear p size) : (h.malloc b).Unallocated p size := by
  intro c hc
  rcases List.mem_cons.mp hc with rfl | hc
  · exact hb
  · exact hu c hc

end BlockHeap

/-- What other code does with the heap. -/
inductive Traffic (κ : Type*)
  | malloc (b : Block κ)
  | free (p : ℕ)
  | write (a : ℕ) (v : BitVec 8)

namespace Traffic

def apply (h : BlockHeap κ) : Traffic κ → BlockHeap κ
  | .malloc b => h.malloc b
  | .free p => h.free p
  | .write a v => h.update fun mem => Function.update mem a v

/-- It gets what is not allocated, and frees and writes only what was given to it. -/
def Fair (other : κ) (h : BlockHeap κ) : Traffic κ → Prop
  | .malloc b => b.owner = other ∧ h.Vacant b
  | .free p => ∃ b ∈ h.blocks, b.start = p ∧ b.owner = other
  | .write a _ => ∃ b ∈ h.blocks, b.owner = other ∧ b.Contains a

/-- Neither is it given any of the `size` addresses from `p` on. -/
def Avoids (p size : ℕ) : Traffic κ → Prop
  | .malloc b => b.Clear p size
  | _ => True

/-- A sequence of such steps. -/
def Run (other : κ) (h : BlockHeap κ) (traffic : List (Traffic κ)) (h' : BlockHeap κ) : Prop :=
  GuardedRun (Fair other) (fun h t => some (apply h t)) h traffic h'

variable {other : κ} {h h' : BlockHeap κ} {traffic : List (Traffic κ)}

lemma Fair.sane {t : Traffic κ} (hfair : t.Fair other h) (hs : h.Sane) : (t.apply h).Sane := by
  cases t with
  | malloc b => exact hs.malloc hfair.2
  | free p => exact hs.free p
  | write a v => exact hs.update fun mem => Function.update mem a v

/-- The blocks of everybody else stay as they are. -/
lemma Fair.mem_blocks {t : Traffic κ} (hfair : t.Fair other h) (hs : h.Sane) {b : Block κ}
    (hb : b.owner ≠ other) : b ∈ (t.apply h).blocks ↔ b ∈ h.blocks := by
  cases t with
  | malloc c =>
    have hne : b ≠ c := fun heq => hb (heq ▸ hfair.1)
    simp [apply, hne]
  | free p =>
    obtain ⟨c, hc, rfl, hother⟩ := hfair
    rw [apply, BlockHeap.mem_free]
    refine and_iff_left_of_imp fun hmem hstart => hb ?_
    rw [hs.eq_of_start hmem hc hstart]
    exact hother
  | write a v => rfl

/-- Memory that is not allocated, or is somebody else's block, keeps its contents. -/
lemma Fair.mem_eq {t : Traffic κ} (hfair : t.Fair other h) {a : ℕ}
    (ha : ∀ b ∈ h.blocks, b.owner = other → ¬ b.Contains a) : (t.apply h).mem a = h.mem a := by
  cases t with
  | malloc b => rfl
  | free p => rfl
  | write a' v =>
    obtain ⟨b, hb, hother, hcontains⟩ := hfair
    apply Function.update_of_ne
    rintro rfl
    exact ha b hb hother hcontains

lemma Avoids.unallocated {t : Traffic κ} {p size : ℕ} (havoid : t.Avoids p size)
    (hu : h.Unallocated p size) : (t.apply h).Unallocated p size := by
  cases t with
  | malloc b => exact hu.malloc havoid
  | free q => exact hu.free q
  | write a v => exact hu

namespace Run

lemma sane (hrun : Run other h traffic h') (hs : h.Sane) : h'.Sane := by
  refine hrun.invariant ?_ hs
  intro h t u hs hfair hstep
  obtain rfl := Option.some.inj hstep
  exact hfair.sane hs

lemma mem_blocks (hrun : Run other h traffic h') (hs : h.Sane) {b : Block κ} (hb : b.owner ≠ other) :
    b ∈ h'.blocks ↔ b ∈ h.blocks := by
  have hboth : h'.Sane ∧ (b ∈ h'.blocks ↔ b ∈ h.blocks) := by
    refine hrun.invariant (I := fun g => g.Sane ∧ (b ∈ g.blocks ↔ b ∈ h.blocks)) ?_ ⟨hs, Iff.rfl⟩
    intro g t u hg hfair hstep
    obtain rfl := Option.some.inj hstep
    exact ⟨hfair.sane hg.1, (hfair.mem_blocks hg.1 hb).trans hg.2⟩
  exact hboth.2

/-- Traffic that does not get a region leaves it unallocated and as it is. -/
lemma unallocated {p size : ℕ} (hrun : Run other h traffic h') (hu : h.Unallocated p size)
    (havoid : ∀ t ∈ traffic, t.Avoids p size) :
    h'.Unallocated p size ∧ ∀ a, p ≤ a → a < p + size → h'.mem a = h.mem a := by
  induction hrun with
  | nil h => exact ⟨hu, fun _ _ _ => rfl⟩
  | @cons h g h' t traffic hfair hstep tail ih =>
    obtain rfl := Option.some.inj hstep
    obtain ⟨hun, hmem⟩ := ih ((havoid t List.mem_cons_self).unallocated hu)
      fun t ht => havoid t (List.mem_cons_of_mem _ ht)
    exact ⟨hun, fun a ha hlt => (hmem a ha hlt).trans
      (hfair.mem_eq fun b hb _ => hu b hb a ha hlt)⟩

/-- A block of somebody else keeps its contents. -/
lemma block_mem (hrun : Run other h traffic h') (hs : h.Sane) {b : Block κ} (hmem : b ∈ h.blocks)
    (hb : b.owner ≠ other) : ∀ a, b.Contains a → h'.mem a = h.mem a := by
  intro a ha
  induction hrun with
  | nil h => rfl
  | @cons h g h' t traffic hfair hstep tail ih =>
    obtain rfl := Option.some.inj hstep
    rw [ih (hfair.sane hs) ((hfair.mem_blocks hs hb).mpr hmem)]
    refine hfair.mem_eq fun c hc hother hcontains => ?_
    have hne : c ≠ b := fun heq => hb (heq ▸ hother)
    exact hs.apart c hc b hmem hne a ha.1 ha.2 hcontains

end Run
end Traffic
end Open98.Library
