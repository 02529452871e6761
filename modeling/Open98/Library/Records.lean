import Mathlib.Data.List.Basic
import Mathlib.Data.Nat.ModEq
import Mathlib.Tactic.Ring

/-! Structures in a byte memory: numbers stored with the lowest byte first, and records of numbers
whose fields lie at fixed offsets. -/
namespace Open98.Library

abbrev ByteMemory := ℕ → BitVec 8

/-- The number in the `n` bytes from `p` on. -/
def loadBytes (mem : ByteMemory) (p : ℕ) : ℕ → ℕ
  | 0 => 0
  | n+1 => (mem p).toNat + 2^8 * loadBytes mem (p+1) n

def storeBytes (mem : ByteMemory) (p n v : ℕ) : ByteMemory :=
  fun a => if p ≤ a ∧ a < p + n then BitVec.ofNat 8 (v / 2^(8*(a-p))) else mem a

lemma loadBytes_congr {mem mem' : ByteMemory} {p n : ℕ}
    (h : ∀ a, p ≤ a → a < p + n → mem a = mem' a) : loadBytes mem p n = loadBytes mem' p n := by
  induction n generalizing p with
  | zero => rfl
  | succ n ih =>
    rw [loadBytes, loadBytes, h p (by omega) (by omega), ih fun a ha hlt => h a (by omega) (by omega)]

/-- Bytes that are the digits of a number. -/
lemma loadBytes_digits {mem : ByteMemory} {p n v : ℕ}
    (h : ∀ i < n, mem (p+i) = BitVec.ofNat 8 (v / 2^(8*i))) : loadBytes mem p n = v % 2^(8*n) := by
  induction n generalizing p v with
  | zero => simp [loadBytes, Nat.mod_one]
  | succ n ih =>
    have hfirst : (mem p).toNat = v % 2^8 := by
      have h0 := h 0 (by omega)
      rw [Nat.add_zero, Nat.mul_zero, Nat.pow_zero, Nat.div_one] at h0
      rw [h0, BitVec.toNat_ofNat]
    have hrest : loadBytes mem (p+1) n = v / 2^8 % 2^(8*n) := by
      refine ih fun i hi => ?_
      rw [Nat.add_assoc, Nat.add_comm 1 i, h (i+1) (by omega), Nat.div_div_eq_div_mul, ← Nat.pow_add,
        show 8 * (i+1) = 8 + 8 * i by ring]
    rw [loadBytes, hfirst, hrest, show 8 * (n+1) = 8 + 8 * n by ring, Nat.pow_add, Nat.mod_mul]

lemma loadBytes_lt (mem : ByteMemory) (p n : ℕ) : loadBytes mem p n < 2^(8*n) := by
  induction n generalizing p with
  | zero => exact Nat.one_pos
  | succ n ih =>
    have hbyte := (mem p).isLt
    have hrest := ih (p+1)
    rw [loadBytes, show 8 * (n+1) = 8 + 8 * n by ring, Nat.pow_add]
    omega

lemma loadBytes_storeBytes (mem : ByteMemory) (p n v : ℕ) :
    loadBytes (storeBytes mem p n v) p n = v % 2^(8*n) := by
  refine loadBytes_digits fun i hi => ?_
  rw [storeBytes, if_pos (by omega), Nat.add_sub_cancel_left]

/-- Storing what is loaded changes nothing. -/
lemma byte_loadBytes {mem : ByteMemory} {p n i : ℕ} (hi : i < n) :
    BitVec.ofNat 8 (loadBytes mem p n / 2^(8*i)) = mem (p+i) := by
  induction n generalizing p i with
  | zero => omega
  | succ n ih =>
    have hbyte := (mem p).isLt
    cases i with
    | zero =>
      apply BitVec.eq_of_toNat_eq
      change _ = (mem p).toNat
      rw [loadBytes, Nat.mul_zero, Nat.pow_zero, Nat.div_one, BitVec.toNat_ofNat]
      omega
    | succ i =>
      have hdiv : loadBytes mem p (n+1) / 2^(8*(i+1)) = loadBytes mem (p+1) n / 2^(8*i) := by
        rw [loadBytes, show 8 * (i+1) = 8 + 8 * i by ring, Nat.pow_add, ← Nat.div_div_eq_div_mul]
        congr 1
        omega
      rw [hdiv, ih (by omega), Nat.add_assoc, Nat.add_comm 1 i]

lemma ofNat_toNat_mod {w : ℕ} (x : BitVec w) : BitVec.ofNat w (x.toNat % 2^w) = x := by
  rw [Nat.mod_eq_of_lt x.isLt, BitVec.ofNat_toNat, BitVec.setWidth_eq]

lemma storeBytes_outside {mem : ByteMemory} {p n v a : ℕ} (h : a < p ∨ p + n ≤ a) :
    storeBytes mem p n v a = mem a := if_neg (by omega)

/-- The bytes from a pointer on take these values. -/
def overlay (p : ℕ) (bytes : ℕ → BitVec 8) (mem : ByteMemory) : ByteMemory :=
  fun a => if p ≤ a then bytes (a-p) else mem a

/-- Only what the bytes change is changed. -/
lemma overlay_outside {p a : ℕ} {bytes : ℕ → BitVec 8} {mem : ByteMemory}
    (h : p ≤ a → bytes (a-p) = mem a) : overlay p bytes mem a = mem a := by
  unfold overlay
  split
  · next hp => exact h hp
  · rfl

/-- A field of a structure: where it starts and how many bytes it has. -/
structure Field where
  offset : ℕ
  width : ℕ

def Field.Apart (f g : Field) : Prop :=
  f.offset + f.width ≤ g.offset ∨ g.offset + g.width ≤ f.offset

instance : DecidableRel Field.Apart := fun f g =>
  inferInstanceAs (Decidable (f.offset + f.width ≤ g.offset ∨ g.offset + g.width ≤ f.offset))

def loadField (mem : ByteMemory) (p : ℕ) (f : Field) : ℕ := loadBytes mem (p + f.offset) f.width

/-- The fields of the structure at `p` are stored one after another. -/
def storeFields (p : ℕ) : List (Field × ℕ) → ByteMemory → ByteMemory
  | [], mem => mem
  | (f, v) :: rest, mem => storeFields p rest (storeBytes mem (p + f.offset) f.width v)

lemma storeFields_append (p : ℕ) (fields fields' : List (Field × ℕ)) (mem : ByteMemory) :
    storeFields p (fields ++ fields') mem = storeFields p fields' (storeFields p fields mem) := by
  induction fields generalizing mem with
  | nil => rfl
  | cons field rest ih => exact ih _

section Fields
variable {p : ℕ} {fields : List (Field × ℕ)} {mem : ByteMemory}

lemma storeFields_outside {a : ℕ}
    (h : ∀ f v, (f, v) ∈ fields → a < p + f.offset ∨ p + f.offset + f.width ≤ a) :
    storeFields p fields mem a = mem a := by
  induction fields generalizing mem with
  | nil => rfl
  | cons field rest ih =>
    obtain ⟨f, v⟩ := field
    rw [storeFields, ih fun g w hg => h g w (List.mem_cons_of_mem _ hg),
      storeBytes_outside (h f v List.mem_cons_self)]

/-- Stores into fields that lie inside the structure change nothing outside it. -/
lemma storeFields_beyond {size a : ℕ} (hsize : ∀ f ∈ fields, f.1.offset + f.1.width ≤ size)
    (h : a < p ∨ p + size ≤ a) : storeFields p fields mem a = mem a := by
  apply storeFields_outside
  intro f v hf
  have hend := hsize _ hf
  dsimp only at hend
  omega

lemma loadField_storeFields_other {f : Field} (h : ∀ g ∈ fields, f.Apart g.1) :
    loadField (storeFields p fields mem) p f = loadField mem p f := by
  refine loadBytes_congr fun a ha hlt => storeFields_outside fun g v hg => ?_
  have hapart := h _ hg
  unfold Field.Apart at hapart
  dsimp only at hapart
  omega

/-- Fields that do not overlap are read back as they were stored. -/
theorem loadField_storeFields (hapart : (fields.map Prod.fst).Pairwise Field.Apart) {f : Field} {v : ℕ}
    (hf : (f, v) ∈ fields) : loadField (storeFields p fields mem) p f = v % 2^(8*f.width) := by
  induction fields generalizing mem with
  | nil => cases hf
  | cons field rest ih =>
    rw [List.map_cons, List.pairwise_cons] at hapart
    rcases List.mem_cons.mp hf with rfl | hrest
    · rw [storeFields, loadField_storeFields_other fun g hg => hapart.1 _ (List.mem_map_of_mem hg)]
      exact loadBytes_storeBytes _ _ _ _
    · exact ih hapart.2 hrest

lemma loadField_congr {mem' : ByteMemory} {f : Field} {size : ℕ} (hsize : f.offset + f.width ≤ size)
    (h : ∀ a, p ≤ a → a < p + size → mem a = mem' a) : loadField mem p f = loadField mem' p f :=
  loadBytes_congr fun a ha hlt => h a (by omega) (by omega)

end Fields
end Open98.Library
