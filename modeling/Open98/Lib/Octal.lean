import Mathlib.Algebra.Order.Ring.Int
import Open98.Library.Reread
import Open98.NtDef

/-! The decimal and octal conversions of `lib/utill.c`: `string_to_int`, `pow` and `oct_to_dec`. A string is the
list of its characters in front of the NUL, and the arithmetic of `INT`s wraps around. -/
namespace Open98.Lib
open Library

section Model

def stringToInt (str : List UCHAR) : INT := str.foldl (fun res c => res * 10#32 + c.signExtend 32 - 48#32) 0

/-- The loop of `pow`. -/
def powLoop (base : INT) : (exp : ℕ) → (result : INT) → INT
  | 0, result => result
  | exp+1, result => powLoop base exp (result * base)

def pow (base exp : INT) : INT := powLoop base exp.toInt.toNat 1

def octLoop : (fuel : ℕ) → (oct dec temp : INT) → INT
  | 0, _, dec, _ => dec
  | fuel+1, oct, dec, temp =>
    if oct = 0 then dec else octLoop fuel (oct.sdiv 10#32) (dec + oct.srem 10#32 * pow 8#32 temp) (temp + 1#32)

/-- An `INT` has ten digits at most. A `long` is returned. -/
def octToDec (oct : INT) : BitVec 64 := (octLoop 10 oct 0 0).signExtend 64

end Model

section Decimal
variable {s : List UCHAR}

/-- The digits of a string, the last one first. -/
def digitsOf (s : List UCHAR) : List ℕ := (s.map fun c => c.toNat - 48).reverse

lemma digitsOf_snoc (s : List UCHAR) (c : UCHAR) : digitsOf (s ++ [c]) = (c.toNat - 48) :: digitsOf s := by
  simp [digitsOf]

def OctalDigits (s : List UCHAR) : Prop := ∀ c ∈ s, 48 ≤ c.toNat ∧ c.toNat < 56

lemma OctalDigits.lt (h : OctalDigits s) : ∀ d ∈ digitsOf s, d < 8 := by
  intro d hd
  rw [digitsOf, List.mem_reverse, List.mem_map] at hd
  obtain ⟨c, hc, rfl⟩ := hd
  have := h c hc
  omega

lemma signExtend_digit {c : UCHAR} (h : 48 ≤ c.toNat ∧ c.toNat < 56) :
    c.signExtend 32 - 48#32 = BitVec.ofNat 32 (c.toNat - 48) := by
  have hint : c.signExtend 32 = BitVec.ofNat 32 c.toNat := by
    rw [BitVec.signExtend_eq_setWidth_of_msb_false (BitVec.msb_eq_false_iff_two_mul_lt.mpr (by omega))]
    exact (BitVec.ofNat_toNat 32 c).symm
  rw [hint]
  bv_omega

lemma stringToInt_eq (h : OctalDigits s) : stringToInt s = BitVec.ofNat 32 (Nat.ofDigits 10 (digitsOf s)) := by
  induction s using List.reverseRecOn with
  | nil => rfl
  | append_singleton s c ih =>
    have hc := signExtend_digit (h c (by simp))
    have hs := ih fun d hd => h d (List.mem_append_left _ hd)
    rw [digitsOf_snoc, Nat.ofDigits_cons, BitVec.ofNat_add, BitVec.ofNat_mul, ← hs, ← hc, stringToInt,
      List.foldl_append, ← stringToInt]
    simp only [List.foldl_cons, List.foldl_nil]
    ring

end Decimal

section Octal

lemma powLoop_eq (base : INT) (exp : ℕ) (result : INT) : powLoop base exp result = result * base^exp := by
  induction exp generalizing result with
  | zero => simp [powLoop]
  | succ exp ih =>
    rw [powLoop, ih, pow_succ]
    ring

lemma pow_eq (base : INT) {exp : ℕ} (h : exp < 2^31) : pow base (BitVec.ofNat 32 exp) = base^exp := by
  have hexp : (BitVec.ofNat 32 exp).toInt.toNat = exp := by
    rw [BitVec.toInt_eq_toNat_of_lt (by rw [BitVec.toNat_ofNat]; omega), BitVec.toNat_ofNat]
    omega
  rw [pow, powLoop_eq, hexp, one_mul]

/-- The decimal digits of a number, read as octal ones; the sign stays. -/
def octValue (z : ℤ) : ℤ := z.sign * reread 10 8 z.natAbs

@[simp] lemma octValue_natCast (n : ℕ) : octValue n = reread 10 8 n := by
  cases n with
  | zero => simp [octValue]
  | succ n => rw [octValue, Int.sign_natCast_of_ne_zero n.succ_ne_zero, Int.natAbs_natCast, one_mul]

@[simp] lemma octValue_neg (z : ℤ) : octValue (-z) = -octValue z := by
  rw [octValue, Int.sign_neg, Int.natAbs_neg, neg_mul, octValue]

lemma octValue_step (z : ℤ) : octValue z = z.tmod 10 + 8 * octValue (z.tdiv 10) := by
  have hnat : ∀ n : ℕ, octValue n = (n : ℤ).tmod 10 + 8 * octValue ((n : ℤ).tdiv 10) := by
    intro n
    have hmod : (n : ℤ).tmod 10 = (n % 10 : ℕ) := rfl
    have hdiv : (n : ℤ).tdiv 10 = (n / 10 : ℕ) := rfl
    rw [hmod, hdiv, octValue_natCast, octValue_natCast, reread_step (by decide)]
    push_cast
    rfl
  obtain ⟨n, rfl | rfl⟩ := Int.eq_nat_or_neg z
  · exact hnat n
  · rw [Int.neg_tmod, Int.neg_tdiv, octValue_neg, octValue_neg, hnat n]
    ring

/-- The loop adds what is left of the number, for all its digits. -/
lemma octLoop_eq {fuel temp : ℕ} {oct : INT} (hfuel : oct.toInt.natAbs < 10^fuel) (htemp : temp + fuel < 2^31)
    (dec : INT) : octLoop fuel oct dec (BitVec.ofNat 32 temp) =
      dec + BitVec.ofInt 32 (octValue oct.toInt) * 8#32^temp := by
  induction fuel generalizing oct dec temp with
  | zero =>
    have hzero : oct.toInt = 0 := by simpa using hfuel
    rw [octLoop, hzero]
    simp [octValue]
  | succ fuel ih =>
    have hten : (10#32).toInt = 10 := by decide
    have hdiv : (oct.sdiv 10#32).toInt = oct.toInt.tdiv 10 := by
      rw [BitVec.toInt_sdiv_of_ne_or_ne _ _ (.inr (by decide)), hten]
    have hmod : oct.srem 10#32 = BitVec.ofInt 32 (oct.toInt.tmod 10) := by
      rw [← BitVec.ofInt_toInt (x := oct.srem 10#32), BitVec.toInt_srem, hten]
    have hnext : BitVec.ofNat 32 temp + 1#32 = BitVec.ofNat 32 (temp + 1) := (BitVec.ofNat_add temp 1).symm
    rw [octLoop]
    split_ifs with hoct
    · rw [hoct]
      simp [octValue]
    · have hfuel' : (oct.sdiv 10#32).toInt.natAbs < 10^fuel := by
        rw [pow_succ'] at hfuel
        rw [hdiv, Int.natAbs_tdiv]
        exact Nat.div_lt_of_lt_mul hfuel
      rw [hnext, ih hfuel' (by omega), hdiv, hmod, pow_eq _ (by omega), octValue_step oct.toInt, BitVec.ofInt_add,
        BitVec.ofInt_mul, pow_succ]
      have height : BitVec.ofInt 32 8 = 8#32 := rfl
      rw [height]
      ring

lemma reread_int_lt {n : ℕ} (h : n ≤ 2^31) : reread 10 8 n < 2^31 := by
  have hle : 7 * reread 10 8 n + 9 ≤ 9 * 8^10 := reread_le (by decide) (by omega)
  omega

/-- No intermediate value leaves the range of an `INT`. -/
lemma octToDec_toInt (oct : INT) : (octToDec oct).toInt = octValue oct.toInt := by
  have habs : oct.toInt.natAbs ≤ 2^31 := by
    have hlt := BitVec.toInt_lt (x := oct)
    have hle := BitVec.le_toInt oct
    omega
  have hvalue : (octValue oct.toInt).natAbs < 2^31 := by
    obtain ⟨n, hn⟩ := Int.eq_nat_or_neg oct.toInt
    have hsmall := reread_int_lt (n := n) (by omega)
    rcases hn with hn | hn
    · rw [hn, octValue_natCast, Int.natAbs_natCast]
      exact hsmall
    · rw [hn, octValue_neg, octValue_natCast, Int.natAbs_neg, Int.natAbs_natCast]
      exact hsmall
  have hloop : octLoop 10 oct 0 0 = 0 + BitVec.ofInt 32 (octValue oct.toInt) * 8#32^0 :=
    octLoop_eq (by omega) (by decide) 0
  rw [octToDec, BitVec.toInt_signExtend_of_le (by decide), hloop, pow_zero, mul_one, zero_add, BitVec.toInt_ofInt,
    Int.bmod_eq_of_le (by omega) (by omega)]

end Octal

end Open98.Lib
