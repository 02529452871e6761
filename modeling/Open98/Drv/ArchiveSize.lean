import Mathlib.Tactic.NormNum
import Open98.Lib.Octal

/-! The two decoders of a size in `drv/ustar/ustar.c`: `getsize`, and `oct_to_dec` after `string_to_int`. -/
namespace Open98.Drv
open Lib Library

section Model

/-- The sum is a `ULONG64`, and a `UINT` is returned. -/
def getsize (s : List UCHAR) : UINT :=
  (s.foldl (fun ret c => ret * 8#64 + (c.signExtend 32 - 48#32).signExtend 64) (0 : ULONG64)).setWidth 32

end Model

section Sizes
variable {s : List UCHAR}

/-- The number that is written in octal digits. -/
def octal (s : List UCHAR) : ℕ := Nat.ofDigits 8 (digitsOf s)

/-- The same digits as a decimal number. -/
def decimal (s : List UCHAR) : ℕ := Nat.ofDigits 10 (digitsOf s)

lemma octal_snoc (s : List UCHAR) (c : UCHAR) : octal (s ++ [c]) = (c.toNat - 48) + 8 * octal s := by
  rw [octal, digitsOf_snoc, Nat.ofDigits_cons, octal]

lemma decimal_eq (h : OctalDigits s) : decimal s = reread 8 10 (octal s) := ofDigits_eq_reread (by decide) h.lt

lemma octal_lt (h : OctalDigits s) (hlen : s.length ≤ 11) : octal s < 2^33 := by
  have hlt := Nat.ofDigits_lt_base_pow_length (b := 8) (by decide) h.lt
  have hlength : (digitsOf s).length = s.length := by simp [digitsOf]
  calc octal s
    _ < 8^s.length := hlength ▸ hlt
    _ ≤ 8^11 := Nat.pow_le_pow_right (by decide) hlen
    _ = 2^33 := by norm_num

/-- `getsize` is right for every octal number. -/
lemma getsize_eq (h : OctalDigits s) : getsize s = BitVec.ofNat 32 (octal s) := by
  have hsum : s.foldl (fun ret c => ret * 8#64 + (c.signExtend 32 - 48#32).signExtend 64) (0 : ULONG64) =
      BitVec.ofNat 64 (octal s) := by
    induction s using List.reverseRecOn with
    | nil => rfl
    | append_singleton s c ih =>
      have hc := h c (by simp)
      have hdigit : (c.signExtend 32 - 48#32).signExtend 64 = BitVec.ofNat 64 (c.toNat - 48) := by
        have hmsb : (BitVec.ofNat 32 (c.toNat - 48)).msb = false :=
          BitVec.msb_eq_false_iff_two_mul_lt.mpr (by rw [BitVec.toNat_ofNat]; omega)
        rw [signExtend_digit hc, BitVec.signExtend_eq_setWidth_of_msb_false hmsb,
          BitVec.setWidth_ofNat_of_le_of_lt (by decide) (by omega)]
      rw [List.foldl_append, ih fun d hd => h d (List.mem_append_left _ hd), octal_snoc, BitVec.ofNat_add,
        BitVec.ofNat_mul]
      simp only [List.foldl_cons, List.foldl_nil, hdigit]
      ring
  rw [getsize, hsum, BitVec.setWidth_ofNat_of_le (by decide)]

/-- Nine decimal digits, and the ones above. -/
lemma reread_billion {n : ℕ} (h : n < 10^10) : ∃ low, reread 10 8 n = low + 8^9 * (n / 10^9) ∧ low ≤ 172565649 := by
  have hle : 7 * reread 10 8 (n % 10^9) + 9 ≤ 9 * 8^9 := reread_le (by decide) (Nat.mod_lt n (by decide))
  refine ⟨reread 10 8 (n % 10^9), ?_, by omega⟩
  rw [reread_split (by decide) 9, reread_of_lt (n := n / 10^9) (by decide) (by omega)]

/-- One more octal digit. -/
lemma reread_upper {V a k : ℕ} (hV : V < 8^k) (ha : a < 8) :
    reread 8 10 (V + 8^k * a) = reread 8 10 V + 10^k * a := by
  rw [reread_add (by decide) hV, reread_of_lt (by decide) ha]

/-- Above the range of an `INT`, the wrapped number does not give the size again. -/
lemma octValue_wrapped_ne {V : ℕ} (hV : V < 2^33) (hlarge : 2^31 ≤ reread 8 10 V) :
    octValue ((reread 8 10 V : ℤ).bmod (2^32)) ≠ (V % 2^32 : ℕ) := by
  intro heq
  have hmono := reread_strictMono (p := 8) (q := 10) (by decide) (by decide)
  have hmod := Int.bmod_def (reread 8 10 V) (2^32)
  generalize (reread 8 10 V : ℤ).bmod (2^32) = z at heq hmod
  -- a negative number gives a negative size
  obtain ⟨n, rfl⟩ : ∃ n : ℕ, z = n := by
    obtain ⟨n, hn | hn⟩ := Int.eq_nat_or_neg z
    · exact ⟨n, hn⟩
    · by_cases hzero : n = 0
      · exact ⟨0, by omega⟩
      · have hpos := reread_pos (p := 10) (q := 8) (by decide) (by decide) (Nat.pos_of_ne_zero hzero)
        rw [hn, octValue_neg, octValue_natCast] at heq
        omega
  have hn : n < 2^31 := by split_ifs at hmod <;> omega
  obtain ⟨low, hvalue, hlow⟩ := reread_billion (n := n) (by omega)
  have hreported : V % 2^32 = low + 8^9 * (n / 10^9) := by
    rw [octValue_natCast, hvalue] at heq
    exact (Int.ofNat_inj.mp heq).symm
  have hfour : reread 8 10 (4 * 8^9) = 4 * 10^9 := reread_upper (V := 0) (k := 9) (a := 4) (by decide) (by decide)
  by_cases hsmall : V < 2^32
  · -- ten digits, the first one below 4: the number is negative
    have hten : reread 8 10 V < reread 8 10 (4 * 8^9) := hmono (by omega)
    split_ifs at hmod <;> omega
  · -- eleven digits, the first one 4 and the second one below 4
    obtain ⟨v, hv, rfl⟩ : ∃ v < 8^10, V = v + 8^10 * 4 := ⟨V % 2^32, by omega, by omega⟩
    rw [reread_upper hv (by decide)] at hmod
    have hsecond : reread 8 10 v < reread 8 10 (4 * 8^9) := hmono (by omega)
    by_cases hwrapped : reread 8 10 v < 2949672960
    · have hbillion : reread 8 10 (8^9) = 10^9 := reread_upper (V := 0) (k := 9) (a := 1) (by decide) (by decide)
      have hlarge' : reread 8 10 (8^9) ≤ reread 8 10 v := hmono.monotone (by split_ifs at hmod <;> omega)
      split_ifs at hmod <;> omega
    · have hthree : reread 8 10 (3 * 8^9 - 1) = 2777777777 := by decide +kernel
      have hlarge' : 3 * 8^9 - 1 < v := hmono.lt_iff_lt.mp (by omega)
      split_ifs at hmod <;> omega

/-- What is reported for a size is right as long as its digits are the decimal digits of an `INT`. -/
lemma reported_iff {V : ℕ} (hV : V < 2^33) :
    octValue ((reread 8 10 V : ℤ).bmod (2^32)) = (V % 2^32 : ℕ) ↔ reread 8 10 V < 2^31 := by
  constructor
  · intro h
    by_contra hlarge
    exact octValue_wrapped_ne hV (by omega) h
  · intro hsmall
    have hlt : V < 2^32 := by
      by_contra hle
      have hmono := (reread_strictMono (p := 8) (q := 10) (by decide) (by decide)).monotone (Nat.le_of_not_lt hle)
      have hbound : reread 8 10 (2^32) = 4 * 10^10 := reread_upper (V := 0) (k := 10) (a := 4) (by decide) (by decide)
      omega
    rw [Int.bmod_eq_of_le (by omega) (by omega), octValue_natCast, reread_reread (by decide) (by decide),
      Nat.mod_eq_of_lt hlt]

/-- The sizes that step through the archive and the ones that are listed. -/
structure SizesAgree (s : List UCHAR) : Prop where
  getsize : (getsize s).toNat = octal s % 2^32
  listed : (octToDec (stringToInt s)).toInt = (octal s % 2^32 : ℕ)

/-- The decoders agree exactly on the strings that are decimal numbers of an `INT`. -/
theorem sizesAgree_iff (hs : OctalDigits s) (hlen : s.length ≤ 11) : SizesAgree s ↔ decimal s < 2^31 := by
  have hlisted : (octToDec (stringToInt s)).toInt = octValue ((reread 8 10 (octal s) : ℤ).bmod (2^32)) := by
    rw [octToDec_toInt, stringToInt_eq hs, BitVec.toInt_ofNat', ← decimal_eq hs, decimal]
  rw [decimal_eq hs, ← reported_iff (octal_lt hs hlen), ← hlisted]
  refine ⟨SizesAgree.listed, fun h => ⟨?_, h⟩⟩
  rw [getsize_eq hs, BitVec.toNat_ofNat]

/-- The archive steps over 2 GiB, and -217333056 bytes are listed. -/
theorem two_gibibytes_listed_otherwise :
    ¬ SizesAgree [0x32, 0x30, 0x30, 0x30, 0x30, 0x30, 0x30, 0x30, 0x30, 0x30, 0x30] := by
  intro h
  exact absurd h.listed (by decide +kernel)

/-- A size of 1000 bytes. -/
theorem sizesAgree_iff_thousand :
    SizesAgree [0x30, 0x30, 0x30, 0x30, 0x30, 0x30, 0x30, 0x31, 0x37, 0x35, 0x30] :=
  (sizesAgree_iff (by unfold OctalDigits; decide) (by decide)).mpr (by decide +kernel)

end Sizes

end Open98.Drv
