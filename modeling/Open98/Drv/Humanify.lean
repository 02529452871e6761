import Open98.Lib.PrintfNumbers
import Open98.Lib.PrintfStrings

/-! `humanify` of `drv/ustar/ustar.c`, which `ustar_list` gives ten bytes to write a size into. -/
namespace Open98.Drv
open Library Lib

section Model

def unitText : ℕ → List UCHAR
  | 0 => [chr 'B']
  | 1 => [chr 'K', chr 'B']
  | 2 => [chr 'M', chr 'B']
  | 3 => [chr 'G', chr 'B']
  | _ => [chr 'T', chr 'B']

/-- `for ( i = 0; bytes > 1024; i++ ) bytes /= 1024`. -/
def humanifyLoop : (fuel i : ℕ) → (bytes : INT) → Result (ℕ × INT)
  | 0, _, _ => .error .hang
  | fuel+1, i, bytes => if 1024 < bytes.toInt then humanifyLoop fuel (i+1) (bytes.sdiv 1024#32) else .ok (i, bytes)

/-- The arguments of `sprintf`; the upper half of the slot of an `int` holds anything. -/
def humanifyArgs (units : ℕ → PVOID) (upper : UINT) (i : ℕ) (bytes : INT) (behind : Args) : Args
  | 0 => upper ++ bytes
  | 1 => units i
  | k+2 => behind k

/-- The buffer, in which the size stands. -/
def humanify (float : FloatText) (mem : Readable) (units : ℕ → PVOID) (upper : UINT) (behind : Args) (fuel : ℕ)
    (bytes : INT) (buf : Buffer) : Result (Option (Option Buffer × INT)) := do
  let (i, bytes) ← humanifyLoop fuel 0 bytes
  return sprintf float mem (some buf) [chr '%', chr 'd', chr '%', chr 's'] (humanifyArgs units upper i bytes behind)

end Model

section Size
variable {float : FloatText} {mem : Readable} {units : ℕ → PVOID} {bytes : INT} {fuel : ℕ}

/-- A size is divided by 1024 as often as it takes to get 1024 at most. -/
lemma humanifyLoop_eq {n : ℕ} (hbytes : bytes.toInt ≤ 1024^(n+1)) (hfuel : n < fuel) (j : ℕ) :
    ∃ i ≤ n, ∃ b, humanifyLoop fuel j bytes = .ok (j+i, b) ∧ b.toInt ≤ 1024 ∧
      (∀ k < i, 1024 < bytes.toInt / 1024^k) ∧ (i = 0 ∧ b = bytes ∨ 0 ≤ bytes.toInt ∧ b.toInt = bytes.toInt / 1024^i) := by
  induction n generalizing fuel bytes j with
  | zero =>
    obtain ⟨fuel, rfl⟩ : ∃ k, fuel = k+1 := ⟨fuel-1, by omega⟩
    refine ⟨0, le_rfl, bytes, ?_, by simpa using hbytes, by simp, .inl ⟨rfl, rfl⟩⟩
    rw [humanifyLoop, if_neg (by simpa using hbytes), Nat.add_zero]
  | succ n ih =>
    obtain ⟨fuel, rfl⟩ : ∃ k, fuel = k+1 := ⟨fuel-1, by omega⟩
    rw [humanifyLoop]
    by_cases hlarge : 1024 < bytes.toInt
    · have hdiv : (bytes.sdiv 1024#32).toInt = bytes.toInt / 1024 := by
        rw [BitVec.toInt_sdiv_of_ne_or_ne _ _ (.inr (by decide))]
        exact Int.tdiv_eq_ediv_of_nonneg (by omega)
      have hnext : (bytes.sdiv 1024#32).toInt ≤ 1024^(n+1) := by
        rw [hdiv]
        rw [pow_succ] at hbytes
        omega
      obtain ⟨i, hi, b, hloop, hsmall, hmore, hb⟩ := ih hnext (show n < fuel by omega) (j+1)
      refine ⟨i+1, by omega, b, ?_, hsmall, fun k hk => ?_, .inr ⟨by omega, ?_⟩⟩
      · rw [if_pos hlarge, hloop, Nat.add_assoc, Nat.add_comm 1]
      · cases k with
        | zero => simpa using hlarge
        | succ k =>
          have hlt := hmore k (by omega)
          rwa [hdiv, Int.ediv_ediv_of_nonneg (by decide), ← pow_succ'] at hlt
      · rcases hb with ⟨rfl, rfl⟩ | ⟨-, hb⟩
        · rw [hdiv, Nat.zero_add, pow_one]
        · rw [hb, hdiv, Int.ediv_ediv_of_nonneg (by decide), ← pow_succ']
    · exact ⟨0, Nat.zero_le _, bytes, by rw [if_neg hlarge, Nat.add_zero], by omega, by simp, .inl ⟨rfl, rfl⟩⟩

/-- The size in the unit that `humanify` chooses. -/
def sizeText (i : ℕ) (bytes : INT) : List UCHAR := signedText bytes.toInt ++ unitText i

lemma length_unitText (i : ℕ) : (unitText i).length = if i = 0 then 1 else 2 := by
  match i with
  | 0 => rfl
  | 1 => rfl
  | 2 => rfl
  | 3 => rfl
  | k+4 => rfl

lemma formatText_size {i : ℕ} (hunit : StandsAt mem (units i) (unitText i)) (hnull : units i ≠ 0) (upper : UINT)
    (behind : Args) (bytes : INT) : formatText float mem [chr '%', chr 'd', chr '%', chr 's']
      (humanifyArgs units upper i bytes behind) = some (sizeText i bytes, behind) := by
  have hlow : ((upper ++ bytes : BitVec (32+32)).setWidth 32 : INT) = bytes := by
    ext k hk
    rw [BitVec.getElem_setWidth, BitVec.getLsbD_append, if_pos hk, BitVec.getLsbD_eq_getElem]
  have hnumber : formatText float mem [chr '%', chr 'd'] (humanifyArgs units upper i bytes behind) =
      some (signedText ((upper ++ bytes : BitVec (32+32)).setWidth 32 : INT).toInt,
        (humanifyArgs units upper i bytes behind).rest) := formatText_int _
  have hstring : formatText float mem [chr '%', chr 's'] (humanifyArgs units upper i bytes behind).rest =
      some (unitText i, behind) := by
    have hlen := length_unitText i
    exact formatText_plainString hunit hnull (by split_ifs at hlen <;> omega)
  rw [hlow] at hnumber
  exact formatText_both hnumber hstring

/-- The text stays within the ten bytes of `ustar_list` unless the size is -10000000 or less. -/
lemma length_sizeText {i : ℕ} {b : INT} (hb : b.toInt ≤ 1024)
    (hcase : i = 0 ∧ b = bytes ∨ 0 ≤ bytes.toInt ∧ 0 ≤ b.toInt) :
    (sizeText i b).length < 10 ↔ -10^7 < bytes.toInt := by
  have hunit : (unitText i).length ≤ 2 := by
    rw [length_unitText]
    split_ifs <;> omega
  rw [sizeText, signedText, List.length_append, List.length_append]
  by_cases hneg : b.toInt < 0
  · obtain ⟨rfl, rfl⟩ : i = 0 ∧ b = bytes := hcase.resolve_right fun h => absurd hneg (Int.not_lt.mpr h.2)
    have hseven : (plainText 10 b.toInt.natAbs).length ≤ 7 ↔ b.toInt.natAbs < 10^7 := length_plainText (by decide) _
    have hlen : (unitText 0).length = 1 := rfl
    rw [if_pos hneg, hlen, List.length_singleton]
    constructor
    · intro h
      have := hseven.mp (by omega)
      omega
    · intro h
      have := hseven.mpr (by omega)
      omega
  · have hfour : (plainText 10 b.toInt.natAbs).length ≤ 4 := (length_plainText (by decide) _).mpr (by omega)
    rw [if_neg hneg, List.length_nil]
    refine ⟨fun _ => ?_, fun _ => by omega⟩
    rcases hcase with ⟨-, rfl⟩ | ⟨hpos, -⟩ <;> omega

/-- For every size, `humanify` ends with the size in a unit of the table and at most 1024 of it, and writes behind
the ten bytes that `ustar_list` has for it if and only if the size is -10000000 or less. -/
theorem humanify_fits_iff (float : FloatText) (mem : Readable) (units : ℕ → PVOID)
    (hunits : ∀ i ≤ 3, StandsAt mem (units i) (unitText i) ∧ units i ≠ 0) (upper : UINT) (behind : Args)
    (hfuel : 4 ≤ fuel) (bytes : INT) : ∃ i ≤ 3, ∃ b : INT,
      (∀ buf, humanify float mem units upper behind fuel bytes buf = .ok (some
        (some (holding (sizeText i b) unlimited.toNat buf), BitVec.ofNat 32 (sizeText i b).length))) ∧
      b.toInt ≤ 1024 ∧ (∀ k < i, 1024 < bytes.toInt / 1024^k) ∧
      (i = 0 ∧ b = bytes ∨ 0 ≤ bytes.toInt ∧ b.toInt = bytes.toInt / 1024^i) ∧
      ((sizeText i b).length < 10 ↔ -10^7 < bytes.toInt) := by
  have hbytes : bytes.toInt ≤ 1024^(3+1) := by
    have := BitVec.toInt_lt (x := bytes)
    omega
  obtain ⟨i, hi, b, hloop, hsmall, hmore, hb⟩ := humanifyLoop_eq hbytes hfuel 0
  obtain ⟨hunit, hnull⟩ := hunits i hi
  refine ⟨i, hi, b, fun buf => ?_, hsmall, hmore, hb, length_sizeText hsmall ?_⟩
  · rw [humanify, hloop, ok_bind, Nat.zero_add]
    dsimp only
    rw [sprintf, snprintf_eq, formatText_size hunit hnull]
    rfl
  · rcases hb with h | ⟨hpos, hb⟩
    · exact .inl h
    · exact .inr ⟨hpos, hb ▸ Int.ediv_nonneg hpos (by positivity)⟩

/-- A memory with the units, four bytes for each. -/
def unitMemory : Readable := fun a =>
  [chr 'B', 0, 0, 0, chr 'K', chr 'B', 0, 0, chr 'M', chr 'B', 0, 0, chr 'G', chr 'B'].getD (a.toNat - 16) 0

lemma unitMemory_stands : ∀ i ≤ 3, StandsAt unitMemory (BitVec.ofNat 64 (16 + 4*i)) (unitText i) ∧
    BitVec.ofNat 64 (16 + 4*i) ≠ 0 := by
  intro i hi
  interval_cases i <;> exact ⟨⟨⟨by decide, by decide⟩, by unfold Fat32.NoNul; decide⟩, by decide⟩

/-- The ten digits of -1474836480 do not fit. -/
theorem humanify_fits_iff_large : ∃ i ≤ 3, ∃ b : INT,
    (∀ buf, humanify (fun _ _ _ _ _ => []) unitMemory (fun i => BitVec.ofNat 64 (16 + 4*i)) 0 (fun _ => 0) 4
      (-1474836480) buf = .ok (some
        (some (holding (sizeText i b) unlimited.toNat buf), BitVec.ofNat 32 (sizeText i b).length))) ∧
      b.toInt ≤ 1024 ∧ (∀ k < i, 1024 < (-1474836480 : INT).toInt / 1024^k) ∧
      (i = 0 ∧ b = -1474836480 ∨ 0 ≤ (-1474836480 : INT).toInt ∧ b.toInt = (-1474836480 : INT).toInt / 1024^i) ∧
      ((sizeText i b).length < 10 ↔ -10^7 < (-1474836480 : INT).toInt) :=
  humanify_fits_iff _ _ _ unitMemory_stands 0 _ le_rfl _

end Size

end Open98.Drv
