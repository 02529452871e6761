import Mathlib.Data.List.Basic
import Open98.NtDef

/-! `strncmp` of `lib/utill.c`, with the bytes it reads. -/
namespace Open98.Lib

/-- A value, and the offsets of the bytes that are read for it, in order. -/
structure Reading (α : Type) where
  value : α
  reads : List ℕ

section Model

/-- `strncmp` with a string of as many characters as are compared; a `char` is signed. -/
def strncmp (memory : ℕ → UCHAR) (s1 : ℕ) : (s2 : List UCHAR) → Reading INT
  | [] => ⟨0, []⟩
  | c2 :: rest =>
    let c1 := memory s1
    if c1 ≠ c2 then ⟨c1.signExtend 32 - c2.signExtend 32, [s1]⟩
    else if c1 = 0 then ⟨0, [s1]⟩
    else
      let compared := strncmp memory (s1+1) rest
      ⟨compared.value, s1 :: compared.reads⟩

end Model

section Compared
variable {memory : ℕ → UCHAR} {s : ℕ} {str : List UCHAR}

/-- The characters are in memory from a place on. -/
def HoldsAt (memory : ℕ → UCHAR) (s : ℕ) (str : List UCHAR) : Prop := ∀ i < str.length, memory (s+i) = str.getD i 0

lemma holdsAt_cons {c : UCHAR} : HoldsAt memory s (c :: str) ↔ memory s = c ∧ HoldsAt memory (s+1) str := by
  constructor
  · intro h
    refine ⟨h 0 (by simp), fun i hi => ?_⟩
    have hnext := h (i+1) (by simpa using hi)
    rwa [← Nat.add_assoc, Nat.add_right_comm] at hnext
  · rintro ⟨hc, h⟩ i hi
    cases i with
    | zero => exact hc
    | succ i =>
      rw [← Nat.add_assoc, Nat.add_right_comm]
      exact h i (by simpa using hi)

lemma signExtend_injective {c d : UCHAR} (h : c.signExtend 32 = d.signExtend 32) : c = d := by
  have hint := congrArg BitVec.toInt h
  rw [BitVec.toInt_signExtend_of_le (by omega), BitVec.toInt_signExtend_of_le (by omega)] at hint
  exact BitVec.eq_of_toInt_eq hint

lemma strncmp_eq_zero_iff (hstr : ∀ c ∈ str, c ≠ 0) : (strncmp memory s str).value = 0 ↔ HoldsAt memory s str := by
  induction str generalizing s with
  | nil => simp [strncmp, HoldsAt]
  | cons c rest ih =>
    rw [holdsAt_cons, strncmp]
    by_cases hc : memory s = c
    · have hzero : memory s ≠ 0 := hc ▸ hstr c List.mem_cons_self
      rw [if_neg (not_not.mpr hc), if_neg hzero, and_iff_right hc]
      exact ih fun d hd => hstr d (List.mem_cons_of_mem _ hd)
    · rw [if_pos hc]
      refine iff_of_false (fun h => hc ?_) fun h => hc h.1
      exact signExtend_injective (sub_eq_zero.mp h)

/-- No byte is read behind the characters that are compared. -/
lemma strncmp_reads : ∀ i ∈ (strncmp memory s str).reads, i < s + str.length := by
  induction str generalizing s with
  | nil => simp [strncmp]
  | cons c rest ih =>
    rw [strncmp, List.length_cons]
    split_ifs
    · simp
    · simp
    · intro i hi
      rcases List.mem_cons.mp hi with rfl | hi
      · omega
      · have := ih i hi
        omega

lemma mem_strncmp_reads (hne : str ≠ []) : s ∈ (strncmp memory s str).reads := by
  cases str with
  | nil => exact absurd rfl hne
  | cons c rest =>
    rw [strncmp]
    split_ifs <;> simp

/-- Where the characters are found, all of them have been read. -/
lemma mem_strncmp_reads_of_holdsAt (hstr : ∀ c ∈ str, c ≠ 0) (h : HoldsAt memory s str) {i : ℕ}
    (hi : i < str.length) : s + i ∈ (strncmp memory s str).reads := by
  induction str generalizing s i with
  | nil => cases hi
  | cons c rest ih =>
    obtain ⟨hc, hrest⟩ := holdsAt_cons.mp h
    have hzero : memory s ≠ 0 := hc ▸ hstr c List.mem_cons_self
    rw [strncmp, if_neg (not_not.mpr hc), if_neg hzero]
    cases i with
    | zero => exact List.mem_cons_self
    | succ i =>
      have hmem := ih (fun d hd => hstr d (List.mem_cons_of_mem _ hd)) hrest (Nat.lt_of_succ_lt_succ hi)
      rw [Nat.add_right_comm] at hmem
      exact List.mem_cons_of_mem _ hmem

end Compared

end Open98.Lib
