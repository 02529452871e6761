import Open98.Lib.Strncmp

/-! `get_SLP_TYPa` of `hal/acpi/acpi.c`: the sleep type for switching off, in the bytes of the DSDT. The
offsets count from the beginning of the table. -/
namespace Open98.Hal
open Open98.Lib

section Model

/-- `sizeof( struct sdt_header )`. -/
def sizeofSdtHeader : ℕ := 36

/-- The length in the header. -/
def headerLen (dsdt : ℕ → UCHAR) : UINT := dsdt 7 ++ dsdt 6 ++ dsdt 5 ++ dsdt 4

/-- `"_S5_"`. -/
def S5 : List UCHAR := [0x5F, 0x53, 0x35, 0x5F]

/-- The loop, for a counter that is not negative: where it ends, and the counter behind it. -/
def findS5 (dsdt : ℕ → UCHAR) : (dsdt_len S5_addr : ℕ) → Reading (ℕ × ℤ)
  | 0, S5_addr => ⟨(S5_addr, -1), []⟩
  | dsdt_len+1, S5_addr =>
    let compared := strncmp dsdt S5_addr S5
    if compared.value = 0 then ⟨(S5_addr, dsdt_len), compared.reads⟩
    else
      let rest := findS5 dsdt dsdt_len (S5_addr+1)
      ⟨rest.value, compared.reads ++ rest.reads⟩

/-- The place of the first element, behind the length of the package and the number of its elements. -/
def elementAt (dsdt : ℕ → UCHAR) (S5_addr : ℕ) : ℕ := S5_addr + 5 + ((dsdt (S5_addr+5) &&& 0xC0) >>> 6).toNat + 2

/-- A byte prefix is skipped. -/
def constantAt (dsdt : ℕ → UCHAR) (S5_addr : ℕ) : ℕ :=
  if dsdt (elementAt dsdt S5_addr) = 0x0A then elementAt dsdt S5_addr + 1 else elementAt dsdt S5_addr

structure SleepType where
  value : ULONG64
  reads : List ℕ
  messages : List String

/-- The search. The pointer to the header is moved by 36 headers, and the length is taken for an `INT`. -/
def searchS5 (dsdt : ℕ → UCHAR) : Reading (ℕ × ℤ) :=
  let S5_addr := sizeofSdtHeader * sizeofSdtHeader
  let dsdt_len : INT := headerLen dsdt
  if 0 < dsdt_len.toInt then findS5 dsdt dsdt_len.toNat S5_addr else ⟨(S5_addr, (dsdt_len - 1#32).toInt), []⟩

/-- The constant is a `char`. -/
def getSLPTYPa (dsdt : ℕ → UCHAR) : SleepType :=
  let signature := strncmp dsdt 0 [0x44, 0x53, 0x44, 0x54]
  let found := searchS5 dsdt
  let S5_addr := found.value.1
  { value := ((dsdt (constantAt dsdt S5_addr)).signExtend 32 <<< 10).signExtend 64
    reads := signature.reads ++ [4, 5, 6, 7] ++ found.reads ++
      [S5_addr + 5, elementAt dsdt S5_addr, constantAt dsdt S5_addr]
    messages := (if signature.value ≠ 0 then ["[ACPI] DSDT header not found\n"] else []) ++
      if found.value.2 ≤ 0 then ["[ACPI] S5 not present\n"] else [] }

end Model

section Found
variable {dsdt : ℕ → UCHAR} {n s q : ℕ}

lemma S5_ne_zero : ∀ c ∈ S5, c ≠ 0 := by decide

/-- The first place of `_S5_` from a place on. -/
structure FirstFrom (dsdt : ℕ → UCHAR) (s q : ℕ) : Prop where
  le : s ≤ q
  holds : HoldsAt dsdt q S5
  first : ∀ p, s ≤ p → p < q → ¬ HoldsAt dsdt p S5

lemma FirstFrom.unique {q' : ℕ} (h : FirstFrom dsdt s q) (h' : FirstFrom dsdt s q') : q = q' := by
  by_contra hne
  rcases Nat.lt_or_gt_of_ne hne with hlt | hlt
  · exact h'.first q h.le hlt h.holds
  · exact h.first q' h'.le hlt h'.holds

/-- The loop ends at the first `_S5_`, having read nothing behind it, or behind all the bytes it counts. -/
lemma findS5_cases (dsdt : ℕ → UCHAR) (n s : ℕ) :
    (∃ q, FirstFrom dsdt s q ∧ q < s + n ∧ (findS5 dsdt n s).value.1 = q ∧
      (∀ i ∈ (findS5 dsdt n s).reads, i < q + 4) ∧ q + 3 ∈ (findS5 dsdt n s).reads) ∨
    ∀ p, s ≤ p → p < s + n → ¬ HoldsAt dsdt p S5 ∧ p ∈ (findS5 dsdt n s).reads := by
  induction n generalizing s with
  | zero => exact .inr fun p hp hlt => by omega
  | succ n ih =>
    rw [findS5]
    by_cases hs : HoldsAt dsdt s S5
    · left
      rw [if_pos ((strncmp_eq_zero_iff S5_ne_zero).mpr hs)]
      refine ⟨s, ⟨le_refl _, hs, fun p hp hlt => by omega⟩, by omega, rfl, ?_, ?_⟩
      · exact strncmp_reads
      · exact mem_strncmp_reads_of_holdsAt S5_ne_zero hs (i := 3) (by decide)
    · rw [if_neg fun h => hs ((strncmp_eq_zero_iff S5_ne_zero).mp h)]
      have hnext : ∀ p, s ≤ p → ¬ HoldsAt dsdt p S5 ∨ s + 1 ≤ p := by
        intro p hp
        by_cases hps : p = s
        · exact .inl (hps ▸ hs)
        · exact .inr (by omega)
      rcases ih (s+1) with ⟨q, hfirst, hlt, hvalue, hreads, hmem⟩ | hnone
      · left
        have hle := hfirst.le
        refine ⟨q, ⟨by omega, hfirst.holds, fun p hp hpq => ?_⟩, by omega, hvalue, fun i hi => ?_, ?_⟩
        · exact (hnext p hp).elim id fun hp' => hfirst.first p hp' hpq
        · rcases List.mem_append.mp hi with hi | hi
          · have : i < s + 4 := strncmp_reads i hi
            omega
          · exact hreads i hi
        · exact List.mem_append_right _ hmem
      · refine .inr fun p hp hlt => ?_
        by_cases hps : p = s
        · subst hps
          exact ⟨hs, List.mem_append_left _ (mem_strncmp_reads (by decide))⟩
        · obtain ⟨hnot, hmem⟩ := hnone p (by omega) (by omega)
          exact ⟨hnot, List.mem_append_right _ hmem⟩

end Found

section Packages
variable {dsdt : ℕ → UCHAR} {q : ℕ}

/-- `_S5_` in the body, followed inside the table by a package with a constant. -/
structure Package (dsdt : ℕ → UCHAR) (q : ℕ) : Prop where
  body : sizeofSdtHeader ≤ q
  holds : HoldsAt dsdt q S5
  inside : constantAt dsdt q < (headerLen dsdt).toNat

structure FirstPackage (dsdt : ℕ → UCHAR) (q : ℕ) : Prop extends Package dsdt q where
  first : ∀ p < q, ¬ Package dsdt p

/-- `_S5_` does not occur in the body. -/
def Absent (dsdt : ℕ → UCHAR) : Prop :=
  ∀ q, sizeofSdtHeader ≤ q → q + 4 ≤ (headerLen dsdt).toNat → ¬ HoldsAt dsdt q S5

/-- Nothing is read outside the table, the constant of the first package is returned, and the absence of
`_S5_` is reported. -/
structure SleepTypeFound (dsdt : ℕ → UCHAR) : Prop where
  inside : ∀ i ∈ (getSLPTYPa dsdt).reads, i < (headerLen dsdt).toNat
  constant : ∀ q, FirstPackage dsdt q → (getSLPTYPa dsdt).value = (dsdt (constantAt dsdt q)).setWidth 64 <<< 10
  absent : Absent dsdt → "[ACPI] S5 not present\n" ∈ (getSLPTYPa dsdt).messages

/-- The constant at a place is the one of the first package, and is not negative as a `char`. -/
def AgreesWithFirst (dsdt : ℕ → UCHAR) (q : ℕ) : Prop :=
  ∀ p, FirstPackage dsdt p → dsdt (constantAt dsdt q) < 0x80 ∧ dsdt (constantAt dsdt p) = dsdt (constantAt dsdt q)

lemma elementAt_bounds (dsdt : ℕ → UCHAR) (q : ℕ) : q + 7 ≤ elementAt dsdt q ∧ elementAt dsdt q ≤ q + 10 := by
  have hextra : ((dsdt (q+5) &&& 0xC0) >>> 6).toNat ≤ 3 := by
    generalize dsdt (q+5) = b
    revert b
    decide
  rw [elementAt]
  omega

lemma constantAt_bounds (dsdt : ℕ → UCHAR) (q : ℕ) :
    elementAt dsdt q ≤ constantAt dsdt q ∧ constantAt dsdt q ≤ elementAt dsdt q + 1 := by
  rw [constantAt]
  split_ifs <;> omega

/-- The constant is returned as it is, unless it is negative. -/
lemma shifted_eq_iff (c d : UCHAR) : (c.signExtend 32 <<< 10).signExtend 64 = d.setWidth 64 <<< 10 ↔
    c < 0x80 ∧ d = c := by
  have hsmall : (d.setWidth 64 <<< 10).toNat = d.toNat * 1024 := by
    have := d.isLt
    rw [BitVec.toNat_shiftLeft, BitVec.toNat_setWidth, Nat.shiftLeft_eq]
    omega
  have hvalue : ((c.signExtend 32 <<< 10).signExtend 64).toNat =
      if c < 0x80 then c.toNat * 1024 else 2^64 - 2^18 + c.toNat * 1024 := by
    revert c
    decide +kernel
  rw [← BitVec.toNat_inj, hsmall, hvalue, ← BitVec.toNat_inj]
  have := d.isLt
  have := c.isLt
  split_ifs with hc
  · simp only [hc, true_and]
    omega
  · simp only [hc, false_and, iff_false]
    omega

end Packages

section Search
variable {dsdt : ℕ → UCHAR} {q : ℕ}

/-- The decoding reads nothing behind the constant. -/
lemma reads_inside_iff (hheader : sizeofSdtHeader ≤ (headerLen dsdt).toNat) :
    (∀ i ∈ (getSLPTYPa dsdt).reads, i < (headerLen dsdt).toNat) ↔
      (∀ i ∈ (searchS5 dsdt).reads, i < (headerLen dsdt).toNat) ∧
        constantAt dsdt (searchS5 dsdt).value.1 < (headerLen dsdt).toNat := by
  obtain ⟨helement, -⟩ := elementAt_bounds dsdt (searchS5 dsdt).value.1
  obtain ⟨hconstant, -⟩ := constantAt_bounds dsdt (searchS5 dsdt).value.1
  rw [sizeofSdtHeader] at hheader
  rw [getSLPTYPa]
  simp only [List.mem_append, List.mem_cons, List.not_mem_nil, or_false]
  constructor
  · intro h
    exact ⟨fun i hi => h i (.inl (.inr hi)), h _ (.inr (.inr (.inr rfl)))⟩
  · rintro ⟨hsearch, hplace⟩ i ((((hi | hi) | hi)) | hi)
    · have : i < 0 + 4 := strncmp_reads i hi
      omega
    · omega
    · exact hsearch i hi
    · omega

/-- The returned value is right if the place that is decoded has the constant of the first package. -/
lemma constant_iff : (∀ q, FirstPackage dsdt q →
    (getSLPTYPa dsdt).value = (dsdt (constantAt dsdt q)).setWidth 64 <<< 10) ↔
      AgreesWithFirst dsdt (searchS5 dsdt).value.1 :=
  forall₂_congr fun _ _ => shifted_eq_iff _ _

lemma mem_messages : "[ACPI] S5 not present\n" ∈ (getSLPTYPa dsdt).messages ↔ (searchS5 dsdt).value.2 ≤ 0 := by
  rw [getSLPTYPa]
  dsimp only
  split_ifs with hsignature hpresent hpresent <;> simp [hpresent]

lemma searchS5_short (hheader : sizeofSdtHeader ≤ (headerLen dsdt).toNat) (hshort : (headerLen dsdt).toNat < 2^31) :
    searchS5 dsdt = findS5 dsdt (headerLen dsdt).toNat (sizeofSdtHeader * sizeofSdtHeader) := by
  rw [sizeofSdtHeader] at hheader
  have hint := BitVec.toInt_eq_toNat_of_lt (x := headerLen dsdt) (by omega)
  rw [searchS5]
  exact if_pos (by omega)

lemma searchS5_long (hlong : 2^31 ≤ (headerLen dsdt).toNat) :
    searchS5 dsdt = ⟨(sizeofSdtHeader * sizeofSdtHeader, (headerLen dsdt - 1#32).toInt), []⟩ := by
  have hint := BitVec.toInt_eq_toNat_cond (headerLen dsdt)
  rw [if_neg (by omega)] at hint
  have := (headerLen dsdt).isLt
  rw [searchS5]
  exact if_neg (by omega)

/-- When the search does what is expected: the first `_S5_` from offset 1296 on has its package in the table,
with the constant of the first package. A table from 2 GiB on is not searched at all. -/
structure SearchSuffices (dsdt : ℕ → UCHAR) : Prop where
  short : (headerLen dsdt).toNat < 2^31 → ∃ q, FirstFrom dsdt (sizeofSdtHeader * sizeofSdtHeader) q ∧
    constantAt dsdt q < (headerLen dsdt).toNat ∧ AgreesWithFirst dsdt q
  long : 2^31 ≤ (headerLen dsdt).toNat → AgreesWithFirst dsdt (sizeofSdtHeader * sizeofSdtHeader) ∧
    (Absent dsdt → (headerLen dsdt).toNat ≠ 2^31)

lemma sleepTypeFound_short_iff (hheader : sizeofSdtHeader ≤ (headerLen dsdt).toNat)
    (hshort : (headerLen dsdt).toNat < 2^31) : SleepTypeFound dsdt ↔
      ∃ q, FirstFrom dsdt (sizeofSdtHeader * sizeofSdtHeader) q ∧ constantAt dsdt q < (headerLen dsdt).toNat ∧
        AgreesWithFirst dsdt q := by
  have hsearch := searchS5_short hheader hshort
  have hcases := findS5_cases dsdt (headerLen dsdt).toNat (sizeofSdtHeader * sizeofSdtHeader)
  rw [← hsearch] at hcases
  constructor
  · intro h
    obtain ⟨hreads, hplace⟩ := (reads_inside_iff hheader).mp h.inside
    rcases hcases with ⟨q, hfirst, -, hvalue, -, -⟩ | hnone
    · rw [← hvalue] at hfirst
      exact ⟨_, hfirst, hplace, constant_iff.mp h.constant⟩
    · -- the last byte that is compared is not in the table
      rw [sizeofSdtHeader] at hheader hnone
      obtain ⟨-, hmem⟩ := hnone (36 * 36 + ((headerLen dsdt).toNat - 1)) (by omega) (by omega)
      have := hreads _ hmem
      omega
  · rintro ⟨q, hfirst, hplace, hagrees⟩
    have helement := (elementAt_bounds dsdt q).1
    have hconstant := (constantAt_bounds dsdt q).1
    have hq := hfirst.le
    have hvalue : (searchS5 dsdt).value.1 = q ∧ ∀ i ∈ (searchS5 dsdt).reads, i < q + 4 := by
      rcases hcases with ⟨q', hfirst', -, hvalue, hreads, -⟩ | hnone
      · rw [hfirst.unique hfirst']
        exact ⟨hvalue, hreads⟩
      · exact absurd hfirst.holds (hnone q hq (by omega)).1
    refine ⟨(reads_inside_iff hheader).mpr ⟨fun i hi => ?_, ?_⟩, constant_iff.mpr ?_, fun habsent => ?_⟩
    · have := hvalue.2 i hi
      omega
    · rwa [hvalue.1]
    · rwa [hvalue.1]
    · rw [sizeofSdtHeader] at hq
      exact absurd hfirst.holds (habsent q (by rw [sizeofSdtHeader]; omega) (by omega))

lemma sleepTypeFound_long_iff (hlong : 2^31 ≤ (headerLen dsdt).toNat) : SleepTypeFound dsdt ↔
    AgreesWithFirst dsdt (sizeofSdtHeader * sizeofSdtHeader) ∧ (Absent dsdt → (headerLen dsdt).toNat ≠ 2^31) := by
  have hsearch := searchS5_long hlong
  have hplace : (searchS5 dsdt).value.1 = sizeofSdtHeader * sizeofSdtHeader := by rw [hsearch]
  have hmessage : (searchS5 dsdt).value.2 ≤ 0 ↔ (headerLen dsdt).toNat ≠ 2^31 := by
    have hint := BitVec.toInt_eq_toNat_cond (headerLen dsdt - 1#32)
    have hpred : (headerLen dsdt - 1#32).toNat = (headerLen dsdt).toNat - 1 := by bv_omega
    have := (headerLen dsdt).isLt
    rw [hsearch]
    dsimp only
    split_ifs at hint <;> omega
  have hinside : ∀ i ∈ (getSLPTYPa dsdt).reads, i < (headerLen dsdt).toNat := by
    have helement := (elementAt_bounds dsdt (sizeofSdtHeader * sizeofSdtHeader)).2
    have hconstant := (constantAt_bounds dsdt (sizeofSdtHeader * sizeofSdtHeader)).2
    refine (reads_inside_iff (by rw [sizeofSdtHeader]; omega)).mpr ⟨?_, ?_⟩
    · rw [hsearch]
      simp
    · rw [hplace]
      rw [sizeofSdtHeader] at helement hconstant ⊢
      omega
  rw [← hplace, ← constant_iff]
  constructor
  · intro h
    exact ⟨h.constant, fun habsent => hmessage.mp (mem_messages.mp (h.absent habsent))⟩
  · rintro ⟨hconstant, habsent⟩
    exact ⟨hinside, hconstant, fun h => mem_messages.mpr (hmessage.mpr (habsent h))⟩

/-- The sleep type is found exactly in the tables for which the search suffices. -/
theorem sleepTypeFound_iff (hheader : sizeofSdtHeader ≤ (headerLen dsdt).toNat) :
    SleepTypeFound dsdt ↔ SearchSuffices dsdt := by
  by_cases hshort : (headerLen dsdt).toNat < 2^31
  · rw [sleepTypeFound_short_iff hheader hshort]
    exact ⟨fun h => ⟨fun _ => h, fun hlong => by omega⟩, fun h => h.short hshort⟩
  · rw [sleepTypeFound_long_iff (by omega)]
    exact ⟨fun h => ⟨fun h' => absurd h' hshort, fun _ => h⟩, fun h => h.long (by omega)⟩

/-- A table of a length, with a package at a place. -/
def sampleTable (len place : ℕ) (i : ℕ) : UCHAR :=
  if i < 8 then [0x44, 0x53, 0x44, 0x54, BitVec.ofNat 8 len, BitVec.ofNat 8 (len / 256), 0, 0].getD i 0
  else if i < place then 0
  else (S5 ++ [0x12, 0x06, 0x04, 0x0A, 0x05]).getD (i - place) 0

/-- A table of 48 bytes with the package at the beginning of its body: the search begins behind the table. -/
theorem short_table_left : ¬ SleepTypeFound (sampleTable 48 36) := by
  have hlen : (headerLen (sampleTable 48 36)).toNat = 48 := by decide
  rw [sleepTypeFound_short_iff (by rw [hlen]; decide) (by rw [hlen]; decide), hlen]
  rintro ⟨q, hfirst, hplace, -⟩
  have hq := hfirst.le
  have helement := (elementAt_bounds (sampleTable 48 36) q).1
  have hconstant := (constantAt_bounds (sampleTable 48 36) q).1
  rw [sizeofSdtHeader] at hq
  omega

/-- The same package at offset 1296. -/
theorem sleepTypeFound_iff_late : SleepTypeFound (sampleTable 1310 1296) := by
  have hlen : (headerLen (sampleTable 1310 1296)).toNat = 1310 := by decide
  refine (sleepTypeFound_iff (by rw [hlen]; decide)).mpr ⟨fun _ => ⟨1296, ⟨?_, ?_, ?_⟩, ?_, ?_⟩, fun hlong => ?_⟩
  · decide
  · unfold HoldsAt
    decide
  · intro p hp hlt
    rw [sizeofSdtHeader] at hp
    omega
  · rw [hlen]
    decide
  · intro p hp
    -- there is only one package
    have hthird : sampleTable 1310 1296 (p+2) = 0x35 := hp.holds 2 (by decide)
    have hbyte : ∀ k, (S5 ++ [0x12, 0x06, 0x04, 0x0A, 0x05]).getD k 0 = 0x35 → k = 2 := by
      intro k hk
      have hsmall : ∀ k < 9, (S5 ++ [0x12, 0x06, 0x04, 0x0A, 0x05]).getD k 0 = 0x35 → k = 2 := by decide
      by_cases hlt : k < 9
      · exact hsmall k hlt hk
      · rw [List.getD_eq_getElem?_getD, List.getElem?_eq_none (by simp [S5]; omega)] at hk
        exact absurd hk (by decide)
    have hbody := hp.body
    rw [sizeofSdtHeader] at hbody
    rw [sampleTable, if_neg (by omega)] at hthird
    split_ifs at hthird with hbefore
    · exact absurd hthird (by decide)
    · obtain rfl : p = 1296 := by
        have := hbyte _ hthird
        omega
      exact ⟨by decide, rfl⟩
  · rw [hlen] at hlong
    exact absurd hlong (by decide)

end Search

end Open98.Hal
