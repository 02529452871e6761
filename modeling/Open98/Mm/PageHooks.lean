import Open98.Mm.HeapBacking

/-! The page hooks of liballoc against each other: which pages `liballoc_alloc` marks used, and which
ones `liballoc_free_` clears for the same argument. -/
namespace Open98.Mm

/-- The bits determine the bitmap. -/
lemma bitmap_ext {m m' : Bitmap} (h : ∀ k, bitTest m k = bitTest m' k) : m = m' := by
  funext byte
  apply BitVec.eq_of_getLsbD_eq
  intro i hi
  have hbit := h (8*byte + i)
  rw [bitTest_eq, bitTest_eq] at hbit
  have hdiv : (8*byte + i) / 8 = byte := by omega
  have hmod : (8*byte + i) % 8 = i := by omega
  rwa [hdiv, hmod] at hbit

section Hooks
variable {n : UINT} {h t : Heap} {p : PVOID}

/-- The physical address of what `liballoc_alloc` returned. -/
def physical (p : PVOID) : ℕ := (p - physMemOffset).toNat

/-- The allocation has marked the page used. -/
def NewlyUsed (h t : Heap) (k : ℕ) : Prop := h.pmm.used k = false ∧ t.pmm.used k = true

/-- Exactly the `n` pages from the returned address on have become used. -/
def MarksExactly (n : UINT) (h : Heap) (p : PVOID) (t : Heap) : Prop :=
  ∀ k, NewlyUsed h t k ↔ ∃ i < n.toNat, touchedPage (physical p) i = k

/-- Freeing at once leads back to the bitmap before the allocation. -/
def Restores (n : UINT) (h : Heap) (p : PVOID) (t : Heap) : Prop :=
  ∀ u, liballocFree_ p n t = some ((), u) → u.pmm.pmmBitmap = h.pmm.pmmBitmap

/-- Freeing at any time clears no bit but those that the allocation has set. -/
def SparesOthers (n : UINT) (h : Heap) (p : PVOID) (t : Heap) : Prop :=
  ∀ u v, liballocFree_ p n u = some ((), v) → ∀ k, ¬ NewlyUsed h t k → u.pmm.used k = true →
    v.pmm.used k = true

structure HooksInverse (n : UINT) (h : Heap) (p : PVOID) (t : Heap) : Prop where
  marks : MarksExactly n h p t
  restores : Restores n h p t
  spares : SparesOthers n h p t

/-- What the two hooks do with the bitmap for the same argument: one takes it for a number of bytes,
and the other frees one page more. -/
structure HookEffects (n : UINT) (h : Heap) (p : PVOID) (t : Heap) : Prop where
  first : h.pmm.used (touchedPage (physical p) 0) = false
  alloc : ∀ k, t.pmm.used k = true ↔
    (∃ i < (n.toNat + 4095) / 4096, touchedPage (physical p) i = k) ∨ h.pmm.used k = true
  free : ∀ u, ∃ v, liballocFree_ p n u = some ((), v) ∧
    ∀ k, v.pmm.used k = true ↔ (∀ i < n.toNat + 1, touchedPage (physical p) i ≠ k) ∧ u.pmm.used k = true

lemma hookEffects (hpos : 0 < n.toNat) (hn : n.toNat ≤ 2^20) (h₁ : liballocAlloc n h = some (p, t)) :
    HookEffects n h p t := by
  obtain ⟨i, hfirst, rfl, hpmm, -⟩ := liballocAlloc_run hpos hn h₁
  have hadr : physical (BitVec.ofNat 64 (i*pageSize) + physMemOffset) = i*pageSize := by
    have hbelow := Nat.mul_le_mul_right pageSize hfirst.inside.le
    have hspace := h.pmm.pageCount_lt
    rw [physical, BitVec.add_sub_cancel, BitVec.toNat_ofNat]
    exact Nat.mod_eq_of_lt (hbelow.trans_lt hspace)
  have hcount : ((n + 1).signExtend 64).toNat = n.toNat + 1 := by
    have hsum : (n + 1).toNat = n.toNat + 1 := by
      rw [BitVec.toNat_add, show (1 : UINT).toNat = 1 from rfl]
      exact Nat.mod_eq_of_lt (by omega)
    have hmsb : (n + 1).msb = false := by
      rw [BitVec.msb_eq_false_iff_two_mul_lt, hsum]
      omega
    rw [BitVec.toNat_signExtend, hmsb, BitVec.toNat_setWidth, hsum]
    simp only [Bool.false_eq_true, if_false]
    omega
  refine ⟨?_, fun k => ?_, fun u => ⟨_, rfl, fun k => ?_⟩⟩
  · have hzero : touchedPage (i*pageSize) 0 = i := by
      apply touchedPage_of_fits
      have hbelow := Nat.mul_le_mul_right pageSize hfirst.inside.le
      exact hbelow.trans_lt h.pmm.pageCount_lt
    rw [hadr, hzero]
    exact hfirst.free
  · rw [hadr, hpmm, used_pmmAllocPages]
  · have hfree := used_pmmFreePages u.pmm (physical (BitVec.ofNat 64 (i*pageSize) + physMemOffset))
      (n.toNat + 1) k
    rw [← hcount] at hfree ⊢
    exact hfree

/-- Pages at different places of a request are different. -/
lemma touchedPage_inj {adr i j : ℕ} (hi : i ≤ 2^20) (hj : j ≤ 2^20)
    (heq : touchedPage adr i = touchedPage adr j) : i = j := by
  simp only [touchedPage_eq] at heq
  omega

variable (hn : n.toNat ≤ 2^20) (e : HookEffects n h p t)
include hn e

/-- The right number of pages is marked for a request of one page alone. -/
lemma HookEffects.marksExactly_iff (hpos : 0 < n.toNat) : MarksExactly n h p t ↔ n.toNat = 1 := by
  constructor
  · intro hmarks
    by_contra hne
    obtain ⟨hbefore, hafter⟩ := (hmarks _).mpr ⟨n.toNat - 1, by omega, rfl⟩
    rcases (e.alloc _).mp hafter with ⟨i, hi, hsame⟩ | hused
    · have := touchedPage_inj (by omega) (by omega) hsame
      omega
    · simp [hbefore] at hused
  · intro hone k
    have hcount : (n.toNat + 4095) / 4096 = n.toNat := by omega
    rw [NewlyUsed, e.alloc, hcount]
    constructor
    · rintro ⟨hbefore, hmarked | hused⟩
      · exact hmarked
      · simp [hbefore] at hused
    · rintro ⟨i, hi, rfl⟩
      obtain rfl : i = 0 := by omega
      exact ⟨e.first, .inl ⟨0, by omega, rfl⟩⟩

omit hn in
/-- Freeing at once restores the bitmap if the `n + 1` pages from the returned address on were free. -/
lemma HookEffects.restores_iff : Restores n h p t ↔
    ∀ i ≤ n.toNat, h.pmm.used (touchedPage (physical p) i) = false := by
  obtain ⟨u, hu, hfree⟩ := e.free t
  have hrestores : Restores n h p t ↔ ∀ k, u.pmm.used k = h.pmm.used k := by
    constructor
    · intro hr k
      rw [Pmm.used, hr u hu, Pmm.used]
    · intro hbits v hv
      obtain ⟨-, rfl⟩ := Prod.mk.inj (Option.some.inj (hu.symm.trans hv))
      exact bitmap_ext hbits
  rw [hrestores]
  constructor
  · intro hsame i hi
    rw [← hsame, ← Bool.not_eq_true, hfree]
    exact fun hclear => hclear.1 i (by omega) rfl
  · intro hclear k
    rw [Bool.eq_iff_iff, hfree, e.alloc]
    constructor
    · rintro ⟨hout, ⟨i, hi, hsame⟩ | hused⟩
      · exact (hout i (by omega) hsame).elim
      · exact hused
    · intro hused
      refine ⟨fun i hi hsame => ?_, .inr hused⟩
      have := hclear i (by omega)
      rw [hsame, hused] at this
      cases this

/-- The page behind the request is cleared as well, whoever uses it by then. -/
lemma HookEffects.not_sparesOthers (hpos : 0 < n.toNat) : ¬ SparesOthers n h p t := by
  intro hspares
  have hother : ¬ NewlyUsed h t (touchedPage (physical p) n.toNat) := by
    rintro ⟨hbefore, hafter⟩
    rcases (e.alloc _).mp hafter with ⟨i, hi, hsame⟩ | hused
    · have := touchedPage_inj (by omega) (by omega) hsame
      omega
    · simp [hbefore] at hused
  have htaken : (pmmAllocPages h.pmm (physical p) (n.toNat + 1)).used (touchedPage (physical p) n.toNat) = true :=
    (used_pmmAllocPages _ _ _ _).mpr (.inl ⟨n.toNat, by omega, rfl⟩)
  obtain ⟨v, hv, hfree⟩ := e.free { h with pmm := pmmAllocPages h.pmm (physical p) (n.toNat + 1) }
  have hkept := hspares _ v hv _ hother htaken
  exact ((hfree _).mp hkept).1 n.toNat (by omega) rfl

end Hooks

section Requests
variable {n : UINT} {h t : Heap} {p : PVOID}

/-- The hooks are inverse to each other for no request: one page would be needed for the count to be
right, free pages on both sides of the end for the bitmap to come back, and the page behind the
request is never spared. -/
theorem hooks_not_inverse (hpos : 0 < n.toNat) (hn : n.toNat ≤ 2^20)
    (halloc : liballocAlloc n h = some (p, t)) :
    ¬ HooksInverse n h p t ∧ (MarksExactly n h p t ↔ n.toNat = 1) ∧
      (Restores n h p t ↔ ∀ i ≤ n.toNat, h.pmm.used (touchedPage (physical p) i) = false) ∧
      ¬ SparesOthers n h p t := by
  have e := hookEffects hpos hn halloc
  have hspares := e.not_sparesOthers hn hpos
  exact ⟨fun hinverse => hspares hinverse.spares, e.marksExactly_iff hn hpos, e.restores_iff, hspares⟩

/-- Thirty-two pages of which the first and the last fifteen are in use. -/
def halfMemory : Pmm :=
  ⟨fun i => if i = 0 then 1#8 else if i = 2 then 0xfe#8 else if i = 3 then 0xff#8 else 0#8, 32*pageSize,
    highestPage_small⟩

/-- The block that liballoc asks for on its first request. -/
def firstRequest : Option (PVOID × Heap) := liballocAlloc (pagesFor 1) (.start halfMemory fun _ => 0#8)

lemma firstRequest_returns : ∃ t, firstRequest = some (physMemOffset + 0x1000#64, t) := by
  have hptr : firstRequest.map Prod.fst = some (physMemOffset + 0x1000#64) := by decide
  obtain ⟨⟨p, t⟩, ht, hp⟩ := Option.map_eq_some_iff.mp hptr
  exact ⟨t, by rw [ht, ← show p = _ from hp]⟩

theorem hooks_not_inverse_first : ∃ t,
    liballocAlloc (pagesFor 1) (.start halfMemory fun _ => 0#8) = some (physMemOffset + 0x1000#64, t) ∧
      ¬ HooksInverse (pagesFor 1) (.start halfMemory fun _ => 0#8) (physMemOffset + 0x1000#64) t := by
  obtain ⟨t, ht⟩ := firstRequest_returns
  exact ⟨t, ht, (hooks_not_inverse (by decide) (by decide) ht).1⟩

/-- Of the sixteen pages asked for one is marked, and freeing them clears the bit of the seventeenth,
which was in use before. -/
theorem neighbour_page_cleared : pagesFor 1 = 16#32 ∧ ∃ t v,
    liballocAlloc 16#32 (.start halfMemory fun _ => 0#8) = some (physMemOffset + 0x1000#64, t) ∧
      liballocFree_ (physMemOffset + 0x1000#64) 16#32 t = some ((), v) ∧
      halfMemory.used 2 = false ∧ t.pmm.used 2 = false ∧
      halfMemory.used 17 = true ∧ t.pmm.used 17 = true ∧ v.pmm.used 17 = false ∧
      ¬ HooksInverse 16#32 (.start halfMemory fun _ => 0#8) (physMemOffset + 0x1000#64) t := by
  obtain ⟨t, ht⟩ := firstRequest_returns
  have e := hookEffects (by decide) (by decide) ht
  obtain ⟨v, hv, hfree⟩ := e.free t
  have htouched : touchedPage (physical (physMemOffset + 0x1000#64)) 16 = 17 := by decide
  have h17 : t.pmm.used 17 = true := (e.alloc 17).mpr (.inr (by decide))
  refine ⟨by decide, t, v, ht, hv, by decide, ?_, by decide, h17, ?_, fun h => ?_⟩
  · rw [← Bool.not_eq_true, e.alloc]
    rintro (⟨i, hi, hsame⟩ | hused)
    · obtain rfl : i = 0 := by
        have : (pagesFor 1).toNat = 16 := by decide
        omega
      exact absurd hsame (by decide)
    · exact absurd hused (by decide)
  · rw [← Bool.not_eq_true, hfree]
    exact fun hclear => hclear.1 16 (by decide) htouched
  · exact e.not_sparesOthers (by decide) (by decide) h.spares

end Requests

end Open98.Mm
