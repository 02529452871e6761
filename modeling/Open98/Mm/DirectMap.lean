import Open98.Library.Run
import Open98.Mm.PmmInit
import Open98.Mm.VmmInit

/-! The direct mapping that `MmInitializeVmm` makes, against the pages that the allocator of
`MmInitializePmm` hands out and those of its bitmap. -/
namespace Open98.Mm
open Open98.Library

/-- The page belongs to a range that `pmalloc` returns in some later state; the requests on the way
fit at the first free page. -/
def Returnable (s : Pmm) (p : ℕ) : Prop :=
  ∃ ops m pages adr t, GuardedRun (fun m o => o.Allowed m ∧ o.Fitting m) PmmMachine.step (.start s) ops m ∧
    0 < pages ∧ Fits m.pmm pages ∧ pmalloc m.pmm pages = some (adr, t) ∧ PageRange.Covers ⟨adr, pages⟩ p

section Returnable
variable {s : Pmm} {m n : PmmMachine} {o : PmmOp} {p : ℕ}

/-- Pages that were in use from the start stay in use and are in no live range. -/
structure Untouched (s : Pmm) (m : PmmMachine) : Prop where
  live : LiveInvariant m
  limit : m.pmm.highestPage = s.highestPage
  used : ∀ k, s.used k = true → m.pmm.used k = true
  outside : ∀ k, s.used k = true → ∀ r ∈ m.live, ¬ r.Covers k

lemma Untouched.start (s : Pmm) : Untouched s (.start s) :=
  ⟨.start s, rfl, fun _ h => h, by simp [PmmMachine.start]⟩

lemma Untouched.step (h : Untouched s m) (ha : o.Allowed m) (hf : o.Fitting m) (hn : m.step o = some n) :
    Untouched s n := by
  have hlive := h.live.step ha hf hn
  cases o with
  | pmalloc pages =>
    simp only [PmmMachine.step, Option.map_eq_some_iff] at hn
    obtain ⟨⟨adr, t⟩, hp, rfl⟩ := hn
    have hsound := (pmalloc_sound_iff ha hp).mpr hf
    obtain ⟨i, _, _, rfl⟩ := (pmalloc_eq_some m.pmm pages ha adr t).mp hp
    refine ⟨hlive, ?_, fun k hk => (hsound.marks k).mpr (.inr (h.used k hk)), fun k hk r hr hc => ?_⟩
    · rw [pmmAllocPages_highestPage, h.limit]
    · rcases List.mem_cons.mp hr with rfl | hr
      · have hclear := hsound.clear k hc
        simp [h.used k hk] at hclear
      · exact h.outside k hk r hr hc
  | pmmFreePages r =>
    simp only [PmmMachine.step, Option.some.injEq] at hn
    subst hn
    refine ⟨hlive, ?_, fun k hk => ?_, fun k hk q hq => h.outside k hk q (List.mem_of_mem_erase hq)⟩
    · rw [pmmFreePages_highestPage, h.limit]
    · refine (used_pmmFreePages _ _ _ _).mpr ⟨fun i hi htouched => ?_, h.used k hk⟩
      have hcovers := ((h.live.inside r ha).touched m.pmm.highestPage_lt k).mp ⟨i, hi, htouched⟩
      exact h.outside k hk r ha hcovers

/-- A request for one page always fits. -/
lemma fits_one (s : Pmm) : Fits s 1 := by
  intro i hi
  refine ⟨hi.inside, fun k hk hlt => ?_⟩
  obtain rfl : k = i := by omega
  exact hi.free

lemma mem_freeList : p ∈ s.freeList ↔ p < s.pageCount ∧ s.used p = false := by
  simp [Pmm.freeList]

/-- Single pages taken one after another come to every free page. -/
lemma returnable_of_suffix {ops : List PmmOp} (rest : List ℕ)
    (hrun : GuardedRun (fun m o => o.Allowed m ∧ o.Fitting m) PmmMachine.step (.start s) ops m)
    (hfree : m.pmm.freeList = rest) (hp : p ∈ rest) : Returnable s p := by
  induction rest generalizing m ops with
  | nil => cases hp
  | cons q rest ih =>
    obtain ⟨adr, t, ht, _⟩ := pmalloc_one_returns (a := m.pmm) (by rw [hfree]; simp)
    obtain ⟨q', hq', rfl, _⟩ := pmalloc_one ht
    rw [hfree] at hq'
    obtain ⟨rfl, hrest⟩ := List.cons.inj hq'
    by_cases hpq : p = q
    · subst hpq
      refine ⟨ops, m, 1, _, t, hrun, Nat.one_pos, fits_one _, ht, ?_⟩
      have hdiv : p*pageSize / pageSize = p := Nat.mul_div_cancel _ (by decide)
      simp only [PageRange.Covers, hdiv]
      omega
    · have hstep : m.step (.pmalloc 1) = some ⟨t, ⟨q*pageSize, 1⟩ :: m.live⟩ := by
        rw [PmmMachine.step, ht]
        rfl
      have hguard : (PmmOp.pmalloc 1).Allowed m ∧ (PmmOp.pmalloc 1).Fitting m := ⟨Nat.one_pos, fits_one _⟩
      exact ih (hrun.append (.cons hguard hstep (.nil _))) hrest.symm
        ((List.mem_cons.mp hp).resolve_left hpq)

/-- The pages that can be returned later are the free ones. -/
theorem returnable_iff : Returnable s p ↔ p ∈ s.freeList := by
  constructor
  · rintro ⟨ops, m, pages, adr, t, hrun, hpages, hfits, hp, hcovers⟩
    have hinv : Untouched s m := hrun.invariant (fun _ _ _ h ok next => h.step ok.1 ok.2 next) (.start s)
    have hsound := (pmalloc_sound_iff hpages hp).mpr hfits
    have hclear := hsound.clear p hcovers
    have hin : (p+1)*pageSize ≤ s.highestPage := by
      have hbelow := hsound.inside.below
      have haligned := hsound.inside.aligned
      have hhigh := hcovers.2
      simp only [pageSize] at *
      rw [hinv.limit] at hbelow
      omega
    refine mem_freeList.mpr ⟨(Nat.le_div_iff_mul_le (by decide)).mpr hin, ?_⟩
    by_contra hused
    rw [Bool.not_eq_false] at hused
    simp [hinv.used p hused] at hclear
  · exact returnable_of_suffix s.freeList (.nil _) rfl

end Returnable

/-- The kernel's pagemap leads from the page's address in the direct mapping to the page, and the
processor may read and write there. -/
def DirectMapped (t : Paging) (kernel : ULONG64) (p : ℕ) : Prop :=
  ∃ e, translate t (kernel.toNat / pageSize) (BitVec.ofNat 64 (p*pageSize) + physMemOffset) = some e ∧
    (entryAddress e).toNat = p*pageSize ∧
    effective t (kernel.toNat / pageSize) (BitVec.ofNat 64 (p*pageSize) + physMemOffset) &&& 0b11#64 = 0b11#64

section Mapped
variable {t : Paging} {kernel : ULONG64} {top p : ℕ} {free : List ℕ}

lemma pageOf_direct_wrapped (hp : p < 2^52) :
    pageOf (BitVec.ofNat 64 (p*pageSize) + physMemOffset) = (p + 2^35) % 2^36 := by
  have hphys : physMemOffset.toNat = (2^52-2^35)*pageSize := by decide
  have hk : p*pageSize < 2^64 := by
    simp only [pageSize]
    omega
  have hsum : (p*pageSize + (2^52-2^35)*pageSize) % 2^64 / pageSize = (p + (2^52-2^35)) % 2^52 := by
    rw [← Nat.add_mul, show (2^64 : ℕ) = 2^52*pageSize from rfl, Nat.mul_mod_mul_right,
      Nat.mul_div_cancel _ (by decide)]
  rw [pageOf, BitVec.toNat_add, BitVec.toNat_ofNat, hphys, Nat.mod_eq_of_lt hk, hsum]
  omega

/-- What the leaf entries of the finished mapping refer to. -/
lemma initialEntry_address {q : ℕ} (hq : q < 2^36)
    (h : present (initialEntry (2^20-1) (2^20-1) (2^19) q) = true) :
    (1 ≤ q ∧ q < 2^20 ∧ (entryAddress (initialEntry (2^20-1) (2^20-1) (2^19) q)).toNat = q*pageSize) ∨
    (2^35+1 ≤ q ∧ q < 2^35+2^20 ∧
      (entryAddress (initialEntry (2^20-1) (2^20-1) (2^19) q)).toNat = (q-2^35)*pageSize) ∨
    (2^36-2^19 ≤ q ∧
      (entryAddress (initialEntry (2^20-1) (2^20-1) (2^19) q)).toNat = (q-(2^36-2^19))*pageSize) := by
  have haddr : ∀ k flags, k < 2^20 → flags.toNat < pageSize →
      (entryAddress (BitVec.ofNat 64 (k*pageSize) ||| flags)).toNat = k*pageSize := by
    intro k flags hk hf
    have hlt : k*pageSize < 2^64 := by
      simp only [pageSize]
      omega
    have hnat : (BitVec.ofNat 64 (k*pageSize)).toNat = k*pageSize := by
      rw [BitVec.toNat_ofNat, Nat.mod_eq_of_lt hlt]
    rw [entryAddress_or_flags (by rw [hnat, Nat.mul_mod_left]) hf, hnat]
  rw [initialEntry] at h ⊢
  split_ifs at h ⊢ with h1 h2 h3
  · exact .inl ⟨h1.1, by omega, haddr q _ (by omega) (by decide)⟩
  · exact .inr (.inl ⟨h2.1, by omega, haddr _ _ (by omega) (by decide)⟩)
  · exact .inr (.inr ⟨h3.1, haddr _ _ (by omega) (by decide)⟩)
  · simp at h

lemma and_and_eq {x y r : ULONG64} (hx : x &&& r = r) (hy : y &&& r = r) : (x &&& y) &&& r = r := by
  rw [BitVec.and_assoc, hy, hx]

/-- Where the tables of an address exist, they let the processor write. -/
lemma Mapping.writableAbove {k l m : ℕ} (h : Mapping t top k l m free) {v : ULONG64}
    (hw : (tableWalk t top (pathOf v)).isSome) {b : List TableIndex} {j : TableIndex}
    (hpre : b ++ [j] <+: pathOf v) : permissionAt t top b j &&& 0b11#64 = 0b11#64 := by
  have hlen : b.length < 3 := by
    have := hpre.length_le
    rw [List.length_append, List.length_singleton] at this
    exact this
  refine (h.writable b j hlen).resolve_left fun hzero => ?_
  obtain ⟨c, hc⟩ := hpre
  rw [← hc, tableWalk, Radix.walk_append, Radix.walk_append] at hw
  cases hb : Radix.walk child (tables t.mem) top b with
  | none => simp [hb] at hw
  | some f =>
    have hnone : child (tables t.mem f j) = none := by
      rw [child_eq_none_iff, ← permissionAt_of_walk hb]
      exact hzero
    simp [hb, hnone] at hw

/-- After the initialisation the direct mapping covers the pages from 1 to `2^20`. -/
theorem directMapped_iff (htop : PointsTo kernel top)
    (h : Mapping t top (2^20-1) (2^20-1) (2^19) free) (hp : p < 2^52) :
    DirectMapped t kernel p ↔ 1 ≤ p ∧ p < 2^20 := by
  have hframe : kernel.toNat / pageSize = top := by
    rw [htop]
    exact Nat.mul_div_cancel _ (by decide)
  rw [DirectMapped, hframe]
  set v := BitVec.ofNat 64 (p*pageSize) + physMemOffset with hv
  have hpage : pageOf v = (p + 2^35) % 2^36 := pageOf_direct_wrapped hp
  have hentry : leafEntry t top v = initialEntry (2^20-1) (2^20-1) (2^19) (pageOf v) := h.entry v
  constructor
  · rintro ⟨e, he, haddr, _⟩
    rw [translate] at he
    split_ifs at he with hpres
    obtain rfl := Option.some.inj he
    rw [hentry] at hpres haddr
    have hcases := initialEntry_address (pageOf_lt v) hpres
    simp only [pageSize] at hcases haddr
    omega
  · rintro ⟨hlow, hhigh⟩
    have hpage' : pageOf v = 2^35 + p := by omega
    have hleaf : leafEntry t top v = BitVec.ofNat 64 (p*pageSize) ||| 0b11#64 := by
      rw [hentry, hpage', initialEntry, if_neg (by omega), if_pos (by omega), Nat.add_sub_cancel_left]
    have hwalk : (tableWalk t top (pathOf v)).isSome := by
      rw [pathOf_eq, h.pml1 _ (pageOf_lt v), hpage']
      refine .inr (.inr (.inl ⟨by decide, ?_, ?_⟩))
      · omega
      · omega
    have hnat : (BitVec.ofNat 64 (p*pageSize)).toNat = p*pageSize := by
      rw [BitVec.toNat_ofNat]
      simp only [pageSize]
      omega
    have haligned : (BitVec.ofNat 64 (p*pageSize)).toNat % pageSize = 0 := by
      rw [hnat, Nat.mul_mod_left]
    have hpres : present (leafEntry t top v) = true := by
      rw [hleaf, present_or_flags haligned]
      decide
    refine ⟨leafEntry t top v, if_pos hpres, ?_, ?_⟩
    · rw [hleaf, entryAddress_or_flags haligned (by decide), hnat]
    · rw [effective_eq]
      refine and_and_eq (h.writableAbove hwalk (by simp [pathOf])) (and_and_eq
        (h.writableAbove hwalk (by simp [pathOf])) (and_and_eq (h.writableAbove hwalk (by simp [pathOf])) ?_))
      rw [hleaf, permission_or_flags haligned]
      decide

end Mapped

section Coverage
variable {memory : ULONG64 → BitVec 8} {entries : List Stivale2MmapEntry} {boot : PmmBoot} {mem : ℕ → ULONG64}
  {kernel : ULONG64} {t : Paging} {p : ℕ}

/-- What stays free are the offered pages without the 5388 lowest ones, which have become tables. -/
lemma freeList_after (hpmm : mmInitializePmm memory entries = some boot)
    (hvmm : mmInitializeVmm ⟨mem, boot.pmm, []⟩ = some (kernel, t))
    (hsup : Supplied ⟨mem, boot.pmm, []⟩ t) :
    t.pmm.freeList = (offeredPages memory entries).drop 5388 := by
  obtain ⟨top, _, hmapping, _⟩ := mmInitializeVmm_mapping hvmm hsup
  rw [hmapping.free, ← mmInitializePmm_freeList hpmm]
  rfl

lemma bitmapPage_lt (h : BitmapPage entries p) : p < 2^52 := by
  obtain ⟨base, rest, i, _, _, rfl⟩ := h
  rw [Nat.div_lt_iff_lt_mul (by decide)]
  exact BitVec.isLt _

lemma offered_lt (h : p ∈ offeredPages memory entries) : p < 2^52 := by
  have hlt := List.mem_range.mp (List.mem_filter.mp h).1
  have hhigh := (highestPageFrom 0#64 entries).isLt
  simp only [pageSize] at hlt
  omega

lemma directMapped_after (hvmm : mmInitializeVmm ⟨mem, boot.pmm, []⟩ = some (kernel, t))
    (hsup : Supplied ⟨mem, boot.pmm, []⟩ t) (hp : p < 2^52) :
    DirectMapped t kernel p ↔ 1 ≤ p ∧ p < 2^20 := by
  obtain ⟨top, htop, hmapping, _⟩ := mmInitializeVmm_mapping hvmm hsup
  exact directMapped_iff htop hmapping hp

/-- A memory map with one usable entry, a terabyte from 1 MiB on. -/
def terabyteMap : List Stivale2MmapEntry := [⟨0x100000#64, 0x10000000000#64, stivale2MmapUsable⟩]

lemma terabyteMap_place :
    bitmapPlace terabyteMap = some (0x100000#64, [⟨0x2101000#64, 0xfffdfff000#64, stivale2MmapUsable⟩]) := by
  decide

lemma terabyteMap_boots (memory : ULONG64 → BitVec 8) : ∃ boot, mmInitializePmm memory terabyteMap = some boot := by
  have hplace := terabyteMap_place
  rw [bitmapPlace] at hplace
  rw [mmInitializePmm]
  dsimp only
  rw [hplace]
  exact ⟨_, rfl⟩

lemma length_filter_range {f : ℕ → Bool} {n a : ℕ} (ha : a ≤ n) (hf : ∀ k, a ≤ k → k < n → f k = true) :
    n - a ≤ ((List.range n).filter f).length := by
  obtain ⟨m, rfl⟩ := Nat.exists_eq_add_of_le ha
  have hall : ((List.range m).map (a + ·)).filter f = (List.range m).map (a + ·) := by
    refine List.filter_eq_self.mpr fun k hk => ?_
    obtain ⟨j, hj, rfl⟩ := List.mem_map.mp hk
    have hlt := List.mem_range.mp hj
    exact hf _ (Nat.le_add_right _ _) (by omega)
  rw [List.range_add, List.filter_append, List.length_append, hall, List.length_map, List.length_range]
  omega

lemma mem_drop_filter_range {f : ℕ → Bool} {n m a : ℕ} (hp : p < n) (hf : ∀ k, a ≤ k → k < n → f k = true)
    (ha : a + m ≤ p) : p ∈ ((List.range n).filter f).drop m := by
  obtain ⟨l, rfl⟩ := Nat.exists_eq_add_of_lt hp
  have hlen : m ≤ ((List.range p).filter f).length := by
    have := length_filter_range (n := p) (a := a) (by omega) fun k hk hlt => hf k hk (by omega)
    omega
  have hsplit : List.range (p + l + 1) = List.range p ++ p :: (List.range l).map (p + 1 + ·) := by
    rw [show p + l + 1 = p + 1 + l by omega, List.range_add, List.range_succ, List.append_assoc,
      List.singleton_append]
  rw [hsplit, List.filter_append, List.filter_cons_of_pos (hf p (by omega) hp),
    List.drop_append_of_le_length hlen]
  exact List.mem_append_right _ List.mem_cons_self

/-- All pages behind the bitmap are offered. -/
lemma terabyteMap_offered (memory : ULONG64 → BitVec 8) {k : ℕ} (hlow : 8449 ≤ k) (hhigh : k < 2^28+2^8) :
    Offered memory terabyteMap k := by
  refine ⟨_, _, terabyteMap_place, .inl ⟨_, List.mem_singleton_self _, rfl, k - 8449, ?_, ?_⟩⟩
  · have hlen : (0xfffdfff000#64).toNat / pageSize = 2^28 - 8193 := by decide
    rw [hlen]
    omega
  · have hbase : (0x2101000#64).toNat = 8449*pageSize := by decide
    have hsum : (8449 + (k - 8449)) * pageSize < addressSpace := by
      simp only [pageSize, addressSpace]
      omega
    rw [hbase, touchedPage_of_fits hsum]
    omega

lemma terabyteMap_pages : (highestPageFrom 0#64 terabyteMap).toNat / pageSize = 2^28+2^8 := by decide

/-- The machine boots, and the page at 5 GiB can be allocated. -/
lemma terabyteMap_runs : ∃ boot kernel t, mmInitializePmm (fun _ => 0#8) terabyteMap = some boot ∧
    mmInitializeVmm ⟨fun _ => 0#64, boot.pmm, []⟩ = some (kernel, t) ∧
    Supplied ⟨fun _ => 0#64, boot.pmm, []⟩ t ∧
    5*2^18 ∈ (offeredPages (fun _ => 0#8) terabyteMap).drop 5388 := by
  classical
  obtain ⟨boot, hboot⟩ := terabyteMap_boots fun _ => 0#8
  have hall : ∀ k, 8449 ≤ k → k < (highestPageFrom 0#64 terabyteMap).toNat / pageSize →
      decide (Offered (fun _ => 0#8) terabyteMap k) = true := by
    intro k hlow hhigh
    rw [terabyteMap_pages] at hhigh
    exact decide_eq_true (terabyteMap_offered _ hlow hhigh)
  have hlen : 1 + 256 + (2^20-1)*6 + 2^19*3 ≤ boot.pmm.freeList.length := by
    have hlength := length_filter_range (a := 8449) (by rw [terabyteMap_pages]; norm_num) hall
    rw [terabyteMap_pages] at hlength
    rw [mmInitializePmm_freeList hboot, offeredPages, terabyteMap_pages]
    refine le_trans (by norm_num) hlength
  obtain ⟨kernel, t, ht⟩ := mmInitializeVmm_returns (s := ⟨fun _ => 0#64, boot.pmm, []⟩) hlen
  refine ⟨boot, kernel, t, hboot, ht, fun _ _ _ _ => rfl, ?_⟩
  exact mem_drop_filter_range (by rw [terabyteMap_pages]; norm_num) hall (by norm_num)

end Coverage
end Open98.Mm
