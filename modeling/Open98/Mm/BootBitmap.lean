import Mathlib.Data.List.Pairwise
import Open98.Mm.PmmInit
import Open98.Mm.Vmm

/-! What `MmInitializePmm` makes of a memory map that keeps the boot protocol: which bytes of the
bitmap it touches, and which pages it marks free. -/
namespace Open98.Mm

/-- The page lies in the entry. -/
def Stivale2MmapEntry.Holds (entry : Stivale2MmapEntry) (p : ℕ) : Prop :=
  entry.type = stivale2MmapUsable ∧ entry.base.toNat ≤ p*pageSize ∧
    (p+1)*pageSize ≤ entry.base.toNat + entry.length.toNat

/-- What the boot protocol promises of a usable entry: it consists of whole pages, and its end is an
address. -/
structure Stivale2MmapEntry.Whole (entry : Stivale2MmapEntry) : Prop where
  base : entry.base.toNat % pageSize = 0
  length : entry.length.toNat % pageSize = 0
  bounded : entry.base.toNat + entry.length.toNat < addressSpace

/-- What the boot protocol promises of a memory map; entries that are not usable may be anything. -/
structure MemoryMap (entries : List Stivale2MmapEntry) : Prop where
  whole : ∀ entry ∈ entries, entry.type = stivale2MmapUsable → entry.Whole
  apart : entries.Pairwise fun a b => ∀ p, a.Holds p → ¬ b.Holds p

def UsablePage (entries : List Stivale2MmapEntry) (p : ℕ) : Prop := ∃ entry ∈ entries, entry.Holds p

/-- The pages whose bits the last loop clears, in that order. -/
def freedPages : List Stivale2MmapEntry → List ℕ
  | [] => []
  | entry :: rest =>
    (if entry.type = stivale2MmapUsable then
      (List.range (entry.length.toNat / pageSize)).map (touchedPage entry.base.toNat) else []) ++
      freedPages rest

/-- What the bitmap is to be after `MmInitializePmm`. -/
structure BitmapExact (entries : List Stivale2MmapEntry) (boot : PmmBoot) : Prop where
  /-- The bytes that the clearing of bits reads and writes are bytes of the bitmap. -/
  accesses : ∀ base rest, bitmapPlace entries = some (base, rest) →
    ∀ p ∈ freedPages rest, p/8 < boot.bitmapSize.toNat
  /-- Every page below the highest one has its bit in the bitmap. -/
  covers : ∀ p < boot.pmm.pageCount, p/8 < boot.bitmapSize.toNat
  clear : ∀ p, p/8 < boot.bitmapSize.toNat →
    (boot.pmm.used p = false ↔ UsablePage entries p ∧ ¬ BitmapPage entries p)

section Freeing

lemma pmmFreePages_bitmap (s : Pmm) (adr n : ℕ) : (pmmFreePages s adr n).pmmBitmap =
    ((List.range n).map (touchedPage adr)).foldl bitClear s.pmmBitmap := by
  induction n with
  | zero => rfl
  | succ n ih =>
    rw [List.range_succ, List.map_append, List.foldl_append, ← ih]
    rfl

/-- The last loop does nothing but clear the bits of these pages. -/
theorem freeUsable_bitmap (s : Pmm) (entries : List Stivale2MmapEntry) :
    (freeUsable s entries).pmmBitmap = (freedPages entries).foldl bitClear s.pmmBitmap := by
  induction entries generalizing s with
  | nil => rfl
  | cons entry rest ih =>
    rw [freeUsable, ih, freedPages, List.foldl_append]
    split_ifs with h
    · rw [pmmFreePages_bitmap]
    · rfl

lemma mem_freedPages {entries : List Stivale2MmapEntry} {p : ℕ} : p ∈ freedPages entries ↔
    ∃ entry ∈ entries, entry.type = stivale2MmapUsable ∧
      ∃ i < entry.length.toNat / pageSize, touchedPage entry.base.toNat i = p := by
  induction entries with
  | nil => simp [freedPages]
  | cons entry rest ih =>
    rw [freedPages, List.mem_append, ih, List.exists_mem_cons_iff]
    refine or_congr_left ?_
    split_ifs with h
    · simp [h]
    · simp [h]

/-- The loop frees the pages of a usable entry. -/
lemma Stivale2MmapEntry.Whole.touched {entry : Stivale2MmapEntry} (h : entry.Whole)
    (husable : entry.type = stivale2MmapUsable) (p : ℕ) :
    (∃ i < entry.length.toNat / pageSize, touchedPage entry.base.toNat i = p) ↔ entry.Holds p := by
  have hbase := h.base
  have hlength := h.length
  have hbounded := h.bounded
  obtain ⟨b, hb⟩ : ∃ b, entry.base.toNat = b*pageSize := ⟨_, (Nat.div_mul_cancel (Nat.dvd_of_mod_eq_zero hbase)).symm⟩
  have htouched : ∀ i < entry.length.toNat / pageSize, touchedPage entry.base.toNat i = b+i := by
    intro i hi
    rw [hb]
    apply touchedPage_of_fits
    simp only [pageSize] at *
    omega
  unfold Holds
  constructor
  · rintro ⟨i, hi, rfl⟩
    rw [htouched i hi]
    simp only [pageSize] at *
    exact ⟨husable, by omega, by omega⟩
  · rintro ⟨-, hlow, hhigh⟩
    have hi : p - b < entry.length.toNat / pageSize := by
      simp only [pageSize] at *
      omega
    refine ⟨p - b, hi, ?_⟩
    rw [htouched _ hi]
    simp only [pageSize] at *
    omega

lemma mem_freedPages_iff {entries : List Stivale2MmapEntry}
    (h : ∀ entry ∈ entries, entry.type = stivale2MmapUsable → entry.Whole) {p : ℕ} :
    p ∈ freedPages entries ↔ UsablePage entries p := by
  rw [mem_freedPages]
  refine exists_congr fun entry => and_congr_right fun hmem => ?_
  constructor
  · rintro ⟨husable, htouched⟩
    exact ((h entry hmem husable).touched husable p).mp htouched
  · intro hp
    exact ⟨hp.1, ((h entry hmem hp.1).touched hp.1 p).mpr hp⟩

end Freeing

section Room
variable {size base : ULONG64} {entries rest : List Stivale2MmapEntry} {entry : Stivale2MmapEntry}

/-- What is left of the entry that gives the room for the bitmap. -/
def Stivale2MmapEntry.behind (entry : Stivale2MmapEntry) (size : ULONG64) : Stivale2MmapEntry :=
  { entry with base := entry.base + size, length := entry.length - size }

/-- The room is the start of one of the usable entries; the others stay as they are. -/
lemma takeBitmap_eq_some (h : takeBitmap size entries = some (base, rest)) :
    ∃ pre entry post, entries = pre ++ entry :: post ∧ entry.type = stivale2MmapUsable ∧
      size ≤ entry.length ∧ base = entry.base ∧ rest = pre ++ entry.behind size :: post := by
  induction entries generalizing rest with
  | nil => cases h
  | cons entry tail ih =>
    rw [takeBitmap] at h
    split_ifs at h with hroom
    · cases h
      exact ⟨[], entry, tail, rfl, hroom.1, hroom.2, rfl, rfl⟩
    · obtain ⟨⟨base', rest'⟩, htake, heq⟩ := Option.map_eq_some_iff.mp h
      cases heq
      obtain ⟨pre, found, post, rfl, husable, hlength, hbase, rfl⟩ := ih htake
      exact ⟨entry :: pre, found, post, rfl, husable, hlength, hbase, rfl⟩

lemma takeBitmap_isSome (h : ∃ entry ∈ entries, entry.type = stivale2MmapUsable ∧ size ≤ entry.length) :
    ∃ base rest, takeBitmap size entries = some (base, rest) := by
  induction entries with
  | nil =>
    obtain ⟨_, hmem, _⟩ := h
    cases hmem
  | cons entry tail ih =>
    rw [takeBitmap]
    split_ifs with hroom
    · exact ⟨_, _, rfl⟩
    · obtain ⟨found, hmem, hfound⟩ := h
      rcases List.mem_cons.mp hmem with rfl | hmem
      · exact (hroom hfound).elim
      · obtain ⟨base, rest, htake⟩ := ih ⟨found, hmem, hfound⟩
        exact ⟨base, entry :: rest, by rw [htake]; rfl⟩

/-- The page lies in the first `size` bytes from `base` on. -/
def InRoom (base size : ULONG64) (p : ℕ) : Prop :=
  base.toNat ≤ p*pageSize ∧ (p+1)*pageSize ≤ base.toNat + size.toNat

lemma behind_toNat (whole : entry.Whole) (hlength : size ≤ entry.length) :
    (entry.behind size).base.toNat = entry.base.toNat + size.toNat ∧
      (entry.behind size).length.toNat = entry.length.toNat - size.toNat := by
  have hbounded := whole.bounded
  have hle : size.toNat ≤ entry.length.toNat := BitVec.le_def.mp hlength
  constructor
  · exact (BitVec.toNat_add _ _).trans (Nat.mod_eq_of_lt (by simp only [addressSpace] at *; omega))
  · exact BitVec.toNat_sub_of_le hlength

lemma Stivale2MmapEntry.Whole.behind (whole : entry.Whole) (hlength : size ≤ entry.length)
    (hsize : size.toNat % pageSize = 0) : (entry.behind size).Whole := by
  obtain ⟨hb, hl⟩ := behind_toNat whole hlength
  have hle : size.toNat ≤ entry.length.toNat := BitVec.le_def.mp hlength
  have hbase := whole.base
  have hlen := whole.length
  have hbounded := whole.bounded
  refine ⟨?_, ?_, ?_⟩
  · rw [hb]
    simp only [pageSize] at *
    omega
  · rw [hl]
    simp only [pageSize] at *
    omega
  · rw [hb, hl]
    omega

/-- The pages of the entry are those of the room and those behind it. -/
lemma behind_holds (whole : entry.Whole) (hlength : size ≤ entry.length)
    (hsize : size.toNat % pageSize = 0) (p : ℕ) :
    (entry.behind size).Holds p ↔ entry.Holds p ∧ ¬ InRoom entry.base size p := by
  obtain ⟨hb, hl⟩ := behind_toNat whole hlength
  have hle : size.toNat ≤ entry.length.toNat := BitVec.le_def.mp hlength
  have hbase := whole.base
  have htype : (entry.behind size).type = entry.type := rfl
  unfold Stivale2MmapEntry.Holds InRoom
  rw [hb, hl, htype]
  simp only [pageSize] at *
  constructor
  · rintro ⟨husable, hlow, hhigh⟩
    exact ⟨⟨husable, by omega, by omega⟩, by omega⟩
  · rintro ⟨⟨husable, hlow, hhigh⟩, hout⟩
    exact ⟨husable, by omega, by omega⟩

lemma InRoom.holds {p : ℕ} (husable : entry.type = stivale2MmapUsable) (hlength : size ≤ entry.length)
    (h : InRoom entry.base size p) : entry.Holds p := by
  have hle : size.toNat ≤ entry.length.toNat := BitVec.le_def.mp hlength
  exact ⟨husable, h.1, h.2.trans (Nat.add_le_add_left hle _)⟩

/-- The bitmap is in the pages of its room. -/
lemma inRoom_iff (hbase : base.toNat % pageSize = 0) (hsize : size.toNat % pageSize = 0)
    (hbounded : base.toNat + size.toNat < addressSpace) (p : ℕ) :
    (∃ i < size.toNat, (base + BitVec.ofNat 64 i).toNat / pageSize = p) ↔ InRoom base size p := by
  have hadd : ∀ i < size.toNat, (base + BitVec.ofNat 64 i).toNat = base.toNat + i := by
    intro i hi
    rw [BitVec.toNat_add, BitVec.toNat_ofNat]
    simp only [addressSpace] at hbounded
    omega
  unfold InRoom
  simp only [pageSize] at *
  constructor
  · rintro ⟨i, hi, rfl⟩
    rw [hadd i hi]
    omega
  · rintro ⟨hlow, hhigh⟩
    refine ⟨p*0x1000 - base.toNat, by omega, ?_⟩
    rw [hadd _ (by omega)]
    omega

end Room

section Size
variable (highest : ULONG64)

lemma alignDown_toNat : (alignDown highest).toNat = highest.toNat / pageSize * pageSize :=
  toNat_entryAddress highest

/-- `bitmap_size` in terms of the number of pages. -/
lemma bitmapSize_toNat : (bitmapSize highest).toNat =
    (highest.toNat / pageSize / 8 + (pageSize-1)) / pageSize * pageSize := by
  have hlt := highest.isLt
  have hnumber : (alignDown highest / 0x1000#64 / 8#64).toNat = highest.toNat / pageSize / 8 := by
    rw [BitVec.toNat_udiv, BitVec.toNat_udiv, alignDown_toNat]
    exact congrArg (· / 8) (Nat.mul_div_cancel _ (show 0 < pageSize by decide))
  have hup : ∀ number : ULONG64, alignUp number = entryAddress (number + 0x1000#64 - 1#64) := fun _ => rfl
  rw [bitmapSize, hup, toNat_entryAddress]
  have hsum : (alignDown highest / 0x1000#64 / 8#64 + 0x1000#64 - 1#64).toNat =
      highest.toNat / pageSize / 8 + (pageSize-1) := by
    rw [BitVec.toNat_sub, BitVec.toNat_add, hnumber]
    simp only [pageSize, BitVec.toNat_ofNat]
    omega
  rw [hsum]

lemma bitmapSize_aligned : (bitmapSize highest).toNat % pageSize = 0 := by
  rw [bitmapSize_toNat, Nat.mul_mod_left]

/-- The bitmap has a bit for every page unless the number of pages exceeds a multiple of the number of
bits in a page by one to seven. -/
lemma bitmapSize_covers_iff : (∀ p < highest.toNat / pageSize, p/8 < (bitmapSize highest).toNat) ↔
    highest.toNat / pageSize % (8*pageSize) = 0 ∨ 8 ≤ highest.toNat / pageSize % (8*pageSize) := by
  rw [bitmapSize_toNat]
  generalize highest.toNat / pageSize = n
  simp only [pageSize]
  constructor
  · intro h
    by_contra hbad
    have := h (n-1) (by omega)
    omega
  · intro h p hp
    omega

end Size

section Highest
variable {highest : ULONG64} {entries : List Stivale2MmapEntry}

lemma le_highestPageFrom (highest : ULONG64) (entries : List Stivale2MmapEntry) :
    highest.toNat ≤ (highestPageFrom highest entries).toNat := by
  induction entries generalizing highest with
  | nil => exact Nat.le_refl _
  | cons entry rest ih =>
    rw [highestPageFrom]
    split_ifs
    · exact ih highest
    · refine le_trans ?_ (ih _)
      split_ifs with htop
      · exact (BitVec.lt_def.mp htop).le
      · exact Nat.le_refl _

/-- No usable entry ends behind the highest page. -/
lemma top_le_highestPageFrom {entry : Stivale2MmapEntry} (hmem : entry ∈ entries)
    (husable : entry.type = stivale2MmapUsable)
    (hbounded : entry.base.toNat + entry.length.toNat < addressSpace) :
    entry.base.toNat + entry.length.toNat ≤ (highestPageFrom highest entries).toNat := by
  have htop : (entry.base + entry.length).toNat = entry.base.toNat + entry.length.toNat :=
    (BitVec.toNat_add _ _).trans (Nat.mod_eq_of_lt hbounded)
  induction entries generalizing highest with
  | nil => cases hmem
  | cons found rest ih =>
    rw [highestPageFrom]
    rcases List.mem_cons.mp hmem with rfl | hmem
    · rw [if_neg fun h => h.1 husable, ← htop]
      dsimp only
      split_ifs with hgt
      · exact le_highestPageFrom _ rest
      · have hle := le_highestPageFrom highest rest
        rw [gt_iff_lt, BitVec.lt_def] at hgt
        omega
    · split_ifs
      · exact ih hmem
      · exact ih hmem

lemma UsablePage.lt (hmap : MemoryMap entries) {p : ℕ} (h : UsablePage entries p) :
    p < (highestPageFrom highest entries).toNat / pageSize := by
  obtain ⟨entry, hmem, husable, -, hhigh⟩ := h
  have htop : entry.base.toNat + entry.length.toNat ≤ (highestPageFrom highest entries).toNat :=
    top_le_highestPageFrom hmem husable (hmap.whole entry hmem husable).bounded
  exact (Nat.le_div_iff_mul_le (show 0 < pageSize by decide)).mpr (hhigh.trans htop)

end Highest

section Boot
variable {size base : ULONG64} {entries rest : List Stivale2MmapEntry}

/-- The map without the room keeps the protocol, and loses the pages of the room. -/
lemma takeBitmap_usable (hmap : MemoryMap entries) (hsize : size.toNat % pageSize = 0)
    (h : takeBitmap size entries = some (base, rest)) :
    (∀ entry ∈ rest, entry.type = stivale2MmapUsable → entry.Whole) ∧
      base.toNat % pageSize = 0 ∧ base.toNat + size.toNat < addressSpace ∧
      ∀ p, UsablePage rest p ↔ UsablePage entries p ∧ ¬ InRoom base size p := by
  obtain ⟨pre, entry, post, rfl, husable, hlength, rfl, rfl⟩ := takeBitmap_eq_some h
  have hentry := hmap.whole entry (by simp) husable
  have hle : size.toNat ≤ entry.length.toNat := BitVec.le_def.mp hlength
  obtain ⟨-, hpost, hpre⟩ := List.pairwise_append.mp hmap.apart
  have hapart : ∀ other ∈ pre ++ post, ∀ p, entry.Holds p → ¬ other.Holds p := by
    intro other hother p hp hq
    rcases List.mem_append.mp hother with hother | hother
    · exact hpre other hother entry List.mem_cons_self p hq hp
    · exact (List.pairwise_cons.mp hpost).1 other hother p hp hq
  refine ⟨fun other hother hother' => ?_, hentry.base, ?_, fun p => ?_⟩
  · rcases List.mem_append.mp hother with hmem | hmem
    · exact hmap.whole other (List.mem_append_left _ hmem) hother'
    · rcases List.mem_cons.mp hmem with rfl | hmem
      · exact hentry.behind hlength hsize
      · exact hmap.whole other (List.mem_append_right _ (List.mem_cons_of_mem _ hmem)) hother'
  · have := hentry.bounded
    omega
  · have hsplit : ∀ x : Stivale2MmapEntry, UsablePage (pre ++ x :: post) p ↔
        x.Holds p ∨ ∃ other ∈ pre ++ post, other.Holds p := by
      intro x
      simp only [UsablePage, List.mem_append, List.mem_cons]
      constructor
      · rintro ⟨other, hother | rfl | hother, hp⟩
        · exact .inr ⟨other, .inl hother, hp⟩
        · exact .inl hp
        · exact .inr ⟨other, .inr hother, hp⟩
      · rintro (hp | ⟨other, hother | hother, hp⟩)
        · exact ⟨x, .inr (.inl rfl), hp⟩
        · exact ⟨other, .inl hother, hp⟩
        · exact ⟨other, .inr (.inr hother), hp⟩
    rw [hsplit, hsplit, behind_holds hentry hlength hsize]
    constructor
    · rintro (⟨hp, hout⟩ | ⟨other, hother, hp⟩)
      · exact ⟨.inl hp, hout⟩
      · exact ⟨.inr ⟨other, hother, hp⟩, fun hin => hapart other hother p (hin.holds husable hlength) hp⟩
    · rintro ⟨hp | hother, hout⟩
      · exact .inl ⟨hp, hout⟩
      · exact .inr hother

lemma mmInitializePmm_isSome (memory : ULONG64 → BitVec 8)
    (htake : takeBitmap (bitmapSize (highestPageFrom 0#64 entries)) entries = some (base, rest)) :
    ∃ boot, mmInitializePmm memory entries = some boot := by
  simp only [mmInitializePmm, htake]
  exact ⟨_, rfl⟩

lemma mmInitializePmm_sizes {memory : ULONG64 → BitVec 8} {boot : PmmBoot}
    (h : mmInitializePmm memory entries = some boot) :
    boot.bitmapSize = bitmapSize (highestPageFrom 0#64 entries) ∧
      boot.pmm.pageCount = (highestPageFrom 0#64 entries).toNat / pageSize := by
  simp only [mmInitializePmm, Option.map_eq_some_iff] at h
  obtain ⟨⟨base, rest⟩, _, rfl⟩ := h
  exact ⟨rfl, by rw [Pmm.pageCount, freeUsable_highestPage]⟩

/-- A memory map with one usable entry from address 0 on. -/
def oneEntry (length : ULONG64) : List Stivale2MmapEntry := [⟨0#64, length, stivale2MmapUsable⟩]

lemma oneEntry_map {length : ULONG64} (h : length.toNat % pageSize = 0) : MemoryMap (oneEntry length) := by
  refine ⟨fun entry hmem _ => ?_, List.pairwise_singleton _ _⟩
  obtain rfl := List.mem_singleton.mp hmem
  refine ⟨rfl, h, ?_⟩
  have := length.isLt
  simpa [addressSpace] using this

end Boot

end Open98.Mm
