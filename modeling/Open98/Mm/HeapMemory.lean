import Open98.Library.Records
import Open98.Mm.HeapBacking

/-! Memory as liballoc reads and writes it, by address: what its loads, stores and small steps do. -/
namespace Open98.Mm
open Library

section Words
variable {m : ByteMemory} {a b n k v : ℕ}

lemma loadBytes_storeBytes_apart (h : a + n ≤ b ∨ b + k ≤ a) : loadBytes (storeBytes m a n v) b k = loadBytes m b k :=
  loadBytes_congr fun _ _ _ => storeBytes_outside (by omega)

/-- Only the lowest digits of the number are stored. -/
lemma storeBytes_mod : storeBytes m a n (v % 2^(8*n)) = storeBytes m a n v := by
  funext c
  unfold storeBytes
  split_ifs with hc
  · apply BitVec.eq_of_toNat_eq
    have hsplit : 2^(8*n) = 2^(8*(c-a)) * 2^(8*(n-(c-a))) := by
      rw [← Nat.pow_add]
      congr 1
      omega
    rw [BitVec.toNat_ofNat, BitVec.toNat_ofNat, hsplit, Nat.mod_mul_right_div_self]
    exact Nat.mod_mod_of_dvd _ (Nat.pow_dvd_pow 2 (by omega))
  · rfl

/-- A number is stored in two parts. -/
lemma storeBytes_add : storeBytes (storeBytes m a n v) (a+n) k (v / 2^(8*n)) = storeBytes m a (n+k) v := by
  funext c
  unfold storeBytes
  by_cases hlow : a ≤ c ∧ c < a + n
  · rw [if_neg (by omega), if_pos hlow, if_pos (by omega)]
  · by_cases hhigh : a + n ≤ c ∧ c < a + n + k
    · rw [if_pos hhigh, if_pos (by omega), Nat.div_div_eq_div_mul, ← Nat.pow_add]
      congr 3
      omega
    · rw [if_neg hhigh, if_neg hlow, if_neg (by omega)]

/-- A link that is stored unless there is nothing to store it in. -/
def relinked (a v : ℕ) (m : ByteMemory) : ByteMemory := if a = 0 then m else storeBytes m a 8 v

lemma loadBytes_relinked (h : a = 0 ∨ a + 8 ≤ b ∨ b + k ≤ a) : loadBytes (relinked a v m) b k = loadBytes m b k := by
  unfold relinked
  split_ifs with h0
  · rfl
  · exact loadBytes_storeBytes_apart (by omega)

lemma loadBytes_relinked_self (h : a ≠ 0) : loadBytes (relinked a v m) a 8 = v % 2^64 := by
  rw [relinked, if_neg h]
  exact loadBytes_storeBytes m a 8 v

lemma relinked_outside {c : ℕ} (h : a = 0 ∨ c < a ∨ a + 8 ≤ c) : relinked a v m c = m c := by
  unfold relinked
  split_ifs with h0
  · rfl
  · exact storeBytes_outside (by omega)

end Words

section Addresses

def ptr (a : ℕ) : PVOID := BitVec.ofNat 64 a

variable {a b k : ℕ}

@[simp] lemma ptr_add (a k : ℕ) : ptr a + BitVec.ofNat 64 k = ptr (a+k) := (BitVec.ofNat_add a k).symm

lemma toNat_ptr (h : a < 2^64) : (ptr a).toNat = a := by
  rw [ptr, BitVec.toNat_ofNat, Nat.mod_eq_of_lt h]

lemma ptr_toNat (p : PVOID) : ptr p.toNat = p := by
  rw [ptr, BitVec.ofNat_toNat, BitVec.setWidth_eq]

lemma ptr_inj (ha : a < 2^64) (hb : b < 2^64) : ptr a = ptr b ↔ a = b := by
  rw [← BitVec.toNat_inj, toNat_ptr ha, toNat_ptr hb]

lemma ptr_eq_zero (ha : a < 2^64) : ptr a = 0 ↔ a = 0 := ptr_inj ha (by decide : 0 < 2^64)

lemma ptr_sub (h : b ≤ a) : ptr a - ptr b = ptr (a-b) := by
  apply BitVec.eq_of_toNat_eq
  rw [BitVec.toNat_sub, ptr, ptr, ptr, BitVec.toNat_ofNat, BitVec.toNat_ofNat, BitVec.toNat_ofNat]
  omega

lemma zeroExtend_ofNat (ha : a < 2^32) : (BitVec.ofNat 32 a).zeroExtend 64 = BitVec.ofNat 64 a := by
  apply BitVec.eq_of_toNat_eq
  rw [BitVec.zeroExtend, BitVec.toNat_setWidth, BitVec.toNat_ofNat, BitVec.toNat_ofNat]
  omega

end Addresses

/-- The bytes of memory, by address. -/
def Heap.view (h : Heap) : ByteMemory := fun a => h.mem (ptr a)

/-- The heap with other bytes in memory. -/
def Heap.holding (h : Heap) (m : ByteMemory) : Heap := { h with mem := fun p => m p.toNat }

section Runs
variable {h : Heap} {m : ByteMemory} {a : ℕ}

lemma holding_view (h : Heap) : h.holding h.view = h := by
  have hmem : (fun p => h.view p.toNat) = h.mem := funext fun p => congrArg h.mem (ptr_toNat p)
  rw [Heap.holding, hmem]

lemma view_holding (ha : a < 2^64) : (h.holding m).view a = m a := congrArg m (toNat_ptr ha)

lemma append_toNat {w w' : ℕ} (x : BitVec w) (y : BitVec w') : (x ++ y).toNat = x.toNat * 2^w' + y.toNat := by
  rw [BitVec.toNat_append, ← Nat.shiftLeft_add_eq_or_of_lt y.isLt, Nat.shiftLeft_eq]

lemma run_bind {α β : Type} {x : HeapM α} {f : α → HeapM β} {s t : Heap} {r : α} (hx : x s = some (r, t)) :
    (x >>= f) s = f r t := by
  simp only [Bind.bind, StateT.bind, Option.bind, hx]

lemma run_map {α β : Type} (x : HeapM α) (f : α → β) (s : Heap) :
    (do return f (← x)) s = (x s).map fun q => (f q.1, q.2) := by
  change (x s).bind _ = _
  cases x s <;> rfl

lemma mem_holding (k : ℕ) (ha : a + k < 2^64) : (h.holding m).mem (ptr a + BitVec.ofNat 64 k) = m (a+k) := by
  rw [ptr_add]
  exact congrArg m (toNat_ptr ha)

lemma load32_holding (ha : a + 4 ≤ 2^64) :
    load32 (ptr a) (h.holding m) = some (BitVec.ofNat 32 (loadBytes m a 4), h.holding m) := by
  have hword : m (a+3) ++ m (a+2) ++ m (a+1) ++ m a = BitVec.ofNat 32 (loadBytes m a 4) := by
    apply BitVec.eq_of_toNat_eq
    have hlt := loadBytes_lt m a 4
    rw [append_toNat, append_toNat, append_toNat, BitVec.toNat_ofNat, Nat.mod_eq_of_lt hlt]
    simp only [loadBytes, Nat.add_assoc, Nat.reduceAdd]
    omega
  have hbyte : ∀ k, k < 4 → m (a+k) = (h.holding m).mem (ptr a + BitVec.ofNat 64 k) :=
    fun k hk => (mem_holding k (by omega)).symm
  have hfirst : m a = (h.holding m).mem (ptr a) := (view_holding (by omega)).symm
  rw [← hword, hbyte 3 (by omega), hbyte 2 (by omega), hbyte 1 (by omega), hfirst]
  rfl

lemma load64_holding (ha : a + 8 ≤ 2^64) :
    load64 (ptr a) (h.holding m) = some (ptr (loadBytes m a 8), h.holding m) := by
  have hword : BitVec.ofNat 32 (loadBytes m (a+4) 4) ++ BitVec.ofNat 32 (loadBytes m a 4) = ptr (loadBytes m a 8) := by
    apply BitVec.eq_of_toNat_eq
    have hlow := loadBytes_lt m a 4
    have hhigh := loadBytes_lt m (a+4) 4
    have hlt := loadBytes_lt m a 8
    rw [append_toNat, BitVec.toNat_ofNat, BitVec.toNat_ofNat, toNat_ptr hlt, Nat.mod_eq_of_lt hlow, Nat.mod_eq_of_lt hhigh]
    simp only [loadBytes, Nat.add_assoc, Nat.reduceAdd]
    omega
  have hhigh : load32 (ptr a + 4) (h.holding m) = some (BitVec.ofNat 32 (loadBytes m (a+4) 4), h.holding m) := by
    rw [← load32_holding (by omega), ← ptr_add]
    rfl
  simp only [load64, Bind.bind, StateT.bind, Option.bind, hhigh, load32_holding (show a + 4 ≤ 2^64 by omega), hword]
  rfl

lemma store8_holding (ha : a < 2^64) (v : BitVec 8) :
    store8 (ptr a) v (h.holding m) = some ((), h.holding (storeBytes m a 1 v.toNat)) := by
  have hmem : Function.update (h.holding m).mem (ptr a) v = fun p => storeBytes m a 1 v.toNat p.toNat := by
    funext p
    by_cases hp : p = ptr a
    · subst hp
      rw [Function.update_self, toNat_ptr ha, storeBytes, if_pos (by omega), Nat.sub_self, Nat.mul_zero, Nat.pow_zero,
        Nat.div_one, BitVec.ofNat_toNat, BitVec.setWidth_eq]
    · have hne : p.toNat ≠ a := fun heq => hp (by rw [← heq, ptr_toNat])
      rw [Function.update_of_ne hp, storeBytes, if_neg (by omega)]
      rfl
  change some ((), { h.holding m with mem := Function.update (h.holding m).mem (ptr a) v }) = _
  rw [hmem]
  rfl

lemma storeBytes_byte {w : ℕ} (v : BitVec w) (i : ℕ) :
    storeBytes m a 1 (v.extractLsb' (8*i) 8).toNat = storeBytes m a 1 (v.toNat / 2^(8*i)) := by
  rw [BitVec.extractLsb'_toNat, Nat.shiftRight_eq_div_pow]
  exact storeBytes_mod (n := 1)

lemma store32_holding (ha : a + 4 ≤ 2^64) (v : UINT) :
    store32 (ptr a) v (h.holding m) = some ((), h.holding (storeBytes m a 4 v.toNat)) := by
  have hbytes : storeBytes (storeBytes (storeBytes (storeBytes m a 1 (v.extractLsb' (8*0) 8).toNat)
      (a+1) 1 (v.extractLsb' (8*1) 8).toNat) (a+2) 1 (v.extractLsb' (8*2) 8).toNat)
      (a+3) 1 (v.extractLsb' (8*3) 8).toNat = storeBytes m a 4 v.toNat := by
    rw [storeBytes_byte, storeBytes_byte, storeBytes_byte, storeBytes_byte, Nat.mul_zero, Nat.pow_zero, Nat.div_one]
    rw [storeBytes_add (n := 1), storeBytes_add (n := 2), storeBytes_add (n := 3)]
  have hstore : ∀ m i, i < 4 → ∀ v : BitVec 8, store8 (ptr a + BitVec.ofNat 64 i) v (h.holding m) =
      some ((), h.holding (storeBytes m (a+i) 1 v.toNat)) := by
    intro m i hi v
    rw [ptr_add]
    exact store8_holding (by omega) v
  rw [← hbytes]
  exact (run_bind (store8_holding (by omega) _)).trans <| (run_bind (hstore _ 1 (by omega) _)).trans <|
    (run_bind (hstore _ 2 (by omega) _)).trans (hstore _ 3 (by omega) _)

lemma store64_holding (ha : a + 8 ≤ 2^64) (v : PVOID) :
    store64 (ptr a) v (h.holding m) = some ((), h.holding (storeBytes m a 8 v.toNat)) := by
  have hwords : storeBytes (storeBytes m a 4 (v.extractLsb' 0 32).toNat) (a+4) 4 (v.extractLsb' 32 32).toNat =
      storeBytes m a 8 v.toNat := by
    rw [BitVec.extractLsb'_toNat, BitVec.extractLsb'_toNat, Nat.shiftRight_zero, Nat.shiftRight_eq_div_pow]
    rw [storeBytes_mod (n := 4), storeBytes_mod (n := 4), storeBytes_add (n := 4)]
  have hhigh : ∀ m, store32 (ptr a + BitVec.ofNat 64 4) (v.extractLsb' 32 32) (h.holding m) =
      some ((), h.holding (storeBytes m (a+4) 4 (v.extractLsb' 32 32).toNat)) := by
    intro m
    rw [ptr_add]
    exact store32_holding (by omega) _
  rw [← hwords]
  exact (run_bind (store32_holding (by omega) _)).trans (hhigh _)

/-- A store through a pointer that may be null. -/
lemma when_store64_holding (ha : a + 8 ≤ 2^64) (v : PVOID) : when (ptr a ≠ 0) (store64 (ptr a) v) (h.holding m) =
    some ((), h.holding (relinked a v.toNat m)) := by
  unfold relinked
  by_cases h0 : a = 0
  · rw [when, if_neg (not_not.mpr ((ptr_eq_zero (by omega)).mpr h0)), if_pos h0]
    rfl
  · rw [when, if_pos (mt (ptr_eq_zero (by omega)).mp h0), if_neg h0, store64_holding ha]

end Runs

section Steps
variable {h : Heap} {m : ByteMemory} {a maj : ℕ}

/-- The address that `ALIGN` makes of this one. -/
def aligned (a : ℕ) : ℕ := (a+31) / 16 * 16

lemma aligned_bounds (a : ℕ) : a + 16 ≤ aligned a ∧ aligned a ≤ a + 31 ∧ aligned a % 16 = 0 := by
  unfold aligned
  omega

lemma align_holding (ha : a + 32 ≤ 2^64) : align (ptr a) (h.holding m) =
    some (ptr (aligned a), h.holding (storeBytes m (aligned a - 16) 1 (aligned a - a))) := by
  obtain ⟨hlow, hhigh, hmod⟩ := aligned_bounds a
  have hand : (ptr (a+16) &&& 15).toNat = (a+16) % 16 := by
    rw [BitVec.toNat_and, toNat_ptr (by omega)]
    exact Nat.and_two_pow_sub_one_eq_mod _ 4
  have hdiff : (if ptr (a+16) &&& 15 = 0 then 0 else 16 - (ptr (a+16) &&& 15)) = ptr (aligned a - (a+16)) := by
    have hzero : ptr (a+16) &&& 15 = 0 ↔ (a+16) % 16 = 0 := by
      rw [← BitVec.toNat_inj, hand]
      rfl
    apply BitVec.eq_of_toNat_eq
    rw [toNat_ptr (by omega)]
    split_ifs with h0
    · have := hzero.mp h0
      change 0 = _
      omega
    · have := mt hzero.mpr h0
      rw [BitVec.toNat_sub, hand]
      change (2^64 - (a+16) % 16 + 16) % 2^64 = _
      omega
  have hptr : ptr (a+16) + ptr (aligned a - (a+16)) = ptr (aligned a) := by
    rw [ptr, ptr, ptr, ← BitVec.ofNat_add]
    congr 1
    omega
  have hshift : ((ptr (aligned a - (a+16)) + 16).truncate 8).toNat = aligned a - a := by
    have hsum : ptr (aligned a - (a+16)) + 16 = ptr (aligned a - (a+16) + 16) := ptr_add _ 16
    rw [hsum, BitVec.truncate, BitVec.toNat_setWidth, toNat_ptr (by omega)]
    omega
  have hstart : ptr a + 16 = ptr (a+16) := ptr_add a 16
  have hback : ptr (aligned a) - 16 = ptr (aligned a - 16) := ptr_sub (b := 16) (by omega)
  have hstore := store8_holding (h := h) (m := m) (a := aligned a - 16) (by omega)
    ((ptr (aligned a - (a+16)) + 16).truncate 8)
  rw [hshift] at hstore
  simp only [align, hstart, hdiff, hptr, hback]
  exact run_bind hstore

lemma unalign_holding (ha : a + 32 ≤ 2^64) (hshift : m (aligned a - 16) = BitVec.ofNat 8 (aligned a - a)) :
    unalign (ptr (aligned a)) (h.holding m) = some (ptr a, h.holding m) := by
  obtain ⟨hlow, hhigh, -⟩ := aligned_bounds a
  have hback : ptr (aligned a) - 16 = ptr (aligned a - 16) := ptr_sub (b := 16) (by omega)
  have hbyte : ((h.holding m).mem (ptr (aligned a - 16))).signExtend 64 = ptr (aligned a - a) := by
    have hmem : (h.holding m).mem (ptr (aligned a - 16)) = BitVec.ofNat 8 (aligned a - a) :=
      (view_holding (h := h) (by omega)).trans hshift
    rw [hmem]
    apply BitVec.eq_of_toNat_eq
    have hnat : (BitVec.ofNat 8 (aligned a - a)).toNat = aligned a - a := by
      rw [BitVec.toNat_ofNat]
      omega
    have hmsb : (BitVec.ofNat 8 (aligned a - a)).msb = false := by
      rw [BitVec.msb_eq_false_iff_two_mul_lt, hnat]
      omega
    rw [BitVec.signExtend_eq_setWidth_of_msb_false hmsb, BitVec.toNat_setWidth, hnat, toNat_ptr (by omega)]
    omega
  have hlt : ptr (aligned a - a) < 32#64 := by
    rw [BitVec.lt_def, toNat_ptr (by omega)]
    change _ < 32
    omega
  have hptr : ptr (aligned a) - ptr (aligned a - a) = ptr a := by
    rw [ptr_sub (by omega)]
    congr 1
    omega
  have hget : (get : HeapM Heap) (h.holding m) = some (h.holding m, h.holding m) := rfl
  refine (run_bind hget).trans ?_
  rw [hback, hbyte, if_pos hlt, hptr]
  rfl

lemma addUsage_holding (ha : maj + 40 ≤ 2^64) (size : ULONG64) : addUsage (ptr maj) size (h.holding m) =
    some ((), h.holding (storeBytes m (maj+24) 4 (loadBytes m (maj+24) 4 + (size.toNat + 40)))) := by
  have hfield : majUsage (ptr maj) = ptr (maj+24) := ptr_add maj 24
  have hload := load32_holding (h := h) (m := m) (a := maj+24) (by omega)
  have hlt := loadBytes_lt m (maj+24) 4
  have hsum : (((BitVec.ofNat 32 (loadBytes m (maj+24) 4)).zeroExtend 64 + (size + 40)).truncate 32).toNat =
      (loadBytes m (maj+24) 4 + (size.toNat + 40)) % 2^(8*4) := by
    rw [BitVec.truncate, BitVec.toNat_setWidth, BitVec.toNat_add, BitVec.zeroExtend, BitVec.toNat_setWidth,
      BitVec.toNat_ofNat,
      BitVec.toNat_add]
    change _ = _ % 2^32
    change ((_ % 2^32) % 2^64 + (size.toNat + 40) % 2^64) % 2^64 % 2^32 = _
    omega
  simp only [addUsage, hfield]
  refine (run_bind hload).trans ?_
  rw [store32_holding (by omega), hsum, storeBytes_mod (n := 4)]

/-- The fields that every case of `malloc` writes into a new minor block. -/
def filled (a maj size reqSize : ℕ) (m : ByteMemory) : ByteMemory :=
  storeBytes (storeBytes (storeBytes (storeBytes m (a+24) 4 liballocMagic.toNat) (a+16) 8 maj) (a+28) 4 size)
    (a+32) 4 reqSize

lemma fillMinor_holding (ha : a + 40 ≤ 2^64) (hmaj : maj < 2^64) (size reqSize : ULONG64) :
    fillMinor (ptr a) (ptr maj) size reqSize (h.holding m) =
      some ((), h.holding (filled a maj size.toNat reqSize.toNat m)) := by
  have hmagic : minMagic (ptr a) = ptr (a+24) := ptr_add a 24
  have hblock : minBlock (ptr a) = ptr (a+16) := ptr_add a 16
  have hsize : minSize (ptr a) = ptr (a+28) := ptr_add a 28
  have hreq : minReqSize (ptr a) = ptr (a+32) := ptr_add a 32
  have htrunc : ∀ (m : ByteMemory) (c : ℕ) (v : ULONG64),
      storeBytes m c 4 (v.truncate 32).toNat = storeBytes m c 4 v.toNat := by
    intro m c v
    rw [BitVec.truncate, BitVec.toNat_setWidth]
    exact storeBytes_mod (n := 4)
  simp only [fillMinor, hmagic, hblock, hsize, hreq]
  refine (run_bind (store32_holding (by omega) _)).trans ?_
  refine (run_bind (store64_holding (by omega) _)).trans ?_
  refine (run_bind (store32_holding (by omega) _)).trans ?_
  rw [store32_holding (by omega), htrunc, htrunc, toNat_ptr hmaj]
  rfl

end Steps

end Open98.Mm
