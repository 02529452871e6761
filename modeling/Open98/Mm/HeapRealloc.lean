import Open98.Mm.HeapFree

/-! What `liballoc_realloc` does to the blocks of the heap, and what users may write themselves. -/
namespace Open98.Mm
open Library

section Copying
variable {g : Heap} {m : ByteMemory} {d s n i k a : ℕ}

/-- The first bytes of one region are copied to another. -/
def copiedBytes (d s k : ℕ) (m : ByteMemory) : ByteMemory := fun a => if d ≤ a ∧ a < d + k then m (s + (a-d)) else m a

lemma copiedBytes_outside (h : a < d ∨ d + k ≤ a) : copiedBytes d s k m a = m a := if_neg (by omega)

lemma loadBytes_copiedBytes (h : d + k ≤ a ∨ a + n ≤ d) : loadBytes (copiedBytes d s k m) a n = loadBytes m a n :=
  loadBytes_congr fun _ _ _ => copiedBytes_outside (by omega)

/-- Some more bytes are copied. -/
lemma copiedBytes_add : storeBytes (copiedBytes d s k m) (d+k) n (loadBytes m (s+k) n) = copiedBytes d s (k+n) m := by
  funext a
  by_cases hnew : d + k ≤ a ∧ a < d + k + n
  · have hbyte : BitVec.ofNat 8 (loadBytes m (s+k) n / 2^(8*(a-(d+k)))) = m (s+k+(a-(d+k))) := byte_loadBytes (by omega)
    rw [storeBytes, if_pos hnew, copiedBytes, if_pos (by omega), hbyte]
    congr 1
    omega
  · rw [storeBytes, if_neg hnew]
    unfold copiedBytes
    refine if_congr ?_ rfl rfl
    omega

variable (hd : d + n ≤ 2^64) (hs : s + n ≤ 2^64) (hapart : d + n ≤ s ∨ s + n ≤ d)
include hd hs hapart

lemma memcpyUnits_holding (hk : 4*(i+k) ≤ n) : memcpyUnits (ptr d) (ptr s) i k (g.holding (copiedBytes d s (4*i) m)) =
    some ((), g.holding (copiedBytes d s (4*(i+k)) m)) := by
  induction k generalizing i with
  | zero => rfl
  | succ k ih =>
    have hload : loadBytes (copiedBytes d s (4*i) m) (s+4*i) 4 = loadBytes m (s+4*i) 4 :=
      loadBytes_copiedBytes (by omega)
    have hlt := loadBytes_lt m (s+4*i) 4
    have hword : (BitVec.ofNat 32 (loadBytes m (s+4*i) 4)).toNat = loadBytes m (s+4*i) 4 := by
      rw [BitVec.toNat_ofNat, Nat.mod_eq_of_lt hlt]
    rw [memcpyUnits, ptr_add, ptr_add]
    refine (run_bind (load32_holding (by omega))).trans ?_
    rw [hload]
    refine (run_bind (store32_holding (by omega) _)).trans ?_
    rw [hword, copiedBytes_add]
    have hrest := ih (i := i+1) (by omega)
    have hcount : i + 1 + k = i + (k + 1) := by omega
    rwa [hcount] at hrest

lemma memcpyBytes_holding (hk : i + k ≤ n) : memcpyBytes (ptr d) (ptr s) i k (g.holding (copiedBytes d s i m)) =
    some ((), g.holding (copiedBytes d s (i+k) m)) := by
  induction k generalizing i with
  | zero => rfl
  | succ k ih =>
    have hget : (get : HeapM Heap) (g.holding (copiedBytes d s i m)) =
        some (g.holding (copiedBytes d s i m), g.holding (copiedBytes d s i m)) := rfl
    have hbyte : (g.holding (copiedBytes d s i m)).mem (ptr (s+i)) = m (s+i) := by
      refine (congrArg (copiedBytes d s i m) (toNat_ptr (by omega))).trans ?_
      exact copiedBytes_outside (by omega)
    have hnat : (m (s+i)).toNat = loadBytes m (s+i) 1 := by simp [loadBytes]
    rw [memcpyBytes, run_bind hget, ptr_add, ptr_add, hbyte]
    refine (run_bind (store8_holding (by omega) _)).trans ?_
    rw [hnat, copiedBytes_add]
    have hrest := ih (i := i+1) (by omega)
    have hcount : i + 1 + k = i + (k + 1) := by omega
    rwa [hcount] at hrest

lemma liballocMemcpy_holding : liballocMemcpy (ptr d) (ptr s) n (g.holding m) =
    some ((), g.holding (copiedBytes d s n m)) := by
  have hnone : m = copiedBytes d s (4*0) m := funext fun a => (copiedBytes_outside (by omega)).symm
  have hunits := memcpyUnits_holding (g := g) (m := m) (i := 0) (k := n/4) hd hs hapart (by omega)
  have hbytes := memcpyBytes_holding (g := g) (m := m) (i := 4*(n/4)) (k := n%4) hd hs hapart (by omega)
  have hsum : 4*(n/4) + n%4 = n := by omega
  rw [← hnone, Nat.zero_add] at hunits
  rw [hsum] at hbytes
  exact (run_bind hunits).trans hbytes

end Copying

section Users
variable {g : Heap} {m m' : ByteMemory} {Ms : List MajorBlock} {M N : MajorBlock} {l₁ l₂ : List MinorBlock} {c : MinorBlock}

/-- The blocks of two users do not meet. -/
def BlocksApart (x y : ℕ × ℕ) : Prop := x.1 + x.2 < y.1 ∨ y.1 + y.2 < x.1

lemma BlocksApart.symm {x y : ℕ × ℕ} (h : BlocksApart x y) : BlocksApart y x := Or.symm h

lemma userBlocks_apart (h : Ms.Pairwise MajorBlock.Apart) : (userBlocks Ms).Pairwise BlocksApart := by
  refine List.pairwise_flatMap.mpr ⟨fun M _ => ?_, h.imp fun {M N} hMN => fun x hx y hy => ?_⟩
  · refine List.pairwise_map.mpr (M.laid.apart.imp_of_mem fun {b c} hb hc hbc => ?_)
    have hbuser := MinorBlock.user_stop hb
    have hcuser := MinorBlock.user_stop hc
    exact .inl (show b.user + b.reqSize < c.user by omega)
  · obtain ⟨b, hb, rfl⟩ := List.mem_map.mp hx
    obtain ⟨c, hc, rfl⟩ := List.mem_map.mp hy
    have hbuser := MinorBlock.user_stop hb
    have hcuser := MinorBlock.user_stop hc
    unfold MajorBlock.Apart at hMN
    change b.user + b.reqSize < c.user ∨ c.user + c.reqSize < b.user
    omega

/-- Users write their own blocks, and other code what is no part of the heap. -/
lemma Shaped.write (h : Shaped g m Ms) (hframe : ∀ a, m' a ≠ m a →
    (∃ x ∈ userBlocks Ms, x.1 ≤ a ∧ a < x.1 + x.2) ∨ ∀ M ∈ Ms, a < M.adr ∨ M.limit ≤ a) : Shaped g m' Ms := by
  have hkeep : ∀ M ∈ Ms, ∀ a, (M.adr ≤ a ∧ a < M.adr + 16) ∨ M.Meta a → m' a = m a := by
    intro M hM a ha
    have hinside : M.adr ≤ a ∧ a < M.limit := by
      rcases ha with ha | ha
      · have := M.limit_bounds
        omega
      · have := ha.bounds
        omega
    by_contra hne
    rcases hframe a hne with ⟨x, hx, hlow, hhigh⟩ | hout
    swap
    · have := hout M hM
      omega
    obtain ⟨N, hN, c, hc, rfl⟩ := mem_userBlocks.mp hx
    obtain ⟨hcuser, hcstop, hclimit, hcadr⟩ := MinorBlock.user_stop hc
    simp only [MinorBlock.block] at hlow hhigh
    rcases eq_or_apart_of_mem h.apart hN hM with rfl | hNM
    · rcases ha with ha | ha | ⟨b, hb, hblow, hbhigh⟩
      · omega
      · omega
      · obtain ⟨-, hbstop, -⟩ := MinorBlock.user_stop hb
        rcases N.laid.separate hb hc with rfl | hbc | hcb
        · omega
        · omega
        · omega
    · unfold MajorBlock.Apart at hNM
      omega
  refine ⟨h.root, h.bet, ?_, fun M hM => (h.holds M hM).congr fun a ha => hkeep M hM a (.inr ha), h.apart, h.live⟩
  refine h.links.congr (fun x hx => ?_) fun x hx => ?_
  · obtain ⟨M, hM, rfl⟩ := List.mem_map.mp hx
    exact loadBytes_congr fun a ha hlt => hkeep M hM a (.inl ⟨by omega, by omega⟩)
  · obtain ⟨M, hM, rfl⟩ := List.mem_map.mp hx
    exact loadBytes_congr fun a ha hlt => hkeep M hM a (.inl ⟨by omega, by omega⟩)

/-- A block that is made smaller keeps its place. -/
lemma MajorBlock.Holds.shrink {r : ℕ} (h : M.Holds m) (hM : M.minors = l₁ ++ c :: l₂) (hadr : N.adr = M.adr)
    (hpages : N.pages = M.pages) (hN : N.minors = l₁ ++ ⟨c.adr, c.size, r⟩ :: l₂) (hr : r ≤ c.reqSize) :
    N.Holds (storeBytes m (c.adr+32) 4 r) := by
  have hlaid : Laid (M.adr+40) M.limit (l₁ ++ c :: l₂) := hM ▸ M.laid
  obtain ⟨hlow, hhigh⟩ := hlaid.inside c (by simp)
  obtain ⟨hsize, -⟩ := fields_fit hlaid
  have hstop : c.stop = c.adr + 40 + c.size := rfl
  have husage : usageOf N.minors = usageOf M.minors := by
    rw [hN, hM]
    simp [usageOf]
  have hadrs : N.minors.map MinorBlock.adr = M.minors.map MinorBlock.adr := by
    rw [hN, hM]
    simp
  have hother : ∀ b ∈ M.minors, b = c ∨ b.stop ≤ c.adr ∨ c.stop ≤ b.adr := by
    intro b hb
    rw [hM] at hb
    exact hlaid.separate hb (by simp)
  have hbstop : ∀ b : MinorBlock, b.stop = b.adr + 40 + b.size := fun b => rfl
  have hlink : ∀ b ∈ M.minors, ∀ k, k + 8 ≤ 16 →
      loadBytes (storeBytes m (c.adr+32) 4 r) (b.adr+k) 8 = loadBytes m (b.adr+k) 8 := by
    intro b hb k hk
    have hb' := hbstop b
    rcases hother b hb with rfl | hle | hle <;> exact loadBytes_storeBytes_apart (by omega)
  refine ⟨?_, ?_, ?_, ?_, ?_, fun b hb => ?_⟩
  · rw [hadr, hpages, loadBytes_storeBytes_apart (by omega), h.pages]
  · rw [hadr, hpages, loadBytes_storeBytes_apart (by omega), h.size]
  · rw [hadr, husage, loadBytes_storeBytes_apart (by omega), h.usage]
  · rw [hadr, hadrs, loadBytes_storeBytes_apart (by omega), h.first]
  · rw [hadrs]
    refine h.links.congr (fun x hx => ?_) fun x hx => ?_
    · obtain ⟨b, hb, rfl⟩ := List.mem_map.mp hx
      exact hlink b hb 8 (by omega)
    · obtain ⟨b, hb, rfl⟩ := List.mem_map.mp hx
      exact hlink b hb 0 (by omega)
  · rw [hadr]
    rw [hN, List.mem_append, List.mem_cons] at hb
    have hc := h.tagged c (by simp [hM])
    have huser := c.user_bounds
    have hfield : ∀ k n, k + n ≤ 32 → loadBytes (storeBytes m (c.adr+32) 4 r) (c.adr+k) n = loadBytes m (c.adr+k) n :=
      fun k n hk => loadBytes_storeBytes_apart (by omega)
    have hrest : ∀ b ∈ l₁ ++ l₂, b.Tagged (storeBytes m (c.adr+32) 4 r) M.adr := by
      intro b hb
      have hmem : b ∈ M.minors := by
        rw [hM]
        simp only [List.mem_append, List.mem_cons] at hb ⊢
        tauto
      refine (h.tagged b hmem).congr fun a ha hlt => storeBytes_outside ?_
      have hbuser := b.user_bounds
      have hbroom := M.laid.room b hmem
      have hb' := hbstop b
      obtain ⟨hbefore, hbehind⟩ := hlaid.around
      rcases List.mem_append.mp hb with hb | hb
      · have := hbefore b hb
        omega
      · have := hbehind b hb
        omega
    rcases hb with hb | rfl | hb
    · exact hrest b (List.mem_append_left _ hb)
    · refine ⟨?_, ?_, ?_, ?_, ?_⟩
      · exact (hfield 16 8 (by omega)).trans hc.block
      · exact (hfield 24 4 (by omega)).trans hc.magic
      · exact (hfield 28 4 (by omega)).trans hc.size
      · refine (loadBytes_storeBytes _ _ _ _).trans (Nat.mod_eq_of_lt ?_)
        have hroom := hlaid.room c (by simp)
        change r < 2^32
        omega
      · change storeBytes m (c.adr+32) 4 r (c.user-16) = BitVec.ofNat 8 (c.user - (c.adr+40))
        rw [storeBytes_outside (by omega)]
        exact hc.shift
    · exact hrest b (List.mem_append_right _ hb)

end Users

section Service
variable {g t : Heap} {m m' : ByteMemory} {Ms Ms' : List MajorBlock} {p : PVOID} {size : ULONG64} {fuel : ℕ}

/-- The user of the block `x` has the block `y` instead, with what fits of the old bytes, and no other block changes. -/
structure Exchanged (g' : Heap) (m m' : ByteMemory) (Ms Ms' : List MajorBlock) (x y : ℕ × ℕ) : Prop where
  shaped : Shaped g' m' Ms'
  blocks : ∃ rest, (userBlocks Ms).Perm (x :: rest) ∧ (userBlocks Ms').Perm (y :: rest) ∧ Kept m m' rest
  bytes : ∀ i, i < x.2 → i < y.2 → m' (y.1 + i) = m (x.1 + i)
  place : y.2 ≤ x.2 → y.1 = x.1

/-- A block that is made smaller. -/
lemma Shaped.shrink {M : MajorBlock} {c : MinorBlock} {r : ℕ} (hs : Shaped g m Ms) (hM : M ∈ Ms) (hc : c ∈ M.minors)
    (hr : r ≤ c.reqSize) : ∃ Ms', Exchanged g m (storeBytes m (c.adr+32) 4 r) Ms Ms' c.block (c.user, r) := by
  obtain ⟨hlow, hstop, hlimit, hadr⟩ := MinorBlock.user_stop hc
  obtain ⟨A, B, rfl⟩ := List.append_of_mem hM
  obtain ⟨l₁, l₂, hl⟩ := List.append_of_mem hc
  have hlaid : Laid (M.adr+40) M.limit (l₁ ++ c :: l₂) := hl ▸ M.laid
  obtain ⟨hbefore, hbehind⟩ := hlaid.around
  obtain ⟨hfrom, hto⟩ := hlaid.inside c (by simp)
  have hroom := hlaid.room c (by simp)
  let N : MajorBlock := ⟨M.adr, M.pages, l₁ ++ ⟨c.adr, c.size, r⟩ :: l₂, M.low, M.high, M.some_pages, M.pages_lt,
    hlaid.remove.insert hbefore hbehind hfrom hto (show r + 32 ≤ c.size by omega)⟩
  have hN : N.Holds (storeBytes m (c.adr+32) 4 r) := (hs.holds M hM).shrink hl rfl rfl rfl hr
  let R : MajorBlock := ⟨M.adr, M.pages, l₁ ++ l₂, M.low, M.high, M.some_pages, M.pages_lt, hlaid.remove⟩
  have hperm : (userBlocks (A ++ M :: B)).Perm (c.block :: userBlocks (A ++ R :: B)) := userBlocks_perm hl rfl
  have hblocks : (userBlocks (A ++ N :: B)).Perm ((c.user, r) :: userBlocks (A ++ R :: B)) :=
    userBlocks_perm (M := N) (N := R) (c := ⟨c.adr, c.size, r⟩) rfl rfl
  have hstopOf : c.stop = c.adr + 40 + c.size := rfl
  have hs' : Shaped g (storeBytes m (c.adr+32) 4 r) (A ++ N :: B) := by
    refine hs.replace rfl rfl hN fun a ha => storeBytes_outside ?_
    omega
  refine ⟨A ++ N :: B, hs', ⟨_, hperm, hblocks, ?_⟩, fun i _ _ => storeBytes_outside (.inr ?_), fun _ => rfl⟩
  swap
  · change c.adr + 32 + 4 ≤ c.user + i
    omega
  intro x hx a ha hlt
  have hmem : x ∈ userBlocks (A ++ M :: B) := hperm.symm.subset (List.mem_cons_of_mem _ hx)
  obtain ⟨X, hX, b, hb, rfl⟩ := mem_userBlocks.mp hmem
  obtain ⟨hblow, hbstop, hblimit, hbadr⟩ := MinorBlock.user_stop hb
  simp only [MinorBlock.block] at ha hlt
  refine storeBytes_outside ?_
  rcases eq_or_apart hs.apart hX with rfl | hapart
  · rcases X.laid.separate hb hc with rfl | hle | hle
    · omega
    · omega
    · omega
  · unfold MajorBlock.Apart at hapart
    omega

/-- `realloc` moves the contents of a block, or makes the block smaller. -/
theorem liballocRealloc_holding {x : ℕ × ℕ} (hs : Shaped g m Ms) (hx : x ∈ userBlocks Ms) (hpos : size ≠ 0)
    (hgrow : x.2 < size.toNat → size.toNat + 112 + 4096 ≤ 2^32 ∧ HasRoom g Ms (size + 32))
    (hrun : liballocRealloc fuel (ptr x.1) size (g.holding m) = some (p, t)) :
    ∃ g' m' Ms', t = Heap.holding g' m' ∧ Exchanged g' m m' Ms Ms' x (p.toNat, size.toNat) := by
  obtain ⟨M, hM, c, hc, rfl⟩ := mem_userBlocks.mp hx
  obtain ⟨hlow, hstop, hlimit, hadr⟩ := MinorBlock.user_stop hc
  have hbounds := M.limit_bounds
  have htag := (hs.holds M hM).tagged c hc
  obtain ⟨l₁, l₂, hl⟩ := List.append_of_mem hc
  have hlaid : Laid (M.adr+40) M.limit (l₁ ++ c :: l₂) := hl ▸ M.laid
  obtain ⟨hfits, hreq⟩ := fields_fit hlaid
  have hne : ptr c.user ≠ 0 := mt (ptr_eq_zero (by omega)).mp (by omega)
  have hstopOf : c.stop = c.adr + 40 + c.size := rfl
  have hback : ptr (c.adr+40) - 40 = ptr c.adr := ptr_sub (b := 40) (by omega)
  have hfield : minReqSize (ptr c.adr) = ptr (c.adr+32) := ptr_add _ 32
  have hword : (BitVec.ofNat 32 c.reqSize).toNat = c.reqSize := by
    rw [BitVec.toNat_ofNat]
    omega
  have hunalign : unalign (ptr c.user) (g.holding m) = some (ptr (c.adr+40), g.holding m) :=
    unalign_holding (by omega) htag.shift
  have hcompare : (BitVec.ofNat 32 c.reqSize).zeroExtend 64 ≥ size ↔ size.toNat ≤ c.reqSize := by
    rw [zeroExtend_ofNat (by omega), ge_iff_le, BitVec.le_def, BitVec.toNat_ofNat, Nat.mod_eq_of_lt (by omega)]
  change liballocRealloc fuel (ptr c.user) size (g.holding m) = some (p, t) at hrun
  rw [liballocRealloc, if_neg hpos, if_neg hne, run_bind hunalign, hback, hfield, run_bind (load32_holding (by omega)),
    htag.reqSize] at hrun
  by_cases hle : size.toNat ≤ c.reqSize
  · have htrunc : (size.truncate 32).toNat = size.toNat := by
      rw [BitVec.truncate, BitVec.toNat_setWidth]
      omega
    rw [if_pos (hcompare.mpr hle), run_bind (store32_holding (by omega) _), htrunc] at hrun
    obtain ⟨rfl, rfl⟩ := run_pure_eq_some.mp hrun
    obtain ⟨Ms', hexchanged⟩ := hs.shrink hM hc hle
    rw [toNat_ptr (by omega)]
    exact ⟨g, _, Ms', rfl, hexchanged⟩
  · obtain ⟨hsize, hroom⟩ := hgrow (not_le.mp hle)
    rw [if_neg (mt hcompare.mp hle)] at hrun
    obtain ⟨q, u, hmalloc, hrun⟩ := run_bind_eq_some.mp hrun
    obtain ⟨g₁, m₁, Ms₁, rfl, hserved⟩ := liballocMalloc_holding hs hsize hroom hmalloc
    have hblocks : (userBlocks Ms₁).Perm ((q.toNat, size.toNat) :: userBlocks Ms) := hserved.blocks
    have hapart := (userBlocks_apart hserved.shaped.apart).perm hblocks fun h => h.symm
    have hqx : BlocksApart (q.toNat, size.toNat) c.block := (List.pairwise_cons.mp hapart).1 _ hx
    have hnew : (q.toNat, size.toNat) ∈ userBlocks Ms₁ := hblocks.symm.subset List.mem_cons_self
    have hold : c.block ∈ userBlocks Ms₁ := hblocks.symm.subset (List.mem_cons_of_mem _ hx)
    have hqend : q.toNat + size.toNat ≤ 2^64 := by
      obtain ⟨N, -, b, hb, heq⟩ := mem_userBlocks.mp hnew
      obtain ⟨-, hbstop, hblimit, -⟩ := MinorBlock.user_stop hb
      have hNbounds := N.limit_bounds
      obtain ⟨huser, hreqSize⟩ := Prod.mk.inj heq
      omega
    have hcopy := liballocMemcpy_holding (g := g₁) (m := m₁) (d := q.toNat) (s := c.user) (n := c.reqSize) (by omega)
      (by omega) (by unfold BlocksApart at hqx; simp only [MinorBlock.block] at hqx; omega)
    rw [ptr_toNat] at hcopy
    rw [hword, run_bind hcopy] at hrun
    have hs₂ : Shaped g₁ (copiedBytes q.toNat c.user c.reqSize m₁) Ms₁ := by
      refine hserved.shaped.write fun a ha => .inl ⟨_, hnew, ?_⟩
      by_contra hout
      exact ha (copiedBytes_outside (by omega))
    obtain ⟨M', hM', c', hc', heq⟩ := mem_userBlocks.mp hold
    obtain ⟨huser, -⟩ := Prod.mk.inj heq
    obtain ⟨g', m', Ms', hfree, hs', hperm, hkept⟩ := liballocFree_holding hs₂ hM' hc'
    rw [huser] at hfree
    rw [run_bind hfree] at hrun
    obtain ⟨rfl, rfl⟩ := run_pure_eq_some.mp hrun
    have hrest := List.perm_cons_erase hx
    have hleft : (userBlocks Ms').Perm ((q.toNat, size.toNat) :: (userBlocks Ms).erase c.block) := by
      rw [heq] at hperm
      refine (List.perm_cons c.block).mp (hperm.symm.trans (hblocks.trans ?_))
      exact (hrest.cons _).trans (List.Perm.swap _ _ _)
    refine ⟨g', m', Ms', rfl, hs', ⟨_, hrest, hleft, fun y hy a ha hlt => ?_⟩, fun i hi hi' => ?_,
      fun h => absurd h hle⟩
    · have hyMs : y ∈ userBlocks Ms := List.mem_of_mem_erase hy
      have hqy : BlocksApart (q.toNat, size.toNat) y := (List.pairwise_cons.mp hapart).1 _ hyMs
      unfold BlocksApart at hqy
      simp only at hqy
      rw [hkept y (hleft.symm.subset (List.mem_cons_of_mem _ hy)) a ha hlt, copiedBytes_outside (by omega),
        hserved.kept y hyMs a ha hlt]
    · simp only [MinorBlock.block] at hi hi'
      rw [hkept _ (hleft.symm.subset List.mem_cons_self) _ (Nat.le_add_right _ _) (Nat.add_lt_add_left hi' _), copiedBytes,
        if_pos (by simp only; omega), Nat.add_sub_cancel_left]
      exact hserved.kept c.block hx _ (Nat.le_add_right _ _) (Nat.add_lt_add_left hi _)

end Service

end Open98.Mm
