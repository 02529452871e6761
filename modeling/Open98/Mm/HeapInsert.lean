import Open98.Mm.HeapShape

/-! The cases of `liballoc_malloc` that put a new minor block into a major block. -/
namespace Open98.Mm
open Library

section Placing
variable {m m' : ByteMemory} {M : MajorBlock} {l₁ l₂ : List MinorBlock} {new : MinorBlock}

/-- The new block is in its place, between these two parts of the list. -/
structure Placed (m m' : ByteMemory) (maj : ℕ) (l₁ : List MinorBlock) (new : MinorBlock) (l₂ : List MinorBlock) :
    Prop where
  rejoined : Rejoined m m' maj l₁ new l₂ new.adr new.adr (usageOf (l₁ ++ new :: l₂))
  tagged : new.Tagged m' maj
  prev : prevAt m' new.adr = (l₁.map MinorBlock.adr).getLastD 0
  next : nextAt m' new.adr = (l₂.map MinorBlock.adr).headD 0

lemma usageOf_insert (l₁ l₂ : List MinorBlock) (new : MinorBlock) :
    usageOf (l₁ ++ new :: l₂) = usageOf (l₁ ++ l₂) + (new.size + 40) := by
  simp only [usageOf, List.map_append, List.map_cons, List.sum_append, List.sum_cons]
  omega

/-- The sum that is stored fits into its field. -/
lemma usageOf_lt (M : MajorBlock) (hlaid : Laid (M.adr+40) M.limit l₁) : usageOf l₁ < 2^32 := by
  have hle : M.adr + 40 ≤ M.limit := by
    have := M.some_pages
    unfold MajorBlock.limit
    omega
  have hsum := hlaid.usageOf_le hle
  have hpages := M.pages_lt
  unfold MajorBlock.limit at hsum
  omega

end Placing

section Cases
variable {g : Heap} {m : ByteMemory} {M : MajorBlock} {l l₂ : List MinorBlock} {b new : MinorBlock} {size reqSize : ULONG64}

/-- The end of every case: the usage of the major block, and `ALIGN`. -/
def finished (maj : ℕ) (new : MinorBlock) (m : ByteMemory) : ByteMemory :=
  storeBytes (storeBytes m (maj+24) 4 (loadBytes m (maj+24) 4 + (new.size + 40))) (new.user - 16) 1
    (new.user - (new.adr+40))

lemma finish_holding {maj : ℕ} (hmaj : maj + 40 ≤ 2^64) (hnew : new.adr + 72 ≤ 2^64) (hsize : size.toNat = new.size) :
    (do addUsage (ptr maj) size; align (ptr new.adr + 40)) (g.holding m) =
      some (ptr new.user, g.holding (finished maj new m)) := by
  have hbody : ptr new.adr + 40 = ptr (new.adr+40) := ptr_add _ 40
  rw [hbody]
  refine (run_bind (addUsage_holding (by omega) _)).trans ?_
  rw [align_holding (by omega), hsize]
  rfl

def placedFirst (maj : ℕ) (new : MinorBlock) (m : ByteMemory) : ByteMemory :=
  finished maj new (filled new.adr maj new.size new.reqSize
    (storeBytes (storeBytes (storeBytes m (maj+32) 8 new.adr) new.adr 8 0) (new.adr+8) 8 0))

/-- Case 2. -/
lemma mallocFirst_holding (hlaid : Laid (M.adr+40) M.limit [new]) (hadr : new.adr = M.adr + 40)
    (hsize : size.toNat = new.size) (hreq : reqSize.toNat = new.reqSize) :
    mallocFirst (ptr M.adr) size reqSize (g.holding m) =
      some (ptr new.user, g.holding (placedFirst M.adr new m)) := by
  obtain ⟨-, hstop⟩ := hlaid.inside _ (List.mem_singleton_self _)
  have hroom := hlaid.room _ (List.mem_singleton_self _)
  have hhigh := M.high
  unfold MinorBlock.stop MajorBlock.limit at hstop
  have hfirst : majFirst (ptr M.adr) = ptr (M.adr+32) := ptr_add M.adr 32
  have hmin : ptr M.adr + 40 = ptr new.adr := (ptr_add M.adr 40).trans (congrArg ptr hadr.symm)
  have hnext : minNext (ptr new.adr) = ptr (new.adr+8) := ptr_add _ 8
  simp only [mallocFirst, hfirst, hmin, hnext, minPrev]
  refine (run_bind (store64_holding (by omega) _)).trans ?_
  refine (run_bind (store64_holding (by omega) _)).trans ?_
  refine (run_bind (store64_holding (by omega) _)).trans ?_
  refine (run_bind (fillMinor_holding (by omega) (by omega) _ _)).trans ?_
  refine (finish_holding (by omega) (by omega) hsize).trans ?_
  rw [hsize, hreq, toNat_ptr (by omega)]
  rfl

/-- The numbers fit into their fields. -/
lemma fields_fit {l₁ : List MinorBlock} (hlaid : Laid (M.adr+40) M.limit (l₁ ++ new :: l₂)) :
    new.size < 2^32 ∧ new.reqSize + 32 ≤ new.size := by
  have husage := usageOf_lt M hlaid
  rw [usageOf_insert] at husage
  exact ⟨by omega, hlaid.room new (by simp)⟩

lemma storeBytes_one {m : ByteMemory} {a v : ℕ} : storeBytes m a 1 v a = BitVec.ofNat 8 v := by
  rw [storeBytes, if_pos (by omega), Nat.sub_self, Nat.mul_zero, Nat.pow_zero, Nat.div_one]

lemma placed_first (h : M.Holds m) (hM : M.minors = []) (hlaid : Laid (M.adr+40) M.limit [new])
    (hadr : new.adr = M.adr + 40) : Placed m (placedFirst M.adr new m) M.adr [] new [] := by
  obtain ⟨-, hstop⟩ := hlaid.inside _ (List.mem_singleton_self _)
  have hshape : Laid (M.adr+40) M.limit ([] ++ new :: []) := hlaid
  obtain ⟨hsize, hroom⟩ := fields_fit hshape
  have husage := usageOf_lt M hlaid
  have hhigh := M.high
  have hu : loadBytes m (M.adr+24) 4 + (new.size + 40) = usageOf [new] := by
    rw [h.usage, hM]
    exact (usageOf_insert [] [] new).symm
  obtain ⟨hlow, hup, -⟩ := new.user_bounds
  have hmagic : liballocMagic.toNat < 2^32 := liballocMagic.isLt
  unfold MinorBlock.stop MajorBlock.limit at hstop
  refine ⟨⟨by simp, fun _ => ?_, by simp, ?_, fun a ha => ?_⟩, ⟨?_, ?_, ?_, ?_, ?_⟩, ?_, ?_⟩
  · simp (disch := omega) only [placedFirst, finished, filled, loadBytes_storeBytes_apart, loadBytes_storeBytes]
    omega
  · simp (disch := omega) only [placedFirst, finished, filled, loadBytes_storeBytes_apart, loadBytes_storeBytes, hu]
    exact Nat.mod_eq_of_lt husage
  · obtain ⟨husg, hfst, hblk, -, -⟩ := ha
    have hfst := hfst rfl
    unfold MinorBlock.stop at hblk
    simp (disch := omega) only [placedFirst, finished, filled, storeBytes_outside]
  · simp (disch := omega) only [placedFirst, finished, filled, loadBytes_storeBytes_apart, loadBytes_storeBytes]
    omega
  · simp (disch := omega) only [placedFirst, finished, filled, loadBytes_storeBytes_apart, loadBytes_storeBytes]
    omega
  · simp (disch := omega) only [placedFirst, finished, filled, loadBytes_storeBytes_apart, loadBytes_storeBytes]
    omega
  · simp (disch := omega) only [placedFirst, finished, filled, loadBytes_storeBytes_apart, loadBytes_storeBytes]
    omega
  · exact storeBytes_one
  · simp (disch := omega) only [prevAt, placedFirst, finished, filled, loadBytes_storeBytes_apart, loadBytes_storeBytes]
    rfl
  · simp (disch := omega) only [nextAt, placedFirst, finished, filled, loadBytes_storeBytes_apart, loadBytes_storeBytes]
    rfl

def placedFront (maj first : ℕ) (new : MinorBlock) (m : ByteMemory) : ByteMemory :=
  finished maj new (filled new.adr maj new.size new.reqSize
    (storeBytes (storeBytes (storeBytes (storeBytes m first 8 new.adr) (new.adr+8) 8 first) (maj+32) 8 new.adr)
      new.adr 8 0))

/-- Case 3. -/
lemma mallocFront_holding (hlaid : Laid (M.adr+40) M.limit (new :: b :: l)) (hadr : new.adr = M.adr + 40)
    (hsize : size.toNat = new.size) (hreq : reqSize.toNat = new.reqSize) :
    mallocFront (ptr M.adr) (ptr b.adr) size reqSize (g.holding m) =
      some (ptr new.user, g.holding (placedFront M.adr b.adr new m)) := by
  obtain ⟨-, hstop⟩ := hlaid.inside new (by simp)
  obtain ⟨-, hb⟩ := hlaid.inside b (by simp)
  have hroom := hlaid.room new (by simp)
  have hhigh := M.high
  unfold MinorBlock.stop MajorBlock.limit at hstop hb
  have hfirst : majFirst (ptr M.adr) = ptr (M.adr+32) := ptr_add M.adr 32
  have hmin : ptr M.adr + 40 = ptr new.adr := (ptr_add M.adr 40).trans (congrArg ptr hadr.symm)
  have hnext : minNext (ptr new.adr) = ptr (new.adr+8) := ptr_add _ 8
  simp only [mallocFront, hfirst, hmin, hnext, minPrev]
  refine (run_bind (store64_holding (by omega) _)).trans ?_
  refine (run_bind (store64_holding (by omega) _)).trans ?_
  refine (run_bind (store64_holding (by omega) _)).trans ?_
  refine (run_bind (store64_holding (by omega) _)).trans ?_
  refine (run_bind (fillMinor_holding (by omega) (by omega) _ _)).trans ?_
  refine (finish_holding (by omega) (by omega) hsize).trans ?_
  rw [hsize, hreq, toNat_ptr (by omega), toNat_ptr (by omega)]
  rfl

lemma placed_front (h : M.Holds m) (hM : M.minors = b :: l) (hlaid : Laid (M.adr+40) M.limit (new :: b :: l))
    (hadr : new.adr = M.adr + 40) : Placed m (placedFront M.adr b.adr new m) M.adr [] new (b :: l) := by
  obtain ⟨-, hstop⟩ := hlaid.inside new (by simp)
  obtain ⟨-, hb⟩ := hlaid.inside b (by simp)
  have hshape : Laid (M.adr+40) M.limit ([] ++ new :: b :: l) := hlaid
  have hbehind := hshape.around.2 b (by simp)
  obtain ⟨hsize, hroom⟩ := fields_fit hshape
  have husage := usageOf_lt M hlaid
  have hhigh := M.high
  have hu : loadBytes m (M.adr+24) 4 + (new.size + 40) = usageOf (new :: b :: l) := by
    rw [h.usage, hM]
    exact (usageOf_insert [] (b :: l) new).symm
  obtain ⟨hlow, hup, -⟩ := new.user_bounds
  have hmagic : liballocMagic.toNat < 2^32 := liballocMagic.isLt
  unfold MinorBlock.stop at hbehind
  unfold MinorBlock.stop MajorBlock.limit at hstop hb
  refine ⟨⟨by simp, fun _ => ?_, fun c hc => ?_, ?_, fun a ha => ?_⟩, ⟨?_, ?_, ?_, ?_, ?_⟩, ?_, ?_⟩
  · simp (disch := omega) only [placedFront, finished, filled, loadBytes_storeBytes_apart, loadBytes_storeBytes]
    omega
  · obtain rfl := Option.some.inj hc
    simp (disch := omega) only [prevAt, placedFront, finished, filled, loadBytes_storeBytes_apart, loadBytes_storeBytes]
    omega
  · simp (disch := omega) only [placedFront, finished, filled, loadBytes_storeBytes_apart, loadBytes_storeBytes, hu]
    exact Nat.mod_eq_of_lt husage
  · obtain ⟨husg, hfst, hblk, -, hbefore⟩ := ha
    have hfst := hfst rfl
    have hbefore := hbefore b rfl
    unfold MinorBlock.stop at hblk
    simp (disch := omega) only [placedFront, finished, filled, storeBytes_outside]
  · simp (disch := omega) only [placedFront, finished, filled, loadBytes_storeBytes_apart, loadBytes_storeBytes]
    omega
  · simp (disch := omega) only [placedFront, finished, filled, loadBytes_storeBytes_apart, loadBytes_storeBytes]
    omega
  · simp (disch := omega) only [placedFront, finished, filled, loadBytes_storeBytes_apart, loadBytes_storeBytes]
    omega
  · simp (disch := omega) only [placedFront, finished, filled, loadBytes_storeBytes_apart, loadBytes_storeBytes]
    omega
  · exact storeBytes_one
  · simp (disch := omega) only [prevAt, placedFront, finished, filled, loadBytes_storeBytes_apart, loadBytes_storeBytes]
    rfl
  · simp (disch := omega) only [nextAt, placedFront, finished, filled, loadBytes_storeBytes_apart, loadBytes_storeBytes]
    change b.adr % 2^64 = b.adr
    omega

def placedBehind (maj min next : ℕ) (new : MinorBlock) (m : ByteMemory) : ByteMemory :=
  let m := filled new.adr maj new.size new.reqSize (storeBytes (storeBytes m (new.adr+8) 8 next) new.adr 8 min)
  finished maj new (storeBytes (relinked next new.adr m) (min+8) 8 new.adr)

/-- Cases 4.1 and 4.2. -/
lemma mallocBehind_holding (h : M.Holds m) (hM : M.minors = l ++ b :: l₂)
    (hlaid : Laid (M.adr+40) M.limit (l ++ b :: new :: l₂)) (hadr : new.adr = b.stop) (hsize : size.toNat = new.size)
    (hreq : reqSize.toNat = new.reqSize) :
    mallocBehind (ptr M.adr) (ptr b.adr) (ptr ((l₂.map MinorBlock.adr).headD 0)) size reqSize (g.holding m) =
      some (ptr new.user, g.holding (placedBehind M.adr b.adr ((l₂.map MinorBlock.adr).headD 0) new m)) := by
  obtain ⟨hfrom, hstop⟩ := hlaid.inside new (by simp)
  obtain ⟨-, hb⟩ := hlaid.inside b (by simp)
  have hroom := hlaid.room new (by simp)
  have hhigh := M.high
  have hend : (l₂.map MinorBlock.adr).headD 0 + 8 ≤ 2^64 := by
    cases l₂ with
    | nil => decide
    | cons c l₂ =>
      obtain ⟨-, hc⟩ := hlaid.inside c (by simp)
      unfold MinorBlock.stop MajorBlock.limit at hc
      change c.adr + 8 ≤ _
      omega
  have hbsize := (h.tagged b (by simp [hM])).size
  have hbfits := loadBytes_lt m (b.adr+28) 4
  unfold MinorBlock.stop MajorBlock.limit at hstop hb
  unfold MinorBlock.stop at hadr
  have hsizeField : minSize (ptr b.adr) = ptr (b.adr+28) := ptr_add _ 28
  have hbehind : minNext (ptr b.adr) = ptr (b.adr+8) := ptr_add _ 8
  have hnext : minNext (ptr new.adr) = ptr (new.adr+8) := ptr_add _ 8
  have hnew : ptr b.adr + 40 + (BitVec.ofNat 32 (loadBytes m (b.adr+28) 4)).zeroExtend 64 = ptr new.adr := by
    have hbody : ptr b.adr + 40 = ptr (b.adr+40) := ptr_add _ 40
    rw [hbody, zeroExtend_ofNat hbfits, hbsize, ptr_add, hadr]
  simp only [mallocBehind, hsizeField, hbehind, minPrev]
  refine (run_bind (load32_holding (by omega))).trans ?_
  rw [hnew, hnext]
  refine (run_bind (store64_holding (by omega) _)).trans ?_
  refine (run_bind (store64_holding (by omega) _)).trans ?_
  refine (run_bind (fillMinor_holding (by omega) (by omega) _ _)).trans ?_
  refine (run_bind (when_store64_holding hend _)).trans ?_
  refine (run_bind (store64_holding (by omega) _)).trans ?_
  refine (finish_holding (by omega) (by omega) hsize).trans ?_
  rw [hsize, hreq, toNat_ptr (by omega), toNat_ptr (by omega), toNat_ptr (by omega)]
  rfl

lemma placed_behind (h : M.Holds m) (hM : M.minors = l ++ b :: l₂)
    (hlaid : Laid (M.adr+40) M.limit (l ++ b :: new :: l₂)) (hadr : new.adr = b.stop) :
    Placed m (placedBehind M.adr b.adr ((l₂.map MinorBlock.adr).headD 0) new m) M.adr (l ++ [b]) new l₂ := by
  have happend : l ++ b :: new :: l₂ = (l ++ [b]) ++ new :: l₂ := by simp
  obtain ⟨-, hstop⟩ := hlaid.inside new (by simp)
  obtain ⟨hfrom, hb⟩ := hlaid.inside b (by simp)
  obtain ⟨hsize, hroom⟩ := fields_fit (happend ▸ hlaid)
  have husage := usageOf_lt M hlaid
  have hhigh := M.high
  have hbehind := ((happend ▸ hlaid).around).2
  have hu : loadBytes m (M.adr+24) 4 + (new.size + 40) = usageOf (l ++ b :: new :: l₂) := by
    rw [h.usage, hM, happend, usageOf_insert (l ++ [b]) l₂ new, List.append_assoc]
    rfl
  obtain ⟨hlow, hup, -⟩ := new.user_bounds
  have hmagic : liballocMagic.toNat < 2^32 := liballocMagic.isLt
  have hlast : (l ++ [b]).getLast? = some b := by simp
  have hprev : ((l ++ [b]).map MinorBlock.adr).getLastD 0 = b.adr := by simp
  have hnext : (l₂.map MinorBlock.adr).headD 0 = 0 ∨ new.stop ≤ (l₂.map MinorBlock.adr).headD 0 ∧
      (l₂.map MinorBlock.adr).headD 0 + 40 ≤ M.limit := by
    cases l₂ with
    | nil => exact .inl rfl
    | cons c l₂ =>
      obtain ⟨-, hc⟩ := hlaid.inside c (by simp)
      unfold MinorBlock.stop at hc
      exact .inr ⟨hbehind c (by simp), (by omega : c.adr + 40 ≤ M.limit)⟩
  have hhead : ∀ c, l₂.head? = some c → (l₂.map MinorBlock.adr).headD 0 = c.adr ∧ c.adr ≠ 0 := by
    intro c hc
    obtain ⟨t, rfl⟩ := List.head?_eq_some_iff.mp hc
    obtain ⟨hcfrom, -⟩ := hlaid.inside c (by simp)
    exact ⟨rfl, by omega⟩
  generalize hN : (l₂.map MinorBlock.adr).headD 0 = next at hnext hhead ⊢
  unfold MinorBlock.stop at hadr
  unfold MinorBlock.stop MajorBlock.limit at hstop hb hnext
  refine ⟨⟨fun c hc => ?_, by simp, fun c hc => ?_, ?_, fun a ha => ?_⟩, ⟨?_, ?_, ?_, ?_, ?_⟩, ?_, ?_⟩
  · obtain rfl := Option.some.inj (hlast.symm.trans hc)
    simp (disch := omega) only [nextAt, placedBehind, finished, filled, loadBytes_storeBytes_apart, loadBytes_storeBytes]
    omega
  · obtain ⟨rfl, hne⟩ := hhead c hc
    simp (disch := omega) only [prevAt, placedBehind, finished, filled, loadBytes_storeBytes_apart,
      loadBytes_relinked_self]
    omega
  · simp (disch := omega) only [placedBehind, finished, filled, loadBytes_storeBytes_apart, loadBytes_storeBytes,
      loadBytes_relinked, hu]
    rw [happend] at husage ⊢
    exact Nat.mod_eq_of_lt husage
  · obtain ⟨husg, -, hblk, hbeh, hbefore⟩ := ha
    have hbeh := hbeh b hlast
    have hnextOut : next = 0 ∨ a < next ∨ next + 8 ≤ a := by
      cases l₂ with
      | nil => exact .inl hN.symm
      | cons c l₂ =>
        obtain ⟨rfl, -⟩ := hhead c rfl
        exact .inr (hbefore c rfl)
    unfold MinorBlock.stop at hblk
    simp (disch := omega) only [placedBehind, finished, filled, storeBytes_outside, relinked_outside]
  · simp (disch := omega) only [placedBehind, finished, filled, loadBytes_storeBytes_apart, loadBytes_storeBytes,
      loadBytes_relinked]
    omega
  · simp (disch := omega) only [placedBehind, finished, filled, loadBytes_storeBytes_apart, loadBytes_storeBytes,
      loadBytes_relinked]
    omega
  · simp (disch := omega) only [placedBehind, finished, filled, loadBytes_storeBytes_apart, loadBytes_storeBytes,
      loadBytes_relinked]
    omega
  · simp (disch := omega) only [placedBehind, finished, filled, loadBytes_storeBytes_apart, loadBytes_storeBytes,
      loadBytes_relinked]
    omega
  · exact storeBytes_one
  · simp (disch := omega) only [prevAt, placedBehind, finished, filled, loadBytes_storeBytes_apart, loadBytes_storeBytes,
      loadBytes_relinked, hprev]
    omega
  · simp (disch := omega) only [nextAt, placedBehind, finished, filled, loadBytes_storeBytes_apart, loadBytes_storeBytes,
      loadBytes_relinked, hN]
    omega

end Cases

section Walk
variable {g t : Heap} {m : ByteMemory} {M : MajorBlock} {l₁ l₂ : List MinorBlock} {b : MinorBlock} {size reqSize : ULONG64}
  {fuel : ℕ} {r : Option PVOID}

/-- A turn of the walk looks at the gap between a minor block and what follows it. -/
lemma mallocBetween_step (h : M.Holds m) (hM : M.minors = l₁ ++ b :: l₂) (hsize : size.toNat < 2^32) :
    mallocBetween (ptr M.adr) size reqSize (fuel+1) (ptr b.adr) (g.holding m) =
      if b.stop + (size.toNat + 40) ≤ (l₂.map MinorBlock.adr).headD M.limit then
        (mallocBehind (ptr M.adr) (ptr b.adr) (ptr ((l₂.map MinorBlock.adr).headD 0)) size reqSize (g.holding m)).map
          fun q => (some q.1, q.2)
      else mallocBetween (ptr M.adr) size reqSize fuel (ptr ((l₂.map MinorBlock.adr).headD 0)) (g.holding m) := by
  have hlaid := M.laid
  rw [hM] at hlaid
  obtain ⟨hfrom, hb⟩ := hlaid.inside b (by simp)
  have hhigh := M.high
  have hpages := M.some_pages
  have hbstop : b.stop = b.adr + 40 + b.size := rfl
  have hbsize := (h.tagged b (by simp [hM])).size
  have hbfits := loadBytes_lt m (b.adr+28) 4
  have hmfits := loadBytes_lt m (M.adr+20) 4
  rw [hbsize] at hbfits
  rw [h.size] at hmfits
  have hnextAt : loadBytes m (b.adr+8) 8 = (l₂.map MinorBlock.adr).headD 0 := by
    have hlinks := h.links
    rw [hM, List.map_append, List.map_cons] at hlinks
    exact hlinks.links.2
  have hnextField : minNext (ptr b.adr) = ptr (b.adr+8) := ptr_add _ 8
  have hsizeField : minSize (ptr b.adr) = ptr (b.adr+28) := ptr_add _ 28
  have hmajField : majSize (ptr M.adr) = ptr (M.adr+20) := ptr_add _ 20
  have hne : ptr b.adr ≠ 0 := mt (ptr_eq_zero (by unfold MinorBlock.stop at hb; omega)).mp (by omega)
  have hstop : (if ptr ((l₂.map MinorBlock.adr).headD 0) = 0 then ptr M.limit else ptr ((l₂.map MinorBlock.adr).headD 0)) =
      ptr ((l₂.map MinorBlock.adr).headD M.limit) := by
    cases l₂ with
    | nil => rfl
    | cons c l₂ =>
      obtain ⟨hcfrom, hc⟩ := hlaid.inside c (by simp)
      unfold MinorBlock.stop at hc
      exact if_neg (mt (ptr_eq_zero (by change c.adr < _; omega)).mp (by change c.adr ≠ 0; omega))
  have hgap : b.stop ≤ (l₂.map MinorBlock.adr).headD M.limit ∧ (l₂.map MinorBlock.adr).headD M.limit ≤ 2^64 := by
    cases l₂ with
    | nil => exact ⟨hb, hhigh⟩
    | cons c l₂ =>
      obtain ⟨-, hc⟩ := hlaid.inside c (by simp)
      unfold MinorBlock.stop at hc
      exact ⟨hlaid.around.2 c (by simp), (by omega : c.adr ≤ 2^64)⟩
  rw [mallocBetween, if_neg hne, hnextField, hsizeField, hmajField, run_bind (load64_holding (by omega)),
    run_bind (load32_holding (by omega)), run_bind (load32_holding (by omega)), hnextAt, h.size, hbsize]
  have hdiff : ptr ((l₂.map MinorBlock.adr).headD M.limit) - ptr b.adr - 40 - BitVec.ofNat 64 b.size =
      ptr ((l₂.map MinorBlock.adr).headD M.limit - b.stop) := by
    have h40 : ptr ((l₂.map MinorBlock.adr).headD M.limit - b.adr) - 40 =
        ptr ((l₂.map MinorBlock.adr).headD M.limit - b.adr - 40) := ptr_sub (b := 40) (by omega)
    have hrest : ptr ((l₂.map MinorBlock.adr).headD M.limit - b.adr - 40) - BitVec.ofNat 64 b.size =
        ptr ((l₂.map MinorBlock.adr).headD M.limit - b.adr - 40 - b.size) := ptr_sub (by omega)
    rw [ptr_sub (by omega), h40, hrest]
    congr 1
    omega
  have hcompare : ptr ((l₂.map MinorBlock.adr).headD M.limit - b.stop) ≥ size + 40 ↔
      b.stop + (size.toNat + 40) ≤ (l₂.map MinorBlock.adr).headD M.limit := by
    have hsum : (size + 40).toNat = size.toNat + 40 := by
      rw [BitVec.toNat_add]
      change (size.toNat + 40) % 2^64 = _
      omega
    rw [ge_iff_le, BitVec.le_def, hsum, toNat_ptr (by omega)]
    omega
  rw [zeroExtend_ofNat hmfits, zeroExtend_ofNat hbfits, ptr_add]
  have hlimit : M.adr + M.pages*4096 = M.limit := rfl
  rw [hlimit, hstop, hdiff]
  by_cases hfits : b.stop + (size.toNat + 40) ≤ (l₂.map MinorBlock.adr).headD M.limit
  · rw [if_pos (hcompare.mpr hfits), if_pos hfits]
    exact run_map _ some _
  · rw [if_neg (mt hcompare.mp hfits), if_neg hfits]

/-- The request is served: a block for it is put into the major block, and the pointer to it is returned. -/
def ServedIn (m m' : ByteMemory) (M : MajorBlock) (size reqSize : ℕ) (p : PVOID) : Prop :=
  ∃ l₁ new l₂, M.minors = l₁ ++ l₂ ∧ Laid (M.adr+40) M.limit (l₁ ++ new :: l₂) ∧ new.size = size ∧ new.reqSize = reqSize ∧
    p = ptr new.user ∧ Placed m m' M.adr l₁ new l₂

/-- The walk finds room behind one of the minor blocks, or leaves everything as it is. -/
lemma mallocBetween_holding (h : M.Holds m) (hM : M.minors = l₁ ++ l₂) (hsize : size.toNat < 2^32)
    (hreq : reqSize.toNat + 32 ≤ size.toNat)
    (hrun : mallocBetween (ptr M.adr) size reqSize fuel (ptr ((l₂.map MinorBlock.adr).headD 0)) (g.holding m) =
      some (r, t)) : (r = none ∧ t = g.holding m) ∨
        ∃ p m', r = some p ∧ t = g.holding m' ∧ ServedIn m m' M size.toNat reqSize.toNat p := by
  induction fuel generalizing l₁ l₂ with
  | zero => cases hrun
  | succ fuel ih =>
    cases l₂ with
    | nil =>
      have hnull : ptr ((([] : List MinorBlock).map MinorBlock.adr).headD 0) = 0 := rfl
      rw [hnull, mallocBetween, if_pos rfl] at hrun
      obtain ⟨rfl, rfl⟩ := run_pure_eq_some.mp hrun
      exact .inl ⟨rfl, rfl⟩
    | cons b l₂ =>
      have hb : ptr (((b :: l₂).map MinorBlock.adr).headD 0) = ptr b.adr := rfl
      have hlaid : Laid (M.adr+40) M.limit (l₁ ++ b :: l₂) := hM ▸ M.laid
      rw [hb, mallocBetween_step h hM hsize] at hrun
      split_ifs at hrun with hgap
      · let new : MinorBlock := ⟨b.stop, size.toNat, reqSize.toNat⟩
        have hnew : Laid (M.adr+40) M.limit (l₁ ++ b :: new :: l₂) :=
          hlaid.fill_gap rfl (show b.stop + 40 + size.toNat ≤ _ by omega) hreq
        rw [mallocBehind_holding h hM hnew rfl rfl rfl] at hrun
        obtain ⟨rfl, rfl⟩ := Prod.mk.inj (Option.some.inj hrun)
        refine .inr ⟨_, _, rfl, rfl, l₁ ++ [b], new, l₂, by simp [hM], ?_, rfl, rfl, rfl, placed_behind h hM hnew rfl⟩
        rwa [List.append_assoc]
      · have hsplit : M.minors = (l₁ ++ [b]) ++ l₂ := by simp [hM]
        exact ih hsplit hrun

end Walk

end Open98.Mm
