import Open98.Fat32.ClusterIO
import Open98.Library.Run

/-! The cluster allocator in full: which cluster a call takes, what it does to the table, to the disk
and to the hint, and that the next call finds what it relies on. -/
namespace Open98.Fat32
open Open98.Library Open98.Ata

/-- The sector belongs to the cluster, whose last sectors may have wrapped around. -/
def Geometry.SectorOf (g : Geometry) (c s : ℕ) : Prop :=
  ∃ j < g.sectorsPerCluster, (fatAcquireSectorForCluster g c + j) % 2^32 = s

/-- The cell is the first free one at the hint or behind it, in cyclic order. -/
structure NextFree {δ : Type} (v : FAT32 δ) (i : ℕ) : Prop where
  inside : i < v.geometry.intsPerFat
  free : v.FAT i = 0
  first : ∀ k < v.geometry.intsPerFat, v.FAT k = 0 →
    (i + v.geometry.intsPerFat - v.clusterAllocationHint) % v.geometry.intsPerFat ≤
      (k + v.geometry.intsPerFat - v.clusterAllocationHint) % v.geometry.intsPerFat

/-- What a call that takes cluster `i` does. -/
structure Takes (v : FAT32 Drive) (i : ℕ) (w : FAT32 Drive) : Prop where
  next : NextFree v i
  number : 2 ≤ i
  table : w.FAT = Function.update v.FAT i 0x0FFFFFFF
  cleared : ∀ s < 2^32, v.geometry.SectorOf i s → w.disk.sectors s = fun _ => 0
  kept : ∀ s < 2^32, ¬ v.geometry.SectorOf i s → w.disk.sectors s = v.disk.sectors s
  count : fatGetFreeClusters w + 1 = fatGetFreeClusters v
  hint : 3 ≤ w.clusterAllocationHint ∧ w.clusterAllocationHint ≤ w.geometry.intsPerFat
  rest : w.geometry = v.geometry ∧ w.junk = v.junk

section Clearing
variable {g : Geometry}

/-- Writing the same bytes to a run of sectors, however it wraps around. -/
lemma fatPutSector_wraps (d : Drive) (sector n : ℕ) : ∃ d', fatPutSector d (fun _ => 0) sector n = .ok d' ∧
    ∀ s < 2^32, ((∃ j < n, (sector + j) % 2^32 = s) → d'.sectors s = fun _ => 0) ∧
      ((¬ ∃ j < n, (sector + j) % 2^32 = s) → d'.sectors s = d.sectors s) := by
  induction n with
  | zero =>
    refine ⟨d, rfl, fun s _ => ⟨?_, fun _ => rfl⟩⟩
    rintro ⟨j, hj, -⟩
    exact absurd hj (Nat.not_lt_zero j)
  | succ n ih =>
    obtain ⟨d', hrun, hsectors⟩ := ih
    obtain ⟨d'', hwrite, hlast⟩ := drive_writesSectors d' (fun _ => 0) ((sector + n) % 2^32) (Nat.mod_lt _ (by decide))
    refine ⟨d'', ?_, fun s hs => ?_⟩
    · rw [fatPutSector, hrun, ok_bind]
      exact hwrite
    · obtain ⟨hin, hout⟩ := hsectors s hs
      rw [hlast s hs]
      by_cases hsn : s = (sector + n) % 2^32
      · rw [if_pos hsn]
        exact ⟨fun _ => rfl, fun h => (h ⟨n, Nat.lt_succ_self n, hsn.symm⟩).elim⟩
      · rw [if_neg hsn]
        constructor
        · rintro ⟨j, hj, hsj⟩
          refine hin ⟨j, ?_, hsj⟩
          have hne : j ≠ n := fun h => hsn (by rw [← hsj, h])
          omega
        · intro h
          refine hout ?_
          rintro ⟨j, hj, hsj⟩
          exact h ⟨j, Nat.lt_succ_of_lt hj, hsj⟩

lemma fatClearCluster_ok (d : Drive) (c : ℕ) : ∃ d', fatClearCluster g d c = .ok d' ∧
    ∀ s < 2^32, (g.SectorOf c s → d'.sectors s = fun _ => 0) ∧ (¬ g.SectorOf c s → d'.sectors s = d.sectors s) :=
  fatPutSector_wraps d _ _

end Clearing

section Search
variable {δ : Type} {v : FAT32 δ} {i : ℕ}

/-- A free cell found from the hint on comes before all others. -/
lemma nextFree_ahead (hhint : v.clusterAllocationHint ≤ v.geometry.intsPerFat)
    (h : firstFree v.FAT v.clusterAllocationHint (v.geometry.intsPerFat - v.clusterAllocationHint) = some i) :
    NextFree v i := by
  obtain ⟨hle, hlt, hfree, hbefore⟩ := firstFree_eq_some.mp h
  refine ⟨by omega, hfree, fun k hk hk0 => ?_⟩
  have hi : (i + v.geometry.intsPerFat - v.clusterAllocationHint) % v.geometry.intsPerFat =
      i - v.clusterAllocationHint := by
    rw [show i + v.geometry.intsPerFat - v.clusterAllocationHint =
      i - v.clusterAllocationHint + v.geometry.intsPerFat by omega, Nat.add_mod_right, Nat.mod_eq_of_lt (by omega)]
  rw [hi]
  by_cases hkh : k < v.clusterAllocationHint
  · rw [Nat.mod_eq_of_lt (by omega)]
    omega
  · have hik : i ≤ k := Nat.le_of_not_lt fun hki => hbefore k (by omega) hki hk0
    rw [show k + v.geometry.intsPerFat - v.clusterAllocationHint =
      k - v.clusterAllocationHint + v.geometry.intsPerFat by omega, Nat.add_mod_right, Nat.mod_eq_of_lt (by omega)]
    omega

/-- Where none is found from the hint on, the first free cell of all comes first. -/
lemma nextFree_behind (hhint : v.clusterAllocationHint ≤ v.geometry.intsPerFat)
    (hnone : firstFree v.FAT v.clusterAllocationHint (v.geometry.intsPerFat - v.clusterAllocationHint) = none)
    (h : firstFree v.FAT 0 v.clusterAllocationHint = some i) : NextFree v i := by
  obtain ⟨-, hlt, hfree, hbefore⟩ := firstFree_eq_some.mp h
  refine ⟨by omega, hfree, fun k hk hk0 => ?_⟩
  have hkh : k < v.clusterAllocationHint := by
    by_contra hge
    exact firstFree_eq_none.mp hnone k (by omega) (by omega) hk0
  have hik : i ≤ k := Nat.le_of_not_lt fun hki => hbefore k (Nat.zero_le k) hki hk0
  rw [Nat.mod_eq_of_lt (by omega), Nat.mod_eq_of_lt (by omega)]
  omega

end Search

section Call
variable {v w : FAT32 Drive} {i : ℕ}

lemma takeCluster_takes (ready : AllocReady v) (next : NextFree v i) :
    ∃ w, takeCluster v i = .ok (i, w) ∧ Takes v i w := by
  obtain ⟨d, hclear, hsectors⟩ := fatClearCluster_ok (g := v.geometry) v.disk i
  have hcluster := ready.hasCluster next.inside next.free
  refine ⟨{ v with FAT := Function.update v.FAT i 0x0FFFFFFF, disk := d, clusterAllocationHint := i + 1 }, ?_, ?_⟩
  · rw [takeCluster, hclear]
    rfl
  · exact {
      next := next
      number := hcluster.1
      table := rfl
      cleared := fun s hs => (hsectors s hs).1
      kept := fun s hs => (hsectors s hs).2
      count := card_freeCells_take (by decide) next.inside next.free
      hint := ⟨Nat.succ_le_succ hcluster.1, next.inside⟩
      rest := ⟨rfl, rfl⟩ }

/-- While a cell is free the call takes the next one. -/
lemma fatAllocCluster_takes (ready : AllocReady v) (hfree : fatGetFreeClusters v ≠ 0) :
    ∃ i w, fatAllocCluster v = .ok (i, w) ∧ Takes v i w := by
  cases hahead : firstFree v.FAT v.clusterAllocationHint
      (v.geometry.intsPerFat - v.clusterAllocationHint) with
  | some i =>
    obtain ⟨w, htake, hw⟩ := takeCluster_takes ready (nextFree_ahead ready.hint hahead)
    exact ⟨i, w, by simp only [fatAllocCluster, hahead, htake], hw⟩
  | none =>
    cases hbehind : firstFree v.FAT 0 v.clusterAllocationHint with
    | some i =>
      obtain ⟨w, htake, hw⟩ := takeCluster_takes ready (nextFree_behind ready.hint hahead hbehind)
      exact ⟨i, w, by simp only [fatAllocCluster, hahead, hbehind, htake], hw⟩
    | none => exact absurd (free_eq_zero hahead hbehind) hfree

lemma Takes.ready (h : Takes v i w) (ready : AllocReady v) : AllocReady w := by
  have hi := h.number
  refine ⟨⟨?_, ?_⟩, h.hint.2⟩
  · rw [h.table, Function.update_of_ne (by omega)]
    exact ready.reserved.1
  · rw [h.table, Function.update_of_ne (by omega)]
    exact ready.reserved.2

end Call

section Calls

/-- What happens between calls of the allocator: other calls of it, and clusters are given back. -/
inductive AllocOp
  | alloc
  | free (c : ℕ)
  deriving DecidableEq, Repr

/-- The first two cells are never given back. -/
def AllocOp.Allowed (_ : FAT32 Drive) : AllocOp → Prop
  | alloc => True
  | free c => 2 ≤ c

def AllocOp.apply (v : FAT32 Drive) : AllocOp → Option (FAT32 Drive)
  | alloc => (fatAllocCluster v).toOption.map Prod.snd
  | free c => some { v with FAT := Function.update v.FAT c 0 }

/-- A call of the allocator, or giving a cluster back, leaves what the next call relies on. -/
lemma AllocReady.step {v w : FAT32 Drive} {o : AllocOp} (ready : AllocReady v) (ok : o.Allowed v)
    (h : o.apply v = some w) : AllocReady w ∧ w.geometry = v.geometry := by
  cases o with
  | alloc =>
    obtain ⟨⟨i, u⟩, hu, rfl⟩ := Option.map_eq_some_iff.mp h
    rw [toOption_eq_some] at hu
    by_cases hfull : fatGetFreeClusters v = 0
    · rw [fatAllocCluster_full ready.hint hfull] at hu
      cases hu
      exact ⟨ready, rfl⟩
    · obtain ⟨j, x, hx, htakes⟩ := fatAllocCluster_takes ready hfull
      rw [hx] at hu
      cases hu
      exact ⟨htakes.ready ready, htakes.rest.1⟩
  | free c =>
    obtain rfl := Option.some.inj h
    have hc : 2 ≤ c := ok
    refine ⟨⟨⟨?_, ?_⟩, ready.hint⟩, rfl⟩
    · exact (Function.update_of_ne (by omega) _ _).trans_ne ready.reserved.1
    · exact (Function.update_of_ne (by omega) _ _).trans_ne ready.reserved.2

/-- In every state that calls of the allocator and any frees lead to, the allocator returns 0 exactly
when no cluster is free, and then changes nothing; else it takes the next free cluster. -/
theorem fatAllocCluster_exact (v : FAT32 Drive) (hcells : 128 * v.geometry.sectorsPerFat32 ≤ 2^28)
    (hreserved : v.FAT 0 ≠ 0 ∧ v.FAT 1 ≠ 0) (hhint : v.clusterAllocationHint ≤ 128 * v.geometry.sectorsPerFat32)
    (ops : List AllocOp) (w : FAT32 Drive) (run : GuardedRun AllocOp.Allowed AllocOp.apply v ops w) :
    w.geometry.intsPerFat = 128 * v.geometry.sectorsPerFat32 ∧
      ∃ i x, fatAllocCluster w = .ok (i, x) ∧ (i = 0 ↔ fatGetFreeClusters w = 0) ∧ (i = 0 → x = w) ∧
        (i ≠ 0 → Takes w i x) := by
  have hcount : v.geometry.intsPerFat = 128 * v.geometry.sectorsPerFat32 := by
    rw [Geometry.intsPerFat]
    omega
  have hinv : AllocReady w ∧ w.geometry = v.geometry :=
    run.invariant (I := fun u => AllocReady u ∧ u.geometry = v.geometry)
      (fun u o t hu ok ht => ⟨(hu.1.step ok ht).1, (hu.1.step ok ht).2.trans hu.2⟩)
      ⟨⟨hreserved, hcount ▸ hhint⟩, rfl⟩
  obtain ⟨ready, hgeometry⟩ := hinv
  refine ⟨hgeometry ▸ hcount, ?_⟩
  by_cases hfull : fatGetFreeClusters w = 0
  · exact ⟨0, w, fatAllocCluster_full ready.hint hfull, iff_of_true rfl hfull, fun _ => rfl, fun h => (h rfl).elim⟩
  · obtain ⟨i, x, hx, htakes⟩ := fatAllocCluster_takes ready hfull
    have hi : i ≠ 0 := by
      have := htakes.number
      omega
    exact ⟨i, x, hx, iff_of_false hi hfull, fun h => (hi h).elim, fun _ => htakes⟩

/-- A volume whose first two cells alone are in use, with the hint at the end of its table. -/
def hintAtEnd : FAT32 Drive := ⟨small, fun c => if c < 2 then EOC else 0, 128, blank, fun _ => 0⟩

/-- The search goes round to cluster 2. -/
theorem fatAllocCluster_exact_round : ∃ x, fatAllocCluster hintAtEnd = .ok (2, x) ∧ Takes hintAtEnd 2 x := by
  obtain ⟨-, i, x, hx, hzero, -, htakes⟩ := fatAllocCluster_exact hintAtEnd (by decide) (by decide) (by decide)
    [] hintAtEnd (.nil _)
  have hi : i ≠ 0 := by
    intro h
    exact absurd (hzero.mp h) (by decide +kernel)
  have htakes := htakes hi
  obtain rfl : i = 2 := by
    have hfirst := htakes.next.first 2 (by decide) rfl
    have hinside : i < 128 := htakes.next.inside
    have hnumber := htakes.number
    change (i + 128 - 128) % 128 ≤ (2 + 128 - 128) % 128 at hfirst
    omega
  exact ⟨x, hx, htakes⟩

end Calls

end Open98.Fat32
