import Mathlib.Data.Finset.Card
import Open98.Fat32.Volume
import Open98.Library.Search

/-! Chains in the file allocation table: what they are, how a cluster is allocated and how a
chain is freed. -/
namespace Open98.Fat32
open Open98.Library

/-- The end marks, as the walks that mask a cell and the walks that do not both see them. -/
def EndMark (value : ℕ) : Prop := EOC ≤ value % 2^28

instance (value : ℕ) : Decidable (EndMark value) := inferInstanceAs (Decidable (_ ≤ _))

lemma EndMark.le {value : ℕ} (h : EndMark value) : EOC ≤ value := h.trans (Nat.mod_le _ _)

/-- The table has one cell for each cluster number, and all of them are below the end marks. -/
structure Geometry.Addressable (g : Geometry) : Prop where
  cells : 128 * g.sectorsPerFat32 ≤ EOC

lemma Geometry.Addressable.intsPerFat_eq {g : Geometry} (h : g.Addressable) :
    g.intsPerFat = 128 * g.sectorsPerFat32 := by
  have := h.cells
  unfold EOC at this
  unfold Geometry.intsPerFat
  omega

lemma Geometry.Addressable.lt_EOC {g : Geometry} (h : g.Addressable) {c : ℕ}
    (hc : g.HasCluster c) : c < EOC := by
  have := h.cells
  have := hc.2
  rw [h.intsPerFat_eq] at this
  omega

lemma Geometry.Addressable.not_endMark {g : Geometry} (h : g.Addressable) {c : ℕ}
    (hc : g.HasCluster c) : ¬ EndMark c := by
  have hlt := h.lt_EOC hc
  have := Nat.mod_le c (2^28)
  unfold EndMark
  omega

lemma Geometry.HasCluster.ne_zero {g : Geometry} {c : ℕ} (h : g.HasCluster c) : c ≠ 0 := by
  have := h.1
  omega

/-- The clusters of the list, in this order, are the chain that starts at the given one. -/
structure IsChain (g : Geometry) (FAT : ℕ → ℕ) (start : ℕ) (l : List ℕ) : Prop where
  links : Links FAT EndMark start l
  cells : ∀ c ∈ l, g.HasCluster c

namespace IsChain
variable {g : Geometry} {FAT : ℕ → ℕ} {start : ℕ} {l m : List ℕ}

lemma last {c : ℕ} (hc : g.HasCluster c) (hstop : EndMark (FAT c)) : IsChain g FAT c [c] :=
  ⟨.last hstop, List.forall_mem_singleton.mpr hc⟩

lemma link {c : ℕ} (hc : g.HasCluster c) (hgo : ¬ EndMark (FAT c)) (tail : IsChain g FAT (FAT c) l) :
    IsChain g FAT c (c :: l) :=
  ⟨.link hgo tail.links, List.forall_mem_cons.mpr ⟨hc, tail.cells⟩⟩

/-- Induction along a chain. -/
theorem induct {motive : (start : ℕ) → (l : List ℕ) → IsChain g FAT start l → Prop}
    (last : ∀ c (hc : g.HasCluster c) (hstop : EndMark (FAT c)), motive c [c] (.last hc hstop))
    (link : ∀ c l (hc : g.HasCluster c) (hgo : ¬ EndMark (FAT c)) (tail : IsChain g FAT (FAT c) l)
      (_ : motive (FAT c) l tail), motive c (c :: l) (.link hc hgo tail))
    (h : IsChain g FAT start l) : motive start l h :=
  Links.induct (motive := fun start l => ∀ h : IsChain g FAT start l, motive start l h)
    (fun c hc hstop _ => last c hc hstop)
    (fun c l hc hgo tail cells ih _ => link c l hc hgo ⟨tail, cells⟩ (ih ⟨tail, cells⟩))
    h.links h.cells h

lemma nodup (h : IsChain g FAT start l) : l.Nodup := h.links.nodup

lemma unique (h : IsChain g FAT start l) (hm : IsChain g FAT start m) : l = m :=
  h.links.unique hm.links

/-- The cells of a chain are in use. -/
lemma cell_ne_zero (h : IsChain g FAT start l) {c : ℕ} (hc : c ∈ l) : FAT c ≠ 0 := by
  induction h using induct with
  | last d _ hstop =>
    obtain rfl := List.mem_singleton.mp hc
    have := hstop.le
    unfold EOC at this
    omega
  | link d t _ hgo tail ih =>
    rcases List.mem_cons.mp hc with rfl | hc
    · exact (tail.cells _ tail.links.head_mem).ne_zero
    · exact ih hc

lemma notMem_of_free (h : IsChain g FAT start l) {c : ℕ} (hc : FAT c = 0) : c ∉ l :=
  fun hmem => h.cell_ne_zero hmem hc

lemma length_le (h : IsChain g FAT start l) : l.length ≤ g.intsPerFat := by
  have hsub : l.toFinset ⊆ Finset.range g.intsPerFat := by
    intro c hc
    exact Finset.mem_range.mpr (h.cells c (List.mem_toFinset.mp hc)).2
  have hcard := Finset.card_le_card hsub
  rwa [List.toFinset_card_of_nodup h.nodup, Finset.card_range] at hcard

end IsChain

section FreeCells
variable {FAT : ℕ → ℕ} {i left r : ℕ}

lemma firstFree_eq : firstFree FAT i left = firstIn (fun c => FAT c = 0) i left := by
  induction left generalizing i with
  | zero => rfl
  | succ left ih => rw [firstFree, firstIn, ih]

lemma firstFree_eq_some : firstFree FAT i left = some r ↔
    i ≤ r ∧ r < i+left ∧ FAT r = 0 ∧ ∀ k, i ≤ k → k < r → FAT k ≠ 0 := by
  rw [firstFree_eq]
  exact firstIn_eq_some

lemma firstFree_eq_none :
    firstFree FAT i left = none ↔ ∀ k, i ≤ k → k < i+left → FAT k ≠ 0 := by
  rw [firstFree_eq]
  exact firstIn_eq_none

/-- The free cells among the first `n` ones. -/
def freeCells (FAT : ℕ → ℕ) (n : ℕ) : Finset ℕ := (Finset.range n).filter fun i => FAT i = 0

lemma fatGetFreeClusters_eq {δ : Type} (v : FAT32 δ) :
    fatGetFreeClusters v = (freeCells v.FAT v.geometry.intsPerFat).card := rfl

lemma mem_freeCells {n c : ℕ} : c ∈ freeCells FAT n ↔ c < n ∧ FAT c = 0 := by
  simp [freeCells]

lemma freeCells_update {n c value : ℕ} (hvalue : value ≠ 0) :
    freeCells (Function.update FAT c value) n = (freeCells FAT n).erase c := by
  ext k
  by_cases hk : k = c
  · simp [mem_freeCells, hk, hvalue]
  · simp [mem_freeCells, hk]

/-- A cell in use stays in use when one is taken. -/
lemma update_ne_zero {c : ℕ} (hused : FAT c ≠ 0) (x : ℕ) : Function.update FAT x 0x0FFFFFFF c ≠ 0 := by
  rw [Function.update_apply]
  split_ifs
  · decide
  · exact hused

/-- Taking a free cell makes one free cell less. -/
lemma card_freeCells_take {n c value : ℕ} (hvalue : value ≠ 0) (hc : c < n) (hfree : FAT c = 0) :
    (freeCells (Function.update FAT c value) n).card + 1 = (freeCells FAT n).card := by
  rw [freeCells_update hvalue]
  exact Finset.card_erase_add_one (mem_freeCells.mpr ⟨hc, hfree⟩)

/-- Changing a cell that is in use frees none. -/
lemma freeCells_relink {n c value : ℕ} (hvalue : value ≠ 0) (hused : FAT c ≠ 0) :
    freeCells (Function.update FAT c value) n = freeCells FAT n := by
  rw [freeCells_update hvalue]
  exact Finset.erase_eq_of_notMem fun h => hused (mem_freeCells.mp h).2

end FreeCells

section Allocation
variable {δ : Type} {v : FAT32 δ}

/-- What the allocator relies on: the first two cells are in use, and the hint is not past the
end of the table. -/
structure AllocReady (v : FAT32 δ) : Prop where
  reserved : v.FAT 0 ≠ 0 ∧ v.FAT 1 ≠ 0
  hint : v.clusterAllocationHint ≤ v.geometry.intsPerFat

lemma AllocReady.hasCluster (h : AllocReady v) {c : ℕ} (hc : c < v.geometry.intsPerFat)
    (hfree : v.FAT c = 0) : v.geometry.HasCluster c := by
  refine ⟨?_, hc⟩
  by_contra hlt
  obtain rfl | rfl : c = 0 ∨ c = 1 := by omega
  · exact h.reserved.1 hfree
  · exact h.reserved.2 hfree

/-- When both searches of the allocator fail, no cell is free. -/
lemma free_eq_zero (hfirst : firstFree v.FAT v.clusterAllocationHint
      (v.geometry.intsPerFat - v.clusterAllocationHint) = none)
    (hsecond : firstFree v.FAT 0 v.clusterAllocationHint = none) : fatGetFreeClusters v = 0 := by
  rw [fatGetFreeClusters_eq, Finset.card_eq_zero, Finset.eq_empty_iff_forall_notMem]
  intro k hk
  obtain ⟨hk, hzero⟩ := mem_freeCells.mp hk
  by_cases hkh : k < v.clusterAllocationHint
  · exact firstFree_eq_none.mp hsecond k (by omega) (by omega) hzero
  · exact firstFree_eq_none.mp hfirst k (by omega) (by omega) hzero

variable [Disk δ]

lemma takeCluster_ok (store : ClusterStore v.geometry δ) {i : ℕ} (hi : v.geometry.HasCluster i) :
    ∃ d, takeCluster v i = .ok (i, { v with
        FAT := Function.update v.FAT i 0x0FFFFFFF, disk := d, clusterAllocationHint := i + 1 }) ∧
      content v.geometry d = Function.update v.clusters i fun _ => 0 := by
  obtain ⟨d, hput, hcontent⟩ := store.put v.disk (fun _ => 0) i hi
  refine ⟨d, ?_, ?_⟩
  · rw [takeCluster, fatClearCluster, hput]
    rfl
  · have hcut : v.geometry.cut (fun _ => 0) = fun _ => 0 := by
      funext k
      simp [Geometry.cut]
    rw [hcontent, hcut]
    rfl

/-- While a cell is free the allocator takes a free cluster, marks it as the end of a chain and
clears it. -/
theorem fatAllocCluster_ok (store : ClusterStore v.geometry δ) (ready : AllocReady v)
    (hfree : 0 < fatGetFreeClusters v) : ∃ i d, fatAllocCluster v = .ok (i, { v with
        FAT := Function.update v.FAT i 0x0FFFFFFF, disk := d, clusterAllocationHint := i + 1 }) ∧
      v.geometry.HasCluster i ∧ v.FAT i = 0 ∧
      content v.geometry d = Function.update v.clusters i fun _ => 0 := by
  have hhint := ready.hint
  cases hfirst : firstFree v.FAT v.clusterAllocationHint
      (v.geometry.intsPerFat - v.clusterAllocationHint) with
  | some i =>
    obtain ⟨hle, hlt, hi, -⟩ := firstFree_eq_some.mp hfirst
    have hcluster := ready.hasCluster (by omega) hi
    obtain ⟨d, htake, hcontent⟩ := takeCluster_ok store hcluster
    exact ⟨i, d, by simp only [fatAllocCluster, hfirst, htake], hcluster, hi, hcontent⟩
  | none =>
    cases hsecond : firstFree v.FAT 0 v.clusterAllocationHint with
    | some i =>
      obtain ⟨-, hlt, hi, -⟩ := firstFree_eq_some.mp hsecond
      have hcluster := ready.hasCluster (by omega) hi
      obtain ⟨d, htake, hcontent⟩ := takeCluster_ok store hcluster
      exact ⟨i, d, by simp only [fatAllocCluster, hfirst, hsecond, htake], hcluster, hi, hcontent⟩
    | none => exact absurd (free_eq_zero hfirst hsecond) hfree.ne'

omit [Disk δ] in
lemma cells_used (hfull : fatGetFreeClusters v = 0) {c : ℕ} (hc : c < v.geometry.intsPerFat) :
    v.FAT c ≠ 0 := by
  rw [fatGetFreeClusters_eq, Finset.card_eq_zero] at hfull
  exact fun hzero => Finset.notMem_empty c (hfull ▸ mem_freeCells.mpr ⟨hc, hzero⟩)

/-- All that a call of the allocator can do: find no free cell, or take one. -/
theorem fatAllocCluster_eq_ok {c : ℕ} {w : FAT32 δ} (h : fatAllocCluster v = .ok (c, w)) :
    (c = 0 ∧ w = v ∧ fatGetFreeClusters v = 0) ∨ ∃ d, fatClearCluster v.geometry v.disk c = .ok d ∧
      v.FAT c = 0 ∧ (c < v.geometry.intsPerFat ∨ c < v.clusterAllocationHint) ∧ w = { v with
        FAT := Function.update v.FAT c 0x0FFFFFFF, disk := d, clusterAllocationHint := c + 1 } := by
  have htake : ∀ {i}, takeCluster v i = .ok (c, w) → ∃ d, fatClearCluster v.geometry v.disk i = .ok d ∧
      c = i ∧ w = { v with
        FAT := Function.update v.FAT i 0x0FFFFFFF, disk := d, clusterAllocationHint := i + 1 } := by
    intro i hi
    obtain ⟨d, hclear, hd⟩ := bind_eq_ok.mp hi
    obtain ⟨rfl, rfl⟩ := Prod.mk.inj (Except.ok.inj hd)
    exact ⟨d, hclear, rfl, rfl⟩
  rw [fatAllocCluster] at h
  cases hfirst : firstFree v.FAT v.clusterAllocationHint
      (v.geometry.intsPerFat - v.clusterAllocationHint) with
  | some i =>
    rw [hfirst] at h
    obtain ⟨d, hclear, rfl, rfl⟩ := htake h
    obtain ⟨hle, hlt, hzero, -⟩ := firstFree_eq_some.mp hfirst
    exact .inr ⟨d, hclear, hzero, .inl (by omega), rfl⟩
  | none =>
    rw [hfirst] at h
    cases hsecond : firstFree v.FAT 0 v.clusterAllocationHint with
    | some i =>
      rw [hsecond] at h
      obtain ⟨d, hclear, rfl, rfl⟩ := htake h
      obtain ⟨-, hlt, hzero, -⟩ := firstFree_eq_some.mp hsecond
      exact .inr ⟨d, hclear, hzero, .inr (by omega), rfl⟩
    | none =>
      rw [hsecond] at h
      obtain ⟨rfl, rfl⟩ := Prod.mk.inj (Except.ok.inj h)
      exact .inl ⟨rfl, rfl, free_eq_zero hfirst hsecond⟩

/-- Without a free cell the allocator changes nothing and returns 0. -/
theorem fatAllocCluster_full (hhint : v.clusterAllocationHint ≤ v.geometry.intsPerFat)
    (hfull : fatGetFreeClusters v = 0) : fatAllocCluster v = .ok (0, v) := by
  have hfirst : firstFree v.FAT v.clusterAllocationHint
      (v.geometry.intsPerFat - v.clusterAllocationHint) = none :=
    firstFree_eq_none.mpr fun k _ hk => cells_used hfull (by omega)
  have hsecond : firstFree v.FAT 0 v.clusterAllocationHint = none :=
    firstFree_eq_none.mpr fun k _ hk => cells_used hfull (by omega)
  simp only [fatAllocCluster, hfirst, hsecond]

end Allocation

/-- The clusters that a walk with `FatGetNextClusterID` visits from the given one on, whatever the
top four bits of the cells are. -/
structure WalkChain {δ : Type} (v : FAT32 δ) (start : ℕ) (l : List ℕ) : Prop where
  links : Links (fatGetNextClusterID v) (EOC ≤ ·) start l
  cells : ∀ c ∈ l, v.geometry.HasCluster c

namespace WalkChain
variable {δ : Type} {v : FAT32 δ} {start : ℕ} {l : List ℕ}

lemma last {c : ℕ} (hc : v.geometry.HasCluster c) (hstop : EOC ≤ fatGetNextClusterID v c) :
    WalkChain v c [c] :=
  ⟨.last hstop, List.forall_mem_singleton.mpr hc⟩

lemma link {c : ℕ} (hc : v.geometry.HasCluster c) (hgo : ¬ EOC ≤ fatGetNextClusterID v c)
    (tail : WalkChain v (fatGetNextClusterID v c) l) : WalkChain v c (c :: l) :=
  ⟨.link hgo tail.links, List.forall_mem_cons.mpr ⟨hc, tail.cells⟩⟩

lemma head {c : ℕ} (h : WalkChain v c l) : v.geometry.HasCluster c := h.cells c h.links.head_mem

/-- A walk ends with its first cluster, or goes on from the next one. -/
lemma step {c : ℕ} (h : WalkChain v c (c :: l)) : (EOC ≤ fatGetNextClusterID v c ∧ l = []) ∨
    (¬ EOC ≤ fatGetNextClusterID v c ∧ WalkChain v (fatGetNextClusterID v c) l) := by
  rcases h.links.step with ⟨hstop, rfl⟩ | ⟨hgo, links⟩
  · exact .inl ⟨hstop, rfl⟩
  · exact .inr ⟨hgo, links, fun c hc => h.cells c (List.mem_cons_of_mem _ hc)⟩

/-- Induction along a walk. -/
theorem induct {motive : (start : ℕ) → (l : List ℕ) → WalkChain v start l → Prop}
    (last : ∀ c (hc : v.geometry.HasCluster c) (hstop : EOC ≤ fatGetNextClusterID v c),
      motive c [c] (.last hc hstop))
    (link : ∀ c l (hc : v.geometry.HasCluster c) (hgo : ¬ EOC ≤ fatGetNextClusterID v c)
      (tail : WalkChain v (fatGetNextClusterID v c) l) (_ : motive (fatGetNextClusterID v c) l tail),
      motive c (c :: l) (.link hc hgo tail))
    (h : WalkChain v start l) : motive start l h :=
  Links.induct (motive := fun start l => ∀ h : WalkChain v start l, motive start l h)
    (fun c hc hstop _ => last c hc hstop)
    (fun c l hc hgo tail cells ih _ => link c l hc hgo ⟨tail, cells⟩ (ih ⟨tail, cells⟩))
    h.links h.cells h

/-- The cells of a walk are in use. -/
lemma cell_ne_zero (h : WalkChain v start l) {c : ℕ} (hc : c ∈ l) : v.FAT c ≠ 0 := by
  induction h using induct with
  | last d _ hstop =>
    obtain rfl := List.mem_singleton.mp hc
    intro hzero
    rw [fatGetNextClusterID, hzero] at hstop
    exact absurd hstop (by decide)
  | link d t _ hgo tail ih =>
    rcases List.mem_cons.mp hc with rfl | hc
    · intro hzero
      have hnext := tail.head.1
      rw [fatGetNextClusterID, hzero] at hnext
      omega
    · exact ih hc

end WalkChain

/-- A walk with `FatGetNextClusterID` follows the chain of the table. -/
lemma IsChain.walk {δ : Type} {v : FAT32 δ} (hg : v.geometry.Addressable) {start : ℕ} {l : List ℕ}
    (h : IsChain v.geometry v.FAT start l) : WalkChain v start l := by
  induction h using IsChain.induct with
  | last c hc hstop => exact .last hc hstop
  | link c l hc hgo tail ih =>
    have hlt := hg.lt_EOC (tail.cells _ tail.links.head_mem)
    have hnext : fatGetNextClusterID v c = v.FAT c := by
      unfold EOC at hlt
      exact Nat.mod_eq_of_lt (by omega)
    refine .link hc (by rw [hnext]; omega) ?_
    rw [hnext]
    exact ih

section Freeing

/-- Following a chain sets its cells to 0 and no others. -/
theorem zeroChain_ok {g : Geometry} (hg : g.Addressable) {FAT : ℕ → ℕ} {start : ℕ} {l : List ℕ}
    (h : IsChain g FAT start l) {fuel : ℕ} (hfuel : l.length < fuel) :
    zeroChain fuel FAT start = .ok fun c => if c ∈ l then 0 else FAT c := by
  induction l generalizing FAT start fuel with
  | nil => exact absurd rfl h.links.ne_nil
  | cons c t ih =>
    obtain ⟨links, cells⟩ := h
    obtain ⟨fuel, rfl⟩ : ∃ n, fuel = n+1 := ⟨fuel-1, by simp at hfuel; omega⟩
    obtain ⟨t', ht'⟩ := links.eq_cons
    obtain ⟨rfl, rfl⟩ := List.cons.inj ht'
    have hc := cells c (by simp)
    have hnodup := links.nodup
    rw [zeroChain, if_pos ⟨hg.lt_EOC hc, hc.ne_zero⟩]
    cases links with
    | last hstop =>
      obtain ⟨fuel, rfl⟩ : ∃ n, fuel = n+1 := ⟨fuel-1, by simp at hfuel; omega⟩
      have hend := EndMark.le hstop
      rw [zeroChain, if_neg (by omega)]
      congr 1
      funext k
      simp [Function.update_apply]
    | link hgo tail =>
      have hct : c ∉ t := (List.nodup_cons.mp hnodup).1
      have hrest : IsChain g (Function.update FAT c 0) (FAT c) t :=
        ⟨tail.update_of_notMem hct 0, fun x hx => cells x (List.mem_cons_of_mem _ hx)⟩
      rw [ih hrest (by simpa using hfuel)]
      congr 1
      funext k
      by_cases hkt : k ∈ t
      · simp [hkt]
      · by_cases hkc : k = c
        · simp [hkc]
        · simp [hkt, hkc]

end Freeing

end Open98.Fat32
