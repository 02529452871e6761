import Open98.Fat32.OutOfSpace
import Open98.Library.ErasingWalk

/-! The walks through the table: the one that frees a chain, which erases as it goes and so ends on
every table, and those that only look. -/
namespace Open98.Fat32
open Open98.Library Open98.Ata

/-- The values that `FatZeroFatChain` follows. -/
def IsLink (value : ℕ) : Prop := value < EOC ∧ value ≠ 0

instance (value : ℕ) : Decidable (IsLink value) := inferInstanceAs (Decidable (_ ∧ _))

/-- The clusters that `FatZeroFatChain` frees in the given number of turns, in order. -/
def freed (FAT : ℕ → ℕ) (n start : ℕ) : List ℕ := erased IsLink 0 n FAT start

lemma not_isLink_zero : ¬ IsLink 0 := fun h => h.2 rfl

section Freeing
variable {FAT : ℕ → ℕ} {n start : ℕ}

/-- The loop ends when it has freed all it comes to. -/
lemma zeroChain_freed (h : (freed FAT n start).length < n) :
    zeroChain n FAT start = .ok fun c => if c ∈ freed FAT n start then 0 else FAT c := by
  unfold freed at h ⊢
  induction n generalizing FAT start with
  | zero => exact absurd h (Nat.not_lt_zero _)
  | succ n ih =>
    rw [erased] at h ⊢
    by_cases hgo : IsLink start
    · rw [if_pos hgo] at h ⊢
      rw [List.length_cons] at h
      have hlink : start < EOC ∧ start ≠ 0 := hgo
      rw [zeroChain, if_pos hlink, ih (Nat.lt_of_succ_lt_succ h)]
      congr 1
      funext c
      by_cases hc : c = start
      · simp [hc]
      · simp [hc]
    · have hends : ¬ (start < EOC ∧ start ≠ 0) := hgo
      rw [if_neg hgo, zeroChain, if_neg hends]
      simp

/-- Where the values below the end marks are numbers of cells, no chain leaves the table. -/
lemma reached_lt {N c : ℕ} (hvalues : ∀ c < N, FAT c < EOC → FAT c < N)
    (hstart : start = 0 ∨ EOC ≤ start ∨ start < N) (h : Reached FAT IsLink start c) : c < N := by
  induction h with
  | start hgo =>
    obtain ⟨hlt, hne⟩ := hgo
    omega
  | next _ hgo ih => exact hvalues _ ih hgo.1

lemma length_freed_le {N : ℕ} (hvalues : ∀ c < N, FAT c < EOC → FAT c < N)
    (hstart : start = 0 ∨ EOC ≤ start ∨ start < N) : (freed FAT n start).length ≤ N + 1 := by
  have hcells : ∀ c, Reached FAT IsLink start c → c ∈ Finset.range N :=
    fun c hc => Finset.mem_range.mpr (reached_lt hvalues hstart hc)
  have hlen : (freed FAT n start).length ≤ _ := length_erased_le not_isLink_zero (Finset.range N) hcells
  have hcard := Finset.card_filter_le (Finset.range N) fun c => FAT c ≠ 0
  rw [Finset.card_range] at hcard
  exact hlen.trans (Nat.succ_le_succ hcard)

/-- Whatever the table holds, no more cells are freed than there are numbers below the end marks. -/
lemma length_freed_lt (FAT : ℕ → ℕ) (n start : ℕ) : (freed FAT n start).length < EOC + 2 := by
  have hcells : ∀ c, Reached FAT IsLink start c → c ∈ Finset.range EOC :=
    fun c hc => Finset.mem_range.mpr (go_of_reached hc).1
  have hle : (freed FAT n start).length ≤ _ := length_erased_le not_isLink_zero (Finset.range EOC) hcells
  have hcard := Finset.card_filter_le (Finset.range EOC) fun c => FAT c ≠ 0
  rw [Finset.card_range] at hcard
  exact Nat.lt_succ_of_le (hle.trans (Nat.succ_le_succ hcard))

end Freeing

lemma drive_writable : Writable Drive := by
  intro d buff lba hlba
  obtain ⟨d', hwrite, -⟩ := drive_writesSectors d buff lba hlba
  exact ⟨d', hwrite⟩

/-- Freeing a chain returns on every table. -/
lemma fatZeroFatChain_returns (v : FAT32 Drive) (start : ℕ) {fuel : ℕ} (hfuel : EOC + 2 ≤ fuel) :
    ∃ w, fatZeroFatChain fuel v start = .ok w := by
  have hzero := zeroChain_freed ((length_freed_lt v.FAT fuel start).trans_le hfuel)
  obtain ⟨d, hflush⟩ := drive_writable.fatPutSector v.disk
    (fatBytes fun c => if c ∈ freed v.FAT fuel start then 0 else v.FAT c) v.geometry.fatSector
    v.geometry.sectorsPerFat32
  exact ⟨_, bind_eq_ok.mpr ⟨_, hzero, bind_eq_ok.mpr ⟨d, hflush, rfl⟩⟩⟩

/-- On every table whose values below the end marks are numbers of cells, `FatZeroFatChain` returns. It
sets to 0 the cells that following the stored values comes to, all of them in the table, and no others. -/
theorem fatZeroFatChain_exact (v : FAT32 Drive) (start : ℕ)
    (hvalues : ∀ c < v.geometry.intsPerFat, v.FAT c < EOC → v.FAT c < v.geometry.intsPerFat)
    (hstart : start = 0 ∨ EOC ≤ start ∨ start < v.geometry.intsPerFat) :
    ∃ w, (∀ fuel, v.geometry.intsPerFat + 2 ≤ fuel → fatZeroFatChain fuel v start = .ok w) ∧
      ∀ c, (Reached v.FAT IsLink start c → c < v.geometry.intsPerFat ∧ w.FAT c = 0) ∧
        (¬ Reached v.FAT IsLink start c → w.FAT c = v.FAT c) := by
  have hreached : ∀ fuel, v.geometry.intsPerFat + 2 ≤ fuel → ∀ c,
      c ∈ freed v.FAT fuel start ↔ Reached v.FAT IsLink start c := by
    intro fuel hfuel c
    exact mem_erased_iff not_isLink_zero (lt_of_le_of_lt (length_freed_le hvalues hstart) hfuel)
  classical
  obtain ⟨d, hflush⟩ := drive_writable.fatPutSector v.disk
    (fatBytes fun c => if Reached v.FAT IsLink start c then 0 else v.FAT c) v.geometry.fatSector
    v.geometry.sectorsPerFat32
  refine ⟨{ v with FAT := fun c => if Reached v.FAT IsLink start c then 0 else v.FAT c, disk := d }, ?_, ?_⟩
  · intro fuel hfuel
    have hzero := zeroChain_freed (lt_of_le_of_lt (length_freed_le (n := fuel) hvalues hstart) hfuel)
    simp only [hreached fuel hfuel] at hzero
    rw [fatZeroFatChain, hzero, ok_bind]
    change (fatPutSector _ _ _ _ >>= _) = _
    rw [hflush]
    rfl
  · intro c
    exact ⟨fun h => ⟨reached_lt hvalues hstart h, if_pos h⟩, fun h => if_neg h⟩

/-- A volume on which the chain from cluster 2 runs into itself: 3 comes behind 4. -/
def runningBack : FAT32 Drive :=
  ⟨small, fun c => if c < 2 then EOC else if c = 3 then 4 else if c ≤ 4 then 3 else 0, 2, blank, fun _ => 0⟩

/-- All three clusters are freed. -/
theorem fatZeroFatChain_exact_back : ∃ w, fatZeroFatChain 130 runningBack 2 = .ok w ∧
    w.FAT 2 = 0 ∧ w.FAT 3 = 0 ∧ w.FAT 4 = 0 ∧ w.FAT 1 = EOC := by
  obtain ⟨w, hrun, hcells⟩ := fatZeroFatChain_exact runningBack 2 (by decide +kernel) (by decide +kernel)
  have h2 : Reached runningBack.FAT IsLink 2 2 := .start (by decide)
  have h3 : Reached runningBack.FAT IsLink 2 3 := .next h2 (by decide)
  have h4 : Reached runningBack.FAT IsLink 2 4 := .next h3 (by decide)
  have h1 : ¬ Reached runningBack.FAT IsLink 2 1 := by
    intro h
    have hcell : ∀ c, Reached runningBack.FAT IsLink 2 c → 2 ≤ c := by
      intro c hc
      induction hc with
      | start _ => exact le_rfl
      | @next c _ hgo ih =>
        have hvalue : IsLink (runningBack.FAT c) := hgo
        simp only [runningBack] at hvalue ⊢
        split_ifs at hvalue ⊢
        all_goals first | omega | exact absurd hvalue (by decide)
    exact absurd (hcell 1 h) (by decide)
  exact ⟨w, hrun 130 (by decide), ((hcells 2).1 h2).2, ((hcells 3).1 h3).2, ((hcells 4).1 h4).2, (hcells 1).2 h1⟩

section Walks
variable {δ : Type}

/-- The clusters that `FatReadFile` and `FatPopulateDir` go through in the given number of turns. -/
def readWalk (v : FAT32 δ) (n start : ℕ) : List ℕ :=
  walked (fatGetNextClusterID v) (fun value => EOC ≤ value) n start

/-- The clusters that `FatLocateEntries` goes through in the given number of turns before it decides that
the directory has ended. -/
def locateWalk (v : FAT32 δ) (n start : ℕ) : List ℕ := walked v.FAT (fun value => EOC ≤ value) n start

/-- All walks from the cluster go the same way, and the search for slots does not overwrite a link on it. -/
structure WalksAgree [Disk δ] (v : FAT32 δ) (start : ℕ) : Prop where
  freed : ∀ n, freed v.FAT n start = readWalk v n start
  located : ∀ n, locateWalk v n start = readWalk v n start
  kept : ∀ count fuel r w, fatLocateEntries count fuel v start = .ok (r, w) →
    ∀ n, ∀ c ∈ readWalk v n start, fatGetNextClusterID v c < EOC → w.FAT c = v.FAT c

variable {v w : FAT32 δ} {start : ℕ} {l : List ℕ}

/-- A chain that both kinds of walks see ends with a cell that is an end mark for both. -/
lemma links_endMark (h : Links v.FAT (fun value => EOC ≤ value) start l)
    (hread : Links (fatGetNextClusterID v) (fun value => EOC ≤ value) start l) :
    Links v.FAT EndMark start l := by
  induction h with
  | last hstop =>
    rcases hread.step with ⟨hstop', -⟩ | ⟨-, htail⟩
    · exact .last hstop'
    · exact absurd rfl htail.ne_nil
  | @link c l hgo tail ih =>
    have hnext : fatGetNextClusterID v c = v.FAT c := by
      unfold EOC at hgo
      exact Nat.mod_eq_of_lt (by omega)
    rcases hread.step with ⟨-, rfl⟩ | ⟨hgo', htail⟩
    · exact absurd rfl tail.ne_nil
    · rw [hnext] at htail
      exact .link hgo' (ih htail)

/-- A chain of cells below the end marks is what both kinds of walks see. -/
lemma links_walks (h : Links v.FAT EndMark start l) (hcells : ∀ c ∈ l, IsLink c) :
    Links v.FAT (fun value => EOC ≤ value) start l ∧
      Links (fatGetNextClusterID v) (fun value => EOC ≤ value) start l := by
  induction h with
  | last hstop => exact ⟨.last hstop.le, .last hstop⟩
  | @link c l hgo tail ih =>
    obtain ⟨hraw, hread⟩ := ih fun x hx => hcells x (List.mem_cons_of_mem c hx)
    have hlt : v.FAT c < EOC := (hcells _ (List.mem_cons_of_mem c tail.head_mem)).1
    have hnext : fatGetNextClusterID v c = v.FAT c := by
      unfold EOC at hlt
      exact Nat.mod_eq_of_lt (by omega)
    refine ⟨.link (Nat.not_le.mpr hlt) hraw, .link (by rwa [hnext, Nat.not_le]) ?_⟩
    rw [hnext]
    exact hread

/-- Where all walks go the same way, they follow a chain to its end. -/
lemma WalksAgree.chain [Disk δ] (h : WalksAgree v start) :
    ∃ l, Links v.FAT EndMark start l ∧ ∀ c ∈ l, IsLink c := by
  have hlen := length_freed_lt v.FAT (EOC + 2) start
  have hread : (readWalk v (EOC + 2) start).length < EOC + 2 := h.freed _ ▸ hlen
  have hlocate : (locateWalk v (EOC + 2) start).length < EOC + 2 := h.located _ ▸ hread
  have hraw := links_walked hlocate
  have hmasked := links_walked hread
  refine ⟨readWalk v (EOC + 2) start, links_endMark ?_ hmasked, ?_⟩
  · exact h.located (EOC + 2) ▸ hraw
  · intro c hc
    rw [← h.freed] at hc
    exact go_of_mem_erased hc

/-- The search for slots overwrites cells that are free or hold no link. -/
lemma fatLocateEntries_kept [Disk δ] {count fuel d c : ℕ} {r : Option (ℕ × List Slot × ℕ)}
    (h : fatLocateEntries count fuel v d = .ok (r, w)) (hc : IsLink (v.FAT c)) : w.FAT c = v.FAT c := by
  induction fuel generalizing v d with
  | zero => cases h
  | succ fuel ih =>
    obtain ⟨clusterBuffer, -, hsearch⟩ := bind_eq_ok.mp h
    cases hfind : findRun count clusterBuffer 0 0 with
    | some index =>
      rw [hfind] at hsearch
      obtain ⟨-, rfl⟩ := Prod.mk.inj (Except.ok.inj hsearch)
      rfl
    | none =>
      rw [hfind] at hsearch
      dsimp only at hsearch
      by_cases hend : EOC ≤ v.FAT d
      · rw [if_pos hend] at hsearch
        obtain ⟨⟨x, u⟩, halloc, hrest⟩ := bind_eq_ok.mp hsearch
        have hkept : u.FAT c = v.FAT c := by
          rcases fatAllocCluster_eq_ok halloc with ⟨-, rfl, -⟩ | ⟨disk, -, hfree, -, rfl⟩
          · rfl
          · have hcx : c ≠ x := fun hcx => hc.2 (hcx ▸ hfree)
            exact Function.update_of_ne hcx _ _
        dsimp only at hrest
        by_cases hx : x = 0
        · rw [if_pos hx] at hrest
          obtain ⟨-, rfl⟩ := Prod.mk.inj (Except.ok.inj hrest)
          exact hkept
        · rw [if_neg hx] at hrest
          have hcd : c ≠ d := fun hcd => Nat.not_le.mpr hc.1 (hcd ▸ hend)
          have hlink : Function.update u.FAT d x c = v.FAT c := (Function.update_of_ne hcd _ _).trans hkept
          have hkept' : IsLink (Function.update u.FAT d x c) := by rwa [hlink]
          exact (ih hrest hkept').trans hlink
      · rw [if_neg hend] at hsearch
        exact ih hsearch hc

/-- Behind a cell that is no end mark the chain goes on. -/
lemma next_mem {c : ℕ} (h : Links v.FAT EndMark start l) (hc : c ∈ l) (hgo : ¬ EndMark (v.FAT c)) :
    v.FAT c ∈ l := by
  obtain ⟨a, b, rfl, hb⟩ := h.suffix hc
  cases hb with
  | last hstop => exact absurd hstop hgo
  | link _ tail => exact List.mem_append_right a (List.mem_cons_of_mem c tail.head_mem)

/-- A volume with a directory of two clusters, written by a system that uses a reserved bit of the link
between them. -/
def reservedBit : FAT32 Drive :=
  ⟨small, fun c => if c = 2 then 0x10000003 else if c < 4 then EOC else 0, 4, blank, fun _ => 0⟩

end Walks

end Open98.Fat32
