import Open98.Fat32.ChainWalks

/-! Which of the walks come to an end on a volume with any table and any directory clusters. No walk
but the one that frees a chain has a guard against chains that run into themselves. -/
namespace Open98.Fat32
open Open98.Library Open98.Ata

section Model
variable {δ : Type}

/-- The loop of `FatPrintDirectory` that counts the clusters of an entry. It complains about a free cell
and follows it. -/
def countClusters (FAT : ℕ → ℕ) : ℕ → (cluster clusterCount : ℕ) → Result ℕ
  | 0, _, _ => .error .hang
  | fuel+1, cluster, clusterCount =>
    let cluster := FAT cluster
    if EOC ≤ cluster then .ok clusterCount
    else countClusters FAT fuel cluster (if cluster = 0 then clusterCount else (clusterCount + 1) % 2^32)

/-- What is printed about an entry. -/
structure PrintedEntry where
  name : Buffer
  isDirectory : Bool
  fileSize : ℕ
  clusterCount : ℕ

def printEntries (fuel : ℕ) (v : FAT32 δ) : List DirectoryEntry → Result (List PrintedEntry)
  | [] => .ok []
  | e :: rest => do
    let clusterCount ← countClusters v.FAT fuel e.firstCluster 1
    let printed ← printEntries fuel v rest
    return ⟨e.name, e.dirAttrs &&& DIRECTORY ≠ 0, e.fileSize, clusterCount⟩ :: printed

def fatPrintDirectory (fuel : ℕ) (v : FAT32 δ) (dir : Directory) : Result (List PrintedEntry) :=
  printEntries fuel v dir.entries

end Model

/-- The call comes to an end, if only in a null pointer. -/
def Terminates {α : Type} (call : ℕ → Result α) : Prop := ∃ fuel, call fuel ≠ .error .hang

/-- The walk of the readers from the cluster comes to an end mark. -/
def ReadEnds {δ : Type} (v : FAT32 δ) (c : ℕ) : Prop := Ends (fatGetNextClusterID v) (fun value => EOC ≤ value) c

/-- The walk that does not mask the cells comes to an end mark. -/
def RawEnds {δ : Type} (v : FAT32 δ) (c : ℕ) : Prop := Ends v.FAT (fun value => EOC ≤ value) c

section Drive

/-- The driver returns from every read. -/
lemma fatGetCluster_returns (g : Geometry) (d : Drive) (buff : Buffer) (c : ℕ) :
    ∃ b, fatGetCluster g d buff c = .ok b := by
  have hcount : Disk.kiATAReadDiskEx d (fatAcquireSectorForCluster g c) g.sectorsPerCluster buff =
      Disk.kiATAReadDiskEx d (fatAcquireSectorForCluster g c) (g.sectorsPerCluster % 2^8) buff := by
    simp only [Disk.kiATAReadDiskEx, kiATAReadDiskEx, Nat.mod_mod]
  rw [fatGetCluster, fatGetSector, hcount, kiATAReadDiskEx_mod]
  exact ⟨_, kiATAReadDiskEx_ok d (Nat.mod_lt _ (by decide)) (Nat.mod_lt _ (by decide)) buff⟩

variable (v : FAT32 Drive)

lemma fatGetSlots_returns (c : ℕ) : ∃ slots, fatGetSlots v c = .ok slots := by
  obtain ⟨b, hb⟩ := fatGetCluster_returns v.geometry v.disk v.junk c
  exact ⟨_, bind_eq_ok.mpr ⟨b, hb, rfl⟩⟩

end Drive

section Reading
variable {v : FAT32 Drive} {fileSize c : ℕ}

/-- One turn of the read loop. -/
lemma readClusters_turn (v : FAT32 Drive) (fileSize c fuel : ℕ) (file : Buffer) (cur copied : ℕ) : ∃ file' copied',
    readClusters v fileSize (fuel+1) c file cur copied =
      if EOC ≤ fatGetNextClusterID v c then .ok file'
      else readClusters v fileSize fuel (fatGetNextClusterID v c) file' (cur + v.geometry.clusterSize) copied' := by
  obtain ⟨b, hb⟩ := fatGetCluster_returns v.geometry v.disk v.junk c
  rw [readClusters, hb, ok_bind]
  exact ⟨_, _, rfl⟩

lemma readClusters_ends (fileSize : ℕ) {l : List ℕ} (h : Links (fatGetNextClusterID v) (fun value => EOC ≤ value) c l)
    (file : Buffer) (cur copied : ℕ) : ∃ b, readClusters v fileSize l.length c file cur copied = .ok b := by
  induction h generalizing file cur copied with
  | last hstop =>
    obtain ⟨file', copied', hturn⟩ := readClusters_turn v fileSize _ 0 file cur copied
    exact ⟨file', hturn.trans (if_pos hstop)⟩
  | @link c l hgo tail ih =>
    obtain ⟨file', copied', hturn⟩ := readClusters_turn v fileSize c l.length file cur copied
    obtain ⟨b, hb⟩ := ih file' (cur + v.geometry.clusterSize) copied'
    exact ⟨b, hturn.trans ((if_neg hgo).trans hb)⟩

lemma readEnds_of_readClusters {fuel : ℕ} {file : Buffer} {cur copied : ℕ}
    (h : readClusters v fileSize fuel c file cur copied ≠ .error .hang) : ReadEnds v c := by
  induction fuel generalizing c file cur copied with
  | zero => exact absurd rfl h
  | succ fuel ih =>
    obtain ⟨file', copied', hturn⟩ := readClusters_turn v fileSize c fuel file cur copied
    rw [hturn] at h
    apply ends_iff.mpr
    by_cases hstop : EOC ≤ fatGetNextClusterID v c
    · exact .inl hstop
    · rw [if_neg hstop] at h
      exact .inr (ih h)

/-- `FatReadFile` ends exactly when the walk from the first cluster does. -/
lemma fatReadFile_terminates_iff (v : FAT32 Drive) (dirent : DirectoryEntry) :
    Terminates (fun fuel => fatReadFile fuel v dirent) ↔ ReadEnds v dirent.firstCluster := by
  constructor
  · rintro ⟨fuel, h⟩
    exact readEnds_of_readClusters h
  · rintro ⟨l, hl⟩
    obtain ⟨b, hb⟩ := readClusters_ends dirent.fileSize hl v.junk 0 0
    refine ⟨l.length, fun hhang => ?_⟩
    change readClusters v dirent.fileSize l.length dirent.firstCluster v.junk 0 0 = _ at hhang
    rw [hb] at hhang
    cases hhang

end Reading

section Printing
variable {FAT : ℕ → ℕ} {c : ℕ}

lemma countClusters_ends {l : List ℕ} (h : Links FAT (fun value => EOC ≤ value) c l) {fuel : ℕ}
    (hfuel : l.length ≤ fuel) (n : ℕ) : ∃ m, countClusters FAT fuel c n = .ok m := by
  induction h generalizing fuel n with
  | last hstop =>
    obtain ⟨fuel, rfl⟩ := Nat.exists_eq_add_one.mpr hfuel
    exact ⟨n, if_pos hstop⟩
  | @link c l hgo tail ih =>
    obtain ⟨fuel, rfl⟩ := Nat.exists_eq_add_one.mpr (Nat.zero_lt_of_lt hfuel)
    obtain ⟨m, hm⟩ := ih (Nat.le_of_succ_le_succ hfuel) (if FAT c = 0 then n else (n + 1) % 2^32)
    exact ⟨m, (if_neg hgo).trans hm⟩

lemma ends_of_countClusters {fuel n m : ℕ} (h : countClusters FAT fuel c n = .ok m) :
    Ends FAT (fun value => EOC ≤ value) c := by
  induction fuel generalizing c n with
  | zero => cases h
  | succ fuel ih =>
    apply ends_iff.mpr
    by_cases hstop : EOC ≤ FAT c
    · exact .inl hstop
    · rw [countClusters] at h
      rw [if_neg hstop] at h
      exact .inr (ih h)

lemma countClusters_cases (FAT : ℕ → ℕ) (fuel c n : ℕ) :
    (∃ m, countClusters FAT fuel c n = .ok m) ∨ countClusters FAT fuel c n = .error .hang := by
  induction fuel generalizing c n with
  | zero => exact .inr rfl
  | succ fuel ih =>
    rw [countClusters]
    by_cases hstop : EOC ≤ FAT c
    · exact .inl ⟨n, if_pos hstop⟩
    · rw [if_neg hstop]
      exact ih _ _

variable {v : FAT32 Drive}

lemma printEntries_returns {es : List DirectoryEntry} (h : ∀ e ∈ es, RawEnds v e.firstCluster) :
    ∃ N, ∀ fuel, N ≤ fuel → ∃ printed, printEntries fuel v es = .ok printed := by
  induction es with
  | nil => exact ⟨0, fun _ _ => ⟨[], rfl⟩⟩
  | cons e rest ih =>
    obtain ⟨l, hl⟩ := h e List.mem_cons_self
    obtain ⟨N, hrest⟩ := ih fun x hx => h x (List.mem_cons_of_mem e hx)
    refine ⟨max l.length N, fun fuel hfuel => ?_⟩
    obtain ⟨m, hm⟩ := countClusters_ends hl (le_of_max_le_left hfuel) 1
    obtain ⟨printed, hprinted⟩ := hrest fuel (le_of_max_le_right hfuel)
    exact ⟨_, bind_eq_ok.mpr ⟨m, hm, bind_eq_ok.mpr ⟨printed, hprinted, rfl⟩⟩⟩

lemma rawEnds_of_printEntries {fuel : ℕ} {es : List DirectoryEntry}
    (h : printEntries fuel v es ≠ .error .hang) : ∀ e ∈ es, RawEnds v e.firstCluster := by
  induction es with
  | nil => simp
  | cons e rest ih =>
    rw [printEntries] at h
    rcases countClusters_cases v.FAT fuel e.firstCluster 1 with ⟨m, hm⟩ | hhang
    · have hrest : printEntries fuel v rest ≠ .error .hang := by
        intro hhang
        rw [hm, ok_bind, hhang] at h
        exact h rfl
      exact List.forall_mem_cons.mpr ⟨ends_of_countClusters hm, ih hrest⟩
    · rw [hhang] at h
      exact absurd rfl h

/-- `FatPrintDirectory` ends exactly when the chains of all entries do. -/
lemma fatPrintDirectory_terminates_iff (v : FAT32 Drive) (dir : Directory) :
    Terminates (fun fuel => fatPrintDirectory fuel v dir) ↔ ∀ e ∈ dir.entries, RawEnds v e.firstCluster := by
  constructor
  · rintro ⟨fuel, h⟩
    exact rawEnds_of_printEntries h
  · intro h
    obtain ⟨N, hreturns⟩ := printEntries_returns h
    obtain ⟨printed, hprinted⟩ := hreturns N le_rfl
    refine ⟨N, fun hhang => ?_⟩
    change printEntries N v dir.entries = _ at hhang
    rw [hprinted] at hhang
    cases hhang

end Printing

section Search
variable {v : FAT32 Drive} {count c : ℕ}

/-- One turn of the search. -/
lemma fatLocateEntries_turn (v : FAT32 Drive) (count c : ℕ) : ∃ slots, fatGetSlots v c = .ok slots ∧
    ∀ fuel, fatLocateEntries count (fuel+1) v c = match findRun count slots 0 0 with
      | some index => .ok (some (c, slots, index), v)
      | none =>
        if EOC ≤ v.FAT c then do
          let (nextCluster, w) ← fatAllocCluster v
          if nextCluster = 0 then .ok (none, w)
          else fatLocateEntries count fuel { w with FAT := Function.update w.FAT c nextCluster } nextCluster
        else fatLocateEntries count fuel v (v.FAT c) := by
  obtain ⟨slots, hslots⟩ := fatGetSlots_returns v c
  refine ⟨slots, hslots, fun fuel => ?_⟩
  rw [fatLocateEntries, hslots]
  rfl

/-- The search extends the directory no more often than clusters are free. -/
lemma fatLocateEntries_extending (count : ℕ) {N n : ℕ} (hN : v.geometry.intsPerFat ≤ N) (hhint : v.clusterAllocationHint ≤ N)
    (hn : (freeCells v.FAT N).card < n) (hend : EOC ≤ v.FAT c) :
    ∃ r, fatLocateEntries count n v c = .ok r := by
  induction n generalizing v c with
  | zero => exact absurd hn (Nat.not_lt_zero _)
  | succ n ih =>
    obtain ⟨slots, -, hturn⟩ := fatLocateEntries_turn v count c
    rw [hturn]
    cases hfind : findRun count slots 0 0 with
    | some index => exact ⟨_, rfl⟩
    | none =>
      obtain ⟨⟨x, u⟩, halloc⟩ := drive_writable.fatAllocCluster v
      dsimp only
      rw [if_pos hend, halloc, ok_bind]
      dsimp only
      rcases fatAllocCluster_eq_ok halloc with ⟨rfl, -, -⟩ | ⟨d, -, hfree, hx, rfl⟩
      · exact ⟨_, if_pos rfl⟩
      · have hused : v.FAT c ≠ 0 := by
          unfold EOC at hend
          omega
        have hxc : x ≠ c := fun h => hused (h ▸ hfree)
        by_cases hx0 : x = 0
        · exact ⟨_, if_pos hx0⟩
        · rw [if_neg hx0]
          have hcard : (freeCells (Function.update v.FAT x 0x0FFFFFFF) N).card + 1 = (freeCells v.FAT N).card :=
            card_freeCells_take (by decide) (by omega) hfree
          have hused' : Function.update v.FAT x 0x0FFFFFFF c ≠ 0 := update_ne_zero hused x
          refine ih hN (show x + 1 ≤ N by omega) ?_ ?_
          · dsimp only
            rw [freeCells_relink hx0 hused']
            omega
          · dsimp only
            rw [Function.update_of_ne hxc, Function.update_self]
            decide

/-- The cluster has so many free slots in a row. -/
def HasRun (v : FAT32 Drive) (count c : ℕ) : Prop :=
  ∃ slots, fatGetSlots v c = .ok slots ∧ findRun count slots 0 0 ≠ none

/-- A search that returns from the next cluster returns. -/
lemma fatLocateEntries_link (hgo : ¬ EOC ≤ v.FAT c) (h : ∃ fuel r, fatLocateEntries count fuel v (v.FAT c) = .ok r) :
    ∃ fuel r, fatLocateEntries count fuel v c = .ok r := by
  obtain ⟨fuel, r, hr⟩ := h
  obtain ⟨slots, -, hturn⟩ := fatLocateEntries_turn v count c
  cases hfind : findRun count slots 0 0 with
  | some index => exact ⟨1, _, by rw [hturn, hfind]⟩
  | none => exact ⟨fuel + 1, r, by simp only [hturn, hfind, if_neg hgo, hr]⟩

lemma fatLocateEntries_ends {l : List ℕ} (h : Links v.FAT (fun value => EOC ≤ value) c l) :
    ∃ fuel r, fatLocateEntries count fuel v c = .ok r := by
  induction h with
  | last hstop =>
    obtain ⟨r, hr⟩ := fatLocateEntries_extending count (le_max_left _ v.clusterAllocationHint)
      (le_max_right v.geometry.intsPerFat _) (Nat.lt_succ_self _) hstop
    exact ⟨_, r, hr⟩
  | link hgo tail ih => exact fatLocateEntries_link hgo ih

lemma fatLocateEntries_finds {x : ℕ} (hcomes : ComesTo v.FAT (fun value => EOC ≤ value) c x)
    (hrun : HasRun v count x) : ∃ fuel r, fatLocateEntries count fuel v c = .ok r := by
  refine hcomes.induct (motive := fun c => ∃ fuel r, fatLocateEntries count fuel v c = .ok r) ?_ ?_
  · obtain ⟨slots, hslots, hturn⟩ := fatLocateEntries_turn v count x
    obtain ⟨slots', hslots', hfound⟩ := hrun
    obtain rfl := Except.ok.inj (hslots.symm.trans hslots')
    obtain ⟨index, hfind⟩ := Option.ne_none_iff_exists'.mp hfound
    exact ⟨1, _, by rw [hturn, hfind]⟩
  · intro c hgo ih
    exact fatLocateEntries_link hgo ih

lemma ends_of_fatLocateEntries {fuel : ℕ} (h : fatLocateEntries count fuel v c ≠ .error .hang) :
    RawEnds v c ∨ ∃ x, ComesTo v.FAT (fun value => EOC ≤ value) c x ∧ HasRun v count x := by
  induction fuel generalizing c with
  | zero => exact absurd rfl h
  | succ fuel ih =>
    obtain ⟨slots, hslots, hturn⟩ := fatLocateEntries_turn v count c
    rw [hturn] at h
    cases hfind : findRun count slots 0 0 with
    | some index =>
      have hfound : findRun count slots 0 0 ≠ none := by
        rw [hfind]
        exact Option.some_ne_none index
      exact .inr ⟨c, .start, slots, hslots, hfound⟩
    | none =>
      by_cases hend : EOC ≤ v.FAT c
      · exact .inl ⟨[c], .last hend⟩
      · simp only [hfind, if_neg hend] at h
        cases ih h with
        | inl hends => exact .inl (ends_iff.mpr (.inr hends))
        | inr hcomes =>
          obtain ⟨x, hx, hrun⟩ := hcomes
          exact .inr ⟨x, .link hend hx, hrun⟩

/-- `FatLocateEntries` ends exactly when the directory does, or when it comes to a cluster with room. -/
lemma fatLocateEntries_terminates_iff (v : FAT32 Drive) (count c : ℕ) :
    Terminates (fun fuel => fatLocateEntries count fuel v c) ↔
      RawEnds v c ∨ ∃ x, ComesTo v.FAT (fun value => EOC ≤ value) c x ∧ HasRun v count x := by
  have hreturns : (∃ fuel r, fatLocateEntries count fuel v c = .ok r) →
      Terminates fun fuel => fatLocateEntries count fuel v c := by
    rintro ⟨fuel, r, hr⟩
    exact ⟨fuel, by simp [hr]⟩
  constructor
  · rintro ⟨fuel, h⟩
    exact ends_of_fatLocateEntries h
  · rintro (⟨l, hl⟩ | ⟨x, hx, hrun⟩)
    · exact hreturns (fatLocateEntries_ends hl)
    · exact hreturns (fatLocateEntries_finds hx hrun)

end Search
end Open98.Fat32
