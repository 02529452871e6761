import Open98.Fat32.Boundary
import Open98.Fat32.File
import Open98.Fat32.Remount
import Open98.Lib.Utill

/-! `FileEntryForPath` of `drv/filesystem/fat32/file.c`: from a path to a directory entry. -/
namespace Open98.Fat32
open Open98.Library Open98.Lib

/-- The value that is returned, the entry that `*entry` is set to, the clusters that are listed as directories,
and how many bytes of the block for the remaining path are accessed. -/
structure Lookup where
  foundFile : Bool
  entry : Option DirectoryEntry
  populated : List ℕ
  reach : ℕ

section Model
variable {δ : Type} [Disk δ]

/-- How many bytes `memcpy` copies; its count is an `INT`. -/
def copied (path : List UCHAR) : ℕ := if (path.length - 2) % 2^32 < 2^31 then (path.length - 2) % 2^32 else 0

/-- The block of `sizeof( path )` bytes, that is of 8, and what lies behind it. -/
def remainingPath (memory : Buffer) (path : List UCHAR) : Buffer :=
  memcpy memory 0 (fun i => path.getD (i+2) 0) (copied path)

/-- The loop over the names, from what `strtok_r` has returned. -/
def descend (fuel : ℕ) (filesystem : FAT32 δ) :
    ℕ → Option ℕ × Option ℕ × Buffer → List DirectoryEntry → Lookup → Result Lookup
  | 0, _, _, _ => .error .hang
  | _+1, (none, _, _), _, l => .ok { l with foundFile := true }
  | turns+1, (some nextDir, tokstate, cutpath), entries, l => do
    let name ← readString fuel fun i => cutpath (nextDir + i)
    match entries.find? fun e => strcmpEq e.name name with
    | none => .ok l
    | some currentry => do
      let dir ← fatPopulateDir fuel filesystem currentry.firstCluster
      let next ← strtokR fuel cutpath none [0x5C] tokstate
      descend fuel filesystem turns next dir.entries
        { l with entry := some currentry, populated := l.populated ++ [currentry.firstCluster] }

/-- `FileEntryForPath`; the block for the remaining path is given as memory. -/
def fileEntryForPath (fuel : ℕ) (partition : Fin 4 → Option (Mounted δ)) (memory : Buffer) (path : List UCHAR) :
    Result Lookup :=
  let remaining := remainingPath memory path
  match fatResolveByPrefix partition fun i => path.getD i 0 with
  | none => .ok ⟨false, none, [], copied path⟩
  | some filesystem => do
    let dir ← fatPopulateDir fuel filesystem 2
    if remaining 0 ≠ 0x5C then return ⟨false, none, [2], max (copied path) 1⟩
    else do
      let cutpath ← readString fuel remaining
      let first ← strtokR fuel (Lib.memory cutpath) (some 0) [0x5C] none
      descend fuel filesystem fuel first dir.entries
        ⟨false, none, [2], max (copied path) (cutpath.length + 1)⟩

end Model

section Walk
variable {δ : Type} [Disk δ] (fuel : ℕ) (v : FAT32 δ)

/-- The first entry of a name. -/
def named (es : List DirectoryEntry) (name : List UCHAR) : Option DirectoryEntry :=
  es.find? fun e => strcmpEq e.name name

/-- The loop, over the names. -/
def walk : List (List UCHAR) → List DirectoryEntry → Lookup → Result Lookup
  | [], _, l => .ok { l with foundFile := true }
  | name :: names, es, l =>
    match named es name with
    | none => .ok l
    | some e => do
      let dir ← fatPopulateDir fuel v e.firstCluster
      walk names dir.entries { l with entry := some e, populated := l.populated ++ [e.firstCluster] }

variable {fuel v}

lemma readString_stringAt {b : Buffer} {p : ℕ} {s : List UCHAR} (hs : StringAt b p s) (hfuel : s.length < fuel) :
    readString fuel (fun i => b (p+i)) = .ok s :=
  readString_eq_ok.mpr ⟨hs.holds, hs.noNul, hfuel⟩

lemma strtokR_returns {b : Buffer} {p : ℕ} {s delim : List UCHAR} (hs : StringAt b p s) (hdelim : NoNul delim)
    (hfuel : s.length < fuel) (saveptr : Option ℕ) : ∃ r, strtokR fuel b (some p) delim saveptr = .ok r := by
  obtain ⟨k, -, -, hcall⟩ := strtokR_ok hs hdelim hfuel saveptr
  cases hcut : nextCut (s.dropWhile (· ∈ delim)) delim with
  | none =>
    rw [hcut] at hcall
    exact ⟨_, hcall⟩
  | some i =>
    rw [hcut] at hcall
    exact ⟨_, hcall⟩

/-- One turn of the loop, if the next call of `strtok_r` gives `r` and the loop goes on from it like the walk. -/
lemma descend_turn {b : Buffer} {q turns : ℕ} {name : List UCHAR} {tokstate : Option ℕ} {names : List (List UCHAR)}
    {r : Option ℕ × Option ℕ × Buffer} (hname : StringAt b q name) (hfuel : name.length < fuel)
    (hnext : strtokR fuel b none [0x5C] tokstate = .ok r)
    (hrest : ∀ es l, descend fuel v turns r es l = walk fuel v names es l) (es : List DirectoryEntry) (l : Lookup) :
    descend fuel v (turns+1) (some q, tokstate, b) es l = walk fuel v (name :: names) es l := by
  rw [descend, walk, readString_stringAt hname hfuel, ok_bind, named]
  cases es.find? fun e => strcmpEq e.name name with
  | none => rfl
  | some e =>
    dsimp only
    rw [hnext]
    simp only [ok_bind, hrest]

/-- The names are the tokens of the string. -/
lemma descend_eq_walk {b : Buffer} {p : ℕ} {s : List UCHAR} (hs : StringAt b p s) (hfuel : s.length < fuel)
    {turns : ℕ} (hturns : s.length + 1 < turns) {tokstate : Option ℕ} {r : Option ℕ × Option ℕ × Buffer}
    (hr : strtokR fuel b (some p) [0x5C] tokstate = .ok r) (es : List DirectoryEntry) (l : Lookup) :
    descend fuel v turns r es l = walk fuel v (tokens [0x5C] s) es l := by
  induction hn : s.length using Nat.strong_induction_on generalizing b p s turns tokstate r es l with
  | _ n ih =>
    have hdelim : NoNul [0x5C] := by unfold NoNul; decide
    obtain ⟨turns, rfl⟩ : ∃ k, turns = k+2 := ⟨turns-2, by omega⟩
    obtain ⟨k, hk, hdrop, hcall⟩ := strtokR_ok hs hdelim hfuel tokstate
    have hstart : StringAt b (p+k) (s.dropWhile (· ∈ [0x5C])) := hdrop ▸ hs.drop hk
    have hle := length_dropWhile_le [0x5C] s
    rw [hcall] at hr
    rw [tokens_eq]
    generalize s.dropWhile (· ∈ [0x5C]) = start at hr hstart hle ⊢
    cases hcut : nextCut start [0x5C] with
    | none =>
      rw [hcut] at hr
      obtain rfl := Except.ok.inj hr
      exact descend_turn hstart (by omega) rfl (fun _ _ => rfl) es l
    | some i =>
      rw [hcut] at hr
      obtain rfl := Except.ok.inj hr
      have hi := nextCut_lt hcut
      have hlength : (start.drop (i+1)).length < s.length := by
        rw [List.length_drop]
        omega
      obtain ⟨htoken, hrest⟩ := hstart.cut hi
      have hname : (start.take i).length < fuel := by
        rw [List.length_take]
        omega
      obtain ⟨r, hr⟩ := strtokR_returns hrest hdelim (hlength.trans hfuel) none
      have hnext : strtokR fuel (Function.update b (p+k+i) 0) none [0x5C] (some (p+k+i+1)) = .ok r := hr
      exact descend_turn htoken hname hnext
        (fun es l => ih _ (hn ▸ hlength) hrest (hlength.trans hfuel) (by omega) hr es l rfl) es l

end Walk

section Resolution
variable {δ : Type} [Disk δ] (fuel : ℕ) (v : FAT32 δ)

def DirectoryEntry.IsDirectory (e : DirectoryEntry) : Prop := e.dirAttrs &&& DIRECTORY ≠ 0

/-- The names lead from the directory at a cluster to an entry, past entries that may be entered. -/
inductive Leads (may : DirectoryEntry → Prop) : ℕ → List (List UCHAR) → DirectoryEntry → Prop
  | last {d es name e} (list : Lists fuel v d es) (h : named es name = some e) : Leads may d [name] e
  | step {d es name e names e'} (list : Lists fuel v d es) (h : named es name = some e) (hmay : may e)
      (rest : Leads may e.firstCluster names e') : Leads may d (name :: names) e'

/-- The entry of a path from the root directory. -/
def Resolves (root : ℕ) (names : List (List UCHAR)) (e : DirectoryEntry) : Prop :=
  Leads fuel v DirectoryEntry.IsDirectory root names e

/-- The clusters of the regular files. -/
inductive InFile (root : ℕ) : ℕ → Prop
  | first {names e} (h : Resolves fuel v root names e) (hfile : ¬ e.IsDirectory) : InFile root e.firstCluster
  | next {c} (h : InFile root c) (hlt : fatGetNextClusterID v c < EOC) : InFile root (fatGetNextClusterID v c)

/-- Wherever the names lead from these entries on, there is a directory to list, at a cluster that may be
listed. -/
def Onward (may : ℕ → Prop) : List (List UCHAR) → List DirectoryEntry → Prop
  | [], _ => True
  | name :: names, es => ∀ e, named es name = some e →
      may e.firstCluster ∧ ∃ es', Lists fuel v e.firstCluster es' ∧ Onward may names es'

/-- The same from the directory at a cluster on. -/
def Readable (may : ℕ → Prop) (d : ℕ) (names : List (List UCHAR)) : Prop :=
  may d ∧ ∃ es, Lists fuel v d es ∧ Onward fuel v may names es

variable {fuel v} {may : DirectoryEntry → Prop} {ok : ℕ → Prop} {d : ℕ} {es es' : List DirectoryEntry}
  {name : List UCHAR} {names : List (List UCHAR)} {e : DirectoryEntry} {l l' : Lookup}

lemma not_leads_nil : ¬ Leads fuel v may d [] e := nofun

lemma leads_cons_iff (list : Lists fuel v d es) : Leads fuel v may d (name :: names) e ↔
    ∃ x, named es name = some x ∧ (names = [] ∧ e = x ∨ may x ∧ Leads fuel v may x.firstCluster names e) := by
  constructor
  · intro h
    cases h with
    | last list' h => exact ⟨e, list'.unique list ▸ h, .inl ⟨rfl, rfl⟩⟩
    | step list' h hmay rest => exact ⟨_, list'.unique list ▸ h, .inr ⟨hmay, rest⟩⟩
  · rintro ⟨x, hx, ⟨rfl, rfl⟩ | ⟨hmay, rest⟩⟩
    · exact .last list hx
    · exact .step list hx hmay rest

/-- When the walk returns, and has listed no other clusters. -/
lemma walk_returns_iff : (∃ l', walk fuel v names es l = .ok l' ∧ ∀ c ∈ l'.populated, ok c) ↔
    (∀ c ∈ l.populated, ok c) ∧ Onward fuel v ok names es := by
  induction names generalizing es l with
  | nil => simp [walk, Onward]
  | cons name names ih =>
    rw [walk, Onward]
    cases hname : named es name with
    | none => simp
    | some e =>
      simp only [Option.some.injEq, forall_eq']
      cases hdir : fatPopulateDir fuel v e.firstCluster with
      | error fault =>
        refine iff_of_false (fun ⟨l', hl', _⟩ => by cases hl') fun ⟨_, _, es', ⟨dir, hdir', _⟩, _⟩ => ?_
        rw [hdir] at hdir'
        cases hdir'
      | ok dir =>
        have list : Lists fuel v e.firstCluster dir.entries := ⟨dir, hdir, rfl⟩
        rw [ok_bind, ih]
        simp only [List.forall_mem_append, List.forall_mem_singleton]
        constructor
        · intro ⟨⟨hbefore, hcluster⟩, honward⟩
          exact ⟨hbefore, hcluster, dir.entries, list, honward⟩
        · intro ⟨hbefore, hcluster, es', list', honward⟩
          exact ⟨⟨hbefore, hcluster⟩, list'.unique list ▸ honward⟩

/-- The entry that the walk finds. -/
lemma walk_found (list : Lists fuel v d es) (hl : l.foundFile = false)
    (hwalk : walk fuel v (name :: names) es l = .ok l') :
    (l'.foundFile = true ∧ l'.entry = some e) ↔ Leads fuel v (fun _ => True) d (name :: names) e := by
  induction names generalizing name d es l with
  | nil =>
    rw [leads_cons_iff list]
    rw [walk] at hwalk
    cases hname : named es name with
    | none =>
      rw [hname] at hwalk
      obtain rfl := Except.ok.inj hwalk
      simp [hl]
    | some x =>
      rw [hname] at hwalk
      dsimp only at hwalk
      rw [bind_eq_ok] at hwalk
      obtain ⟨dir, -, hwalk⟩ := hwalk
      obtain rfl := Except.ok.inj hwalk
      simp [not_leads_nil, eq_comm]
  | cons next names ih =>
    rw [leads_cons_iff list]
    rw [walk] at hwalk
    cases hname : named es name with
    | none =>
      rw [hname] at hwalk
      obtain rfl := Except.ok.inj hwalk
      simp [hl]
    | some x =>
      rw [hname] at hwalk
      dsimp only at hwalk
      rw [bind_eq_ok] at hwalk
      obtain ⟨dir, hdir, hwalk⟩ := hwalk
      rw [ih ⟨dir, hdir, rfl⟩ (by exact hl) hwalk]
      simp

lemma Leads.snoc (h : Leads fuel v may d names e) (hmay : may e) (list : Lists fuel v e.firstCluster es)
    {x : DirectoryEntry} (hx : named es name = some x) : Leads fuel v may d (names ++ [name]) x := by
  induction h with
  | last list' h => exact .step list' h hmay (.last list hx)
  | step list' h hmay' _ ih => exact .step list' h hmay' (ih hmay list)

/-- From a directory of the volume on, only directories are entered if no cluster of a regular file is. -/
lemma leads_iff_of_readable {root : ℕ}
    (hd : d = root ∨ ∃ front x, Resolves fuel v root front x ∧ x.IsDirectory ∧ x.firstCluster = d)
    (hread : Readable fuel v (fun c => ¬ InFile fuel v root c) d names) :
    Leads fuel v (fun _ => True) d names e ↔ Leads fuel v DirectoryEntry.IsDirectory d names e := by
  induction names generalizing d with
  | nil => exact iff_of_false not_leads_nil not_leads_nil
  | cons name names ih =>
    obtain ⟨-, es, list, honward⟩ := hread
    rw [leads_cons_iff list, leads_cons_iff list]
    refine exists_congr fun x => and_congr_right fun hx => or_congr_right ?_
    have hfront : ∃ front, Resolves fuel v root front x := by
      rcases hd with rfl | ⟨front, y, hy, hdir, rfl⟩
      · exact ⟨[name], .last list hx⟩
      · exact ⟨front ++ [name], hy.snoc hdir list hx⟩
    obtain ⟨front, hfront⟩ := hfront
    obtain ⟨hcluster, honward⟩ := honward x hx
    have hdir : x.IsDirectory := by
      by_contra hfile
      exact hcluster (.first hfront hfile)
    exact and_congr (iff_of_true trivial hdir) (ih (.inr ⟨front, x, hfront, hdir, rfl⟩) ⟨hcluster, honward⟩)

end Resolution

section Lookups
variable {δ : Type} [Disk δ] {fuel : ℕ} {partition : Fin 4 → Option (Mounted δ)} {memory b : Buffer}
  {path : List UCHAR} {v : FAT32 δ} {root : ℕ} {cs : List (List UCHAR)} {l l' : Lookup}

/-- The components of a path, each behind a backslash. -/
def joined (cs : List (List UCHAR)) : List UCHAR := cs.flatMap fun c => 0x5C :: c

/-- What is asked of the lookup: it stays in the block, lists no cluster of a regular file, and finds the
entry of the components, if there is one. -/
def LooksUp (fuel : ℕ) (partition : Fin 4 → Option (Mounted δ)) (memory : Buffer) (v : FAT32 δ) (root : ℕ)
    (path : List UCHAR) (cs : List (List UCHAR)) : Prop :=
  ∃ l, fileEntryForPath fuel partition memory path = .ok l ∧ l.reach ≤ 8 ∧
    (∀ c ∈ l.populated, ¬ InFile fuel v root c) ∧
    ∀ e, (l.foundFile = true ∧ l.entry = some e) ↔ Resolves fuel v root cs e

/-- The names in the block: none if it does not begin with a backslash; a NUL has to follow in the block. -/
inductive InBlock (b : Buffer) : Option (List (List UCHAR)) → Prop
  | other (h : b 0 ≠ 0x5C) : InBlock b none
  | path {s} (h : b 0 = 0x5C) (holds : HoldsString b s) (noNul : NoNul s) (hlt : s.length < 8) :
      InBlock b (some (tokens [0x5C] s))

lemma descend_reach {turns : ℕ} {r : Option ℕ × Option ℕ × Buffer} {es : List DirectoryEntry}
    (h : descend fuel v turns r es l = .ok l') : l'.reach = l.reach := by
  induction turns generalizing r es l with
  | zero => cases h
  | succ turns ih =>
    obtain ⟨nextDir, tokstate, cutpath⟩ := r
    cases nextDir with
    | none =>
      obtain rfl := Except.ok.inj h
      rfl
    | some p =>
      rw [descend, bind_eq_ok] at h
      obtain ⟨name, -, h⟩ := h
      cases hfind : es.find? fun e => strcmpEq e.name name with
      | none =>
        rw [hfind] at h
        obtain rfl := Except.ok.inj h
        rfl
      | some e =>
        rw [hfind] at h
        dsimp only at h
        rw [bind_eq_ok] at h
        obtain ⟨dir, -, h⟩ := h
        rw [bind_eq_ok] at h
        obtain ⟨next, -, h⟩ := h
        have hreach := ih h
        exact hreach

/-- The names in the block are followed from cluster 2 on. -/
lemma fileEntryForPath_path {s : List UCHAR} (hmount : fatResolveByPrefix partition (fun i => path.getD i 0) = some v)
    (h : remainingPath memory path 0 = 0x5C) (holds : HoldsString (remainingPath memory path) s) (noNul : NoNul s)
    (hlt : s.length + 1 < fuel) : fileEntryForPath fuel partition memory path =
      (fatPopulateDir fuel v 2 >>= fun dir =>
        walk fuel v (tokens [0x5C] s) dir.entries ⟨false, none, [2], max (copied path) (s.length + 1)⟩) := by
  have hstring : StringAt (Lib.memory s) 0 s := memory_stringAt noNul
  obtain ⟨r, hr⟩ := strtokR_returns hstring (show NoNul [0x5C] by unfold NoNul; decide) (show s.length < fuel by omega) none
  have hread : readString fuel (remainingPath memory path) = .ok s := readString_eq_ok.mpr ⟨holds, noNul, by omega⟩
  rw [fileEntryForPath]
  simp only [hmount, h, ne_eq, not_true_eq_false, if_false, hread, ok_bind, hr,
    descend_eq_walk hstring (show s.length < fuel by omega) hlt hr]

lemma fileEntryForPath_reach (hmount : fatResolveByPrefix partition (fun i => path.getD i 0) = some v)
    (hb : remainingPath memory path 0 = 0x5C) (h : fileEntryForPath fuel partition memory path = .ok l) :
    ∃ s, HoldsString (remainingPath memory path) s ∧ NoNul s ∧ l.reach = max (copied path) (s.length + 1) := by
  rw [fileEntryForPath] at h
  simp only [hmount, hb, ne_eq, not_true_eq_false, if_false] at h
  rw [bind_eq_ok] at h
  obtain ⟨dir, -, h⟩ := h
  rw [bind_eq_ok] at h
  obtain ⟨s, hread, h⟩ := h
  rw [bind_eq_ok] at h
  obtain ⟨first, -, h⟩ := h
  obtain ⟨holds, noNul, -⟩ := readString_eq_ok.mp hread
  exact ⟨s, holds, noNul, descend_reach h⟩

lemma fileEntryForPath_other (hmount : fatResolveByPrefix partition (fun i => path.getD i 0) = some v)
    (hb : remainingPath memory path 0 ≠ 0x5C) : fileEntryForPath fuel partition memory path =
      (fatPopulateDir fuel v 2 >>= fun _ => .ok ⟨false, none, [2], max (copied path) 1⟩) := by
  rw [fileEntryForPath]
  simp only [hmount, ne_eq, hb, not_false_eq_true, if_true]
  rfl

lemma InBlock.eq_some {names : Option (List (List UCHAR))} {s : List UCHAR} (h : InBlock b names) (hb : b 0 = 0x5C)
    (holds : HoldsString b s) (noNul : NoNul s) : names = some (tokens [0x5C] s) := by
  cases h with
  | other h => exact absurd hb h
  | path _ holds' noNul' _ =>
    rw [(strcmpEq_iff holds noNul noNul').mp ((strcmpEq_iff holds' noNul' noNul').mpr rfl)]

lemma exists_tokens (delim s : List UCHAR) : ∃ name names, tokens delim s = name :: names := by
  rw [tokens_eq]
  cases nextCut (s.dropWhile (· ∈ delim)) delim with
  | none => exact ⟨_, _, rfl⟩
  | some i => exact ⟨_, _, rfl⟩

/-- A path whose names stand in the block. -/
lemma looksUp_path_iff {s : List UCHAR} (hmount : fatResolveByPrefix partition (fun i => path.getD i 0) = some v)
    (hfuel : 9 < fuel) (hb : remainingPath memory path 0 = 0x5C) (holds : HoldsString (remainingPath memory path) s)
    (noNul : NoNul s) (hlt : s.length < 8) :
    LooksUp fuel partition memory v root path cs ↔ copied path ≤ 8 ∧
      Readable fuel v (fun c => ¬ InFile fuel v root c) 2 (tokens [0x5C] s) ∧
      ∀ e, Leads fuel v (fun _ => True) 2 (tokens [0x5C] s) e ↔ Resolves fuel v root cs e := by
  obtain ⟨name, names, htokens⟩ := exists_tokens [0x5C] s
  have hreach : ∀ l, fileEntryForPath fuel partition memory path = .ok l → l.reach = max (copied path) (s.length + 1) := by
    intro l hl
    obtain ⟨s', holds', noNul', heq⟩ := fileEntryForPath_reach hmount hb hl
    rw [heq, (strcmpEq_iff holds noNul noNul').mp ((strcmpEq_iff holds' noNul' noNul').mpr rfl)]
  have hrun := fileEntryForPath_path hmount hb holds noNul (show s.length + 1 < fuel by omega)
  constructor
  · rintro ⟨l, hl, hle, hpopulated, hfound⟩
    rw [hreach l hl] at hle
    rw [hrun, bind_eq_ok] at hl
    obtain ⟨dir, hdir, hwalk⟩ := hl
    have list : Lists fuel v 2 dir.entries := ⟨dir, hdir, rfl⟩
    obtain ⟨hroot, honward⟩ := walk_returns_iff.mp ⟨l, hwalk, hpopulated⟩
    refine ⟨by omega, ⟨hroot 2 (by simp), _, list, honward⟩, fun e => ?_⟩
    rw [htokens] at hwalk ⊢
    rw [← hfound e, walk_found list rfl hwalk]
  · rintro ⟨hcopied, ⟨hroot, es, list, honward⟩, hresolves⟩
    obtain ⟨l, hwalk, hpopulated⟩ := (walk_returns_iff (l := ⟨false, none, [2], max (copied path) (s.length + 1)⟩)).mpr
      ⟨by simpa using hroot, honward⟩
    obtain ⟨dir, hdir, rfl⟩ := list
    have hl : fileEntryForPath fuel partition memory path = .ok l := by
      rw [hrun, hdir]
      exact hwalk
    refine ⟨l, hl, by rw [hreach l hl]; omega, hpopulated, fun e => ?_⟩
    rw [← hresolves e]
    rw [htokens] at hwalk ⊢
    exact walk_found ⟨dir, hdir, rfl⟩ rfl hwalk

/-- With the names in the block, whatever they are. -/
lemma looksUp_block_iff (hmount : fatResolveByPrefix partition (fun i => path.getD i 0) = some v) (hfuel : 9 < fuel) :
    LooksUp fuel partition memory v root path cs ↔ copied path ≤ 8 ∧
      ∃ names, InBlock (remainingPath memory path) names ∧
        Readable fuel v (fun c => ¬ InFile fuel v root c) 2 (names.getD []) ∧
        ∀ e, (∃ ns ∈ names, Leads fuel v (fun _ => True) 2 ns e) ↔ Resolves fuel v root cs e := by
  by_cases hb : remainingPath memory path 0 = 0x5C
  · by_cases hs : ∃ s, HoldsString (remainingPath memory path) s ∧ NoNul s ∧ s.length < 8
    · obtain ⟨s, holds, noNul, hlt⟩ := hs
      rw [looksUp_path_iff hmount hfuel hb holds noNul hlt]
      refine and_congr_right fun _ => ?_
      constructor
      · rintro ⟨hread, hresolves⟩
        exact ⟨_, .path hb holds noNul hlt, hread, by simpa using hresolves⟩
      · rintro ⟨names, hblock, hread, hresolves⟩
        obtain rfl := hblock.eq_some hb holds noNul
        exact ⟨hread, by simpa using hresolves⟩
    · constructor
      · rintro ⟨l, hl, hreach, -⟩
        obtain ⟨s, holds, noNul, heq⟩ := fileEntryForPath_reach hmount hb hl
        exact absurd ⟨s, holds, noNul, by omega⟩ hs
      · rintro ⟨-, names, hblock, -⟩
        cases hblock with
        | other h => exact absurd hb h
        | path _ holds noNul hlt => exact absurd ⟨_, holds, noNul, hlt⟩ hs
  · have hblock : ∀ names, InBlock (remainingPath memory path) names ↔ names = none := by
      intro names
      constructor
      · rintro (_ | ⟨h, -, -, -⟩)
        · rfl
        · exact absurd h hb
      · rintro rfl
        exact .other hb
    simp only [hblock, exists_eq_left, Option.getD_none, Option.not_mem_none, false_and, exists_false, false_iff]
    rw [LooksUp, fileEntryForPath_other hmount hb]
    constructor
    · rintro ⟨l, hl, hreach, hpopulated, hfound⟩
      rw [bind_eq_ok] at hl
      obtain ⟨dir, hdir, hl⟩ := hl
      obtain rfl := Except.ok.inj hl
      have hmax : max (copied path) 1 ≤ 8 := hreach
      refine ⟨by omega, ⟨hpopulated 2 (by simp), _, ⟨dir, hdir, rfl⟩, trivial⟩, fun e he => ?_⟩
      exact absurd ((hfound e).mpr he).1 Bool.false_ne_true
    · rintro ⟨hcopied, ⟨hroot, es, ⟨dir, hdir, -⟩, -⟩, hnone⟩
      rw [hdir, ok_bind]
      refine ⟨_, rfl, by dsimp only; omega, by simpa using hroot, fun e => ?_⟩
      exact iff_of_false (fun h => absurd h.1 Bool.false_ne_true) (hnone e)

/-- A freshly formatted volume, whose boot sector has the root directory at cluster 2. -/
def volumeC : FAT32 Ata.Drive :=
  (mountRecord 0 1 roundedUp fresh.FAT).volume roundedUp_clusters Ata.blank fun _ => 0

/-- It is mounted as drive `C`. -/
def onlyC (i : Fin 4) : Option (Mounted Ata.Drive) :=
  if i = 0 then some ⟨(mountRecord 0 1 roundedUp fresh.FAT).rootPath, volumeC⟩ else none

end Lookups

end Open98.Fat32
