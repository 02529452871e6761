import Open98.Mm.PageMap

/-! What the processor allows on a page: the present, writable and user bits count only as far as
the entries of all four levels have them. Runs of `vmm_map_page` are compared with what the calls
ask for. -/
namespace Open98.Mm
open Open98.Library

/-- The low three bits of an entry, none of them if it is not present. -/
def permission (e : ULONG64) : ULONG64 := if present e then e &&& 0b111#64 else 0#64

/-- What the processor allows when it goes down the path from the table in frame `f`. -/
def granted (mem : ℕ → ULONG64) : ℕ → List TableIndex → ULONG64
  | _, [] => 0b111#64
  | f, i :: rest => permission (tables mem f i) &&&
      (child (tables mem f i)).elim 0#64 fun g => granted mem g rest

/-- The effective permission of an address. -/
def effective (s : Paging) (top : ℕ) (v : ULONG64) : ULONG64 :=
  granted s.mem top (pathOf v ++ [levelIndex v 12])

/-- The permission in the entry at a path, none where a level above is missing. -/
def permissionAt (s : Paging) (top : ℕ) (a : List TableIndex) (i : TableIndex) : ULONG64 :=
  permission (Radix.lookup child (tables s.mem) 0#64 top a i)

section Bits

lemma permission_zero : permission 0#64 = 0#64 := by decide

lemma permission_of_not_present {e : ULONG64} (h : present e = false) : permission e = 0#64 := by
  rw [permission, h]
  rfl

lemma permission_eq_zero_iff {e : ULONG64} : permission e = 0#64 ↔ present e = false := by
  constructor
  · intro h
    by_contra hp
    rw [Bool.not_eq_false] at hp
    rw [permission, if_pos hp] at h
    have hbit : e &&& 1#64 = (e &&& 0b111#64) &&& 1#64 := by
      rw [BitVec.and_assoc]
      rfl
    rw [h] at hbit
    simp [present, hbit] at hp
  · exact permission_of_not_present

lemma child_eq_none_iff {e : ULONG64} : child e = none ↔ permission e = 0#64 := by
  rw [permission_eq_zero_iff, child]
  cases present e with
  | true => simp
  | false => simp

/-- The flags of a call are the low bits of the entries that it writes. -/
lemma permission_or_flags {x flags : ULONG64} (hx : x.toNat % pageSize = 0) :
    permission (x ||| flags) = permission flags := by
  have hlow : x &&& 0b111#64 = 0#64 := by
    apply BitVec.eq_of_toNat_eq
    rw [BitVec.toNat_and]
    refine (Nat.and_two_pow_sub_one_eq_mod x.toNat 3).trans ?_
    simp only [pageSize] at hx
    simp only [BitVec.toNat_ofNat]
    omega
  rw [permission, permission, present_or_flags hx, BitVec.and_comm (x ||| flags),
    BitVec.and_or_distrib_left, BitVec.and_comm _ x, hlow, BitVec.zero_or, BitVec.and_comm]

lemma and_left_comm' (x y z : ULONG64) : x &&& (y &&& z) = y &&& (x &&& z) := by
  rw [← BitVec.and_assoc, BitVec.and_comm x, BitVec.and_assoc]

lemma and_of_and_eq {x y r : ULONG64} (h : x &&& y = r) : r &&& x = r := by
  rw [← h, BitVec.and_comm, ← BitVec.and_assoc, BitVec.and_self]

lemma permission_and_seven (e : ULONG64) : permission e &&& 0b111#64 = permission e := by
  unfold permission
  split
  · rw [BitVec.and_assoc]
    rfl
  · rfl

end Bits

section Descent
variable {s s' t : Paging} {top f : ℕ} {a b : List TableIndex} {i j : TableIndex} {flags : ULONG64}

lemma permissionAt_of_walk (hw : tableWalk s top a = some f) (i : TableIndex) :
    permissionAt s top a i = permission (tables s.mem f i) := by
  have hwalk : Radix.walk child (tables s.mem) top a = some f := hw
  rw [permissionAt, Radix.lookup, hwalk]
  rfl

lemma permissionAt_of_walk_none (hw : tableWalk s top a = none) (i : TableIndex) :
    permissionAt s top a i = 0#64 := by
  have hwalk : Radix.walk child (tables s.mem) top a = none := hw
  rw [permissionAt, Radix.lookup, hwalk]
  exact permission_zero

/-- One call of `vmm_get_next_level` sets the permission of a missing entry to the flags. -/
lemma vmmGetNextLevel_permission {p ret index : ULONG64} (ok : TablesOk s top) (hc : Cursor s top a f)
    (ha : a.length < 3) (ht : PointsTo p f) (hi : index.toNat = i.val) (hfresh : FreshEntry s top a i flags)
    (hlink : tableWalk s top a = some f ∨ present flags = false)
    (h : vmmGetNextLevel s p index flags = some (ret, s')) (hb : b.length ≤ 3) :
    permissionAt s' top b j = if (b = a ∧ j = i) ∧ permissionAt s top b j = 0#64 then permission flags
      else permissionAt s top b j := by
  rcases vmmGetNextLevel_cases ht hi h with ⟨g, hg, hret, rfl⟩ |
    ⟨q, hempty, hret, hq, hfree, hused, hmem, hinst⟩
  · -- the entry is present, so it has a permission
    refine (if_neg fun hzero => ?_).symm
    obtain ⟨⟨rfl, rfl⟩, hzero⟩ := hzero
    rcases hc with hw | ⟨_, _, hblank, _⟩
    · rw [permissionAt_of_walk hw] at hzero
      simp [child_eq_none_iff.mpr hzero] at hg
    · simp [hblank j] at hg
  · rcases hc with hw | ⟨hw, hun, hblank, _⟩
    · have hold : permissionAt s top a i = 0#64 :=
        (permissionAt_of_walk hw i).trans (child_eq_none_iff.mp hempty)
      have hnone : tableWalk s top (a ++ [i]) = none := by rw [tableWalk, Radix.walk_snoc hw, hempty]
      have hlookup : Radix.lookup child (tables s'.mem) 0#64 top b j =
          if b = a ∧ j = i then ret ||| flags else Radix.lookup child (tables s.mem) 0#64 top b j := by
        rw [hmem]
        cases hp : present flags with
        | true =>
          have hchild := child_or_flags hret (hfresh hnone).1
          rw [hp, if_pos rfl] at hchild
          have hqblank : Blank s.mem q := (hfresh hnone).2 q (by simp [hfree])
          exact (ok.attach ha hw hempty hq hqblank hchild).lookup_write hqblank hb j
        | false =>
          have hchild := child_or_flags hret (hfresh hnone).1
          simp only [hp, Bool.false_eq_true, if_false] at hchild
          exact Radix.lookup_write_of_walk_eq ok.separate ha.le hw (fun c _ =>
            Radix.walk_write_of_child_eq (hchild.trans hempty.symm) c top) 0#64 hb j
      by_cases hcell : b = a ∧ j = i
      · rw [permissionAt, hlookup, if_pos hcell, if_pos ⟨hcell, by rw [hcell.1, hcell.2, hold]⟩,
          permission_or_flags hret.aligned]
      · rw [permissionAt, hlookup, if_neg hcell, if_neg fun hc => hcell hc.1, permissionAt]
    · -- the written frame is outside the tree
      have hnot : present flags = false := hlink.resolve_left (by simp [hw])
      have hsame : permissionAt s' top b j = permissionAt s top b j := by
        rw [permissionAt, hmem, Radix.lookup_write_detached hun _ hb j, permissionAt]
      rw [hsame]
      split
      · next hzero => rw [hzero.2, permission_of_not_present hnot]
      · rfl

/-- Going down a path sets the permissions of the missing entries along it to the flags. -/
lemma vmmDescend_permission {rest : List TableIndex} {indices : List ULONG64} {p ret : ULONG64}
    (hidx : indices.map (·.toNat) = rest.map (·.val)) (ok : TablesOk s top) (hc : Cursor s top a f)
    (ht : PointsTo p f) (hlen : a.length + rest.length ≤ 3) (hfresh : FreshTables s top a rest flags)
    (hlink : tableWalk s top a = some f ∨ present flags = false)
    (h : vmmDescend flags s p indices = some (ret, s')) (hb : b.length ≤ 3) :
    permissionAt s' top b j =
      if (a.length ≤ b.length ∧ b ++ [j] <+: a ++ rest) ∧ permissionAt s top b j = 0#64 then permission flags
      else permissionAt s top b j := by
  suffices hinduct : ∃ g, PointsTo ret g ∧ ((tableWalk s top a = some f ∨ present flags = false) →
      permissionAt s' top b j =
        if (a.length ≤ b.length ∧ b ++ [j] <+: a ++ rest) ∧ permissionAt s top b j = 0#64 then
          permission flags
        else permissionAt s top b j) by
    obtain ⟨g, -, hM⟩ := hinduct
    exact hM hlink
  refine vmmDescend_induct (M := fun s a rest f s' _ =>
    (tableWalk s top a = some f ∨ present flags = false) → permissionAt s' top b j =
      if (a.length ≤ b.length ∧ b ++ [j] <+: a ++ rest) ∧ permissionAt s top b j = 0#64 then permission flags
      else permissionAt s top b j) ?_ ?_ rest hidx ok hc ht hlen hfresh h
  · intro s a f _ _ _
    refine (if_neg fun hcond => ?_).symm
    obtain ⟨⟨hle, hpre⟩, -⟩ := hcond
    have := hpre.length_le
    simp at this
    omega
  · intro s u s' a i rest f g k index t next ok hc ha ht hi hentry hcall _ _ _ hstep ih hlink
    have hone : permissionAt u top b j = _ :=
      vmmGetNextLevel_permission ok hc ha ht hi hentry hlink hcall hb
    have hnext : tableWalk u top (a ++ [i]) = some g ∨ present flags = false := by
      cases hp : present flags with
      | true => exact Or.inl (hstep hp (hlink.resolve_right (by simp [hp])))
      | false => exact Or.inr rfl
    rw [ih hnext, List.append_assoc, List.singleton_append]
    by_cases hcell : b = a ∧ j = i
    · obtain ⟨rfl, rfl⟩ := hcell
      have hpre : b ++ [j] <+: b ++ j :: rest := ⟨rest, by simp⟩
      rw [if_neg (by simp), hone]
      simp [hpre]
    · have hsame : permissionAt u top b j = permissionAt s top b j := by
        rw [hone, if_neg fun h => hcell h.1]
      have hiff : ((a ++ [i]).length ≤ b.length ∧ b ++ [j] <+: a ++ i :: rest) ↔
          (a.length ≤ b.length ∧ b ++ [j] <+: a ++ i :: rest) := by
        refine and_congr_left fun hpre => ⟨fun hle => ?_, fun hle => ?_⟩
        · rw [List.length_append] at hle
          omega
        · by_contra hlt
          simp only [List.length_append, List.length_singleton] at hlt
          have hlen : b.length = a.length := by omega
          have hba : b = a := by
            have := (List.prefix_append b [j]).trans hpre
            exact (List.prefix_of_prefix_length_le this (List.prefix_append a _) hlen.le).eq_of_length hlen
          subst hba
          obtain ⟨rest', hrest⟩ := hpre
          rw [List.append_assoc, List.append_cancel_left_eq] at hrest
          exact hcell ⟨rfl, (List.cons.inj hrest).1⟩
      rw [hsame]
      simp only [hiff]

end Descent
section Call
variable {s t : Paging} {top : ℕ} {topLevel p v flags : ULONG64}

/-- `vmm_map_page` sets the permission of the last-level entry, and of those entries above it that
are missing. -/
lemma vmmMapPage_permission (ok : TablesOk s top) (htop : PointsTo topLevel top)
    (hfresh : FreshFor s top v flags) (hp : p.toNat % pageSize = 0)
    (h : vmmMapPage s topLevel p v flags = some t) :
    (∀ b j, b.length < 3 → permissionAt t top b j =
      if b ++ [j] <+: pathOf v ∧ permissionAt s top b j = 0#64 then permission flags
      else permissionAt s top b j) ∧
    ∀ w, permission (leafEntry t top w) =
      if pageOf w = pageOf v then permission flags else permission (leafEntry s top w) := by
  simp only [vmmMapPage, Option.map_eq_some_iff] at h
  obtain ⟨⟨pml1, u⟩, hd, rfl⟩ := h
  obtain ⟨g, hg, hext, hcur, hlink⟩ := descend_top ok htop hfresh hd
  have hdescend : ∀ b j, b.length ≤ 3 → permissionAt u top b j =
      if b ++ [j] <+: pathOf v ∧ permissionAt s top b j = 0#64 then permission flags
      else permissionAt s top b j := by
    intro b j hb
    have hpermission := vmmDescend_permission (a := []) (j := j) (upperEntries_toNat v) ok (.inl rfl) htop
      (by simp [pathOf]) hfresh (Or.inl rfl) hd hb
    simpa using hpermission
  have hleafold : ∀ w, permission (leafEntry u top w) = permission (leafEntry s top w) := by
    intro w
    refine (hdescend (pathOf w) (levelIndex w 12) (by simp [pathOf])).trans (if_neg fun hc => ?_)
    have := hc.1.length_le
    simp [pathOf] at this
  simp only [entryAt_eq hg (leafWord_toNat v)]
  generalize ht : u.install (g*pageSize + 8*(levelIndex v 12).val) (p ||| flags) = t
  have hmem : tables t.mem = Radix.write (tables u.mem) g (levelIndex v 12) (p ||| flags) := by
    rw [← ht]
    exact tables_update _ _ _ _
  rcases hcur with hw | ⟨hw, hun, -, -⟩
  · have hlookup : ∀ b j, b.length ≤ 3 → Radix.lookup child (tables t.mem) 0#64 top b j =
        if b = pathOf v ∧ j = levelIndex v 12 then p ||| flags
        else Radix.lookup child (tables u.mem) 0#64 top b j := by
      intro b j hb
      rw [hmem]
      exact Radix.lookup_write_leaf hext.ok.separate rfl hw 0#64 hb j
    refine ⟨fun b j hb => ?_, fun w => ?_⟩
    · have hne : b ≠ pathOf v := by
        rintro rfl
        simp [pathOf] at hb
      rw [← hdescend b j hb.le, permissionAt, hlookup b j hb.le, if_neg fun hc => hne hc.1, permissionAt]
    · rw [leafEntry, leafAt, hlookup _ _ le_rfl]
      by_cases hpage : pageOf w = pageOf v
      · rw [if_pos ((pageOf_eq_iff w v).mp hpage), if_pos hpage, permission_or_flags hp]
      · rw [if_neg (leaf_ne hpage), if_neg hpage]
        exact hleafold w
  · -- without the present bit in its flags the call leaves a missing level missing
    have hnot : present flags = false := by
      by_contra hpresent
      rw [Bool.not_eq_false] at hpresent
      simp [hw] at hlink
      exact absurd hpresent (by simp [hlink])
    have hlookup : ∀ b j, b.length ≤ 3 → Radix.lookup child (tables t.mem) 0#64 top b j =
        Radix.lookup child (tables u.mem) 0#64 top b j := by
      intro b j hb
      rw [hmem]
      exact Radix.lookup_write_detached hun 0#64 hb j
    refine ⟨fun b j hb => ?_, fun w => ?_⟩
    · rw [← hdescend b j hb.le, permissionAt, hlookup b j hb.le, permissionAt]
    · rw [leafEntry, leafAt, hlookup _ _ le_rfl]
      by_cases hpage : pageOf w = pageOf v
      · obtain ⟨hpath, -⟩ := (pageOf_eq_iff w v).mp hpage
        rw [if_pos hpage, permission_of_not_present hnot, hpath]
        exact permissionAt_of_walk_none hw _
      · rw [if_neg hpage]
        exact hleafold w

end Call

/-- A call of `vmm_map_page`. -/
structure MapCall where
  physicalAddress : ULONG64
  virtualAddress : ULONG64
  flags : ULONG64
deriving DecidableEq

namespace MapCall

def apply (topLevel : ULONG64) (s : Paging) (c : MapCall) : Option Paging :=
  vmmMapPage s topLevel c.physicalAddress c.virtualAddress c.flags

/-- A page-aligned address and twelve flag bits, and zero-filled pages for the missing tables. -/
def Regular (top : ℕ) (s : Paging) (c : MapCall) : Prop :=
  c.physicalAddress.toNat % pageSize = 0 ∧ c.flags.toNat < pageSize ∧
    ∀ q ∈ s.pmm.freeList.take (missing s top [] (pathOf c.virtualAddress)), Blank s.mem q

/-- What the call asks for: the low three flag bits, nothing without the present bit. -/
def asked (c : MapCall) : ULONG64 := permission c.flags

end MapCall

section Reference

/-- The call that installs the entry at the end of a path: the first one with the present bit whose
address lies below it. -/
def firstBelow (calls : List MapCall) (a : List TableIndex) : Option MapCall :=
  calls.find? fun c => present c.flags ∧ a <+: pathOf c.virtualAddress

/-- The latest call for a page. -/
def latestFor (calls : List MapCall) (page : ℕ) : Option MapCall :=
  calls.reverse.find? fun c => pageOf c.virtualAddress = page

/-- The call asks for nothing that the calls that installed the entries above its page did not ask
for: the first ones in the same 512 GiB, in the same 1 GiB and in the same 2 MiB. -/
def MapCall.Covered (before : List MapCall) (c : MapCall) : Prop :=
  ∀ b j o, b ++ [j] <+: pathOf c.virtualAddress → firstBelow before (b ++ [j]) = some o →
    c.asked &&& o.asked = c.asked

lemma firstBelow_snoc (calls : List MapCall) (c : MapCall) (a : List TableIndex) :
    firstBelow (calls ++ [c]) a = (firstBelow calls a).or
      (if present c.flags ∧ a <+: pathOf c.virtualAddress then some c else none) := by
  rw [firstBelow, List.find?_append, ← firstBelow]
  congr 1
  by_cases h : present c.flags ∧ a <+: pathOf c.virtualAddress
  · rw [if_pos h, List.find?_singleton, decide_eq_true h]
    rfl
  · rw [if_neg h, List.find?_singleton, decide_eq_false h]
    rfl

lemma firstBelow_asked {calls : List MapCall} {a : List TableIndex} {c : MapCall}
    (h : firstBelow calls a = some c) : c.asked ≠ 0#64 := by
  have hfound := List.find?_some h
  have hpresent := (of_decide_eq_true hfound).1
  rw [MapCall.asked, Ne, permission_eq_zero_iff, hpresent]
  decide

lemma latestFor_snoc (calls : List MapCall) (c : MapCall) (page : ℕ) :
    latestFor (calls ++ [c]) page =
      if pageOf c.virtualAddress = page then some c else latestFor calls page := by
  rw [latestFor, List.reverse_append, List.reverse_singleton, List.singleton_append, List.find?_cons,
    ← latestFor]
  by_cases h : pageOf c.virtualAddress = page
  · rw [if_pos h, decide_eq_true h]
  · rw [if_neg h, decide_eq_false h]

end Reference

/-- The tables hold what the calls asked for: the entries above the pages what the first calls
asked for, the entries of the pages what the latest ones did. -/
structure Recorded (top : ℕ) (calls : List MapCall) (s : Paging) : Prop where
  ok : TablesOk s top
  above : ∀ b j, b.length < 3 →
    permissionAt s top b j = (firstBelow calls (b ++ [j])).elim 0#64 MapCall.asked
  page : ∀ v, permission (leafEntry s top v) = (latestFor calls (pageOf v)).elim 0#64 MapCall.asked

lemma Recorded.snoc {s t : Paging} {top : ℕ} {topLevel : ULONG64} {calls : List MapCall} {c : MapCall}
    (hs : Recorded top calls s) (htop : PointsTo topLevel top) (hregular : c.Regular top s)
    (h : c.apply topLevel s = some t) : Recorded top (calls ++ [c]) t := by
  obtain ⟨hp, hflags, hblank⟩ := hregular
  have hfresh : FreshFor s top c.virtualAddress c.flags := ⟨hblank, fun _ => hflags⟩
  obtain ⟨habove, hpage⟩ := vmmMapPage_permission hs.ok htop hfresh hp h
  refine ⟨(vmmMapPage_spec hs.ok htop hfresh h).1, fun b j hb => ?_, fun v => ?_⟩
  · rw [habove b j hb, hs.above b j hb, firstBelow_snoc]
    cases hfirst : firstBelow calls (b ++ [j]) with
    | some o =>
      have hne : o.asked ≠ 0#64 := firstBelow_asked hfirst
      simp [hne]
    | none =>
      by_cases hpre : b ++ [j] <+: pathOf c.virtualAddress
      · cases hpresent : present c.flags with
        | true => simp [hpre, MapCall.asked]
        | false => simp [permission_of_not_present hpresent]
      · simp [hpre]
  · rw [hpage v, hs.page v, latestFor_snoc]
    by_cases hv : pageOf c.virtualAddress = pageOf v
    · rw [if_pos hv, if_pos hv.symm]
      rfl
    · rw [if_neg hv, if_neg (Ne.symm hv)]

section Effective
variable {s : Paging} {top : ℕ}

/-- What is granted below the end of a path, nothing if it is missing. -/
def grantedFrom (s : Paging) (top : ℕ) (a rest : List TableIndex) : ULONG64 :=
  (tableWalk s top a).elim 0#64 fun f => granted s.mem f rest

lemma grantedFrom_cons (a rest : List TableIndex) (i : TableIndex) :
    grantedFrom s top a (i :: rest) = permissionAt s top a i &&& grantedFrom s top (a ++ [i]) rest := by
  unfold grantedFrom
  cases hw : tableWalk s top a with
  | none =>
    rw [permissionAt_of_walk_none hw, BitVec.zero_and]
    rfl
  | some f =>
    have hnext : tableWalk s top (a ++ [i]) = child (tables s.mem f i) := Radix.walk_snoc hw i
    rw [permissionAt_of_walk hw, hnext]
    rfl

lemma grantedFrom_last (a : List TableIndex) (i : TableIndex) :
    grantedFrom s top a [i] = permissionAt s top a i := by
  rw [grantedFrom_cons]
  cases hw : tableWalk s top a with
  | none => rw [permissionAt_of_walk_none hw, BitVec.zero_and]
  | some f =>
    have hnext : tableWalk s top (a ++ [i]) = child (tables s.mem f i) := Radix.walk_snoc hw i
    rw [permissionAt_of_walk hw, grantedFrom, hnext]
    cases hc : child (tables s.mem f i) with
    | none => rw [child_eq_none_iff.mp hc, BitVec.zero_and]
    | some g => exact permission_and_seven _

/-- The effective permission is what the four entries have in common. -/
lemma effective_eq (s : Paging) (top : ℕ) (v : ULONG64) : effective s top v =
    permissionAt s top [] (levelIndex v 39) &&& (permissionAt s top [levelIndex v 39] (levelIndex v 30) &&&
      (permissionAt s top [levelIndex v 39, levelIndex v 30] (levelIndex v 21) &&&
        permission (leafEntry s top v))) := by
  have hstart : effective s top v = grantedFrom s top [] (pathOf v ++ [levelIndex v 12]) := rfl
  rw [hstart, pathOf, List.cons_append, List.cons_append, List.cons_append, List.nil_append,
    grantedFrom_cons, grantedFrom_cons, grantedFrom_cons, grantedFrom_last]
  rfl

lemma snoc_prefix_pathOf {v : ULONG64} {b : List TableIndex} {j : TableIndex} :
    b ++ [j] <+: pathOf v ↔ (b = [] ∧ j = levelIndex v 39) ∨ (b = [levelIndex v 39] ∧ j = levelIndex v 30) ∨
      (b = [levelIndex v 39, levelIndex v 30] ∧ j = levelIndex v 21) := by
  rw [pathOf]
  rcases b with _ | ⟨x, _ | ⟨y, _ | ⟨z, rest⟩⟩⟩
  · simp
  · simp
  · simp [and_assoc]
  · simp

/-- The effective permission is that of the page's own entry exactly when the entries above it have
its bits. -/
lemma effective_eq_iff (s : Paging) (top : ℕ) (v : ULONG64) :
    effective s top v = permission (leafEntry s top v) ↔ ∀ b j, b ++ [j] <+: pathOf v →
      permission (leafEntry s top v) &&& permissionAt s top b j = permission (leafEntry s top v) := by
  rw [effective_eq]
  generalize permission (leafEntry s top v) = r
  constructor
  · intro h b j hpre
    rcases snoc_prefix_pathOf.mp hpre with ⟨rfl, rfl⟩ | ⟨rfl, rfl⟩ | ⟨rfl, rfl⟩
    · exact and_of_and_eq h
    · rw [and_left_comm'] at h
      exact and_of_and_eq h
    · rw [and_left_comm' (permissionAt s top [levelIndex v 39] _), and_left_comm'] at h
      exact and_of_and_eq h
  · intro h
    have h0 := h [] _ (snoc_prefix_pathOf.mpr (Or.inl ⟨rfl, rfl⟩))
    have h1 := h [levelIndex v 39] _ (snoc_prefix_pathOf.mpr (Or.inr (Or.inl ⟨rfl, rfl⟩)))
    have h2 := h [levelIndex v 39, levelIndex v 30] _
      (snoc_prefix_pathOf.mpr (Or.inr (Or.inr ⟨rfl, rfl⟩)))
    rw [BitVec.and_comm _ r, h2, BitVec.and_comm _ r, h1, BitVec.and_comm _ r, h0]

end Effective

section Runs
variable {s t : Paging} {topLevel : ULONG64} {top : ℕ} {calls : List MapCall}

lemma recorded_nil (h : ZeroedPagemap s topLevel top) : Recorded top [] s := by
  refine ⟨h.ok, fun b j _ => ?_, fun v => ?_⟩
  · have hzero : Radix.lookup child (tables s.mem) 0#64 top b j = 0#64 := by
      have hw : Radix.walk child (tables s.mem) top b = if b = [] then some top else none := h.walk b
      rw [Radix.lookup, hw]
      split
      · exact h.blank j
      · rfl
    rw [permissionAt, hzero]
    exact permission_zero
  · rw [h.leafEntry]
    exact permission_zero

lemma Recorded.run (htop : PointsTo topLevel top)
    (h : GuardedRun (fun s c => MapCall.Regular top s c) (fun s c => MapCall.apply topLevel s c) s calls t)
    (before : List MapCall) (hs : Recorded top before s) : Recorded top (before ++ calls) t := by
  induction h generalizing before with
  | nil s => simpa using hs
  | @cons s u t c calls hregular hstep tail ih =>
    have hnext := ih (before ++ [c]) (hs.snoc htop hregular hstep)
    rwa [List.append_assoc] at hnext

lemma recorded_of_run (h0 : ZeroedPagemap s topLevel top)
    (h : GuardedRun (fun s c => MapCall.Regular top s c) (fun s c => MapCall.apply topLevel s c) s calls t) :
    Recorded top calls t := Recorded.run h0.points h [] (recorded_nil h0)

/-- The permission of a page is what its latest call asked for exactly when the calls that
installed the entries above it asked for that too. -/
lemma Recorded.effective_iff (hs : Recorded top calls s) {v : ULONG64} {c : MapCall}
    (hc : latestFor calls (pageOf v) = some c) :
    effective s top v = c.asked ↔ ∀ b j, b ++ [j] <+: pathOf v →
      c.asked &&& (firstBelow calls (b ++ [j])).elim 0#64 MapCall.asked = c.asked := by
  have hpage : permission (leafEntry s top v) = c.asked := by rw [hs.page, hc]; rfl
  rw [← hpage, effective_eq_iff]
  refine forall_congr' fun b => forall_congr' fun j => imp_congr_right fun hpre => ?_
  have hlen := hpre.length_le
  rw [List.length_append, List.length_singleton, show (pathOf v).length = 3 from rfl] at hlen
  rw [hs.above b j (by omega)]

lemma latestFor_mem {page : ℕ} {c : MapCall} (h : latestFor calls page = some c) :
    ∃ before after, calls = before ++ c :: after ∧ pageOf c.virtualAddress = page := by
  unfold latestFor at h
  have hmem := List.mem_of_find?_eq_some h
  have hpage := List.find?_some h
  obtain ⟨before, after, hsplit⟩ := List.append_of_mem (List.mem_reverse.mp hmem)
  exact ⟨before, after, hsplit, of_decide_eq_true hpage⟩

end Runs

/-- In every run of regular calls on a zeroed pagemap, the effective permission of every page is in
every state what the latest call for it asked for if and only if each call asks for nothing that the
calls that installed the entries above its page did not ask for. -/
theorem effective_permissions_iff (s : Paging) (topLevel : ULONG64) (top : ℕ) (calls : List MapCall)
    (t : Paging) (h0 : ZeroedPagemap s topLevel top)
    (h : GuardedRun (fun s c => MapCall.Regular top s c) (fun s c => MapCall.apply topLevel s c) s calls t) :
    (∀ before after u, calls = before ++ after →
      GuardedRun (fun s c => MapCall.Regular top s c) (fun s c => MapCall.apply topLevel s c) s before u →
        ∀ v c, latestFor before (pageOf v) = some c → effective u top v = c.asked) ↔
      ∀ before c after, calls = before ++ c :: after → c.Covered before := by
  constructor
  · intro heffective before c after hcalls b j o hpre hfirst
    have hsplit : calls = (before ++ [c]) ++ after := by simp [hcalls]
    obtain ⟨u, hu, -⟩ := (hsplit ▸ h).split
    have hlatest : latestFor (before ++ [c]) (pageOf c.virtualAddress) = some c := by
      rw [latestFor_snoc, if_pos rfl]
    have hequal := heffective (before ++ [c]) after u hsplit hu c.virtualAddress c hlatest
    have hbits := ((recorded_of_run h0 hu).effective_iff hlatest).mp hequal b j hpre
    rwa [firstBelow_snoc, hfirst] at hbits
  · intro hcovered before after u hsplit hu v c hlatest
    rw [(recorded_of_run h0 hu).effective_iff hlatest]
    intro b j hpre
    obtain ⟨before', after', hbefore, hpage⟩ := latestFor_mem hlatest
    have hpath : pathOf c.virtualAddress = pathOf v := ((pageOf_eq_iff _ _).mp hpage).1
    have hfirst : firstBelow before (b ++ [j]) =
        (firstBelow (before' ++ [c]) (b ++ [j])).or (firstBelow after' (b ++ [j])) := by
      rw [hbefore, show before' ++ c :: after' = (before' ++ [c]) ++ after' by simp, firstBelow,
        List.find?_append, ← firstBelow, ← firstBelow]
    rw [hfirst, firstBelow_snoc]
    cases hold : firstBelow before' (b ++ [j]) with
    | some o =>
      exact hcovered before' c (after' ++ after) (by rw [hsplit, hbefore]; simp) b j o (hpath ▸ hpre) hold
    | none =>
      cases hpresent : present c.flags with
      | true =>
        rw [← hpath] at hpre
        simp [hpre]
      | false =>
        have hzero : c.asked = 0#64 := permission_of_not_present hpresent
        rw [hzero, BitVec.zero_and]

section TwoMappings

/-- A page for the kernel, then one for the user in the same 2 MiB. -/
def twoMappings : List MapCall := [⟨0x9000#64, 0x400000#64, 0b11#64⟩, ⟨0xa000#64, 0x401000#64, 0b111#64⟩]

lemma twoMappings_run : ∃ t, GuardedRun (fun s c => MapCall.Regular 1 s c)
    (fun s c => MapCall.apply 0x1000#64 s c) (oneFramePaging fun _ => 0#64) twoMappings t ∧
      effective t 1 0x401000#64 = 0b011#64 := by
  have hfirst : MapCall.Regular 1 (oneFramePaging fun _ => 0#64) ⟨0x9000#64, 0x400000#64, 0b11#64⟩ :=
    ⟨by decide, by decide, fun _ _ _ => rfl⟩
  have hmissing : missing onePageMapped 1 [] (pathOf 0x401000#64) = 0 := by decide
  have hsecond : MapCall.Regular 1 onePageMapped ⟨0xa000#64, 0x401000#64, 0b111#64⟩ := by
    refine ⟨by decide, by decide, fun q hq => ?_⟩
    simp [hmissing] at hq
  exact ⟨_, .cons hfirst rfl (.cons hsecond rfl (.nil _)), by decide⟩

theorem effective_permissions_iff_two : ∃ t, GuardedRun (fun s c => MapCall.Regular 1 s c)
    (fun s c => MapCall.apply 0x1000#64 s c) (oneFramePaging fun _ => 0#64) twoMappings t ∧
      ((∀ before after u, twoMappings = before ++ after →
        GuardedRun (fun s c => MapCall.Regular 1 s c) (fun s c => MapCall.apply 0x1000#64 s c)
          (oneFramePaging fun _ => 0#64) before u →
          ∀ v c, latestFor before (pageOf v) = some c → effective u 1 v = c.asked) ↔
        ∀ before c after, twoMappings = before ++ c :: after → c.Covered before) := by
  obtain ⟨t, hrun, -⟩ := twoMappings_run
  exact ⟨t, hrun, effective_permissions_iff (oneFramePaging fun _ => 0#64) 0x1000#64 1 twoMappings t
    ⟨rfl, fun _ => rfl, by decide⟩ hrun⟩

/-- The page that was asked for with the user bit is not accessible to the user. -/
theorem user_page_not_accessible :
    ¬ ∀ (s : Paging) (topLevel : ULONG64) (top : ℕ) (calls : List MapCall) (t : Paging),
      ZeroedPagemap s topLevel top →
      GuardedRun (fun s c => MapCall.Regular top s c) (fun s c => MapCall.apply topLevel s c) s calls t →
        ∀ v c, latestFor calls (pageOf v) = some c → present c.flags = true →
          effective t top v = c.flags &&& 0b111#64 := by
  intro claim
  obtain ⟨t, hrun, ht⟩ := twoMappings_run
  have hequal := claim (oneFramePaging fun _ => 0#64) 0x1000#64 1 twoMappings t
    ⟨rfl, fun _ => rfl, by decide⟩ hrun 0x401000#64 ⟨0xa000#64, 0x401000#64, 0b111#64⟩ (by decide)
    (by decide)
  rw [ht] at hequal
  exact absurd hequal (by decide)

end TwoMappings

end Open98.Mm
