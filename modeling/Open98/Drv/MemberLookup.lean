import Open98.Drv.Ustar

/-! The members of an archive that is loaded: what `ustar_getid`, `ustar_search`, `ustar_list` and `ustar_cat` find
by name. -/
namespace Open98.Drv
open Fat32 Lib Library

section Loading
variable {r r' : Initrd} {address fuel : ℕ} {ms : List Member}

/-- The names as they are stored: each but the first one has lost its first character. -/
def storedNames : List Member → List (List UCHAR)
  | [] => []
  | m :: rest => m.name :: rest.map fun m => m.name.tail

lemma length_storedNames (ms : List Member) : (storedNames ms).length = ms.length := by
  cases ms <;> simp [storedNames]

lemma storedNames_getElem? (ms : List Member) (i : ℕ) :
    (storedNames ms)[i]? = ms[i]?.map fun m => if i = 0 then m.name else m.name.tail := by
  cases ms with
  | nil => simp [storedNames]
  | cons m rest => cases i <;> simp [storedNames]

/-- The archive has been loaded. -/
structure Loaded (r : Initrd) (address : ℕ) (ms : List Member) : Prop where
  initrd : r.initrd = true
  count : r.count = ms.length - 1
  headers : ∀ j < ms.length, r.headers j = memberAddress address ms j
  address : ∀ j < ms.length, r.address j = memberAddress address ms j + 512
  name : ∀ j name, (storedNames ms)[j]? = some name →
    HoldsString (field r.memory (r.headers j) nameOffset) name ∧ NoNul name

/-- The scan has found the headers of the archive. -/
lemma Scanned.table {s : Initrd} (h : Laid r.memory address ms) (hscanned : Scanned r s address 0 ms) :
    Table s.memory s.headers ms.length fun j => ms.getD j ⟨[], []⟩ := by
  have hheaders : ∀ j < ms.length, s.headers j = memberAddress address ms j := by
    intro j hj
    have := hscanned.headers j hj
    rwa [Nat.zero_add] at this
  refine ⟨fun j hj => ?_, fun j hj => ?_, fun i j hij hj => ?_⟩
  · rw [List.getD_eq_getElem _ _ hj]
    exact h.wellFormed _ (List.getElem_mem hj)
  · rw [List.getD_eq_getElem _ _ hj, hheaders j hj, hscanned.memory]
    exact h.header j _ (List.getElem?_eq_getElem hj)
  · rw [hheaders i (by omega), hheaders j hj]
    exact memberAddress_lt hij hj.le

lemma kdInitRAMFS_loads (h : Laid r.memory address ms) (hcount : r.count = 0) (hfuel : ms.length + 124 ≤ fuel) :
    ∃ r', kdInitRAMFS fuel r address = .ok r' ∧ Loaded r' address ms := by
  obtain ⟨s, hscan, hscanned⟩ : ∃ s, ustarScan fuel 0 address r = .ok (0 + ms.length, s) ∧ Scanned r s address 0 ms :=
    ustarScan_eq h (by omega)
  have hturns : s.count.toNat - 1 = ms.length - 1 := by
    rw [hscanned.count, hcount]
    omega
  have hfuel' : 124 ≤ fuel := by omega
  obtain ⟨memory', hloop, htable'⟩ := (hscanned.table h).shiftNames
    (fun g (hg : g ∈ List.range' 1 (s.count.toNat - 1)) => by rw [List.mem_range'_1] at hg; omega)
    List.nodup_range' hfuel'
  refine ⟨{ s with memory := memory', count := s.count - 1, initrd := true }, ?_, rfl, ?_, ?_, ?_, ?_⟩
  · exact bind_eq_ok.mpr ⟨_, bind_eq_ok.mpr ⟨_, hscan, bind_eq_ok.mpr ⟨_, hloop, rfl⟩⟩, rfl⟩
  · show s.count - 1 = _
    rw [hscanned.count, hcount]
    ring
  · intro j hj
    have := hscanned.headers j hj
    rwa [Nat.zero_add] at this
  · intro j hj
    have := hscanned.address j hj
    rwa [Nat.zero_add] at this
  · intro j name hname
    rw [storedNames_getElem?, Option.map_eq_some_iff] at hname
    obtain ⟨m, hm, rfl⟩ := hname
    obtain ⟨hj, rfl⟩ := List.getElem?_eq_some_iff.mp hm
    have hheader := htable'.header j hj
    have hwell := htable'.wellFormed j hj
    rw [List.getD_eq_getElem _ _ hj] at hheader hwell
    by_cases hzero : j = 0
    · rw [if_neg (by rw [List.mem_range'_1]; omega)] at hheader hwell
      rw [if_pos hzero]
      exact ⟨hheader.name, hwell.noNul⟩
    · rw [if_pos (by rw [List.mem_range'_1]; omega)] at hheader hwell
      rw [if_neg hzero]
      exact ⟨hheader.name, hwell.noNul⟩

end Loading

section Lookups
variable {r : Initrd} {address i fuel : ℕ} {ms : List Member} {name : List UCHAR}

/-- The address of the name in a line. -/
def Line.name? : Line → Option ℕ
  | file name => some name
  | linkage name _ => some name
  | dir name => some name
  | unknown name => some name
  | itemsFound _ => none
  | notInitialized => none

/-- A member is found under a name in each way. -/
structure MemberFound (r : Initrd) (address : ℕ) (ms : List Member) (i : ℕ) (name : List UCHAR) : Prop where
  getid : ustarGetid r name = i
  search : ustarSearch r name = some (memberAddress address ms i + 512)
  listed : ∃ line ∈ ustarList r, line.name? = some (memberAddress address ms i)

/-- Under a name, no contents are found. -/
structure NothingFound (r : Initrd) (address : ℕ) (ms : List Member) (name : List UCHAR) : Prop where
  search : ustarSearch r name = none
  cat : ∀ i < ms.length, ustarCat r name ≠ .address (memberAddress address ms i + 512)

lemma Loaded.named_iff (h : Loaded r address ms) (hi : i < ms.length) (hname : NoNul name) :
    Named r name i ↔ (storedNames ms)[i]? = some name := by
  have hlength : i < (storedNames ms).length := by rwa [length_storedNames]
  obtain ⟨hholds, hnoNul⟩ := h.name i _ (List.getElem?_eq_getElem hlength)
  rw [Named, strcmpEq_iff hholds hnoNul hname, List.getElem?_eq_getElem hlength, Option.some_inj]

lemma Loaded.turns (h : Loaded r address ms) : r.count.toNat = ms.length - 1 := by
  rw [h.count]
  omega

lemma lt_of_stored (hname : (storedNames ms)[i]? = some name) : i < ms.length := by
  rw [← length_storedNames]
  exact (List.getElem?_eq_some_iff.mp hname).1

lemma mem_take_stored : name ∈ (storedNames ms).take i ↔ ∃ j < i, (storedNames ms)[j]? = some name := by
  rw [List.mem_iff_getElem?]
  refine exists_congr fun j => ?_
  rw [List.getElem?_take]
  split_ifs with hj <;> simp [hj]

/-- The loop of `ustar_getid` leaves the last member out. -/
lemma Loaded.getid_iff (h : Loaded r address ms) (hi : 1 ≤ i) (hname : (storedNames ms)[i]? = some name) :
    ustarGetid r name = i ↔ i + 1 < ms.length ∧ name ∉ (storedNames ms).take i := by
  have hlt := lt_of_stored hname
  have hnamed := fun j (hj : j < ms.length) => h.named_iff hj (h.name i name hname).2
  have hfound : Named r name i := (hnamed i hlt).mpr hname
  rw [ustarGetid, h.initrd, h.turns, mem_take_stored]
  simp only [Bool.not_true, Bool.false_eq_true, if_false]
  cases hfind : firstIn (Named r name) 0 (ms.length - 1) with
  | none =>
    have hnone := firstIn_eq_none.mp hfind
    refine iff_of_false (fun hzero => ?_) fun hlast => ?_
    · have hzero' : 0 = i := hzero
      omega
    · exact hnone i i.zero_le (by omega) hfound
  | some k =>
    obtain ⟨-, hk, hknamed, hfirst⟩ := firstIn_eq_some.mp hfind
    rw [Option.getD_some]
    constructor
    · rintro rfl
      refine ⟨by omega, ?_⟩
      rintro ⟨j, hj, hstored⟩
      exact hfirst j j.zero_le hj ((hnamed j (by omega)).mpr hstored)
    · rintro ⟨-, hbefore⟩
      by_contra hne
      rcases Nat.lt_or_gt_of_ne hne with hlt' | hlt'
      · exact hbefore ⟨k, hlt', (hnamed k (by omega)).mp hknamed⟩
      · exact hfirst i i.zero_le hlt' hfound

/-- The loop of `ustar_search` goes over all members but the first one. -/
lemma Loaded.search_eq (h : Loaded r address ms) (hi : 1 ≤ i) (hname : (storedNames ms)[i]? = some name)
    (hbefore : name ∉ (storedNames ms).take i) : ustarSearch r name = some (memberAddress address ms i + 512) := by
  have hlt := lt_of_stored hname
  have hnamed := fun j (hj : j < ms.length) => h.named_iff hj (h.name i name hname).2
  have hfind : firstIn (Named r name) 1 (ms.length - 1) = some i := by
    refine firstIn_eq_some.mpr ⟨hi, by omega, (hnamed i hlt).mpr hname, fun j _ hj hstored => hbefore ?_⟩
    exact mem_take_stored.mpr ⟨j, hj, (hnamed j (by omega)).mp hstored⟩
  rw [ustarSearch, h.initrd, h.turns, hfind, ← h.address i hlt]
  rfl

lemma memberLine_name? (r : Initrd) (i : ℕ) : (memberLine r i).name? = some (r.headers i) := by
  rw [memberLine]
  split_ifs <;> rfl

lemma Loaded.listed (h : Loaded r address ms) (hi : 1 ≤ i) (hlt : i < ms.length) :
    ∃ line ∈ ustarList r, line.name? = some (memberAddress address ms i) := by
  refine ⟨memberLine r i, ?_, by rw [memberLine_name?, h.headers i hlt]⟩
  rw [ustarList, h.initrd, h.turns]
  refine List.mem_append_left _ (List.mem_map_of_mem ?_)
  rw [List.mem_range'_1]
  omega

/-- A name that no member has. -/
lemma Loaded.nothingFound (h : Loaded r address ms) (hname : NoNul name) (habsent : name ∉ storedNames ms) :
    NothingFound r address ms name := by
  have hsearch : ustarSearch r name = none := by
    have hfind : firstIn (Named r name) 1 (ms.length - 1) = none := by
      refine firstIn_eq_none.mpr fun j hj hlt hnamed => habsent ?_
      exact List.mem_of_getElem? ((h.named_iff (by omega) hname).mp hnamed)
    rw [ustarSearch, h.initrd, h.turns, hfind]
    rfl
  refine ⟨hsearch, fun i _ => ?_⟩
  rw [ustarCat, h.initrd, hsearch]
  simp only [Bool.not_true, Bool.false_eq_true, if_false]
  split_ifs <;> exact Contents.noConfusion

lemma Loaded.memberFound_iff (h : Loaded r address ms) (hi : 1 ≤ i) (hname : (storedNames ms)[i]? = some name) :
    MemberFound r address ms i name ↔ i + 1 < ms.length ∧ name ∉ (storedNames ms).take i := by
  constructor
  · intro hfound
    exact (h.getid_iff hi hname).mp hfound.getid
  · intro hfirst
    exact ⟨(h.getid_iff hi hname).mpr hfirst, h.search_eq hi hname hfirst.2, h.listed hi (lt_of_stored hname)⟩

/-- In every archive, each member but the last one is found in each way, unless an earlier one is stored under the
same name. -/
theorem members_found_iff (h : Archive r.memory address ms) (hcount : r.count = 0) (hfuel : ms.length + 124 ≤ fuel) :
    ∃ r', kdInitRAMFS fuel r address = .ok r' ∧
      (∀ i name, 1 ≤ i → (storedNames ms)[i]? = some name →
        HoldsString (field r'.memory (r'.headers i) nameOffset) name ∧
        (MemberFound r' address ms i name ↔ i + 1 < ms.length ∧ name ∉ (storedNames ms).take i)) ∧
      ∀ name, NoNul name → name ∉ storedNames ms → NothingFound r' address ms name := by
  obtain ⟨r', hrun, hloaded⟩ := kdInitRAMFS_loads h.toLaid hcount hfuel
  refine ⟨r', hrun, fun i name hi hname => ⟨?_, hloaded.memberFound_iff hi hname⟩, fun name hname habsent => ?_⟩
  · exact (hloaded.name i name hname).1
  · exact hloaded.nothingFound hname habsent

/-- A directory and two files of five bytes. -/
def sampleMembers : List Member := [
  ⟨[0x2E, 0x2F], [0x30]⟩,
  ⟨[0x2E, 0x2F, 0x61], [0x35]⟩,
  ⟨[0x2E, 0x2F, 0x62], [0x35]⟩]

def sampleHeader (name size : List UCHAR) (typeflag : UCHAR) (k : ℕ) : UCHAR :=
  if k < sizeOffset then name.getD k 0
  else if k < typeflagOffset then size.getD (k - sizeOffset) 0
  else if k = typeflagOffset then typeflag
  else if k < signatureOffset then 0
  else signature.getD (k - signatureOffset) 0

def sampleMemory (k : ℕ) : UCHAR :=
  if k < 512 then sampleHeader [0x2E, 0x2F] [0x30] 0x35 k
  else if k < 1536 then sampleHeader [0x2E, 0x2F, 0x61] [0x35] 0x30 (k - 512)
  else if k < 2560 then sampleHeader [0x2E, 0x2F, 0x62] [0x35] 0x30 (k - 1536)
  else 0

def sampleInitrd : Initrd := ⟨sampleMemory, false, fun _ => 0, fun _ => 0, 0⟩

lemma sample_archive : Archive sampleMemory 0 sampleMembers := by
  refine ⟨⟨fun m hm => ?_, fun i m hm => ?_, by decide +kernel, by decide +kernel⟩, by decide, by decide⟩
  · rcases List.mem_cons.mp hm with rfl | hm
    · exact ⟨by unfold NoNul; decide, by decide, by unfold OctalDigits; decide, by decide⟩
    · rcases List.mem_pair.mp hm with rfl | rfl
      · exact ⟨by unfold NoNul; decide, by decide, by unfold OctalDigits; decide, by decide⟩
      · exact ⟨by unfold NoNul; decide, by decide, by unfold OctalDigits; decide, by decide⟩
  · match i with
    | 0 | 1 | 2 =>
      obtain rfl := Option.some.inj hm
      exact ⟨⟨by decide +kernel, by decide +kernel⟩, ⟨by decide +kernel, by decide +kernel⟩,
        ⟨by decide +kernel, by decide +kernel⟩⟩
    | _+3 => cases hm

/-- The file `b` at the end is not found by its number. -/
theorem last_member_not_found : ∃ r', kdInitRAMFS 200 sampleInitrd 0 = .ok r' ∧
    ¬ MemberFound r' 0 sampleMembers 2 [0x2F, 0x62] := by
  obtain ⟨r', hrun, hloaded⟩ := kdInitRAMFS_loads (r := sampleInitrd) sample_archive.toLaid rfl
    (show sampleMembers.length + 124 ≤ 200 by decide)
  refine ⟨r', hrun, fun hfound => ?_⟩
  have hlast := (hloaded.memberFound_iff (by decide) rfl).mp hfound
  exact absurd hlast.1 (by decide)

/-- The file `a` before it is found. -/
theorem members_found_iff_middle : ∃ r', kdInitRAMFS 200 sampleInitrd 0 = .ok r' ∧
    MemberFound r' 0 sampleMembers 1 [0x2F, 0x61] := by
  obtain ⟨r', hrun, hmembers, -⟩ := members_found_iff (r := sampleInitrd) sample_archive rfl
    (show sampleMembers.length + 124 ≤ 200 by decide)
  exact ⟨r', hrun, (hmembers 1 _ (by decide) rfl).2.mpr (by decide)⟩

end Lookups

end Open98.Drv
