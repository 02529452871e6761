import Open98.Fat32.CorruptWalks

/-! The walks through a directory, whatever its slots are. In every cluster the inner loop ends there or
in the second cluster it has loaded, or it runs into a null pointer; so the outer loop follows the chain
of the directory. -/
namespace Open98.Fat32
open Open98.Library Open98.Ata

section Parsing
variable {l more slots next : List Slot} {n : ℕ}

lemma lfnCount_eq_none (h : lfnCount l = none) : ∀ s ∈ l, s 11 = LFN := by
  induction l with
  | nil => simp
  | cons s l ih =>
    rw [lfnCount] at h
    by_cases hs : s 11 = LFN
    · rw [if_pos hs, Option.map_eq_none_iff] at h
      exact List.forall_mem_cons.mpr ⟨hs, ih h⟩
    · rw [if_neg hs] at h
      cases h

lemma lfnCount_lt (h : lfnCount l = some n) : n < l.length := by
  induction l generalizing n with
  | nil => cases h
  | cons s l ih =>
    rw [lfnCount] at h
    by_cases hs : s 11 = LFN
    · rw [if_pos hs] at h
      obtain ⟨m, hm, rfl⟩ := Option.map_eq_some_iff.mp h
      exact Nat.succ_lt_succ (ih hm)
    · rw [if_neg hs] at h
      obtain rfl := Option.some.inj h
      exact Nat.zero_lt_succ _

lemma lfnCount_append (h : ∀ s ∈ l, s 11 = LFN) (more : List Slot) :
    lfnCount (l ++ more) = (lfnCount more).map (· + l.length) := by
  induction l with
  | nil => simp
  | cons s l ih =>
    obtain ⟨hs, hl⟩ := List.forall_mem_cons.mp h
    rw [List.cons_append, lfnCount, if_pos hs, ih hl, Option.map_map]
    congr 1

/-- The last slot of the list is a long-name slot, as its attributes say. -/
def EndsLong (slots : List Slot) : Prop := ∃ s, slots.getLast? = some s ∧ s 11 = LFN

lemma EndsLong.of_suffix (h : EndsLong next) (hsuffix : next <:+ slots) : EndsLong slots := by
  obtain ⟨s, hlast, hs⟩ := h
  obtain ⟨pre, rfl⟩ := hsuffix
  refine ⟨s, ?_, hs⟩
  rw [List.getLast?_append, hlast]
  rfl

lemma endsLong_of_forall {s : Slot} {rest : List Slot} (h : ∀ t ∈ s :: rest, t 11 = LFN) :
    EndsLong (s :: rest) :=
  ⟨(s :: rest).getLast (List.cons_ne_nil s rest), List.getLast?_eq_some_getLast _, h _ (List.getLast_mem _)⟩

lemma lfnCount_short {l : List Slot} {n : ℕ} (h : lfnCount l = some n) (hn : n < l.length) : l[n] 11 ≠ LFN := by
  induction l generalizing n with
  | nil => cases h
  | cons s l ih =>
    rw [lfnCount] at h
    by_cases hs : s 11 = LFN
    · rw [if_pos hs] at h
      obtain ⟨m, hm, rfl⟩ := Option.map_eq_some_iff.mp h
      exact ih hm (by simpa using hn)
    · rw [if_neg hs] at h
      obtain rfl := Option.some.inj h
      exact hs

/-- An entry that is read ends with a short slot; without one, nothing is read. -/
lemma fatReadDirectoryEntry_ends (junk : Buffer) {s : Slot} (hs : ¬ s.Free) (rest : List Slot) :
    (∃ d front x next, fatReadDirectoryEntry junk (s :: rest) = some (d, next) ∧ s :: rest = front ++ x :: next ∧
      x 11 ≠ LFN) ∨ (fatReadDirectoryEntry junk (s :: rest) = none ∧ ∀ t ∈ s :: rest, t 11 = LFN) := by
  rw [fatReadDirectoryEntry, if_neg hs]
  cases hcount : lfnCount (s :: rest) with
  | none => exact .inr ⟨rfl, lfnCount_eq_none hcount⟩
  | some n =>
    have hlt := lfnCount_lt hcount
    have hdrop : (s :: rest).drop n = (s :: rest)[n] :: rest.drop n := List.drop_eq_getElem_cons hlt
    rw [Option.bind_some, hdrop]
    refine .inl ⟨_, (s :: rest).take n, (s :: rest)[n], rest.drop n, rfl, ?_, lfnCount_short hcount hlt⟩
    rw [← hdrop, List.take_append_drop]

/-- With further slots behind long-name slots, the entry that is read ends in the further ones. -/
lemma fatReadDirectoryEntry_more (junk : Buffer) {s : Slot} (hs : ¬ s.Free) {rest : List Slot}
    (h : ∀ t ∈ s :: rest, t 11 = LFN) (more : List Slot) :
    fatReadDirectoryEntry junk (s :: rest ++ more) = none ∨
      ∃ d next, fatReadDirectoryEntry junk (s :: rest ++ more) = some (d, next) ∧ next.length < more.length := by
  have hcount := lfnCount_append h more
  rw [List.cons_append] at hcount ⊢
  rw [fatReadDirectoryEntry, if_neg hs, hcount]
  cases hmore : lfnCount more with
  | none => exact .inl rfl
  | some n =>
    have hlt := lfnCount_lt hmore
    have hdrop : (s :: (rest ++ more)).drop (n + (s :: rest).length) = more[n] :: more.drop (n+1) := by
      rw [← List.cons_append, Nat.add_comm, List.drop_length_add_append, List.drop_eq_getElem_cons hlt]
    rw [Option.map_some, Option.bind_some, hdrop]
    refine .inr ⟨_, _, rfl, ?_⟩
    rw [List.length_drop]
    omega

end Parsing

section Inner
variable {v : FAT32 Drive} {slots next : List Slot} {c c' : ℕ}

/-- All that `FatNextDirectoryEntry` can do with a slot in use. -/
lemma fatNextDirectoryEntry_cases (v : FAT32 Drive) (c : ℕ) {s : Slot} (hs : ¬ s.Free) (rest : List Slot) :
    (∃ d next, fatNextDirectoryEntry v c (s :: rest) = .ok (d, next, [], 0) ∧ next <:+ rest) ∨
      (EndsLong (s :: rest) ∧ (fatNextDirectoryEntry v c (s :: rest) = .error .nullPointer ∨
        ∃ d next more, fatNextDirectoryEntry v c (s :: rest) = .ok (d, next, more, fatGetNextClusterID v c) ∧
          next.length < more.length)) := by
  rw [fatNextDirectoryEntry]
  rcases fatReadDirectoryEntry_ends v.junk hs rest with ⟨d, front, x, next, hread, heq, -⟩ | ⟨hread, hlong⟩
  · rw [hread]
    refine .inl ⟨d, next, rfl, ?_⟩
    cases front with
    | nil => exact (List.cons.inj heq).2 ▸ List.suffix_rfl
    | cons y front => exact ⟨front ++ [x], by rw [(List.cons.inj heq).2]; simp⟩
  · obtain ⟨more, hmore⟩ := fatGetSlots_returns v (fatGetNextClusterID v c)
    rw [hread]
    dsimp only
    rw [hmore, ok_bind]
    refine .inr ⟨endsLong_of_forall hlong, ?_⟩
    rcases fatReadDirectoryEntry_more v.junk hs hlong more with hnone | ⟨d, next, hsome, hlt⟩
    · rw [hnone]
      exact .inl rfl
    · rw [hsome]
      exact .inr ⟨d, next, more, rfl, hlt⟩

/-- The cluster from which the outer loop goes on: the one it looked at, or the second one that was
loaded for an entry at its end. -/
inductive Hop (v : FAT32 Drive) (slots : List Slot) (c : ℕ) : ℕ → Prop
  | stay : Hop v slots c c
  | second (h : EndsLong slots) : Hop v slots c (fatGetNextClusterID v c)

lemma Hop.of_suffix (h : Hop v next c c') (hsuffix : next <:+ slots) : Hop v slots c c' := by
  cases h with
  | stay => exact .stay
  | second h => exact .second (h.of_suffix hsuffix)

lemma Hop.loaded (h : EndsLong slots) :
    Hop v slots c (if fatGetNextClusterID v c ≠ 0 then fatGetNextClusterID v c else c) := by
  by_cases hzero : fatGetNextClusterID v c ≠ 0
  · rw [if_pos hzero]
    exact .second h
  · rw [if_neg hzero]
    exact .stay

/-- The inner loop of `FatPopulateDir` ends. -/
lemma populateCluster_hop {fuel : ℕ} (hfuel : slots.length < fuel) (entries : List DirectoryEntry) :
    populateCluster v fuel slots c entries = .error .nullPointer ∨
      ∃ listed c', populateCluster v fuel slots c entries = .ok (listed, c') ∧ Hop v slots c c' := by
  induction fuel generalizing slots entries with
  | zero => exact absurd hfuel (Nat.not_lt_zero _)
  | succ fuel ih =>
    cases slots with
    | nil => exact .inr ⟨entries, c, rfl, .stay⟩
    | cons s rest =>
      have hrest : rest.length < fuel := Nat.lt_of_succ_lt_succ hfuel
      rw [populateCluster]
      by_cases hs : s.Free
      · rw [if_pos hs]
        refine (ih hrest entries).imp_right ?_
        rintro ⟨listed, c', hrun, hop⟩
        exact ⟨listed, c', hrun, hop.of_suffix (List.suffix_cons s rest)⟩
      · rw [if_neg hs]
        rcases fatNextDirectoryEntry_cases v c hs rest with ⟨d, next, hnext, hsuffix⟩ |
          ⟨hlong, hfault | ⟨d, next, more, hnext, hlt⟩⟩
        · simp only [hnext, ok_bind, ne_eq, not_true_eq_false, if_false, List.length_nil, Nat.sub_zero,
            List.take_length]
          have hlen : next.length < fuel := lt_of_le_of_lt hsuffix.length_le hrest
          refine (ih hlen _).imp_right ?_
          rintro ⟨listed, c', hrun, hop⟩
          exact ⟨listed, c', hrun, hop.of_suffix (hsuffix.trans (List.suffix_cons s rest))⟩
        · rw [hfault]
          exact .inl rfl
        · obtain ⟨fuel, rfl⟩ := Nat.exists_eq_add_one.mpr (Nat.zero_lt_of_lt hrest)
          simp only [hnext, ok_bind, Nat.sub_eq_zero_of_le hlt.le, List.take_zero]
          exact .inr ⟨_, _, rfl, .loaded hlong⟩

/-- Somewhere in the slots of the cluster an entry with the name is read. -/
def ReadsNamed (v : FAT32 Drive) (filename : List UCHAR) (slots : List Slot) (c : ℕ) : Prop :=
  ∃ part d next more second, part <:+ slots ∧ fatNextDirectoryEntry v c part = .ok (d, next, more, second) ∧
    strcmpEq d.name filename = true

lemma ReadsNamed.of_suffix {filename : List UCHAR} (h : ReadsNamed v filename next c) (hsuffix : next <:+ slots) :
    ReadsNamed v filename slots c := by
  obtain ⟨part, d, rest, more, second, hpart, hread⟩ := h
  exact ⟨part, d, rest, more, second, hpart.trans hsuffix, hread⟩

/-- Once the entry has been found, the call returns. -/
lemma deleteFound_returns {chainFuel : ℕ} (hfuel : EOC + 2 ≤ chainFuel) (v : FAT32 Drive) (first second : Buffer)
    (c secondcluster start : ℕ) : ∃ w, (do
      let d ← fatPutCluster v.geometry v.disk first c
      let d ← if secondcluster ≠ 0 then fatPutCluster v.geometry d second secondcluster else .ok d
      let w ← fatZeroFatChain chainFuel { v with disk := d } start
      return .inl w : Result (FAT32 Drive ⊕ ℕ)) = .ok (.inl w) := by
  obtain ⟨d, hd⟩ := drive_writable.fatPutSector v.disk first (fatAcquireSectorForCluster v.geometry c)
    v.geometry.sectorsPerCluster
  by_cases hzero : secondcluster ≠ 0
  · obtain ⟨d', hd'⟩ := drive_writable.fatPutSector d second (fatAcquireSectorForCluster v.geometry secondcluster)
      v.geometry.sectorsPerCluster
    obtain ⟨w, hw⟩ := fatZeroFatChain_returns { v with disk := d' } start hfuel
    refine ⟨w, bind_eq_ok.mpr ⟨d, hd, ?_⟩⟩
    dsimp only
    rw [if_pos hzero]
    exact bind_eq_ok.mpr ⟨d', hd', bind_eq_ok.mpr ⟨w, hw, rfl⟩⟩
  · obtain ⟨w, hw⟩ := fatZeroFatChain_returns { v with disk := d } start hfuel
    refine ⟨w, bind_eq_ok.mpr ⟨d, hd, ?_⟩⟩
    dsimp only
    rw [if_neg hzero]
    exact bind_eq_ok.mpr ⟨d, rfl, bind_eq_ok.mpr ⟨w, hw, rfl⟩⟩

/-- The inner loop of `FatDeleteFile` ends. -/
lemma deleteInCluster_hop (chainFuel : ℕ) {fuel : ℕ} (filename : List UCHAR) (hfuel : slots.length < fuel)
    (passed : List Slot) : deleteInCluster chainFuel v filename fuel passed slots c = .error .nullPointer ∨
      (∃ c', deleteInCluster chainFuel v filename fuel passed slots c = .ok (.inr c') ∧ Hop v slots c c') ∨
      (ReadsNamed v filename slots c ∧ (EOC + 2 ≤ chainFuel →
        ∃ w, deleteInCluster chainFuel v filename fuel passed slots c = .ok (.inl w))) := by
  induction fuel generalizing slots passed with
  | zero => exact absurd hfuel (Nat.not_lt_zero _)
  | succ fuel ih =>
    cases slots with
    | nil => exact .inr (.inl ⟨c, rfl, .stay⟩)
    | cons s rest =>
      have hrest : rest.length < fuel := Nat.lt_of_succ_lt_succ hfuel
      have hcons : rest <:+ s :: rest := List.suffix_cons s rest
      rw [deleteInCluster]
      by_cases hs : s.Free
      · rw [if_pos hs]
        refine (ih hrest _).imp_right (Or.imp ?_ (And.imp_left fun hnamed => hnamed.of_suffix hcons))
        rintro ⟨c', hrun, hop⟩
        exact ⟨c', hrun, hop.of_suffix hcons⟩
      · rw [if_neg hs]
        rcases fatNextDirectoryEntry_cases v c hs rest with ⟨d, next, hnext, hsuffix⟩ |
          ⟨hlong, hfault | ⟨d, next, more, hnext, hlt⟩⟩
        · rw [hnext, ok_bind]
          dsimp only
          by_cases hnamed : strcmpEq d.name filename = true
          · rw [if_pos hnamed]
            have hread : ReadsNamed v filename (s :: rest) c := ⟨_, d, next, [], 0, List.suffix_rfl, hnext, hnamed⟩
            exact .inr (.inr ⟨hread, fun hchain => deleteFound_returns hchain v _ _ c 0 d.firstCluster⟩)
          · simp only [if_neg hnamed, ne_eq, not_true_eq_false, if_false, List.length_nil, Nat.sub_zero,
              List.take_length]
            have hlen : next.length < fuel := lt_of_le_of_lt hsuffix.length_le hrest
            have hskip := hsuffix.trans hcons
            refine (ih hlen _).imp_right (Or.imp ?_ (And.imp_left fun hmet => hmet.of_suffix hskip))
            rintro ⟨c', hrun, hop⟩
            exact ⟨c', hrun, hop.of_suffix hskip⟩
        · rw [hfault]
          exact .inl rfl
        · rw [hnext, ok_bind]
          dsimp only
          by_cases hnamed : strcmpEq d.name filename = true
          · rw [if_pos hnamed]
            have hread : ReadsNamed v filename (s :: rest) c := ⟨_, d, next, more, _, List.suffix_rfl, hnext, hnamed⟩
            exact .inr (.inr ⟨hread, fun hchain => deleteFound_returns hchain v _ _ c _ d.firstCluster⟩)
          · obtain ⟨fuel, rfl⟩ := Nat.exists_eq_add_one.mpr (Nat.zero_lt_of_lt hrest)
            simp only [if_neg hnamed, Nat.sub_eq_zero_of_le hlt.le, List.take_zero]
            exact .inr (.inl ⟨_, rfl, .loaded hlong⟩)

end Inner

section Outer
variable {v : FAT32 Drive} {slots : List Slot} {c c' : ℕ} {l : List ℕ}

/-- The walk of the readers ends in a cluster that does not leave an entry set unfinished. -/
def EndsClean (v : FAT32 Drive) (c : ℕ) : Prop :=
  ∃ l last slots, Links (fatGetNextClusterID v) (fun value => EOC ≤ value) c l ∧ l.getLast? = some last ∧
    fatGetSlots v last = .ok slots ∧ ¬ EndsLong slots

lemma Hop.readEnds (hop : Hop v slots c c')
    (h : EOC ≤ fatGetNextClusterID v c' ∨ ReadEnds v (fatGetNextClusterID v c')) : ReadEnds v c := by
  cases hop with
  | stay => exact ends_iff.mpr h
  | second _ => exact ends_iff.mpr (.inr (ends_iff.mpr h))

/-- Behind a hop the walk ends, or a shorter part of the chain is left. -/
lemma Hop.links (hop : Hop v slots c c') (h : Links (fatGetNextClusterID v) (fun value => EOC ≤ value) c l)
    (hlast : l.getLast? = some c → ¬ EndsLong slots) : EOC ≤ fatGetNextClusterID v c' ∨
      ∃ t, Links (fatGetNextClusterID v) (fun value => EOC ≤ value) (fatGetNextClusterID v c') t ∧
        t.length < l.length ∧ t.getLast? = l.getLast? := by
  cases h with
  | last hstop =>
    cases hop with
    | stay => exact .inl hstop
    | second hlong => exact absurd hlong (hlast rfl)
  | @link _ t _ tail =>
    obtain ⟨t', rfl⟩ := tail.eq_cons
    cases hop with
    | stay => exact .inr ⟨_, tail, Nat.lt_succ_self _, (List.getLast?_cons_cons).symm⟩
    | second _ =>
      rcases tail.step with ⟨hstop, -⟩ | ⟨-, hnext⟩
      · exact .inl hstop
      · obtain ⟨t, rfl⟩ := hnext.eq_cons
        exact .inr ⟨_, hnext, by simp, by rw [List.getLast?_cons_cons, List.getLast?_cons_cons]⟩

lemma populateFrom_ends {fuel : ℕ} (hl : Links (fatGetNextClusterID v) (fun value => EOC ≤ value) c l)
    (hlast : ∀ last, l.getLast? = some last → ∀ slots, fatGetSlots v last = .ok slots → ¬ EndsLong slots)
    (hfuel : l.length ≤ fuel) (entries : List DirectoryEntry) :
    populateFrom v fuel c entries ≠ .error .hang := by
  induction fuel generalizing c l entries with
  | zero => exact absurd (List.length_eq_zero_iff.mp (Nat.eq_zero_of_le_zero hfuel)) hl.ne_nil
  | succ fuel ih =>
    obtain ⟨slots, hslots⟩ := fatGetSlots_returns v c
    rw [populateFrom, hslots, ok_bind]
    rcases populateCluster_hop (v := v) (c := c) (Nat.lt_succ_self slots.length) entries with
      hfault | ⟨listed, c', hrun, hop⟩
    · rw [hfault]
      simp
    · rw [hrun, ok_bind]
      dsimp only
      rcases hop.links hl fun hc => hlast c hc slots hslots with hstop | ⟨t, ht, hlen, hsame⟩
      · rw [if_pos hstop]
        simp
      · by_cases hstop : EOC ≤ fatGetNextClusterID v c'
        · rw [if_pos hstop]
          simp
        · rw [if_neg hstop]
          rw [← hsame] at hlast
          exact ih ht hlast (by omega) listed

lemma readEnds_of_populateFrom {fuel : ℕ} {entries : List DirectoryEntry}
    (h : populateFrom v fuel c entries ≠ .error .hang) :
    ReadEnds v c ∨ populateFrom v fuel c entries = .error .nullPointer := by
  induction fuel generalizing c entries with
  | zero => exact absurd rfl h
  | succ fuel ih =>
    obtain ⟨slots, hslots⟩ := fatGetSlots_returns v c
    rw [populateFrom, hslots, ok_bind] at h ⊢
    rcases populateCluster_hop (v := v) (c := c) (Nat.lt_succ_self slots.length) entries with
      hfault | ⟨listed, c', hrun, hop⟩
    · rw [hfault]
      exact .inr rfl
    · rw [hrun, ok_bind] at h ⊢
      dsimp only at h ⊢
      by_cases hstop : EOC ≤ fatGetNextClusterID v c'
      · exact .inl (hop.readEnds (.inl hstop))
      · rw [if_neg hstop] at h ⊢
        exact (ih h).imp_left fun hends => hop.readEnds (.inr hends)

lemma deleteFrom_ends {chainFuel fuel : ℕ} (hchain : EOC + 2 ≤ chainFuel) (filename : List UCHAR)
    (hl : Links (fatGetNextClusterID v) (fun value => EOC ≤ value) c l)
    (hlast : ∀ last, l.getLast? = some last → ∀ slots, fatGetSlots v last = .ok slots → ¬ EndsLong slots)
    (hfuel : l.length ≤ fuel) : deleteFrom chainFuel v filename fuel c ≠ .error .hang := by
  induction fuel generalizing c l with
  | zero => exact absurd (List.length_eq_zero_iff.mp (Nat.eq_zero_of_le_zero hfuel)) hl.ne_nil
  | succ fuel ih =>
    obtain ⟨slots, hslots⟩ := fatGetSlots_returns v c
    rw [deleteFrom, hslots, ok_bind]
    rcases deleteInCluster_hop (v := v) (c := c) chainFuel filename
      (Nat.lt_succ_self slots.length) [] with hfault | ⟨c', hrun, hop⟩ | ⟨-, hreturns⟩
    · rw [hfault]
      simp
    · rw [hrun, ok_bind]
      dsimp only
      rcases hop.links hl fun hc => hlast c hc slots hslots with hstop | ⟨t, ht, hlen, hsame⟩
      · rw [if_pos hstop]
        simp
      · by_cases hstop : EOC ≤ fatGetNextClusterID v c'
        · rw [if_pos hstop]
          simp
        · rw [if_neg hstop]
          rw [← hsame] at hlast
          exact ih ht hlast (by omega)
    · obtain ⟨w, hw⟩ := hreturns hchain
      rw [hw]
      simp

/-- The walk comes to a cluster in which an entry with the name is read. -/
def MeetsNamed (v : FAT32 Drive) (filename : List UCHAR) (c : ℕ) : Prop :=
  ∃ x slots, ComesTo (fatGetNextClusterID v) (fun value => EOC ≤ value) c x ∧ fatGetSlots v x = .ok slots ∧
    ReadsNamed v filename slots x

lemma MeetsNamed.link {filename : List UCHAR} (hgo : ¬ EOC ≤ fatGetNextClusterID v c)
    (h : MeetsNamed v filename (fatGetNextClusterID v c)) : MeetsNamed v filename c := by
  obtain ⟨x, slots, hx, hread⟩ := h
  exact ⟨x, slots, .link hgo hx, hread⟩

lemma Hop.meetsNamed {filename : List UCHAR} (hop : Hop v slots c c') (hgo : ¬ EOC ≤ fatGetNextClusterID v c')
    (h : MeetsNamed v filename (fatGetNextClusterID v c')) : ReadEnds v c ∨ MeetsNamed v filename c := by
  cases hop with
  | stay => exact .inr (h.link hgo)
  | second _ =>
    by_cases hstop : EOC ≤ fatGetNextClusterID v c
    · exact .inl (ends_iff.mpr (.inl hstop))
    · exact .inr ((h.link hgo).link hstop)

lemma readEnds_of_deleteFrom {chainFuel fuel : ℕ} {filename : List UCHAR}
    (h : deleteFrom chainFuel v filename fuel c ≠ .error .hang) : ReadEnds v c ∨ MeetsNamed v filename c ∨
      deleteFrom chainFuel v filename fuel c = .error .nullPointer := by
  induction fuel generalizing c with
  | zero => exact absurd rfl h
  | succ fuel ih =>
    obtain ⟨slots, hslots⟩ := fatGetSlots_returns v c
    rw [deleteFrom, hslots, ok_bind] at h ⊢
    rcases deleteInCluster_hop (v := v) (c := c) chainFuel filename
      (Nat.lt_succ_self slots.length) [] with hfault | ⟨c', hrun, hop⟩ | ⟨hnamed, -⟩
    · rw [hfault]
      exact .inr (.inr rfl)
    · rw [hrun, ok_bind] at h ⊢
      dsimp only at h ⊢
      by_cases hstop : EOC ≤ fatGetNextClusterID v c'
      · exact .inl (hop.readEnds (.inl hstop))
      · rw [if_neg hstop] at h ⊢
        rcases ih h with hends | hmeets | hfault
        · exact .inl (hop.readEnds (.inr hends))
        · exact (hop.meetsNamed hstop hmeets).imp_right .inl
        · exact .inr (.inr hfault)
    · exact .inr (.inl ⟨c, slots, .start, hslots, hnamed⟩)

end Outer

section Walks

/-- What decides whether each of the walks comes to an end. -/
structure WalksEnd (v : FAT32 Drive) : Prop where
  readFile : ∀ dirent, Terminates (fun fuel => fatReadFile fuel v dirent) ↔ ReadEnds v dirent.firstCluster
  print : ∀ dir, Terminates (fun fuel => fatPrintDirectory fuel v dir) ↔
    ∀ e ∈ dir.entries, RawEnds v e.firstCluster
  locate : ∀ count c, Terminates (fun fuel => fatLocateEntries count fuel v c) ↔
    RawEnds v c ∨ ∃ x, ComesTo v.FAT (fun value => EOC ≤ value) c x ∧ HasRun v count x
  populate : ∀ c, (EndsClean v c → Terminates fun fuel => fatPopulateDir fuel v c) ∧
    (Terminates (fun fuel => fatPopulateDir fuel v c) →
      ReadEnds v c ∨ ∃ fuel, fatPopulateDir fuel v c = .error .nullPointer)
  delete : ∀ c filename, (EndsClean v c → Terminates fun fuel => fatDeleteFile fuel v c filename) ∧
    (Terminates (fun fuel => fatDeleteFile fuel v c filename) →
      ReadEnds v c ∨ MeetsNamed v filename c ∨ ∃ fuel, fatDeleteFile fuel v c filename = .error .nullPointer)

variable (v : FAT32 Drive) (c : ℕ)

lemma fatPopulateDir_eq_error {fuel : ℕ} {fault : Fault} :
    fatPopulateDir fuel v c = .error fault ↔ populateFrom v fuel c [] = .error fault := by
  rw [fatPopulateDir]
  cases populateFrom v fuel c [] with
  | ok es => simp
  | error f => simp

/-- The chain of the directory, and no set is unfinished at its end. -/
lemma EndsClean.chain {v : FAT32 Drive} {c : ℕ} (h : EndsClean v c) :
    ∃ l, Links (fatGetNextClusterID v) (fun value => EOC ≤ value) c l ∧
      ∀ last, l.getLast? = some last → ∀ slots, fatGetSlots v last = .ok slots → ¬ EndsLong slots := by
  obtain ⟨l, last, slots, hl, hlast, hslots, hclean⟩ := h
  refine ⟨l, hl, fun x hx slots' hslots' => ?_⟩
  obtain rfl := Option.some.inj (hlast.symm.trans hx)
  obtain rfl := Except.ok.inj (hslots.symm.trans hslots')
  exact hclean

lemma fatPopulateDir_terminates (h : EndsClean v c) : Terminates fun fuel => fatPopulateDir fuel v c := by
  obtain ⟨l, hl, hend⟩ := h.chain
  exact ⟨l.length, fun hhang => populateFrom_ends hl hend le_rfl [] ((fatPopulateDir_eq_error v c).mp hhang)⟩

lemma fatDeleteFile_terminates (filename : List UCHAR) (h : EndsClean v c) :
    Terminates fun fuel => fatDeleteFile fuel v c filename := by
  obtain ⟨l, hl, hend⟩ := h.chain
  exact ⟨max l.length (EOC + 2), deleteFrom_ends (le_max_right _ _) filename hl hend (le_max_left _ _)⟩

/-- A volume on which cluster 2 is linked to itself. -/
def selfLinked : FAT32 Drive :=
  ⟨small, fun c => if c = 2 then 2 else if c < 2 then EOC else 0, 3, blank, fun _ => 0⟩

end Walks
end Open98.Fat32
