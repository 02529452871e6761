import Mathlib.Data.List.Nodup
import Open98.Fat32.Insertion
import Open98.Fat32.SlotSearch
import Open98.Library.Overwrite

/-! The 8.3 names of the entries that are created in a directory. -/
namespace Open98.Fat32
open Open98.Library

section Parts

/-- The part of a name before its last dot, and the extension behind it. -/
inductive Parted : List UCHAR → List UCHAR → List UCHAR → Prop
  | plain {fname} (h : 0x2E ∉ fname) : Parted fname fname []
  | dotted {stem extension} (h : 0x2E ∉ extension) : Parted (stem ++ 0x2E :: extension) stem extension

/-- The same in the first characters, up to case and to blanks at the end. -/
def SameUpTo (n : ℕ) (s t : List UCHAR) : Prop :=
  ∀ k < n, kToupper (s.getD k 0x20) = kToupper (t.getD k 0x20)

/-- The first parts of two names leave the same eight characters. -/
inductive StemsAlike : List UCHAR → List UCHAR → Prop
  | whole {s t} (hs : s.length ≤ 8) (ht : t.length ≤ 8) (h : SameUpTo 8 s t) : StemsAlike s t
  | cut {s t} (hs : 8 < s.length) (ht : 8 < t.length) (h : SameUpTo 6 s t) : StemsAlike s t
  | tilde {s t} (hs : 8 < s.length) (ht : t.length ≤ 8) (h : SameUpTo 8 (s.take 6 ++ [0x7E, 0x31]) t) :
      StemsAlike s t
  | tilde' {s t} (hs : s.length ≤ 8) (ht : 8 < t.length) (h : SameUpTo 8 s (t.take 6 ++ [0x7E, 0x31])) :
      StemsAlike s t

/-- Two names agree in what an 8.3 name keeps of them. -/
def Alike (a b : List UCHAR) : Prop :=
  ∃ s e t x, Parted a s e ∧ Parted b t x ∧ StemsAlike s t ∧ SameUpTo 3 e x

variable {fname stem extension : List UCHAR}

lemma dotIndex_none {n : ℕ} (h : ∀ i < n, fname.getD i 0 ≠ 0x2E) : dotIndex fname n = none := by
  induction n with
  | zero => rfl
  | succ n ih =>
    rw [dotIndex, if_neg (h n (Nat.lt_succ_self n))]
    exact ih fun i hi => h i (by omega)

lemma dotIndex_some {n i : ℕ} (hi : i < n) (hdot : fname.getD i 0 = 0x2E)
    (h : ∀ j, i < j → j < n → fname.getD j 0 ≠ 0x2E) : dotIndex fname n = some i := by
  induction n with
  | zero => omega
  | succ n ih =>
    rw [dotIndex]
    by_cases hin : i = n
    · rw [if_pos (hin ▸ hdot), hin]
    · rw [if_neg (h n (by omega) (Nat.lt_succ_self n))]
      exact ih (by omega) fun j hj hjn => h j hj (by omega)

lemma getD_notMem {c : UCHAR} (hc : c ≠ 0) (h : c ∉ fname) (i : ℕ) : fname.getD i 0 ≠ c := by
  intro heq
  by_cases hi : i < fname.length
  · rw [List.getD_eq_getElem _ _ hi] at heq
    exact h (heq ▸ List.getElem_mem hi)
  · rw [List.getD_eq_default _ _ (by omega)] at heq
    exact hc heq.symm

lemma exists_parted (fname : List UCHAR) : ∃ stem extension, Parted fname stem extension := by
  by_cases hdot : (0x2E : UCHAR) ∈ fname
  · induction fname with
    | nil => cases hdot
    | cons c fname ih =>
      by_cases hrest : (0x2E : UCHAR) ∈ fname
      · obtain ⟨stem, extension, h⟩ := ih hrest
        cases h with
        | plain h => exact absurd hrest h
        | dotted h =>
          exact ⟨c :: stem, extension, show Parted ((c :: stem) ++ 0x2E :: extension) _ _ from .dotted h⟩
      · obtain rfl : 0x2E = c := (List.mem_cons.mp hdot).resolve_right hrest
        exact ⟨[], fname, show Parted ([] ++ 0x2E :: fname) _ _ from .dotted hrest⟩
  · exact ⟨fname, [], .plain hdot⟩

/-- What is kept of the first part. -/
def shortened (stem : List UCHAR) : List UCHAR := if 8 < stem.length then stem.take 6 ++ [0x7E, 0x31] else stem

lemma shortened_byte (stem : List UCHAR) {k : ℕ} (hk : k < 8) :
    (if 8 < stem.length then
      if k < 6 then kToupper (stem.getD k 0) else if k = 6 then 0x7E else 0x31
    else if k < stem.length then kToupper (stem.getD k 0) else 0x20) =
      kToupper ((shortened stem).getD k 0x20) := by
  unfold shortened
  by_cases hlong : 8 < stem.length
  · rw [if_pos hlong, if_pos hlong]
    have hsix : (stem.take 6).length = 6 := by rw [List.length_take]; omega
    by_cases hk6 : k < 6
    · rw [if_pos hk6, List.getD_append _ _ _ _ (by omega), List.getD_eq_getElem _ _ (by omega),
        List.getD_eq_getElem _ _ (by omega), List.getElem_take]
    · rw [if_neg hk6, List.getD_append_right _ _ _ _ (by omega), hsix]
      obtain rfl | rfl : k = 6 ∨ k = 7 := by omega
      · rfl
      · rfl
  · rw [if_neg hlong, if_neg hlong]
    by_cases hkl : k < stem.length
    · rw [if_pos hkl, List.getD_eq_getElem _ _ hkl, List.getD_eq_getElem _ _ hkl]
    · rw [if_neg hkl, List.getD_eq_default _ _ (by omega)]
      rfl

/-- The eleven bytes, from the two parts of the name. -/
lemma name83_parted (h : Parted fname stem extension) (k : ℕ) :
    name83 fname k =
      if k < 8 then kToupper ((shortened stem).getD k 0x20) else kToupper (extension.getD (k-8) 0x20) := by
  cases h with
  | plain hdot =>
    have hindex : dotIndex fname fname.length = none :=
      dotIndex_none fun i _ => getD_notMem (by decide) hdot i
    simp only [name83, hindex, Option.getD_none]
    by_cases hk : k < 8
    · rw [if_pos hk, if_pos hk]
      exact shortened_byte fname hk
    · rw [if_neg hk, if_neg hk]
      rfl
  | dotted hdot =>
    have hlen : (stem ++ 0x2E :: extension).length = stem.length + extension.length + 1 := by
      rw [List.length_append, List.length_cons]
      omega
    have hindex : dotIndex (stem ++ 0x2E :: extension) (stem ++ 0x2E :: extension).length =
        some stem.length := by
      refine dotIndex_some (by omega) ?_ fun j hj _ => ?_
      · rw [List.getD_append_right _ _ _ _ le_rfl, Nat.sub_self]
        rfl
      · obtain ⟨n, rfl⟩ : ∃ n, j = stem.length + (n+1) := ⟨j - stem.length - 1, by omega⟩
        rw [List.getD_append_right _ _ _ _ (by omega), Nat.add_sub_cancel_left, List.getD_cons_succ]
        exact getD_notMem (by decide) hdot n
    simp only [name83, hindex, Option.getD_some]
    by_cases hk : k < 8
    · rw [if_pos hk, if_pos hk, ← shortened_byte stem hk]
      by_cases hkl : k < stem.length
      · rw [List.getD_append _ _ _ _ hkl]
      · rw [if_neg (show ¬ 8 < stem.length by omega), if_neg (show ¬ 8 < stem.length by omega),
          if_neg hkl, if_neg hkl]
    · rw [if_neg hk, if_neg hk]
      by_cases hke : k - 8 < extension.length
      · rw [if_neg (by omega), show stem.length + 1 + (k-8) = stem.length + ((k-8) + 1) by omega,
          List.getD_append_right _ _ _ _ (by omega), Nat.add_sub_cancel_left, List.getD_cons_succ,
          List.getD_eq_getElem _ _ hke, List.getD_eq_getElem _ _ hke]
      · rw [if_pos (by omega), List.getD_eq_default _ _ (by omega)]
        rfl

lemma shortened_of_long (h : 8 < stem.length) : shortened stem = stem.take 6 ++ [0x7E, 0x31] := if_pos h

lemma shortened_of_le (h : stem.length ≤ 8) : shortened stem = stem := if_neg (by omega)

lemma sameUpTo_cut {s t : List UCHAR} (hs : 8 < s.length) (ht : 8 < t.length) :
    SameUpTo 8 (s.take 6 ++ [0x7E, 0x31]) (t.take 6 ++ [0x7E, 0x31]) ↔ SameUpTo 6 s t := by
  have hfront : ∀ u : List UCHAR, 8 < u.length → ∀ k < 6,
      (u.take 6 ++ [0x7E, 0x31]).getD k 0x20 = u.getD k 0x20 := by
    intro u hu k hk
    have hsix : (u.take 6).length = 6 := by rw [List.length_take]; omega
    rw [List.getD_append _ _ _ _ (by omega), List.getD_eq_getElem _ _ (by omega),
      List.getD_eq_getElem _ _ (by omega), List.getElem_take]
  have hback : ∀ u : List UCHAR, 8 < u.length → ∀ k, 6 ≤ k →
      (u.take 6 ++ [0x7E, 0x31]).getD k 0x20 = ([0x7E, 0x31] : List UCHAR).getD (k-6) 0x20 := by
    intro u hu k hk
    have hsix : (u.take 6).length = 6 := by rw [List.length_take]; omega
    rw [List.getD_append_right _ _ _ _ (by omega), hsix]
  constructor
  · intro h k hk
    rw [← hfront s hs k hk, ← hfront t ht k hk]
    exact h k (by omega)
  · intro h k hk
    by_cases hk6 : k < 6
    · rw [hfront s hs k hk6, hfront t ht k hk6]
      exact h k hk6
    · rw [hback s hs k (by omega), hback t ht k (by omega)]

lemma stemsAlike_iff (s t : List UCHAR) : StemsAlike s t ↔ SameUpTo 8 (shortened s) (shortened t) := by
  constructor
  · intro h
    cases h with
    | whole hs ht h => rwa [shortened_of_le hs, shortened_of_le ht]
    | cut hs ht h => rwa [shortened_of_long hs, shortened_of_long ht, sameUpTo_cut hs ht]
    | tilde hs ht h => rwa [shortened_of_long hs, shortened_of_le ht]
    | tilde' hs ht h => rwa [shortened_of_le hs, shortened_of_long ht]
  · intro h
    by_cases hs : 8 < s.length <;> by_cases ht : 8 < t.length
    · rw [shortened_of_long hs, shortened_of_long ht, sameUpTo_cut hs ht] at h
      exact .cut hs ht h
    · rw [shortened_of_long hs, shortened_of_le (by omega)] at h
      exact .tilde hs (by omega) h
    · rw [shortened_of_le (by omega), shortened_of_long ht] at h
      exact .tilde' (by omega) ht h
    · rw [shortened_of_le (by omega), shortened_of_le (by omega)] at h
      exact .whole (by omega) (by omega) h

/-- Two names get the same 8.3 name if and only if they are alike. -/
lemma name83_eq_iff (a b : List UCHAR) : (∀ k < 11, name83 a k = name83 b k) ↔ Alike a b := by
  have hparts : ∀ {s e t x}, Parted a s e → Parted b t x →
      ((∀ k < 11, name83 a k = name83 b k) ↔ StemsAlike s t ∧ SameUpTo 3 e x) := by
    intro s e t x ha hb
    rw [stemsAlike_iff]
    constructor
    · intro h
      refine ⟨fun k hk => ?_, fun k hk => ?_⟩
      · have hbyte := h k (by omega)
        rwa [name83_parted ha, name83_parted hb, if_pos hk, if_pos hk] at hbyte
      · have hbyte := h (k+8) (by omega)
        rwa [name83_parted ha, name83_parted hb, if_neg (by omega), if_neg (by omega),
          Nat.add_sub_cancel] at hbyte
    · intro ⟨hstem, hext⟩ k hk
      rw [name83_parted ha, name83_parted hb]
      by_cases hk8 : k < 8
      · rw [if_pos hk8, if_pos hk8]
        exact hstem k hk8
      · rw [if_neg hk8, if_neg hk8]
        exact hext (k-8) (by omega)
  constructor
  · intro h
    obtain ⟨s, e, ha⟩ := exists_parted a
    obtain ⟨t, x, hb⟩ := exists_parted b
    exact ⟨s, e, t, x, ha, hb, (hparts ha hb).mp h⟩
  · intro ⟨s, e, t, x, ha, hb, halike⟩
    exact (hparts ha hb).mpr halike

lemma kToupper_eq_iff {c x : UCHAR} (hx : x = 0 ∨ x = 0xE5) : kToupper c = x ↔ c = x := by
  unfold kToupper
  rcases hx with rfl | rfl
  · split_ifs with h
    · constructor <;> intro heq <;> bv_omega
    · exact Iff.rfl
  · split_ifs with h
    · constructor <;> intro heq <;> bv_omega
    · exact Iff.rfl

/-- The first byte of the 8.3 name is a blank or the first character. -/
lemma name83_head (hne : fname ≠ []) : ∃ c, fname.head? = some c ∧
    (c = 0x2E ∧ name83 fname 0 = 0x20 ∨ name83 fname 0 = kToupper c) := by
  obtain ⟨stem, extension, h⟩ := exists_parted fname
  have hbyte := name83_parted h 0
  rw [if_pos (by decide)] at hbyte
  have hfirst : ∀ c rest, (shortened (c :: rest)).getD 0 0x20 = c := by
    intro c rest
    unfold shortened
    split_ifs <;> rfl
  cases h with
  | plain hdot =>
    obtain ⟨c, rest, rfl⟩ := List.exists_cons_of_ne_nil hne
    rw [hfirst] at hbyte
    exact ⟨c, rfl, .inr hbyte⟩
  | dotted hdot =>
    cases stem with
    | nil => exact ⟨0x2E, rfl, .inl ⟨rfl, hbyte⟩⟩
    | cons c rest =>
      rw [hfirst] at hbyte
      exact ⟨c, rfl, .inr hbyte⟩

lemma name83_ne_zero (hne : fname ≠ []) (hnul : NoNul fname) : name83 fname 0 ≠ 0 := by
  obtain ⟨c, hhead, ⟨-, hblank⟩ | hc⟩ := name83_head hne
  · rw [hblank]
    decide
  · rw [hc, ne_eq, kToupper_eq_iff (.inl rfl)]
    exact hnul c (List.mem_of_head? hhead)

/-- A short slot reads as free when the name starts with the mark of a deleted entry. -/
lemma name83_deleted_iff (hne : fname ≠ []) : name83 fname 0 = 0xE5 ↔ fname.head? = some 0xE5 := by
  obtain ⟨c, hhead, ⟨rfl, hblank⟩ | hc⟩ := name83_head hne
  · rw [hblank, hhead]
    decide
  · rw [hc, kToupper_eq_iff (.inr rfl), hhead, Option.some.injEq]

end Parts

section Entered
variable {δ : Type} [Disk δ]

/-- The name field of a short slot. -/
def Slot.shortBytes (s : Slot) : Fin 11 → UCHAR := fun k => s (k.castLE (by decide))

/-- The live short slots that have come into the directory `d` have different names. -/
def ShortNamesUnique (v w : FAT32 δ) (d : ℕ) : Prop :=
  ∃ l l', IsChain v.geometry v.FAT d l ∧ IsChain w.geometry w.FAT d l' ∧
    ((written Slot.Free Slot.Short (l.flatMap v.dirSlots) (l'.flatMap w.dirSlots)).map Slot.shortBytes).Nodup

/-- The call creates an entry with a nonempty name in the directory `d`; between such calls the memory may
change. -/
def FatOp.CreatesIn (d : ℕ) : FatOp → Prop
  | writeFile dir _ fname _ => dir = d ∧ fname ≠ [] ∧ NoNul fname
  | makeDirectory dir dirname => dir = d ∧ dirname ≠ [] ∧ NoNul dirname
  | deleteFile _ _ => False
  | scribble _ => True

/-- The name of the entry that the call creates. -/
def FatOp.created : FatOp → Option (List UCHAR)
  | writeFile _ _ fname _ => some fname
  | makeDirectory _ dirname => some dirname
  | deleteFile _ _ => none
  | scribble _ => none

/-- The names whose short slots are live. -/
def liveNames (ops : List FatOp) : List (List UCHAR) :=
  (ops.filterMap FatOp.created).filter fun fname => fname.head? ≠ some 0xE5

def name83Bytes (fname : List UCHAR) : Fin 11 → UCHAR := fun k => name83 fname k

variable {fname : List UCHAR} {attrs : UCHAR} {first flen : ℕ} {old : Slot}

omit [Disk δ] in
lemma shortSlot_bytes (k : Fin 11) :
    shortSlot fname attrs first flen old (k.castLE (by decide)) = name83 fname k := by
  have hk : ∀ j : Fin 32, 11 ≤ j.val → (k.castLE (by decide) : Fin 32) ≠ j := fun j hj heq => by
    have := congrArg Fin.val heq
    simp only [Fin.val_castLE] at this
    omega
  simp [shortSlot, fillEntry, Slot.poke, fatWrite83FileName, hk]

omit [Disk δ] in
lemma shortSlot_zero : shortSlot fname attrs first flen old 0 = name83 fname 0 := shortSlot_bytes 0

omit [Disk δ] in
lemma shortSlot_short (hattrs : attrs ≠ LFN) (hne : fname ≠ []) (hnul : NoNul fname) :
    (shortSlot fname attrs first flen old).Short ↔ fname.head? ≠ some 0xE5 := by
  rw [Slot.Short, shortSlot_attrs, Slot.Free, shortSlot_zero, or_iff_right (name83_ne_zero hne hnul),
    name83_deleted_iff hne]
  exact and_iff_left hattrs

omit [Disk δ] in
/-- A long-name slot that is written for the name; the first one has a mark on its number. -/
lemma LongSlotsOf.slot {longs : List Slot} (h : LongSlotsOf fname longs) {t : ℕ} (ht : t < longs.length) :
    ∃ (old : Slot) (checksum : UCHAR) (s : Slot),
      s = longNameSlot old (longs.length - 1 - t) checksum fname ∧
        longs[t] = if t = 0 then Function.update s 0 (s 0 ||| 0x40) else s := by
  obtain ⟨start, -, hwrite⟩ := h
  cases start with
  | nil => cases hwrite
  | cons old start =>
    rw [fatWriteLongFileNameEntries, List.mapIdx_cons] at hwrite
    obtain rfl := Except.ok.inj hwrite
    cases t with
    | zero =>
      refine ⟨old, fatCheckSumFNAME (name83 fname), _, rfl, ?_⟩
      simp
    | succ t =>
      simp only [List.length_cons, List.length_mapIdx] at ht
      refine ⟨start[t], fatCheckSumFNAME (name83 fname), _, rfl, ?_⟩
      simp

omit [Disk δ] in
lemma LongSlotsOf.ne_nil {longs : List Slot} (h : LongSlotsOf fname longs) : fname ≠ [] := by
  rintro rfl
  obtain ⟨start, hlen, hwrite⟩ := h
  obtain rfl := List.length_eq_zero_iff.mp hlen
  cases hwrite

omit [Disk δ] in
lemma LongSlotsOf.notShort {longs : List Slot} (h : LongSlotsOf fname longs) : ∀ s ∈ longs, ¬ s.Short := by
  intro s hs hshort
  obtain ⟨t, ht, rfl⟩ := List.mem_iff_getElem.mp hs
  obtain ⟨old, checksum, s, rfl, hslot⟩ := h.slot ht
  refine hshort.2 ?_
  rw [hslot]
  split_ifs
  · rw [Function.update_of_ne (by decide)]
    simp [longNameSlot, Slot.poke]
  · simp [longNameSlot, Slot.poke]

variable {v w : FAT32 δ} {S : List Slot} {d : ℕ} {l l' : List ℕ}

/-- One call puts one live short slot into the directory, unless its name is not live. -/
lemma Inserted.adds {A run longs B : List Slot} {short : Slot}
    (h : Inserted v w d l fname attrs l' A run longs short B) (hattrs : attrs ≠ LFN) (hne : fname ≠ [])
    (hnul : NoNul fname) (hbefore : Overwrites Slot.Free S (l.flatMap v.dirSlots)) :
    Overwrites Slot.Free S (l'.flatMap w.dirSlots) ∧
      ((written Slot.Free Slot.Short S (l'.flatMap w.dirSlots)).map Slot.shortBytes).Perm
        ((if fname.head? ≠ some 0xE5 then [name83Bytes fname] else []) ++
          (written Slot.Free Slot.Short S (l.flatMap v.dirSlots)).map Slot.shortBytes) := by
  have hgrown := hbefore.append (addedSlots v.geometry l l')
  have hold : written Slot.Free Slot.Short S (l.flatMap v.dirSlots ++ addedSlots v.geometry l l') =
      written Slot.Free Slot.Short S (l.flatMap v.dirSlots) :=
    written_append _ _ fun s hs hshort => hshort.1 (List.eq_of_mem_replicate hs ▸ zeroSlot_free)
  rw [h.before] at hgrown hold
  have hnew : ((longs ++ [short]).filter Slot.Short).map Slot.shortBytes =
      if fname.head? ≠ some 0xE5 then [name83Bytes fname] else [] := by
    obtain ⟨first, flen, old, rfl⟩ := h.short_eq
    have hlongs : longs.filter Slot.Short = [] :=
      List.filter_eq_nil_iff.mpr fun s hs => by simpa using h.longSlots.notShort s hs
    rw [List.filter_append, hlongs, List.nil_append, List.filter_cons, List.filter_nil]
    simp only [decide_eq_true_eq, shortSlot_short hattrs hne hnul]
    split_ifs
    · exact congrArg (fun bytes => [bytes]) (funext fun k => shortSlot_bytes k)
    · rfl
  rw [h.after, ← hnew, ← List.map_append, ← hold]
  exact ⟨hgrown.write h.free h.length,
    (written_write (fun s hs hfree => hs.1 hfree) hgrown h.free h.length).map _⟩

/-- What a call that creates an entry, or a change of memory, does to the directory. -/
lemma FatOp.CreatesIn.step {fuel : ℕ} (store : ClusterStore v.geometry δ) (hg : v.geometry.Addressable)
    (ready : AllocReady v) (hl : IsChain v.geometry v.FAT d l)
    (hbefore : Overwrites Slot.Free S (l.flatMap v.dirSlots)) {o : FatOp} (horderly : o.Orderly v)
    (ho : o.CreatesIn d) (hw : o.apply fuel v = some w) :
    w.geometry = v.geometry ∧ AllocReady w ∧ ∃ l', IsChain w.geometry w.FAT d l' ∧
      Overwrites Slot.Free S (l'.flatMap w.dirSlots) ∧
      ((written Slot.Free Slot.Short S (l'.flatMap w.dirSlots)).map Slot.shortBytes).Perm
        ((liveNames [o]).map name83Bytes ++
          (written Slot.Free Slot.Short S (l.flatMap v.dirSlots)).map Slot.shortBytes) := by
  have hcreate : ∀ {fname attrs flen file}, attrs ≠ LFN → fname ≠ [] → NoNul fname →
      EnoughSpace v d fname flen → fatWriteFileImplementation fuel v d file fname flen attrs 0 = .ok w →
      liveNames [o] = (if fname.head? ≠ some 0xE5 then [fname] else []) →
      w.geometry = v.geometry ∧ AllocReady w ∧ ∃ l', IsChain w.geometry w.FAT d l' ∧
        Overwrites Slot.Free S (l'.flatMap w.dirSlots) ∧
        ((written Slot.Free Slot.Short S (l'.flatMap w.dirSlots)).map Slot.shortBytes).Perm
          ((liveNames [o]).map name83Bytes ++
            (written Slot.Free Slot.Short S (l.flatMap v.dirSlots)).map Slot.shortBytes) := by
    intro fname attrs flen file hattrs hne hnul space hwrite hnames
    obtain ⟨l', A, run, longs, short, B, inserted⟩ :=
      fatWriteFileImplementation_inserts store hg ready hl space hwrite
    obtain ⟨hover, hperm⟩ := inserted.adds hattrs hne hnul hbefore
    refine ⟨inserted.geometry, inserted.ready, l', inserted.chain, hover, ?_⟩
    rw [hnames]
    split_ifs at hperm ⊢
    · exact hperm
    · exact hperm
  have hname : ∀ (o : FatOp) fname, o.created = some fname →
      liveNames [o] = if fname.head? ≠ some 0xE5 then [fname] else [] := by
    intro o fname ho
    rw [liveNames, List.filterMap_cons_some ho, List.filterMap_nil, List.filter_cons, List.filter_nil]
    simp only [decide_eq_true_eq]
  cases o with
  | writeFile dir file fname flen =>
    obtain ⟨rfl, hne, hnul⟩ := ho
    exact hcreate (by decide) hne hnul horderly.2 (toOption_eq_some.mp hw) (hname _ _ rfl)
  | makeDirectory dir dirname =>
    obtain ⟨rfl, hne, hnul⟩ := ho
    have hwrite := fatMakeDirectory_writes (toOption_eq_some.mp hw)
    exact hcreate (by decide) hne hnul horderly.2 hwrite (hname _ _ rfl)
  | deleteFile dir filename => exact ho.elim
  | scribble junk =>
    obtain rfl := Option.some.inj hw
    exact ⟨rfl, ⟨ready.reserved, ready.hint⟩, l, hl, hbefore, .refl _⟩

/-- In a run the names of the created entries come into the directory, the live ones, once each. -/
lemma written_of_run {fuel : ℕ} (store : ClusterStore v.geometry δ) (hg : v.geometry.Addressable)
    (ready : AllocReady v) (hl : IsChain v.geometry v.FAT d l) {ops : List FatOp}
    (run : GuardedRun (fun v o => FatOp.Orderly v o ∧ o.CreatesIn d) (FatOp.apply fuel) v ops w)
    (hbefore : Overwrites Slot.Free S (l.flatMap v.dirSlots)) :
    ∃ l', IsChain w.geometry w.FAT d l' ∧
      ((written Slot.Free Slot.Short S (l'.flatMap w.dirSlots)).map Slot.shortBytes).Perm
        ((liveNames ops).map name83Bytes ++
          (written Slot.Free Slot.Short S (l.flatMap v.dirSlots)).map Slot.shortBytes) := by
  induction run generalizing l with
  | nil v => exact ⟨l, hl, .refl _⟩
  | @cons v u w o ops guard next tail ih =>
    obtain ⟨hgeometry, hready, m, hm, hover, hperm⟩ :=
      FatOp.CreatesIn.step store hg ready hl hbefore guard.1 guard.2 next
    obtain ⟨l', hl', hperm'⟩ := ih (hgeometry ▸ store) (hgeometry ▸ hg) hready hm hover
    have hnames : liveNames (o :: ops) = liveNames [o] ++ liveNames ops := by
      rw [liveNames, liveNames, liveNames, ← List.filter_append, ← List.filterMap_append,
        List.singleton_append]
    rw [hnames, List.map_append, List.append_assoc]
    exact ⟨l', hl', hperm'.trans ((hperm.append_left _).trans (List.perm_append_comm_assoc _ _ _))⟩

lemma shortNamesUnique_of_run {fuel : ℕ} (store : ClusterStore v.geometry δ) (hg : v.geometry.Addressable)
    (ready : AllocReady v) (hl : IsChain v.geometry v.FAT d l) {ops : List FatOp}
    (run : GuardedRun (fun v o => FatOp.Orderly v o ∧ o.CreatesIn d) (FatOp.apply fuel) v ops w) :
    ShortNamesUnique v w d ↔ ((liveNames ops).map name83Bytes).Nodup := by
  obtain ⟨l', hl', hperm⟩ := written_of_run store hg ready hl run (.refl _)
  rw [written_self fun s hs hfree => hs.1 hfree, List.map_nil, List.append_nil] at hperm
  rw [← hperm.nodup_iff]
  constructor
  · intro ⟨m, m', hm, hm', h⟩
    rwa [hl.unique hm, hl'.unique hm']
  · intro h
    exact ⟨l, l', hl, hl', h⟩

/-- After a run of calls that create entries in a directory, the live short slots written into it have
different names if and only if no two of the names are alike, leaving out those whose short slots read as
deleted. -/
theorem shortNames_unique_iff {fuel : ℕ} (store : ClusterStore v.geometry δ) (hg : v.geometry.Addressable)
    (ready : AllocReady v) (hl : IsChain v.geometry v.FAT d l) {ops : List FatOp}
    (run : GuardedRun (fun v o => FatOp.Orderly v o ∧ o.CreatesIn d) (FatOp.apply fuel) v ops w) :
    ShortNamesUnique v w d ↔ (ops.filterMap FatOp.created).Pairwise fun a b =>
      a.head? ≠ some 0xE5 → b.head? ≠ some 0xE5 → ¬ Alike a b := by
  have hsame : ∀ a b, name83Bytes a = name83Bytes b ↔ Alike a b := by
    intro a b
    rw [← name83_eq_iff, funext_iff]
    exact ⟨fun h k hk => h ⟨k, hk⟩, fun h k => h k k.isLt⟩
  rw [shortNamesUnique_of_run store hg ready hl run]
  simp only [List.Nodup, List.pairwise_map, liveNames, List.pairwise_filter, ne_eq, hsame, decide_eq_true_eq]

end Entered

section Volumes
open Open98.Ata

/-- Two files with short names are created in the root directory of a small volume. -/
lemma fresh_creates {a b : List UCHAR} (ha : 0 < longEntries a ∧ longEntries a ≤ 15 ∧ a ≠ [] ∧ ∀ c ∈ a, c ≠ 0)
    (hb : 0 < longEntries b ∧ longEntries b ≤ 15 ∧ b ≠ [] ∧ ∀ c ∈ b, c ≠ 0) :
    ∃ w, GuardedRun (fun v o => FatOp.Orderly v o ∧ o.CreatesIn 2) (FatOp.apply 200) fresh
      [.writeFile 2 (fun _ => 7) a 3, .writeFile 2 (fun _ => 7) b 3] w := by
  have hone : requiredClusters small 3 = 1 := by decide
  have hslots : small.dirsPerCluster = 16 := by decide
  have hspace : EnoughSpace fresh 2 a 3 := by
    refine ⟨?_, fun _ => ?_⟩ <;> rw [fresh_space] <;> decide
  obtain ⟨u, hu, hfree⟩ := fatWriteFileImplementation_returns small_clusterStore small_addressable
    fresh_ready fresh_root hspace ha.1 (by rw [show fresh.geometry = small from rfl, hslots]; omega)
    (show 1 < 200 by decide) (fun _ => 7) 0
  obtain ⟨l, A, run, longs, short, B, inserted⟩ := fatWriteFileImplementation_inserts small_clusterStore
    small_addressable fresh_ready fresh_root hspace hu
  have hgeometry : u.geometry = small := inserted.geometry
  have hspace' : EnoughSpace u 2 b 3 := by
    have hneed : requiredClusters u.geometry 3 = 1 := by rw [hgeometry, hone]
    rw [fresh_space, show requiredClusters fresh.geometry 3 = 1 from hone] at hfree
    exact ⟨by omega, fun _ => by omega⟩
  have hfuel : l.length < 200 := inserted.chain.length_le.trans_lt (by rw [hgeometry]; decide)
  obtain ⟨w, hw, -⟩ := fatWriteFileImplementation_returns (hgeometry ▸ small_clusterStore)
    (hgeometry ▸ small_addressable) inserted.ready inserted.chain hspace' hb.1
    (by rw [hgeometry, hslots]; omega) hfuel (fun _ => 7) 0
  have hfirst : FatOp.apply 200 fresh (.writeFile 2 (fun _ => 7) a 3) = some u :=
    toOption_eq_some.mpr hu
  have hsecond : FatOp.apply 200 u (.writeFile 2 (fun _ => 7) b 3) = some w := toOption_eq_some.mpr hw
  exact ⟨w, .cons ⟨⟨⟨_, fresh_root⟩, hspace⟩, rfl, ha.2.2⟩ hfirst
    (.cons ⟨⟨⟨_, inserted.chain⟩, hspace'⟩, rfl, hb.2.2⟩ hsecond (.nil w))⟩

/-- Two names of one character. -/
theorem shortNames_unique_iff_letters : ∃ w,
    GuardedRun (fun v o => FatOp.Orderly v o ∧ o.CreatesIn 2) (FatOp.apply 200) fresh
      [.writeFile 2 (fun _ => 7) [0x61] 3, .writeFile 2 (fun _ => 7) [0x62] 3] w ∧
    ShortNamesUnique fresh w 2 := by
  obtain ⟨w, run⟩ := fresh_creates (a := [0x61]) (b := [0x62]) (by decide) (by decide)
  have hunlike : ¬ Alike [0x61] [0x62] := by
    rw [← name83_eq_iff]
    decide
  exact ⟨w, run, (shortNames_unique_iff small_clusterStore small_addressable fresh_ready fresh_root run).mpr
    (List.pairwise_pair.mpr fun _ _ => hunlike)⟩

def document1 : List UCHAR := [0x64, 0x6F, 0x63, 0x75, 0x6D, 0x65, 0x6E, 0x74, 0x31]
def document2 : List UCHAR := [0x64, 0x6F, 0x63, 0x75, 0x6D, 0x65, 0x6E, 0x74, 0x32]

/-- Both names are cut to the same six characters, and `~1` is put behind them. -/
theorem document_names_collide : ∃ w,
    GuardedRun (fun v o => FatOp.Orderly v o ∧ o.CreatesIn 2) (FatOp.apply 200) fresh
      [.writeFile 2 (fun _ => 7) document1 3, .writeFile 2 (fun _ => 7) document2 3] w ∧
    document1.map kToupper ≠ document2.map kToupper ∧ ¬ ShortNamesUnique fresh w 2 := by
  obtain ⟨w, run⟩ := fresh_creates (a := document1) (b := document2) (by decide) (by decide)
  have hsame : name83Bytes document1 = name83Bytes document2 := by decide
  refine ⟨w, run, by decide, ?_⟩
  rw [shortNamesUnique_of_run small_clusterStore small_addressable fresh_ready fresh_root run]
  change ¬ [name83Bytes document1, name83Bytes document2].Nodup
  rw [hsame]
  decide

end Volumes

end Open98.Fat32
