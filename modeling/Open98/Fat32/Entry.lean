import Mathlib.Data.List.GetD
import Open98.Fat32.Volume

/-! Directory entries: the 32-byte slots, the long and the short name written into them, and
`FatReadDirectoryEntry`. A pointer into a directory buffer together with the end of the buffer is
the list of the slots between them. -/
namespace Open98.Fat32

abbrev Slot := Fin 32 → UCHAR

def LFN : UCHAR := 0x0F
def DIRECTORY : UCHAR := 0x10

/-- The slot has never been written or its entry has been deleted. -/
def Slot.Free (s : Slot) : Prop := s 0 = 0x00 ∨ s 0 = 0xE5

instance (s : Slot) : Decidable s.Free := inferInstanceAs (Decidable (_ ∨ _))

structure DirectoryEntry where
  name : Buffer
  dirAttrs : UCHAR
  firstCluster : ℕ
  fileSize : ℕ

section Strings

/-- The buffer holds the string, followed by a NUL. -/
structure HoldsString (b : Buffer) (s : List UCHAR) : Prop where
  chars : ∀ i < s.length, b i = s.getD i 0
  nul : b s.length = 0

/-- `strcmp( a, s ) == 0` for a string `s`. -/
def strcmpEq (a : Buffer) : List UCHAR → Bool
  | [] => a 0 = 0
  | c :: s => a 0 = c && strcmpEq (fun i => a (i+1)) s

/-- The string has no NUL of its own. -/
def NoNul (s : List UCHAR) : Prop := ∀ c ∈ s, c ≠ 0

lemma strcmpEq_iff {a : Buffer} {s t : List UCHAR} (ha : HoldsString a s) (hs : NoNul s)
    (ht : NoNul t) : strcmpEq a t = true ↔ s = t := by
  induction t generalizing a s with
  | nil =>
    cases s with
    | nil => simpa [strcmpEq] using ha.nul
    | cons c s =>
      have hc : a 0 = c := ha.chars 0 (by simp)
      simpa [strcmpEq, hc] using hs c (by simp)
  | cons d t ih =>
    cases s with
    | nil =>
      have hzero : a 0 = 0 := ha.nul
      have hd : d ≠ 0 := ht d (by simp)
      simpa [strcmpEq, hzero] using fun h => absurd h.symm hd
    | cons c s =>
      have hc : a 0 = c := ha.chars 0 (by simp)
      have htail : HoldsString (fun i => a (i+1)) s :=
        ⟨fun i hi => by simpa using ha.chars (i+1) (by simpa using hi), by simpa using ha.nul⟩
      have hrest := ih htail (fun x hx => hs x (List.mem_cons_of_mem _ hx))
        (fun x hx => ht x (List.mem_cons_of_mem _ hx))
      simp [strcmpEq, hc, hrest]

/-- The string at an address, up to its NUL. -/
def readString : ℕ → Buffer → Result (List UCHAR)
  | 0, _ => .error .hang
  | n+1, b =>
    if b 0 = 0 then .ok []
    else do
      let s ← readString n fun i => b (i+1)
      return b 0 :: s

lemma readString_eq_ok {n : ℕ} {b : Buffer} {s : List UCHAR} :
    readString n b = .ok s ↔ HoldsString b s ∧ NoNul s ∧ s.length < n := by
  induction n generalizing b s with
  | zero => simp [readString]
  | succ n ih =>
    rw [readString]
    by_cases hzero : b 0 = 0
    · rw [if_pos hzero]
      constructor
      · intro h
        obtain rfl := Except.ok.inj h
        exact ⟨⟨by simp, hzero⟩, by simp [NoNul], by simp⟩
      · intro ⟨hholds, hnul, _⟩
        cases s with
        | nil => rfl
        | cons c s =>
          have hc : b 0 = c := hholds.chars 0 (by simp)
          exact absurd (hc.symm.trans hzero) (hnul c (by simp))
    · rw [if_neg hzero, bind_eq_ok]
      constructor
      · intro ⟨t, ht, hs⟩
        obtain rfl := Except.ok.inj hs
        obtain ⟨hholds, hnul, hlen⟩ := ih.mp ht
        refine ⟨⟨fun i hi => ?_, hholds.nul⟩, ?_, by simpa using hlen⟩
        · cases i with
          | zero => rfl
          | succ i => exact hholds.chars i (by simpa using hi)
        · intro c hc
          rcases List.mem_cons.mp hc with rfl | hc
          · exact hzero
          · exact hnul c hc
      · intro ⟨hholds, hnul, hlen⟩
        cases s with
        | nil => exact absurd hholds.nul hzero
        | cons c t =>
          have hc : b 0 = c := hholds.chars 0 (by simp)
          refine ⟨t, ih.mpr ⟨⟨fun i hi => ?_, hholds.nul⟩, fun x hx => hnul x (List.mem_cons_of_mem _ hx),
            by simpa using hlen⟩, by rw [hc]; rfl⟩
          exact hholds.chars (i+1) (by simpa using hi)

/-- `strlen`, for a string that ends within the given number of bytes. -/
def strlen (b : Buffer) : ℕ → ℕ
  | 0 => 0
  | n+1 => if b 0 = 0 then 0 else strlen (fun i => b (i+1)) n + 1

def kToupper (c : UCHAR) : UCHAR := if 97 ≤ c.toNat ∧ c.toNat ≤ 122 then c - 32 else c

/-- The loop of `UtilTrimSpaces`: the first blank among the next bytes becomes a NUL. -/
def trimFrom (b : Buffer) : (left i : ℕ) → Buffer
  | 0, i => if b i = 0x20 then Function.update b i 0 else b
  | left+1, i => if b i = 0x20 then Function.update b i 0 else trimFrom b left (i+1)

def utilTrimSpaces (c : Buffer) (max : ℕ) : Buffer := trimFrom c max 0

end Strings

section ShortName

/-- The last dot among the first characters. -/
def dotIndex (fname : List UCHAR) : ℕ → Option ℕ
  | 0 => none
  | i+1 => if fname.getD i 0 = 0x2E then some i else dotIndex fname i

/-- The eleven bytes that `FatWrite83FileName` writes. -/
def name83 (fname : List UCHAR) (k : ℕ) : UCHAR :=
  let dot := dotIndex fname fname.length
  let firstpartLen := dot.getD fname.length
  if k < 8 then
    if 8 < firstpartLen then
      if k < 6 then kToupper (fname.getD k 0) else if k = 6 then 0x7E else 0x31
    else if k < firstpartLen then kToupper (fname.getD k 0) else 0x20
  else
    match dot with
    | none => 0x20
    | some i =>
      let c := i + 1 + (k-8)
      if fname.length ≤ c then 0x20 else kToupper (fname.getD c 0)

def fatWrite83FileName (fname : List UCHAR) (buffer : Slot) : Slot :=
  fun j => if j.val < 11 then name83 fname j else buffer j

def fatCheckSumFNAME (fname : ℕ → UCHAR) : UCHAR :=
  (List.range 11).foldl
    (fun checksum i => (((checksum >>> 1) &&& 0x7F) ||| ((checksum &&& 1) <<< 7)) + fname i) 0

lemma nameByte_lt {k : ℕ} (h : k < 11) : k < 32 := h.trans (by decide)

lemma baseByte_lt {k : ℕ} (h : k < 8) : k < 32 := h.trans (by decide)

lemma extensionByte_lt {k : ℕ} (h : k < 3) : 8 + k < 32 := (Nat.add_lt_add_left h 8).trans (by decide)

/-- The name that `FatReadDirectoryEntry` makes of a short slot without long-name slots. -/
def shortName (junk : Buffer) (entry : Slot) : Buffer :=
  let name : Buffer := fun k => if h : k < 11 then entry ⟨k, nameByte_lt h⟩ else if k = 11 then 0 else junk k
  let extension := utilTrimSpaces (fun k => if k < 3 then name (8+k) else 0) 3
  let name := utilTrimSpaces (Function.update name 8 0) 8
  if strlen extension 3 > 0 then
    let len := strlen name 8
    fun k => if k = len then 0x2E
      else if len < k ∧ k < len + 5 then extension (k - (len+1)) else name k
  else name

end ShortName

section LongName

/-- Where the characters of a long-name slot lie. -/
def nameOffsets : List (Fin 32) := [1, 3, 5, 7, 9, 14, 16, 18, 20, 22, 24, 28, 30]

/-- Stores into a slot, in order. -/
def Slot.poke (s : Slot) (writes : List (Fin 32 × UCHAR)) : Slot :=
  writes.foldl (fun s w => Function.update s w.1 w.2) s

/-- The slot with entry number `i + 1`, written over an old slot. -/
def longNameSlot (old : Slot) (i : ℕ) (checksum : UCHAR) (fname : List UCHAR) : Slot :=
  old.poke ([(0, BitVec.ofNat 8 (i+1)), (13, checksum)] ++
    nameOffsets.zipIdx.map (fun (j, q) => (j, fname.getD (13*i + q) 0)) ++ [(11, LFN)])

/-- The slots are written in reverse order; without any slot the last store goes through a null
pointer. -/
def fatWriteLongFileNameEntries (start : List Slot) (fname : List UCHAR) : Result (List Slot) :=
  let checksum := fatCheckSumFNAME (name83 fname)
  match start.mapIdx fun t old => longNameSlot old (start.length - 1 - t) checksum fname with
  | [] => .error .nullPointer
  | entry :: rest => .ok (Function.update entry 0 (entry 0 ||| 0x40) :: rest)

/-- The characters that `FatParseLongName` takes from a slot. -/
def longNameChars (entry : Slot) : List UCHAR :=
  nameOffsets.map fun j => if 32 ≤ (entry j).toNat ∧ (entry j).toNat ≤ 127 then entry j else 0

/-- The stores of `FatParseLongName`: offsets from the allocated name, and values. -/
def longNameWrites (entries : List Slot) : List (ℤ × UCHAR) :=
  entries.flatMap fun entry => (longNameChars entry).zipIdx.map fun (c, q) =>
    ((((entry 0).toNat % 16 : ℕ) - 1 : ℤ) * 13 + q, c)

/-- A store before the allocated block does not show in the name. -/
def fatParseLongName (junk : Buffer) (entries : List Slot) (entryCount : ℕ) : Buffer :=
  (longNameWrites (entries.take (entryCount % 256))).foldl
    (fun name w => if 0 ≤ w.1 then Function.update name w.1.toNat w.2 else name) junk

end LongName

section Reading

def utilReadInteger16 (s : Slot) (offset : Fin 32) : ℕ :=
  (s (offset+1)).toNat * 2^8 + (s offset).toNat

def utilReadInteger32 (s : Slot) (offset : Fin 32) : ℕ :=
  (s (offset+3)).toNat * 2^24 + (s (offset+2)).toNat * 2^16 + (s (offset+1)).toNat * 2^8 +
    (s offset).toNat

/-- The number of long-name slots in front; `none` when the end of the buffer is reached. -/
def lfnCount : List Slot → Option ℕ
  | [] => none
  | s :: rest => if s 11 = LFN then (lfnCount rest).map (· + 1) else some 0

/-- `none` is the null pointer; otherwise the entry and what follows it in the buffer. -/
def fatReadDirectoryEntry (junk : Buffer) : List Slot → Option (DirectoryEntry × List Slot)
  | [] => none
  | s :: rest =>
    if s.Free then none
    else (lfnCount (s :: rest)).bind fun n =>
      match (s :: rest).drop n with
      | [] => none
      | entry :: after => some ({
          name := if 0 < n then fatParseLongName junk (s :: rest) n else shortName junk entry
          dirAttrs := entry 11
          firstCluster := utilReadInteger16 entry 20 * 2^16 + utilReadInteger16 entry 26
          fileSize := utilReadInteger32 entry 28 }, after)

/-- The fields that `FatWriteFileImplementation` writes into the short slot after the name. -/
def fillEntry (s : Slot) (attrs : UCHAR) (firstcluster flen : ℕ) : Slot :=
  s.poke [(11, attrs),
    (20, BitVec.ofNat 8 (firstcluster / 2^16)), (21, BitVec.ofNat 8 (firstcluster / 2^24)),
    (26, BitVec.ofNat 8 firstcluster), (27, BitVec.ofNat 8 (firstcluster / 2^8)),
    (28, BitVec.ofNat 8 flen), (29, BitVec.ofNat 8 (flen / 2^8)),
    (30, BitVec.ofNat 8 (flen / 2^16)), (31, BitVec.ofNat 8 (flen / 2^24))]

end Reading

end Open98.Fat32
