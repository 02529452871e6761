import Open98.Drv.ArchiveSize
import Open98.Fat32.Entry
import Open98.Library.Search
import Open98.Library.Stores

/-! The initial RAM disk of `drv/ustar/ustar.c`: the archive is scanned once, and its members are then looked up
by name. Addresses are those of the archive; the table of the headers has memory of its own. -/
namespace Open98.Drv
open Fat32 Lib Library

/-- The memory, and the globals of `drv/ustar/ustar.c`. The two arrays have `HEADER_SIZE` elements each. -/
structure Initrd where
  memory : ℕ → UCHAR
  initrd : Bool
  headers : ℕ → ℕ
  address : ℕ → ℕ
  count : ℤ

section Model

def headerSize : ℕ := 128

/-- A field of a header, from its offset on. -/
def field (memory : ℕ → UCHAR) (header offset : ℕ) : Buffer := fun i => memory (header + offset + i)

def nameOffset : ℕ := 0
def sizeOffset : ℕ := 124
def typeflagOffset : ℕ := 156
def signatureOffset : ℕ := 257

/-- `"ustar"`. -/
def signature : List UCHAR := [0x75, 0x73, 0x74, 0x61, 0x72]

/-- The bytes are copied by way of an array of their own. -/
def memmove (memory : ℕ → UCHAR) (dest src n : ℕ) : ℕ → UCHAR :=
  assign (fun i => dest + i) (fun i => memory (src + i)) (List.range n) memory

/-- The first loop of `ustar_parse`, and the number of headers at its end. -/
def ustarScan : (fuel i address : ℕ) → Initrd → Result (ℕ × Initrd)
  | 0, _, _, _ => .error .hang
  | fuel+1, i, address, r =>
    if !strcmpEq (field r.memory address signatureOffset) signature then .ok (i, r)
    else do
      let size ← readString fuel (field r.memory address sizeOffset)
      let size := (getsize size).toNat
      ustarScan fuel (i+1) ((address + ((size + 511) / 512 + 1) * 512) % 2^32)
        { r with
          headers := Function.update r.headers i address
          address := Function.update r.address i ((address + 512) % 2^32)
          count := r.count + 1 }

/-- One turn of the second loop: the name loses its first character. -/
def shiftName (fuel : ℕ) (headers : ℕ → ℕ) (memory : ℕ → UCHAR) (g : ℕ) : Result (ℕ → UCHAR) := do
  let name ← readString fuel (field memory (headers g) nameOffset)
  return memmove memory (headers g) (headers g + 1) name.length

/-- The number of members but one is returned, too. -/
def ustarParse (fuel : ℕ) (r : Initrd) (address : ℕ) : Result (ℤ × Initrd) := do
  let (i, r) ← ustarScan fuel 0 address r
  let memory ← (List.range' 1 (r.count.toNat - 1)).foldlM (shiftName fuel r.headers) r.memory
  return (i - 1, { r with memory := memory, count := r.count - 1 })

def kdInitRAMFS (fuel : ℕ) (r : Initrd) (address : ℕ) : Result Initrd := do
  let (_, r) ← ustarParse fuel r address
  return { r with initrd := true }

/-- `strcmp` says that a header has the name. -/
def Named (r : Initrd) (name : List UCHAR) (i : ℕ) : Prop :=
  strcmpEq (field r.memory (r.headers i) nameOffset) name = true

instance (r : Initrd) (name : List UCHAR) : DecidablePred (Named r name) :=
  fun _ => inferInstanceAs (Decidable (_ = true))

def ustarGetid (r : Initrd) (name : List UCHAR) : ℕ :=
  if !r.initrd then 0 else (firstIn (Named r name) 0 r.count.toNat).getD 0

/-- The contents, if 1 is returned. -/
def ustarSearch (r : Initrd) (filename : List UCHAR) : Option ℕ :=
  if !r.initrd then none else (firstIn (Named r filename) 1 r.count.toNat).map r.address

inductive Contents
  | null
  | address (address : ℕ)
  | string (text : String)
  deriving DecidableEq

def ustarCat (r : Initrd) (name : List UCHAR) : Contents :=
  if !r.initrd then .null
  else if r.memory (r.headers (ustarGetid r name) + typeflagOffset) = 0x30 then
    match ustarSearch r name with
    | some contents => .address contents
    | none => .string "Invalid file name!"
  else .string ""

/-- A line that is printed, with the address of the name in it. -/
inductive Line
  | file (name : ℕ)
  | linkage (name link : ℕ)
  | dir (name : ℕ)
  | unknown (name : ℕ)
  | itemsFound (count : ℤ)
  | notInitialized
  deriving DecidableEq

/-- The line for a member. The size of a file is computed, but not printed. -/
def memberLine (r : Initrd) (i : ℕ) : Line :=
  let header := r.headers i
  let typeflag := r.memory (header + typeflagOffset)
  if typeflag = 0x30 then .file header
  else if typeflag = 0x32 then .linkage header (header + 157)
  else if typeflag = 0x35 then .dir header
  else .unknown header

def ustarList (r : Initrd) : List Line :=
  if !r.initrd then [.notInitialized]
  else (List.range' 1 r.count.toNat).map (memberLine r) ++ [.itemsFound r.count]

end Model

section Archives

/-- A member of an archive: its name and the digits of its size. -/
structure Member where
  name : List UCHAR
  size : List UCHAR

/-- The bytes of the header and of the blocks of data. -/
def Member.span (m : Member) : ℕ := ((octal m.size + 511) / 512 + 1) * 512

/-- A name that fills its field goes on in the next ones, as far as the NUL of the mode. -/
structure Member.WellFormed (m : Member) : Prop where
  noNul : NoNul m.name
  ends : m.name.length < sizeOffset
  digits : OctalDigits m.size
  eleven : m.size.length ≤ 11

structure HeaderAt (memory : ℕ → UCHAR) (header : ℕ) (m : Member) : Prop where
  name : HoldsString (field memory header nameOffset) m.name
  size : HoldsString (field memory header sizeOffset) m.size
  signed : HoldsString (field memory header signatureOffset) signature

def memberAddress (address : ℕ) (ms : List Member) (i : ℕ) : ℕ := address + ((ms.take i).map Member.span).sum

/-- The members are one behind the other in memory, below 4 GiB, and no member follows. -/
structure Laid (memory : ℕ → UCHAR) (address : ℕ) (ms : List Member) : Prop where
  wellFormed : ∀ m ∈ ms, m.WellFormed
  header : ∀ i m, ms[i]? = some m → HeaderAt memory (memberAddress address ms i) m
  stop : strcmpEq (field memory (memberAddress address ms ms.length) signatureOffset) signature = false
  below : memberAddress address ms ms.length < 2^32

/-- A well-formed archive that fits into the table. -/
structure Archive (memory : ℕ → UCHAR) (address : ℕ) (ms : List Member) : Prop extends Laid memory address ms where
  distinct : (ms.map Member.name).Nodup
  fits : ms.length ≤ headerSize

variable {memory : ℕ → UCHAR} {address header fuel : ℕ} {m : Member} {ms : List Member}

@[simp] lemma memberAddress_zero : memberAddress address ms 0 = address := by simp [memberAddress]

lemma memberAddress_cons (i : ℕ) :
    memberAddress address (m :: ms) (i+1) = memberAddress (address + m.span) ms i := by
  simp [memberAddress, Nat.add_assoc]

lemma memberAddress_succ {i : ℕ} (h : ms[i]? = some m) :
    memberAddress address ms (i+1) = memberAddress address ms i + m.span := by
  rw [memberAddress, memberAddress, List.take_add_one, h]
  simp [Nat.add_assoc]

lemma le_span (m : Member) : 512 ≤ m.span := by
  rw [Member.span]
  omega

/-- The headers do not overlap. -/
lemma memberAddress_lt {i j : ℕ} (hij : i < j) (hj : j ≤ ms.length) :
    memberAddress address ms i + 512 ≤ memberAddress address ms j := by
  induction j with
  | zero => omega
  | succ j ih =>
    have hspan := le_span ms[j]
    have hsucc : memberAddress address ms (j+1) = memberAddress address ms j + ms[j].span :=
      memberAddress_succ (List.getElem?_eq_getElem (by omega))
    by_cases heq : i = j
    · rw [heq]
      omega
    · have := ih (by omega) (by omega)
      omega

lemma Laid.tail (h : Laid memory address (m :: ms)) : Laid memory (address + m.span) ms := by
  refine ⟨fun m' hm' => h.wellFormed m' (List.mem_cons_of_mem _ hm'), fun i m' hm' => ?_, ?_, ?_⟩
  · rw [← memberAddress_cons]
    exact h.header (i+1) m' hm'
  · rw [← memberAddress_cons]
    exact h.stop
  · rw [← memberAddress_cons]
    exact h.below

lemma noNul_signature : NoNul signature := by
  unfold NoNul
  decide

lemma noNul_of_octalDigits {s : List UCHAR} (h : OctalDigits s) : NoNul s := by
  intro c hc hzero
  have := h c hc
  rw [hzero] at this
  exact absurd this (by decide)

lemma HeaderAt.isMember (h : HeaderAt memory header m) :
    strcmpEq (field memory header signatureOffset) signature = true :=
  (strcmpEq_iff h.signed noNul_signature noNul_signature).mpr rfl

/-- The table that the scan leaves. -/
structure Scanned (r r' : Initrd) (address i : ℕ) (ms : List Member) : Prop where
  memory : r'.memory = r.memory
  count : r'.count = r.count + ms.length
  headers : ∀ j < ms.length, r'.headers (i+j) = memberAddress address ms j
  address : ∀ j < ms.length, r'.address (i+j) = memberAddress address ms j + 512
  before : ∀ k < i, r'.headers k = r.headers k ∧ r'.address k = r.address k

/-- The table after one turn of the scan. -/
def Initrd.record (r : Initrd) (i address : ℕ) : Initrd :=
  { r with
    headers := Function.update r.headers i address
    address := Function.update r.address i ((address + 512) % 2^32)
    count := r.count + 1 }

/-- The header of a member and its data are below the end of the archive. -/
lemma Laid.room (h : Laid memory address (m :: ms)) : address + m.span < 2^32 := by
  have hbelow := h.below
  rw [List.length_cons, memberAddress_cons, memberAddress] at hbelow
  omega

lemma ustarScan_member {r : Initrd} {i : ℕ} (h : Laid r.memory address (m :: ms)) (hfuel : 12 ≤ fuel) :
    ustarScan (fuel+1) i address r = ustarScan fuel (i+1) (address + m.span) (r.record i address) := by
  have hheader := h.header 0 m rfl
  have hm := h.wellFormed m List.mem_cons_self
  have hroom := h.room
  rw [memberAddress_zero] at hheader
  rw [Member.span] at hroom
  have hsize : readString fuel (field r.memory address sizeOffset) = .ok m.size := by
    have heleven := hm.eleven
    exact readString_eq_ok.mpr ⟨hheader.size, noNul_of_octalDigits hm.digits, by omega⟩
  have hoctal : (getsize m.size).toNat = octal m.size := by
    rw [getsize_eq hm.digits, BitVec.toNat_ofNat]
    omega
  have hnext : (address + ((octal m.size + 511) / 512 + 1) * 512) % 2^32 = address + m.span := by
    rw [Member.span]
    omega
  rw [← hnext, ← hoctal, ustarScan, hheader.isMember, hsize]
  rfl

lemma Scanned.cons {r r' : Initrd} {i : ℕ} (h : Laid r.memory address (m :: ms))
    (hscanned : Scanned (r.record i address) r' (address + m.span) (i+1) ms) :
    Scanned r r' address i (m :: ms) := by
  have hroom := h.room
  have hspan := le_span m
  refine ⟨hscanned.memory, ?_, ?_, ?_, ?_⟩
  · rw [hscanned.count, Initrd.record, List.length_cons]
    push_cast
    ring
  · intro j hj
    cases j with
    | zero =>
      rw [Nat.add_zero, (hscanned.before i (Nat.lt_succ_self i)).1, memberAddress_zero]
      exact Function.update_self _ _ _
    | succ j =>
      rw [memberAddress_cons, ← hscanned.headers j (Nat.lt_of_succ_lt_succ hj), Nat.add_right_comm]
      rfl
  · intro j hj
    cases j with
    | zero =>
      have hplace : (address + 512) % 2^32 = address + 512 := Nat.mod_eq_of_lt (by omega)
      rw [Nat.add_zero, (hscanned.before i (Nat.lt_succ_self i)).2, memberAddress_zero, ← hplace]
      exact Function.update_self _ _ _
    | succ j =>
      rw [memberAddress_cons, ← hscanned.address j (Nat.lt_of_succ_lt_succ hj), Nat.add_right_comm]
      rfl
  · intro k hk
    obtain ⟨hheaders, haddress⟩ := hscanned.before k (by omega)
    exact ⟨hheaders.trans (Function.update_of_ne (by omega) _ _),
      haddress.trans (Function.update_of_ne (by omega) _ _)⟩

/-- The scan ends behind the last member. -/
lemma ustarScan_eq {r : Initrd} {i : ℕ} (h : Laid r.memory address ms) (hfuel : ms.length + 12 < fuel) :
    ∃ r', ustarScan fuel i address r = .ok (i + ms.length, r') ∧ Scanned r r' address i ms := by
  induction ms generalizing address i r fuel with
  | nil =>
    obtain ⟨fuel, rfl⟩ : ∃ k, fuel = k+1 := ⟨fuel-1, by omega⟩
    have hstop := h.stop
    rw [List.length_nil, memberAddress_zero] at hstop
    refine ⟨r, ?_, ⟨rfl, by simp, by simp, by simp, fun _ _ => ⟨rfl, rfl⟩⟩⟩
    rw [ustarScan, hstop]
    rfl
  | cons m ms ih =>
    obtain ⟨fuel, rfl⟩ : ∃ k, fuel = k+1 := ⟨fuel-1, by omega⟩
    rw [List.length_cons] at hfuel ⊢
    obtain ⟨r', hscan, hscanned⟩ := ih (r := r.record i address) (i := i+1) h.tail (show ms.length + 12 < fuel by omega)
    refine ⟨r', ?_, Scanned.cons h hscanned⟩
    rw [ustarScan_member h (by omega), hscan, Nat.add_right_comm, Nat.add_assoc]

end Archives

section Shifting
variable {memory memory' : ℕ → UCHAR} {header fuel : ℕ} {m : Member}

lemma memmove_apply (memory : ℕ → UCHAR) (dest src n k : ℕ) : memmove memory dest src n k =
    if dest ≤ k ∧ k < dest + n then memory (src + (k - dest)) else memory k :=
  assign_range (fun i => memory (src + i)) memory dest n k

lemma holdsString_congr {b b' : Buffer} {s : List UCHAR} (h : HoldsString b s) (hsame : ∀ i ≤ s.length, b' i = b i) :
    HoldsString b' s :=
  ⟨fun i hi => (hsame i hi.le).trans (h.chars i hi), (hsame _ (le_refl _)).trans h.nul⟩

/-- A member does not depend on the memory behind its header. -/
lemma HeaderAt.frame (h : HeaderAt memory header m) (hm : m.WellFormed)
    (hsame : ∀ k, header ≤ k → k < header + 512 → memory' k = memory k) : HeaderAt memory' header m := by
  have hends := hm.ends
  have heleven := hm.eleven
  have hfield : ∀ offset i, offset + i < 512 → field memory' header offset i = field memory header offset i :=
    fun offset i hi => hsame _ (by omega) (by omega)
  rw [sizeOffset] at hends
  refine ⟨holdsString_congr h.name fun i hi => ?_, holdsString_congr h.size fun i hi => ?_,
    holdsString_congr h.signed fun i hi => ?_⟩
  · exact hfield _ _ (by rw [nameOffset]; omega)
  · exact hfield _ _ (by rw [sizeOffset]; omega)
  · have hlength : signature.length = 5 := rfl
    exact hfield _ _ (by rw [signatureOffset]; omega)

/-- The member without the first character of its name. -/
def Member.shifted (m : Member) : Member := { m with name := m.name.tail }

lemma Member.WellFormed.shifted (h : m.WellFormed) : m.shifted.WellFormed := by
  have hends := h.ends
  refine ⟨fun c hc => h.noNul c (List.mem_of_mem_tail hc), ?_, h.digits, h.eleven⟩
  rw [Member.shifted, List.length_tail]
  omega

/-- The NUL moves with the characters. -/
lemma HeaderAt.shifted (h : HeaderAt memory header m) (hm : m.WellFormed) :
    HeaderAt (memmove memory header (header+1) m.name.length) header m.shifted := by
  have hends := hm.ends
  rw [sizeOffset] at hends
  have hbehind : ∀ offset i, m.name.length ≤ offset + i →
      field (memmove memory header (header+1) m.name.length) header offset i = field memory header offset i := by
    intro offset i hi
    rw [field, memmove_apply, if_neg (by omega), field]
  have hmoved : ∀ i < m.name.length, field (memmove memory header (header+1) m.name.length) header nameOffset i =
      field memory header nameOffset (i+1) := by
    intro i hi
    rw [field, memmove_apply, nameOffset, if_pos (by omega), field]
    congr 1
    omega
  refine ⟨⟨fun i hi => ?_, ?_⟩, holdsString_congr h.size fun i _ => ?_, holdsString_congr h.signed fun i _ => ?_⟩
  · rw [Member.shifted, List.length_tail] at hi
    have hchar := h.name.chars (i+1) (by omega)
    rw [hmoved i (by omega), hchar, Member.shifted, List.getD_eq_getElem?_getD, List.getD_eq_getElem?_getD,
      List.getElem?_tail]
  · rw [Member.shifted, List.length_tail]
    by_cases hempty : m.name.length = 0
    · have hnul := h.name.nul
      rw [hempty] at hnul
      rw [hbehind _ _ (by omega), hempty]
      exact hnul
    · have hlast := hmoved (m.name.length - 1) (by omega)
      rw [Nat.sub_add_cancel (Nat.pos_of_ne_zero hempty)] at hlast
      exact hlast.trans h.name.nul
  · exact hbehind _ _ (by rw [sizeOffset]; omega)
  · exact hbehind _ _ (by rw [signatureOffset]; omega)

variable {headers : ℕ → ℕ} {n : ℕ} {members : ℕ → Member}

/-- The headers of some members, apart from each other. -/
structure Table (memory : ℕ → UCHAR) (headers : ℕ → ℕ) (n : ℕ) (members : ℕ → Member) : Prop where
  wellFormed : ∀ j < n, (members j).WellFormed
  header : ∀ j < n, HeaderAt memory (headers j) (members j)
  apart : ∀ i j, i < j → j < n → headers i + 512 ≤ headers j

/-- One turn of the second loop. -/
lemma Table.shiftName (h : Table memory headers n members) {g : ℕ} (hg : g < n) (hfuel : 124 ≤ fuel) :
    ∃ memory', Drv.shiftName fuel headers memory g = .ok memory' ∧
      Table memory' headers n (Function.update members g (members g).shifted) := by
  have hm := h.wellFormed g hg
  have hends := hm.ends
  rw [sizeOffset] at hends
  have hname : readString fuel (field memory (headers g) nameOffset) = .ok (members g).name :=
    readString_eq_ok.mpr ⟨(h.header g hg).name, hm.noNul, by omega⟩
  refine ⟨memmove memory (headers g) (headers g + 1) (members g).name.length, ?_, fun j hj => ?_,
    fun j hj => ?_, h.apart⟩
  · rw [Drv.shiftName, hname]
    rfl
  · by_cases hjg : j = g
    · rw [hjg, Function.update_self]
      exact hm.shifted
    · rw [Function.update_of_ne hjg]
      exact h.wellFormed j hj
  · by_cases hjg : j = g
    · rw [hjg, Function.update_self]
      exact (h.header g hg).shifted hm
    · rw [Function.update_of_ne hjg]
      refine (h.header j hj).frame (h.wellFormed j hj) fun k hle hlt => ?_
      have hapart : headers j + 512 ≤ headers g ∨ headers g + 512 ≤ headers j := by
        rcases Nat.lt_or_gt_of_ne hjg with hlt | hlt
        · exact .inl (h.apart j g hlt hg)
        · exact .inr (h.apart g j hlt hj)
      rw [memmove_apply, if_neg (by omega)]

/-- The second loop. -/
lemma Table.shiftNames (h : Table memory headers n members) {gs : List ℕ} (hgs : ∀ g ∈ gs, g < n) (hnodup : gs.Nodup)
    (hfuel : 124 ≤ fuel) : ∃ memory', gs.foldlM (Drv.shiftName fuel headers) memory = .ok memory' ∧
      Table memory' headers n fun j => if j ∈ gs then (members j).shifted else members j := by
  induction gs generalizing memory members with
  | nil => exact ⟨memory, rfl, by simpa using h⟩
  | cons g gs ih =>
    obtain ⟨hg, hrest⟩ := List.nodup_cons.mp hnodup
    obtain ⟨memory₁, hfirst, htable⟩ := h.shiftName (hgs g List.mem_cons_self) hfuel
    obtain ⟨memory', hloop, htable'⟩ := ih htable (fun k hk => hgs k (List.mem_cons_of_mem _ hk)) hrest
    refine ⟨memory', ?_, ?_⟩
    · rw [List.foldlM_cons, hfirst]
      exact hloop
    · have hmembers : (fun j => if j ∈ gs then (Function.update members g (members g).shifted j).shifted
          else Function.update members g (members g).shifted j) =
          fun j => if j ∈ g :: gs then (members j).shifted else members j := by
        funext j
        by_cases hjg : j = g
        · subst hjg
          rw [if_neg hg, Function.update_self, if_pos List.mem_cons_self]
        · rw [Function.update_of_ne hjg]
          simp [hjg]
      rwa [hmembers] at htable'

end Shifting

end Open98.Drv
