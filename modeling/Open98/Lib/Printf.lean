import Open98.Drv.Disk
import Open98.Library.TextSink

/-! The formatter of `lib/printf.c`. A format is the list of its characters in front of the NUL, a `va_list` the
stream of the words that are left, of which an `int` takes one as well, and `buf` and `len` of a number are the
list of its characters, the last one first. The result is missing where the formatter reads behind the NUL of the
format, which it does when the format ends within a directive, or looks for the NUL of an endless string. -/
namespace Open98.Lib
open Library

section Types

def chr (c : Char) : UCHAR := BitVec.ofNat 8 c.toNat

/-- The remaining arguments. -/
abbrev Args := ℕ → ULONG64

def Args.rest (va : Args) : Args := fun k => va (k+1)

/-- What can be read at every address. -/
abbrev Readable := PVOID → UCHAR

structure PrintFlags where
  zeropad : Bool
  left : Bool
  plus : Bool
  space : Bool
  hash : Bool
  uppercase : Bool
  char : Bool
  short : Bool
  long : Bool
  longLong : Bool
  precision : Bool
  adaptExp : Bool
  pointer : Bool
  deriving DecidableEq

def PrintFlags.none : PrintFlags :=
  ⟨false, false, false, false, false, false, false, false, false, false, false, false, false⟩

/-- A directive up to its specifier, and what is left of the format and the arguments. -/
structure Directive where
  flags : PrintFlags
  width : ℕ
  precision : ℕ
  format : List UCHAR
  va : Args

/-- The text of `sprint_floating_point` for a value, a precision, a width, the flags and
`prefer_exponential`. -/
abbrev FloatText := INT → (precision width : ℕ) → PrintFlags → Bool → List UCHAR

end Types

section Parsing

def isDigit (ch : UCHAR) : Bool := 48 ≤ ch.toNat && ch.toNat ≤ 57

/-- `*format`; behind the last character the NUL stands. -/
def cur (format : List UCHAR) : UCHAR := format.headD 0

def atoi : (str : List UCHAR) → (i : UINT) → UINT × List UCHAR
  | [], i => (i, [])
  | c :: str, i => if isDigit c then atoi str (i * 10#32 + BitVec.ofNat 32 (c.toNat - 48)) else (i, c :: str)

/-- One turn of the `switch` over the flags. -/
def evalFlag (c : UCHAR) (flags : PrintFlags) : Option PrintFlags :=
  if c = chr '0' then some { flags with zeropad := true }
  else if c = chr '-' then some { flags with left := true }
  else if c = chr '+' then some { flags with plus := true }
  else if c = chr ' ' then some { flags with space := true }
  else if c = chr '#' then some { flags with hash := true }
  else none

def evalFlags : (format : List UCHAR) → PrintFlags → PrintFlags × List UCHAR
  | [], flags => (flags, [])
  | c :: format, flags =>
    match evalFlag c flags with
    | some flags => evalFlags format flags
    | none => (flags, c :: format)

/-- The width field. -/
def evalWidth (flags : PrintFlags) (format : List UCHAR) (va : Args) : Directive :=
  if isDigit (cur format) then
    let (width, format) := atoi format 0
    ⟨flags, width.toNat, 0, format, va⟩
  else if cur format = chr '*' then
    let w : INT := (va 0).setWidth 32
    if w.toInt < 0 then ⟨{ flags with left := true }, (-w).toNat, 0, format.tail, va.rest⟩
    else ⟨flags, w.toNat, 0, format.tail, va.rest⟩
  else ⟨flags, 0, 0, format, va⟩

/-- The precision field. -/
def evalPrecision (d : Directive) : Directive :=
  if cur d.format = chr '.' then
    let flags := { d.flags with precision := true }
    let format := d.format.tail
    if isDigit (cur format) then
      let (precision, format) := atoi format 0
      ⟨flags, d.width, precision.toNat, format, d.va⟩
    else if cur format = chr '*' then
      let precision : INT := (d.va 0).setWidth 32
      ⟨flags, d.width, if 0 < precision.toInt then precision.toNat else 0, format.tail, d.va.rest⟩
    else ⟨flags, d.width, 0, format, d.va⟩
  else d

/-- The length field. A `long` has eight bytes, as a `ptrdiff_t`, an `intmax_t` and a `size_t` have. -/
def evalLength (d : Directive) : Directive :=
  let c := cur d.format
  let format := d.format.tail
  if c = chr 'l' then
    if cur format = chr 'l' then
      { d with flags := { d.flags with long := true, longLong := true }, format := format.tail }
    else { d with flags := { d.flags with long := true }, format := format }
  else if c = chr 'h' then
    if cur format = chr 'h' then
      { d with flags := { d.flags with short := true, char := true }, format := format.tail }
    else { d with flags := { d.flags with short := true }, format := format }
  else if c = chr 't' ∨ c = chr 'j' ∨ c = chr 'z' then
    { d with flags := { d.flags with long := true }, format := format }
  else d

/-- A directive behind its `%`. -/
def evalDirective (format : List UCHAR) (va : Args) : Directive :=
  let (flags, format) := evalFlags format .none
  evalLength (evalPrecision (evalWidth flags format va))

end Parsing

section Numbers

/-- `PRINTF_NTOA_BUFFER_SIZE`. -/
def ntoaBufferSize : ℕ := 32

/-- `buf[ len++ ] = c`, if the buffer is not full. -/
def pushChar (buf : List UCHAR) (c : UCHAR) : List UCHAR := if buf.length < ntoaBufferSize then buf ++ [c] else buf

/-- The loop that pads with zeros; it ends after as many rounds as the buffer has characters. -/
def padZeros (bound : ℕ) : (rounds : ℕ) → (buf : List UCHAR) → List UCHAR
  | 0, buf => buf
  | n+1, buf =>
    if buf.length < bound ∧ buf.length < ntoaBufferSize then padZeros bound n (buf ++ [chr '0']) else buf

def ntoaDigit (flags : PrintFlags) (digit : ℕ) : UCHAR :=
  if digit < 10 then BitVec.ofNat 8 (48 + digit) else BitVec.ofNat 8 ((if flags.uppercase then 65 else 97) + digit - 10)

/-- The loop over the digits, for a value that is not zero. -/
def digitLoop (flags : PrintFlags) (base : ℕ) : (rounds : ℕ) → (value : ℕ) → (buf : List UCHAR) → List UCHAR
  | 0, _, buf => buf
  | n+1, value, buf =>
    let buf := buf ++ [ntoaDigit flags (value % base)]
    let value := value / base
    if value ≠ 0 ∧ buf.length < ntoaBufferSize then digitLoop flags base n value buf else buf

/-- The digits `_ntoa` passes on, and the flags. -/
def ntoaDigits (value base : ℕ) (flags : PrintFlags) : List UCHAR × PrintFlags :=
  if value = 0 then
    if !flags.precision then ([chr '0'], { flags with hash := false })
    else if base = 16 then ([], { flags with hash := false })
    else ([], flags)
  else (digitLoop flags base ntoaBufferSize value [], flags)

/-- The leading zeros, and the width that is left. -/
def ntoaZeros (buf : List UCHAR) (negative : Bool) (precision width : ℕ) (flags : PrintFlags) : List UCHAR × ℕ :=
  let width := if !flags.left && width ≠ 0 && flags.zeropad && (negative || flags.plus || flags.space)
    then width - 1 else width
  let buf := if !flags.left && flags.zeropad then padZeros width ntoaBufferSize buf else buf
  (padZeros precision ntoaBufferSize buf, width)

/-- Takes a padding zero back. -/
def takeBack (unpaddedLen : ℕ) (buf : List UCHAR) : List UCHAR := if unpaddedLen < buf.length then buf.dropLast else buf

/-- The prefix of the alternative form; padding zeros make room for it. -/
def ntoaPrefix (unpaddedLen : ℕ) (buf : List UCHAR) (base precision width : ℕ) (flags : PrintFlags) : List UCHAR :=
  if flags.hash || flags.pointer then
    let buf :=
      if !flags.precision && buf.length ≠ 0 && (buf.length = precision || buf.length = width) then
        let buf := takeBack unpaddedLen buf
        if buf.length ≠ 0 && base = 16 then takeBack unpaddedLen buf else buf
      else buf
    let buf :=
      if base = 16 then pushChar buf (if flags.uppercase then chr 'X' else chr 'x')
      else if base = 2 then pushChar buf (chr 'b')
      else buf
    pushChar buf (chr '0')
  else buf

def ntoaSign (buf : List UCHAR) (negative : Bool) (flags : PrintFlags) : List UCHAR :=
  if negative then pushChar buf (chr '-')
  else if flags.plus then pushChar buf (chr '+')
  else if flags.space then pushChar buf (chr ' ')
  else buf

/-- What `_ntoa_format` passes to `_out_rev`: the characters, the width and the flags. -/
def ntoaFormatted (buf : List UCHAR) (negative : Bool) (base precision width : ℕ) (flags : PrintFlags) :
    List UCHAR × ℕ × PrintFlags :=
  let unpaddedLen := buf.length
  let (buf, width) := ntoaZeros buf negative precision width flags
  let flags := if base = 8 ∧ unpaddedLen < buf.length then { flags with hash := false } else flags
  let buf := ntoaPrefix unpaddedLen buf base precision width flags
  (ntoaSign buf negative flags, width, flags)

end Numbers

section Output
variable {σ : Type} (out : Out UCHAR σ) (maxlen : ℕ)

/-- The loops that print a blank for every number from one up to the width. -/
def padSpaces (start width : ℕ) (s : Written σ) : Written σ := (put out maxlen (chr ' '))^[width - start] s

def outRev (buf : List UCHAR) (width : ℕ) (flags : PrintFlags) (s : Written σ) : Written σ :=
  let startIdx := s.idx
  let s := if !flags.left && !flags.zeropad then padSpaces out maxlen buf.length width s else s
  let s := emit out maxlen buf.reverse s
  if flags.left then fillTo out maxlen (chr ' ') startIdx width width s else s

def ntoaFormat (buf : List UCHAR) (negative : Bool) (base precision width : ℕ) (flags : PrintFlags)
    (s : Written σ) : Written σ :=
  let (buf, width, flags) := ntoaFormatted buf negative base precision width flags
  outRev out maxlen buf width flags s

def ntoa (value : ULONG64) (negative : Bool) (base precision width : ℕ) (flags : PrintFlags) (s : Written σ) :
    Written σ :=
  let (buf, flags) := ntoaDigits value.toNat base flags
  ntoaFormat out maxlen buf negative base precision width flags s

end Output

section Integers

def baseOf (c : UCHAR) : ℕ :=
  if c = chr 'x' ∨ c = chr 'X' then 16 else if c = chr 'o' then 8 else if c = chr 'b' then 2 else 10

def isSigned (c : UCHAR) : Bool := c = chr 'i' || c = chr 'd'

/-- The flags that count for an integer, by its specifier. -/
def integerFlags (c : UCHAR) (flags : PrintFlags) : PrintFlags :=
  let flags := if baseOf c = 10 then { flags with hash := false } else flags
  let flags := if c = chr 'X' then { flags with uppercase := true } else flags
  let flags := if !isSigned c then { flags with plus := false, space := false } else flags
  if flags.precision then { flags with zeropad := false } else flags

/-- An argument of a signed type, as a `long long`. -/
def signedValue (flags : PrintFlags) (arg : ULONG64) : BitVec 64 :=
  if flags.longLong || flags.long then arg
  else if flags.char then (arg.setWidth 8).signExtend 64
  else if flags.short then (arg.setWidth 16).signExtend 64
  else (arg.setWidth 32).signExtend 64

def unsignedValue (flags : PrintFlags) (arg : ULONG64) : ULONG64 :=
  if flags.longLong || flags.long then arg
  else if flags.char then (arg.setWidth 8).setWidth 64
  else if flags.short then (arg.setWidth 16).setWidth 64
  else (arg.setWidth 32).setWidth 64

/-- `NTOA_ABS`. -/
def ntoaAbs (x : BitVec 64) : ULONG64 := if 0 < x.toInt then x else -x

/-- The value an integer directive prints, and whether it is negative. -/
def integerValue (c : UCHAR) (flags : PrintFlags) (arg : ULONG64) : ULONG64 × Bool :=
  if isSigned c then (ntoaAbs (signedValue flags arg), (signedValue flags arg).toInt < 0)
  else (unsignedValue flags arg, false)

/-- `_strnlen_s`. -/
def strnlenS (mem : Readable) : (maxsize : ℕ) → (str : PVOID) → ℕ
  | 0, _ => 0
  | maxsize+1, str => if mem str ≠ 0 then strnlenS mem maxsize (str + 1) + 1 else 0

end Integers

section Conversions
variable {σ : Type} (float : FloatText) (mem : Readable) (out : Out UCHAR σ) (maxlen : ℕ)

def isInteger (c : UCHAR) : Bool :=
  c = chr 'd' || c = chr 'i' || c = chr 'u' || c = chr 'x' || c = chr 'X' || c = chr 'o' || c = chr 'b'

def printInteger (c : UCHAR) (d : Directive) (s : Written σ) : Written σ :=
  let flags := integerFlags c d.flags
  let (value, negative) := integerValue c flags (d.va 0)
  ntoa out maxlen value negative (baseOf c) d.precision d.width flags s

def isFloat (c : UCHAR) : Bool :=
  c = chr 'f' || c = chr 'F' || c = chr 'e' || c = chr 'E' || c = chr 'g' || c = chr 'G'

def printFloat (c : UCHAR) (d : Directive) (s : Written σ) : Written σ :=
  let flags := if c = chr 'g' ∨ c = chr 'G' then { d.flags with adaptExp := true } else d.flags
  let flags := if c = chr 'F' ∨ c = chr 'E' ∨ c = chr 'G' then { flags with uppercase := true } else flags
  emit out maxlen (float ((d.va 0).setWidth 32) d.precision d.width flags (c ≠ chr 'f' && c ≠ chr 'F')) s

def printChar (d : Directive) (s : Written σ) : Written σ :=
  let s := if !d.flags.left then padSpaces out maxlen 1 d.width s else s
  let s := put out maxlen ((d.va 0).setWidth 8) s
  if d.flags.left then padSpaces out maxlen 1 d.width s else s

/-- The loop over the characters of a string. Only a string without a NUL is longer than the address space. -/
def putString (flags : PrintFlags) : (rounds : ℕ) → (p : PVOID) → (precision : ℕ) → Written σ → Option (Written σ)
  | 0, _, _, _ => none
  | n+1, p, precision, s =>
    if mem p ≠ 0 ∧ (flags.precision = false ∨ precision ≠ 0) then
      putString flags n (p + 1) (precision - 1) (put out maxlen (mem p) s)
    else some s

def printString (d : Directive) (s : Written σ) : Option (Written σ) :=
  let p := d.va 0
  if p = 0 then some (outRev out maxlen [chr ')', chr 'l', chr 'l', chr 'u', chr 'n', chr '('] d.width d.flags s)
  else do
    let l := strnlenS mem (if d.precision ≠ 0 then d.precision else 2^64 - 1) p % 2^32
    let l := if d.flags.precision then (if l < d.precision then l else d.precision) else l
    let s := if !d.flags.left then padSpaces out maxlen l d.width s else s
    let s ← putString mem out maxlen d.flags (2^64) p d.precision s
    return if d.flags.left then padSpaces out maxlen l d.width s else s

def printPointer (d : Directive) (s : Written σ) : Written σ :=
  let flags := { d.flags with zeropad := true, pointer := true }
  if d.va 0 = 0 then outRev out maxlen [chr ')', chr 'l', chr 'i', chr 'n', chr '('] 18 flags s
  else ntoa out maxlen (d.va 0) false 16 d.precision 18 flags s

/-- The `switch` over the specifier, with what is left of the format and the arguments behind it. -/
def printDirective (d : Directive) (s : Written σ) : Option (Written σ × List UCHAR × Args) :=
  match d.format with
  | [] => none
  | c :: format =>
    if isInteger c then some (printInteger out maxlen c d s, format, d.va.rest)
    else if isFloat c then some (printFloat float out maxlen c d s, format, d.va.rest)
    else if c = chr 'c' then some (printChar out maxlen d s, format, d.va.rest)
    else if c = chr 's' then (printString mem out maxlen d s).map fun s => (s, format, d.va.rest)
    else if c = chr 'p' then some (printPointer out maxlen d s, format, d.va.rest)
    else if c = chr '%' then some (put out maxlen (chr '%') s, format, d.va)
    else some (put out maxlen c s, format, d.va)

/-- The loop over the format, which gets shorter in every round. -/
def formatLoop : (rounds : ℕ) → (format : List UCHAR) → Args → Written σ → Option (Written σ × Args)
  | _, [], va, s => some (s, va)
  | 0, _ :: _, _, _ => none
  | n+1, c :: format, va, s =>
    if c ≠ chr '%' then formatLoop n format va (put out maxlen c s)
    else do
      let (s, format, va) ← printDirective float mem out maxlen (evalDirective format va) s
      formatLoop n format va s

/-- The state of the output behind the call, the number that is returned, and what is left of the arguments. -/
def vsnprintf (format : List UCHAR) (va : Args) (sink : σ) : Option (σ × INT × Args) := do
  let (s, va) ← formatLoop float mem out maxlen format.length format va ⟨sink, 0⟩
  let last := if s.idx < maxlen then s.idx else (maxlen + (2^64 - 1)) % 2^64
  return (out 0 last maxlen s.sink, BitVec.ofNat 32 s.idx, va)

end Conversions

section Functions
variable (float : FloatText) (mem : Readable)

/-- `_out_null` and `_out_char`. -/
def outNull : Out UCHAR Unit := fun _ _ _ s => s

/-- `_out_fct`. -/
def outFct {σ : Type} (fct : UCHAR → σ → σ) : Out UCHAR σ := listener (fun character => character ≠ 0) fct

/-- `( size_t )-1`. -/
def unlimited : ULONG64 := -1

def printf (format : List UCHAR) (va : Args) : Option INT := do
  let (_, ret, _) ← vsnprintf float mem outNull unlimited.toNat format va ()
  return ret

/-- Nothing is written through a null pointer. -/
def snprintf (buffer : Option Buffer) (count : ULONG64) (format : List UCHAR) (va : Args) :
    Option (Option Buffer × INT) :=
  match buffer with
  | none => do
    let (_, ret, _) ← vsnprintf float mem outNull count.toNat format va ()
    return (none, ret)
  | some b => do
    let (b, ret, _) ← vsnprintf float mem bounded count.toNat format va b
    return (some b, ret)

def sprintf (buffer : Option Buffer) (format : List UCHAR) (va : Args) : Option (Option Buffer × INT) :=
  snprintf float mem buffer unlimited format va

def vfctprintf {σ : Type} (fct : UCHAR → σ → σ) (format : List UCHAR) (va : Args) (s : σ) : Option (σ × INT × Args) :=
  vsnprintf float mem (outFct fct) unlimited.toNat format va s

end Functions

end Open98.Lib
