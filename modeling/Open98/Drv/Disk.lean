import Open98.NtDef

/-! What the file system and the disk driver share: buffers, the ways in which a call does not
return, and the driver's entry points. -/
namespace Open98

/-- The bytes from a pointer on. -/
abbrev Buffer := ℕ → UCHAR

/-- How a call fails to return: it waits or loops for ever, or it uses a null pointer. -/
inductive Fault
  | hang
  | nullPointer
  deriving DecidableEq, Repr

abbrev Result := Except Fault

@[simp] theorem ok_bind {α β : Type} (a : α) (f : α → Result β) : (Except.ok a >>= f) = f a := rfl

@[simp] theorem error_bind {α β : Type} (e : Fault) (f : α → Result β) :
    ((Except.error e : Result α) >>= f) = .error e := rfl

/-- A finished sequence of two calls has an intermediate result. -/
theorem bind_eq_ok {α β : Type} {x : Result α} {f : α → Result β} {b : β} :
    (x >>= f) = .ok b ↔ ∃ a, x = .ok a ∧ f a = .ok b := by
  cases x with
  | error e => simp
  | ok a => simp

theorem toOption_eq_some {α : Type} {x : Result α} {a : α} : x.toOption = some a ↔ x = .ok a := by
  cases x with
  | error e => simp [Except.toOption]
  | ok b => simp [Except.toOption]

/-- The two entry points of the disk driver that the file system calls. -/
class Disk (δ : Type) where
  kiATAReadDiskEx : δ → (lba sectorcount : ℕ) → Buffer → Result Buffer
  kiATAWriteDisk : δ → (lba sectorcount : ℕ) → Buffer → Result δ

end Open98
