import Mathlib.Data.BitVec

/-! The integer types of `ntdef.h`. -/
namespace Open98

abbrev UCHAR := BitVec 8
abbrev UINT := BitVec 32
abbrev INT := BitVec 32
abbrev ULONG64 := BitVec 64
abbrev PVOID := BitVec 64

/-! Arrays of these sizes are indexed by numerals. -/

instance neZero_two : NeZero 2 := ⟨by decide⟩
instance neZero_three : NeZero 3 := ⟨by decide⟩
instance neZero_four : NeZero 4 := ⟨by decide⟩
instance neZero_thirtyTwo : NeZero 32 := ⟨by decide⟩

end Open98
