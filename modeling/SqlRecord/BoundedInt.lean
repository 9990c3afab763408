/-!
# Integers between two bounds

The fixed-width integers of columns and payloads differ only in their range, so one type serves
them all: an integer with proofs that it lies between the bounds. Conversion between two ranges
is one test, and arithmetic on the values is arithmetic on `Int`.
-/

namespace SqlRecord

/-- An integer from `lo` to `hi`, both included. -/
structure BoundedInt (lo hi : Int) where
  val : Int
  lo_le : lo ≤ val
  le_hi : val ≤ hi
  deriving DecidableEq

namespace BoundedInt

variable {lo hi : Int}

@[ext] theorem ext {a b : BoundedInt lo hi} (h : a.val = b.val) : a = b := by
  cases a; cases b; cases h; rfl

/-- The integer as a member of the range, if it lies in it. -/
def ofInt? (lo hi i : Int) : Option (BoundedInt lo hi) :=
  if h : lo ≤ i ∧ i ≤ hi then some ⟨i, h.1, h.2⟩ else none

theorem ofInt?_eq_some_iff {i : Int} {a : BoundedInt lo hi} :
    ofInt? lo hi i = some a ↔ a.val = i := by
  unfold ofInt?
  split
  next h => exact ⟨fun e => by cases e; rfl, fun e => congrArg some (ext e.symm)⟩
  next h => exact ⟨nofun, fun e => absurd ⟨e ▸ a.lo_le, e ▸ a.le_hi⟩ h⟩

@[simp] theorem ofInt?_val (a : BoundedInt lo hi) : ofInt? lo hi a.val = some a :=
  ofInt?_eq_some_iff.2 rfl

end BoundedInt

/-- The integers of a database cell: signed, 64 bits. -/
abbrev CellInt := BoundedInt (-0x8000000000000000) 0x7fffffffffffffff

/-- The least integer of a cell. -/
def CellInt.first : CellInt := ⟨-0x8000000000000000, by decide, by decide⟩

/-- The greatest integer of a cell. -/
def CellInt.last : CellInt := ⟨0x7fffffffffffffff, by decide, by decide⟩

end SqlRecord
