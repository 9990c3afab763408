import SqlRecord.BoundedInt

/-!
# Fixed-width integer types

The integer types of record fields and payloads, each a name and a range. The machine-sized types
have 64 bits.
-/

namespace SqlRecord

/-- The integer types a field can have. -/
inductive IntegerType where
  | int8
  | int16
  | int32
  | int64
  | intSize
  | uint8
  | uint16
  | uint32
  | uint64
  | uintSize
  deriving DecidableEq

namespace IntegerType

/-- The name of a type in messages and declarations. -/
def name : IntegerType → String
  | int8 => "i8"
  | int16 => "i16"
  | int32 => "i32"
  | int64 => "i64"
  | intSize => "isize"
  | uint8 => "u8"
  | uint16 => "u16"
  | uint32 => "u32"
  | uint64 => "u64"
  | uintSize => "usize"

/-- The least number of a type. -/
def least : IntegerType → Int
  | int8 => -0x80
  | int16 => -0x8000
  | int32 => -0x80000000
  | int64 | intSize => -0x8000000000000000
  | uint8 | uint16 | uint32 | uint64 | uintSize => 0

/-- The greatest number of a type. -/
def greatest : IntegerType → Int
  | int8 => 0x7f
  | int16 => 0x7fff
  | int32 => 0x7fffffff
  | int64 | intSize => 0x7fffffffffffffff
  | uint8 => 0xff
  | uint16 => 0xffff
  | uint32 => 0xffffffff
  | uint64 | uintSize => 0xffffffffffffffff

/-- The numbers of a type. -/
abbrev Carrier (t : IntegerType) : Type := BoundedInt t.least t.greatest

/-- The member of a type's range that an integer is, if it lies in it. -/
def ofInt? (t : IntegerType) (i : Int) : Option t.Carrier := BoundedInt.ofInt? _ _ i

theorem least_le_zero (t : IntegerType) : t.least ≤ 0 := by cases t <;> decide

theorem zero_le_greatest (t : IntegerType) : 0 ≤ t.greatest := by cases t <;> decide

/-- Zero, which every type has. -/
def zero (t : IntegerType) : t.Carrier := ⟨0, t.least_le_zero, t.zero_le_greatest⟩

end IntegerType

end SqlRecord
