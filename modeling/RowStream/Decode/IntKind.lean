/-!
# Integer destinations

The fixed-width integer types that a row can be decoded into, each an interval of the integers.
-/

namespace RowStream

/-- A fixed-width integer type; the size of things in memory has 64 bits. -/
inductive IntKind
  | i8 | i16 | i32 | i64 | u8 | u16 | u32 | u64 | size
deriving DecidableEq, Repr

namespace IntKind

/-- The name of a type. -/
def name : IntKind → String
  | i8 => "i8"
  | i16 => "i16"
  | i32 => "i32"
  | i64 => "i64"
  | u8 => "u8"
  | u16 => "u16"
  | u32 => "u32"
  | u64 => "u64"
  | size => "usize"

/-- All types. -/
def all : List IntKind := [i8, i16, i32, i64, u8, u16, u32, u64, size]

/-- The least value of a type. -/
def least : IntKind → Int
  | i8 => -0x80
  | i16 => -0x8000
  | i32 => -0x80000000
  | i64 => -0x8000000000000000
  | u8 | u16 | u32 | u64 | size => 0

/-- The greatest value of a type. -/
def greatest : IntKind → Int
  | i8 => 0x7F
  | i16 => 0x7FFF
  | i32 => 0x7FFFFFFF
  | i64 => 0x7FFFFFFFFFFFFFFF
  | u8 => 0xFF
  | u16 => 0xFFFF
  | u32 => 0xFFFFFFFF
  | u64 | size => 0xFFFFFFFFFFFFFFFF

/-- The values of a type. -/
abbrev Value (k : IntKind) := { n : Int // k.least ≤ n ∧ n ≤ k.greatest }

/-- An integer as a value of a type that has it. -/
def value? (k : IntKind) (n : Int) : Option k.Value :=
  if h : k.least ≤ n ∧ n ≤ k.greatest then some ⟨n, h⟩ else none

/-- Zero, which every type has. -/
def zero (k : IntKind) : k.Value := ⟨0, by cases k <;> decide⟩

end IntKind
end RowStream
