import NetlinkSchema.Text

/-!
# Machine integers

The integers that values are made of. Each remembers which of ten machine types it has, because a
message about a value of the wrong type names the type; what fits on the wire depends only on the
number.

## Main definitions

* `IntType`: A machine integer type.
* `Integer`: A number in the range of its type.
* `Integer.wrap`: The number modulo the range of a type.
-/

namespace NetlinkSchema

/-- A machine integer type; the types without a width have 64 bits. -/
inductive IntType
  | int
  | int8
  | int16
  | int32
  | int64
  | uint
  | uint8
  | uint16
  | uint32
  | uint64
deriving DecidableEq

namespace IntType

/-- The number of bits. -/
def bits : IntType → Nat
  | int | int64 | uint | uint64 => 64
  | int8 | uint8 => 8
  | int16 | uint16 => 16
  | int32 | uint32 => 32

/-- Whether the type has negative numbers. -/
def isSigned : IntType → Bool
  | int | int8 | int16 | int32 | int64 => true
  | uint | uint8 | uint16 | uint32 | uint64 => false

/-- How many numbers the type has. -/
def span (t : IntType) : Nat := Nat.pow 2 t.bits

/-- Half as many numbers as the type has. -/
def half (t : IntType) : Nat := Nat.pow 2 (t.bits - 1)

/-- The least number of the type. -/
def least (t : IntType) : Int := if t.isSigned then -t.half else 0

/-- The greatest number of the type. -/
def greatest (t : IntType) : Int := if t.isSigned then t.half - 1 else t.span - 1

/-- The name of the type. -/
def name : IntType → String
  | int => "int"
  | int8 => "int8"
  | int16 => "int16"
  | int32 => "int32"
  | int64 => "int64"
  | uint => "uint"
  | uint8 => "uint8"
  | uint16 => "uint16"
  | uint32 => "uint32"
  | uint64 => "uint64"

/-- The type of a name. -/
def ofName? : String → Option IntType
  | "int" => some int
  | "int8" => some int8
  | "int16" => some int16
  | "int32" => some int32
  | "int64" => some int64
  | "uint" => some uint
  | "uint8" => some uint8
  | "uint16" => some uint16
  | "uint32" => some uint32
  | "uint64" => some uint64
  | _ => none

/-- The number of the type that agrees with `x` in all bits of the type. -/
def reduce (t : IntType) (x : Int) : Int :=
  if t.isSigned then Int.bmod x t.span else x % t.span

/-- Half of the type's numbers are below the middle of its range. -/
theorem span_eq (t : IntType) : t.span = 2 * t.half := by cases t <;> rfl

theorem half_pos (t : IntType) : 0 < t.half := by cases t <;> decide

theorem least_le_reduce (t : IntType) (x : Int) : t.least ≤ t.reduce x := by
  have hspan := t.span_eq
  have hpos := t.half_pos
  unfold least reduce
  split
  · have h := Int.le_bmod (x := x) (m := t.span) (by omega)
    omega
  · exact Int.emod_nonneg x (by omega)

theorem reduce_le_greatest (t : IntType) (x : Int) : t.reduce x ≤ t.greatest := by
  have hspan := t.span_eq
  have hpos := t.half_pos
  unfold greatest reduce
  split
  · have h := Int.bmod_lt (x := x) (m := t.span) (by omega)
    omega
  · have h := Int.emod_lt_of_pos x (b := t.span) (by omega)
    omega

end IntType

/-- A number of a machine integer type. -/
structure Integer where
  type : IntType
  val : Int
  least_le : type.least ≤ val
  le_greatest : val ≤ type.greatest
deriving DecidableEq

namespace Integer

/-- The number of the type that agrees with `x` in all bits of the type. -/
def wrap (t : IntType) (x : Int) : Integer :=
  ⟨t, t.reduce x, t.least_le_reduce x, t.reduce_le_greatest x⟩

/-- The number in decimal. -/
def toText (i : Integer) : Text := Text.ofInt i.val

/-- The number as a signed word, if it fits one. -/
def toInt64? (i : Integer) : Option Int64 :=
  if i.val < 0x8000000000000000 then some (Int64.ofInt i.val) else none

/-- The number as an unsigned word, if it is not negative. -/
def toUInt64? (i : Integer) : Option UInt64 :=
  if 0 ≤ i.val then some (UInt64.ofInt i.val) else none

end Integer

end NetlinkSchema
