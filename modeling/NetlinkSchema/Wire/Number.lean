import NetlinkSchema.Value
import NetlinkSchema.Wire.Error

/-!
# Numbers on the wire

The numeric types of a schema, such as `u32`, `s16be` or `f64`: a kind, a width, and the order of
the bytes. A number without a suffix has the byte order of the host, which is little-endian.

An integer value of any machine type is encoded if the wire type's range holds it. A
floating-point type also takes integers, rounded to the nearest number.

## Main definitions

* `Number`: A numeric wire type.
* `Number.ofName?`, `Number.name`: Its name in a schema.
* `Number.mask`, `Number.checkBits`: The bits of the width.
* `Number.toBits`, `Number.readBits`: The bits of a value and the bits in a buffer.
* `Number.read`, `Number.get`, `Number.put`: Decoding and encoding.
-/

namespace NetlinkSchema

/-- The number of bytes of an integer. -/
inductive Width
  | w8
  | w16
  | w32
  | w64
deriving DecidableEq

namespace Width

/-- The number of bytes. -/
def size : Width → Nat
  | w8 => 1
  | w16 => 2
  | w32 => 4
  | w64 => 8

/-- The signed machine type of this width. -/
def signed : Width → IntType
  | w8 => .int8
  | w16 => .int16
  | w32 => .int32
  | w64 => .int64

/-- The unsigned machine type of this width. -/
def unsigned : Width → IntType
  | w8 => .uint8
  | w16 => .uint16
  | w32 => .uint32
  | w64 => .uint64

/-- Every width. -/
def all : List Width := [w8, w16, w32, w64]

end Width

/-- What the bits of a number stand for. -/
inductive NumberKind
  | unsigned (width : Width)
  | signed (width : Width)
  | float32
  | float64
deriving DecidableEq

/-- The order of the bytes of a number. -/
inductive ByteOrder
  | native
  | little
  | big
deriving DecidableEq

namespace ByteOrder

/-- The name of the order itself; the host is little-endian. -/
def name : ByteOrder → Text
  | native => "little"
  | little => "little"
  | big => "big"

/-- The number that bytes stand for in this order. -/
def decode : ByteOrder → Bytes → Nat
  | big, b => Bytes.toNatBig b
  | _, b => Bytes.toNatLittle b

/-- The low bytes of a number in this order. -/
def encode : ByteOrder → (size n : Nat) → Bytes
  | big, size, n => Bytes.ofNatBig size n
  | _, size, n => Bytes.ofNatLittle size n

end ByteOrder

/-- A numeric wire type. -/
structure Number where
  kind : NumberKind
  order : ByteOrder
deriving DecidableEq

namespace Number

/-- The number of bytes. -/
def size (n : Number) : Nat :=
  match n.kind with
  | .unsigned w => w.size
  | .signed w => w.size
  | .float32 => 4
  | .float64 => 8

/-- Whether the number is a floating-point number. -/
def isFloat (n : Number) : Bool :=
  match n.kind with
  | .float32 | .float64 => true
  | _ => false

/-- The name of the type in a schema: kind, width in bits, and byte order if one is fixed. -/
def name (n : Number) : Text :=
  let kind : Text := match n.kind with
    | .unsigned _ => "u"
    | .signed _ => "s"
    | .float32 | .float64 => "f"
  let order : Text := match n.order with
    | .native => ""
    | .little => "le"
    | .big => "be"
  kind ++ Text.ofNat (8 * n.size) ++ order

/-- Every numeric type. -/
def all : List Number :=
  let kinds := Width.all.map .unsigned ++ Width.all.map .signed ++ [.float32, .float64]
  kinds.flatMap fun k => [⟨k, .native⟩, ⟨k, .little⟩, ⟨k, .big⟩]

/-- Every numeric type with its name. -/
def named : List (Text × Number) := all.map fun n => (n.name, n)

/-- The numeric type of a name. -/
def ofName? (t : Text) : Option Number := (named.find? (·.1 == t)).map (·.2)

/-- The machine type that holds exactly the wire type's integers. -/
def intType? (n : Number) : Option IntType :=
  match n.kind with
  | .unsigned w => some w.unsigned
  | .signed w => some w.signed
  | _ => none

/-- The bits of a buffer's first bytes, zero-extended. -/
def readBits (n : Number) (buf : Bytes) : UInt64 :=
  UInt64.ofNat (n.order.decode (buf.take n.size))

/-- The low bytes of a pattern, as many as the type has. -/
def bitsToBytes (n : Number) (bits : UInt64) : Bytes := n.order.encode n.size bits.toNat

/-- Whether the type has negative integers. -/
def isSigned (n : Number) : Bool :=
  match n.kind with
  | .signed _ => true
  | _ => false

/-- All bits of the width. -/
def mask (n : Number) : UInt64 :=
  if n.size = 8 then 0xFFFFFFFFFFFFFFFF else (1 <<< UInt64.ofNat (8 * n.size)) - 1

/-- Refuses a pattern with bits above the width. -/
def checkBits (n : Number) (bits : UInt64) : Except WireError Unit :=
  if bits &&& ~~~n.mask = 0 then .ok ()
  else .error (.outOfRange (Text.hexLiteral bits.toNat) n.name)

/-- The value that a pattern stands for. -/
def ofBits (n : Number) (bits : UInt64) : Value :=
  match n.kind with
  | .unsigned w => .ofInt w.unsigned bits.toNat
  | .signed w => .ofInt w.signed bits.toNat
  | .float32 => .float32 (UInt32.ofNat bits.toNat)
  | .float64 => .float64 bits

/-- Decodes the first bytes of a buffer. -/
def read (n : Number) (buf : Bytes) : Value := n.ofBits (n.readBits buf)

/-- The greatest unsigned word of the type. In a signed type the highest bit stays free. -/
def greatestWord (n : Number) : UInt64 := if n.isSigned then n.mask >>> 1 else n.mask

/-- The least signed word of a signed type. -/
def leastWord (n : Number) : Int64 := (-1) <<< Int64.ofNat (8 * n.size - 1)

/-- The bits of an unsigned word. -/
def unsignedBits (n : Number) (x : UInt64) : Except WireError UInt64 :=
  if x ≤ n.greatestWord then .ok x else .error (.outOfRange (Text.ofInt x.toNat) n.name)

/-- The bits of a signed word. In a signed type of 64 bits every word has a place, in an unsigned
    type no negative one has. -/
def signedBits (n : Number) (x : Int64) : Except WireError UInt64 :=
  if n.isSigned then
    if n.size < 8 ∧ (x < n.leastWord ∨ -n.leastWord - 1 < x) then
      .error (.outOfRange (Text.ofInt x.toInt) n.name)
    else .ok (x.toUInt64 &&& n.mask)
  else if x < 0 then .error (.outOfRange (Text.ofInt x.toInt) n.name)
  else n.unsignedBits x.toUInt64

/-- The bits of an integer, which is a signed or an unsigned word by its machine type. -/
def integerBits (n : Number) (i : Integer) : Except WireError UInt64 :=
  if i.type.isSigned then n.signedBits (Int64.ofInt i.val)
  else n.unsignedBits (UInt64.ofInt i.val)

/-- The double nearest to an integer that is a signed word or an unsigned one of fixed width. -/
def integerToDouble? (i : Integer) : Option Nat :=
  if i.val < 0x8000000000000000 ∨ i.type = .uint64 then some (FloatFormat.double.ofInt i.val)
  else none

/-- The single-precision bits of a value. Integers are rounded to a double first. -/
def singleBits? : Value → Option Nat
  | .float32 bits => some bits.toNat
  | .float64 bits => some (FloatFormat.double.convert .single bits.toNat)
  | .int i => (integerToDouble? i).map (FloatFormat.double.convert .single)
  | _ => none

/-- The double-precision bits of a value. -/
def doubleBits? : Value → Option Nat
  | .float32 bits => some (FloatFormat.single.convert .double bits.toNat)
  | .float64 bits => some bits.toNat
  | .int i => integerToDouble? i
  | _ => none

/-- The bits of a value on the wire. -/
def toBits (n : Number) (v : Value) : Except WireError UInt64 :=
  let mistyped : Except WireError UInt64 := .error (.unexpectedType n.name v.typeName)
  let ofInteger : Except WireError UInt64 :=
    match v with
    | .int i => n.integerBits i
    | _ => mistyped
  let ofFloat : Option Nat → Except WireError UInt64
    | some bits => .ok (UInt64.ofNat bits)
    | none => mistyped
  match n.kind with
  | .unsigned _ | .signed _ => ofInteger
  | .float32 => ofFloat (singleBits? v)
  | .float64 => ofFloat (doubleBits? v)

/-- The bits of a value that was decoded. No bits are set in a value that is none of the type. -/
def rawBits (n : Number) (v : Value) : UInt64 :=
  match n.toBits v with
  | .ok bits => bits
  | .error _ => 0

/-- Encodes a value. -/
def put (n : Number) (v : Value) : Except WireError Bytes := do
  let bits ← n.toBits v
  return n.bitsToBytes bits

/-- Refuses a payload of another length. -/
def checkLength (n : Number) (data : Bytes) : Except WireError Unit :=
  if data.length = n.size then .ok () else .error (.bound .length n.size data.length)

/-- Decodes a payload, which must have exactly the type's length. -/
def get (n : Number) (data : Bytes) : Except WireError Value := do
  n.checkLength data
  return n.read data

end Number

end NetlinkSchema
