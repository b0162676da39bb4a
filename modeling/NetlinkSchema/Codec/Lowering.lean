import NetlinkSchema.Codec.Enum
import NetlinkSchema.Codec.Flags
import NetlinkSchema.Schema.Types

/-!
# Lowered integers

An integer field may be given a meaning: the names of an enum, the bits of an enum, or a set of
flags. Its decoded value is then a name or an object instead of a number.

## Main definitions

* `Lowering`: What the bits of an integer mean.
* `Lowering.read`, `Lowering.toBytes`: Decoding and encoding an integer field.
-/

namespace NetlinkSchema

/-- What the bits of an integer mean. -/
inductive Lowering
  | none
  | enum (type : EnumType)
  | bitmask (type : EnumType)
  | flags (type : FlagsType)
deriving DecidableEq

namespace Lowering

/-- Decodes the first bytes of a buffer. What an integer means is read off its value. -/
def read (l : Lowering) (num : Number) (buf : Bytes) : Value :=
  let raw := num.read buf
  match l with
  | none => raw
  | enum e => e.decodeName raw
  | bitmask e => .object (e.decodeBitmask (num.rawBits raw))
  | flags f => .object (f.decode (num.rawBits raw))

/-- The bits of an object, which must fit the width of the integer. -/
def objectBytes (num : Number) (want : Text) (v : Value)
    (encode : Object → Except WireError UInt64) : Except WireError Bytes := do
  match v with
  | .object obj =>
    let bits ← encode obj
    num.checkBits bits
    return num.bitsToBytes bits
  | _ => throw (.unexpectedType want v.typeName)

/-- Encodes a value. -/
def toBytes (l : Lowering) (num : Number) (v : Value) : Except WireError Bytes :=
  match l with
  | none => num.put v
  | enum e => do
    let raw ← e.encodeName v
    num.put raw
  | bitmask e => objectBytes num (asFlags e.name) v e.encodeBitmask
  | flags f => objectBytes num f.name v f.encode

end Lowering

end NetlinkSchema
