import NetlinkSchema.Value
import NetlinkSchema.Wire.Error

/-!
# Flags

A flags type names sets of bits. Its decoded form is an object with one entry per name, and bits
that no name covers are kept under a field of their own, so that encoding gives back every bit.

## Main definitions

* `FlagsType`: Named sets of bits.
* `FlagsType.decode`, `FlagsType.encode`: Between a bit pattern and an object.
-/

namespace NetlinkSchema

/-- The field for bits that no flag covers. -/
def unknownField : Text := "__unknown"

/-- A named set of bits. -/
structure FlagBits where
  name : Text
  mask : UInt64
deriving DecidableEq

/-- A type of named sets of bits. -/
structure FlagsType where
  name : Text
  flags : List FlagBits
deriving DecidableEq

namespace FlagsType

/-- The flags whose bits are all set. -/
def present (f : FlagsType) (bits : UInt64) : List FlagBits :=
  f.flags.filter fun flag => bits &&& flag.mask == flag.mask

/-- The bits that no present flag covers. -/
def residue (f : FlagsType) (bits : UInt64) : UInt64 :=
  (f.present bits).foldl (fun rest flag => rest &&& ~~~flag.mask) bits

/-- An entry for each flag whose bits are all set, and the bits that are left over. -/
def decode (f : FlagsType) (bits : UInt64) : Object :=
  let set := (f.present bits).foldl (fun obj flag => Object.set obj flag.name (.bool true)) []
  let rest := f.residue bits
  if rest = 0 then set else Object.set set unknownField (.ofInt .uint64 rest.toNat)

/-- The bits of a name. -/
def mask? (f : FlagsType) (name : Text) : Option UInt64 :=
  (f.flags.find? (·.name == name)).map (·.mask)

/-- The bits that one entry of an object sets. -/
def entryBits (f : FlagsType) (key : Text) (v : Value) : Except WireError UInt64 :=
  if v.isNull then .ok 0
  else if key == unknownField then
    match v.toUInt64? with
    | some bits => .ok bits
    | none => .error (.field f.name key .wrongType)
  else
    match f.mask? key, v with
    | none, _ => .error (.within f.name (.undeclaredKey key))
    | some mask, .bool set => .ok (if set then mask else 0)
    | some _, _ => .error (.field f.name key .wrongType)

/-- All bits that the entries of an object set. -/
def encode (f : FlagsType) (obj : Object) : Except WireError UInt64 :=
  obj.foldlM (fun bits e => do return bits ||| (← f.entryBits e.1 e.2)) 0

end FlagsType

end NetlinkSchema
