import NetlinkSchema.Codec.Payload

/-!
# Bundles

The result of compiling a schema: a codec for each struct and attribute set, and the named numbers
and bits of its enums and flags types. A derived form of an enum is usable only if some field of
the schema needs it.

## Main definitions

* `EnumCodec`: An enum with the derived forms that the schema needs.
* `CompiledType`: What became of a type.
* `Bundle`: The compiled types of a schema.
* `Codec`: A struct or an attribute set of a bundle.
* `Codec.decode`, `Codec.encode`: Between bytes and an object.
-/

namespace NetlinkSchema

/-- An enum with the derived forms that the schema needs. -/
structure EnumCodec where
  type : EnumType
  bitmask : Bool
  flagList : Bool
deriving DecidableEq

namespace EnumCodec

/-- Refuses a derived form that no field needs. -/
def require (e : EnumCodec) (variant : Variant) : Except WireError Unit :=
  let compiled := match variant with
    | .bitmask => e.bitmask
    | .flagList => e.flagList
  if compiled then .ok () else .error (.notCompiled variant e.type.name)

/-- Decodes the bitmask form. -/
def decodeBitmask (e : EnumCodec) (bits : UInt64) : Except WireError Object := do
  e.require .bitmask
  return e.type.decodeBitmask bits

/-- Encodes the bitmask form. -/
def encodeBitmask (e : EnumCodec) (obj : Object) : Except WireError UInt64 := do
  e.require .bitmask
  e.type.encodeBitmask obj

/-- Decodes the flag-list form. -/
def decodeFlagList (e : EnumCodec) (buf : Bytes) : Except WireError Object := do
  e.require .flagList
  e.type.decodeFlagList buf

/-- Encodes the flag-list form. -/
def encodeFlagList (e : EnumCodec) (obj : Object) : Except WireError Bytes := do
  e.require .flagList
  e.type.encodeFlagList obj

end EnumCodec

/-- What became of a type of a schema. -/
inductive CompiledType
  | attrs (set : AttrSet)
  | struct (layout : Layout)
  | enum (codec : EnumCodec)
  | flags (type : FlagsType)
  /-- A type of no known kind, of which only the kind is left. -/
  | other (kind : Text)

namespace CompiledType

/-- The kind of the type. -/
def kind : CompiledType → Text
  | attrs _ => "attrs"
  | struct _ => "struct"
  | enum _ => "enum"
  | flags _ => "flags"
  | other kind => kind

/-- The attribute set, if it is one. -/
def attrSet? : CompiledType → Option AttrSet
  | attrs set => some set
  | _ => none

end CompiledType

/-- The compiled types of a schema, in the order of their declaration. -/
structure Bundle where
  types : List (Text × CompiledType)

/-- A struct or an attribute set. -/
inductive Codec
  | attrs (sets : AttrSets) (name : Text)
  | struct (layout : Layout)

namespace Bundle

/-- The names of the types. -/
def names (b : Bundle) : List Text := b.types.map (·.1)

/-- The compiled type of a name. -/
def get? (b : Bundle) (name : Text) : Option CompiledType :=
  (b.types.find? (·.1 == name)).map (·.2)

/-- The attribute sets of the schema. -/
def attrSets (b : Bundle) : AttrSets := b.types.filterMap (·.2.attrSet?)

/-- The codec of a struct or an attribute set. -/
def codec? (b : Bundle) (name : Text) : Option Codec :=
  match b.get? name with
  | some (.attrs _) => some (.attrs b.attrSets name)
  | some (.struct layout) => some (.struct layout)
  | _ => none

/-- The flags type of a name. -/
def flags? (b : Bundle) (name : Text) : Option FlagsType :=
  match b.get? name with
  | some (.flags f) => some f
  | _ => none

/-- The enum of a name. -/
def enum? (b : Bundle) (name : Text) : Option EnumCodec :=
  match b.get? name with
  | some (.enum e) => some e
  | _ => none

end Bundle

namespace Codec

/-- The name of the type. -/
def name : Codec → Text
  | attrs _ name => name
  | struct layout => layout.name

/-- The kind of the type. -/
def kind : Codec → Text
  | attrs _ _ => "attrs"
  | struct _ => "struct"

/-- The length of a struct, and whether it is exact. -/
def length : Codec → Int64 × Bool
  | attrs _ _ => (0, false)
  | struct layout => (layout.size, !layout.expandable)

/-- Decodes a message. -/
def decode : Codec → Bytes → Except WireError Object
  | attrs sets name, buf => do
    match ← (Payload.attrs name).decode sets buf with
    | .object obj => return obj
    | _ => return []
  | struct layout, buf => layout.decode buf

/-- Encodes a message. -/
def encode : Codec → Object → Except WireError Bytes
  | attrs sets name, obj => (Payload.attrs name).encode sets (.object obj)
  | struct layout, obj => layout.encode obj

/-- Encodes a struct into a buffer, which must have exactly the encoded length. Where encoding
    fails the buffer may be partly written. -/
def encodeInto : Codec → Object → Bytes → MemberType.Written
  | attrs _ name, _, buf => (buf, some (.notStruct name))
  | struct layout, obj, buf => layout.encodeInto obj buf

end Codec

end NetlinkSchema
