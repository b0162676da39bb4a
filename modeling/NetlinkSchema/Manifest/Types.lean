import NetlinkSchema.Schema.Types

/-!
# Manifests

A manifest describes the wire format of a compiled schema: the numbers of attributes, the layouts
of structs, and the values of enums and flags types. It holds nothing that the schema's encoders
and decoders do not follow from, and can be stored, compared and turned into source code.

A list that is absent differs from an empty one where the written forms tell them apart.

## Main definitions

* `Manifest`: The description of a schema.
* `Manifest.type?`: The description of a type.
-/

namespace NetlinkSchema

/-- An attribute of a set. -/
structure ManifestAttr where
  name : Text
  index : UInt16
  type : Text
  lower : Text
  repeated : Bool
  maxLength : Int64
  orig : Text
  docs : Docs
deriving DecidableEq

/-- A member of a struct. -/
structure ManifestField where
  name : Text
  offset : Int64
  size : Int64
  type : Text
  count : Int64
  lower : Text
  abi : Text
  orig : Text
  docs : Docs
deriving DecidableEq

/-- The layout of a struct. -/
structure ManifestStruct where
  /-- The encoded length, which is the least one if the struct is expandable. -/
  length : Int64
  expandable : Bool
  /-- Whether some member's size was not known where the struct is declared. -/
  deferred : Bool
  fields : Option (List ManifestField)
deriving DecidableEq

/-- A value of an enum or of a flags type. -/
structure ManifestValue where
  name : Text
  value : Int64
  field : Text
  orig : Text
  docs : Docs
deriving DecidableEq

/-- A type. -/
structure ManifestType where
  name : Text
  kind : Text
  orig : Text
  root : Bool
  docs : Docs
  attrs : List ManifestAttr
  struct : Option ManifestStruct
  values : List ManifestValue
  /-- Whether some field needs the bitmask form of the enum. -/
  bitmask : Bool
  /-- Whether some field needs the flag-list form of the enum. -/
  flagList : Bool
deriving DecidableEq

/-- The description of a schema. The fingerprint is a digest of the rest. -/
structure Manifest where
  fingerprint : Text
  types : Option (List ManifestType)
deriving DecidableEq

namespace ManifestAttr

/-- An attribute about which nothing is known. -/
def empty : ManifestAttr := ⟨.empty, 0, .empty, .empty, false, 0, .empty, none⟩

end ManifestAttr

namespace ManifestField

/-- A member about which nothing is known. -/
def empty : ManifestField := ⟨.empty, 0, 0, .empty, 0, .empty, .empty, .empty, none⟩

end ManifestField

namespace ManifestValue

/-- A value about which nothing is known. -/
def empty : ManifestValue := ⟨.empty, 0, .empty, .empty, none⟩

end ManifestValue

namespace ManifestType

/-- A type about which nothing is known. -/
def empty : ManifestType := ⟨.empty, .empty, .empty, false, none, [], none, [], false, false⟩

end ManifestType

namespace Manifest

/-- The types of a manifest. -/
def typeList (m : Manifest) : List ManifestType := m.types.getD []

/-- The description of the type of a name. -/
def type? (m : Manifest) (name : Text) : Option ManifestType :=
  m.typeList.find? (·.name == name)

end Manifest

end NetlinkSchema
