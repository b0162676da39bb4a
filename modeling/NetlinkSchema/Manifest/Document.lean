import NetlinkSchema.Json.Printer
import NetlinkSchema.Manifest.Types

/-!
# JSON manifests

Manifests in JSON, with their properties in a fixed order. What is empty is left out, apart from
what every type, attribute, member or value has.

## Main definitions

* `Manifest.toJson`: The JSON of a manifest.
-/

namespace NetlinkSchema

namespace Json

/-- A text that is left out if it is empty. -/
def text? (name t : Text) : List (Text × Json) := if t.isEmpty then [] else [(name, string t)]

/-- A boolean that is left out if it is false. -/
def bool? (name : Text) (b : Bool) : List (Text × Json) := if b then [(name, bool true)] else []

/-- A number that is left out if it is zero. -/
def int? (name : Text) (n : Int64) : List (Text × Json) :=
  if n = 0 then [] else [(name, int n.toInt)]

/-- A list that is left out if it is empty. -/
def list? (name : Text) (items : List Json) : List (Text × Json) :=
  if items.isEmpty then [] else [(name, array items)]

/-- Lines of documentation, left out if there are none. -/
def docs? (docs : Docs) : List (Text × Json) := list? "docs" ((docs.getD []).map string)

/-- A list, or nothing if it is absent. -/
def ofList? (items : Option (List Json)) : Json :=
  match items with
  | some items => array items
  | none => null

end Json

namespace ManifestAttr

/-- The JSON of an attribute. -/
def toJson (a : ManifestAttr) : Json :=
  .object (Json.field "name" (.string a.name) ++ Json.field "index" (.int a.index.toNat)
    ++ Json.field "type" (.string a.type)
    ++ Json.text? "lower" a.lower ++ Json.bool? "repeated" a.repeated
    ++ Json.int? "max_length" a.maxLength ++ Json.text? "orig" a.orig ++ Json.docs? a.docs)

end ManifestAttr

namespace ManifestField

/-- The JSON of a member. -/
def toJson (f : ManifestField) : Json :=
  .object (Json.field "name" (.string f.name) ++ Json.field "offset" (.int f.offset.toInt)
    ++ Json.field "size" (.int f.size.toInt) ++ Json.field "type" (.string f.type)
    ++ Json.int? "count" f.count ++ Json.text? "lower" f.lower ++ Json.text? "abi" f.abi
    ++ Json.text? "orig" f.orig ++ Json.docs? f.docs)

end ManifestField

namespace ManifestStruct

/-- The JSON of a layout. -/
def toJson (s : ManifestStruct) : Json :=
  .object (Json.field "length" (.int s.length.toInt) ++ Json.bool? "expandable" s.expandable
    ++ Json.bool? "deferred" s.deferred
    ++ Json.field "fields" (Json.ofList? (s.fields.map (·.map ManifestField.toJson))))

end ManifestStruct

namespace ManifestValue

/-- The JSON of a value. -/
def toJson (v : ManifestValue) : Json :=
  .object (Json.field "name" (.string v.name) ++ Json.field "value" (.int v.value.toInt)
    ++ Json.text? "field" v.field ++ Json.text? "orig" v.orig ++ Json.docs? v.docs)

end ManifestValue

namespace ManifestType

/-- The JSON of a type. -/
def toJson (t : ManifestType) : Json :=
  .object (Json.field "name" (.string t.name) ++ Json.field "kind" (.string t.kind)
    ++ Json.text? "orig" t.orig ++ Json.bool? "root" t.root ++ Json.docs? t.docs
    ++ Json.list? "attrs" (t.attrs.map ManifestAttr.toJson)
    ++ (match t.struct with
      | some s => Json.field "struct" s.toJson
      | none => [])
    ++ Json.list? "values" (t.values.map ManifestValue.toJson)
    ++ Json.bool? "bitmask" t.bitmask ++ Json.bool? "flag_list" t.flagList)

end ManifestType

namespace Manifest

/-- The JSON of a manifest. -/
def toJson (m : Manifest) : Json :=
  .object (Json.text? "fingerprint" m.fingerprint
    ++ Json.field "types" (Json.ofList? (m.types.map (·.map ManifestType.toJson))))

end Manifest

end NetlinkSchema
