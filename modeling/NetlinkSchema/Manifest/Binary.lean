import NetlinkSchema.Cbor.Field
import NetlinkSchema.Digest
import NetlinkSchema.Manifest.Types

/-!
# Binary manifests

Manifests in CBOR, and their fingerprints. What is empty is left out, apart from what every type,
attribute, member or value has. Equal manifests have equal bytes, so a digest of the bytes can
stand for the manifest.

## Main definitions

* `Manifest.toCbor`, `Manifest.toBytes`: The binary form of a manifest.
* `Manifest.ofBytes?`: The manifest of a binary form.
* `Manifest.computeFingerprint`, `Manifest.sign`: The digest of a manifest, and storing it.
-/

namespace NetlinkSchema

namespace Cbor

/-- An entry of a record. -/
def entry (name : Text) (item : Cbor) : Record := [(.text name, item)]

/-- A text that is left out if it is empty. -/
def textEntry (name t : Text) : Record := if t.isEmpty then [] else entry name (.text t)

/-- A boolean that is left out if it is false. -/
def boolEntry (name : Text) (b : Bool) : Record := if b then entry name (.bool true) else []

/-- A number that is left out if it is zero. -/
def intEntry (name : Text) (n : Int64) : Record := if n = 0 then [] else entry name (.int n)

/-- A list that is left out if it is empty. -/
def listEntry (name : Text) (items : List Cbor) : Record :=
  if items.isEmpty then [] else entry name (.array items)

/-- Lines of documentation, left out if there are none. -/
def docsEntry (docs : Docs) : Record := listEntry "docs" ((docs.getD []).map .text)

/-- A list, or nothing if it is absent. -/
def ofList? (items : Option (List Cbor)) : Cbor :=
  match items with
  | some items => .array items
  | none => .null

end Cbor

namespace ManifestAttr

/-- The binary form of an attribute. -/
def toCbor (a : ManifestAttr) : Cbor :=
  .map (Cbor.entry "name" (.text a.name) ++ Cbor.entry "index" (.unsigned a.index.toUInt64)
    ++ Cbor.entry "type" (.text a.type) ++ Cbor.textEntry "lower" a.lower
    ++ Cbor.boolEntry "repeated" a.repeated ++ Cbor.intEntry "max_length" a.maxLength
    ++ Cbor.textEntry "orig" a.orig ++ Cbor.docsEntry a.docs)

/-- Reads an attribute. -/
def ofRecord? (r : Cbor.Record) : Option ManifestAttr := do
  let index ← r.field "index" 0 (Cbor.toInt? 0 65535)
  return ⟨← r.text "name", UInt16.ofInt index, ← r.text "type", ← r.text "lower",
    ← r.bool "repeated", ← r.int "max_length", ← r.text "orig", ← r.texts "docs"⟩

end ManifestAttr

namespace ManifestField

/-- The binary form of a member. -/
def toCbor (f : ManifestField) : Cbor :=
  .map (Cbor.entry "name" (.text f.name) ++ Cbor.entry "offset" (.int f.offset)
    ++ Cbor.entry "size" (.int f.size) ++ Cbor.entry "type" (.text f.type)
    ++ Cbor.intEntry "count" f.count ++ Cbor.textEntry "lower" f.lower
    ++ Cbor.textEntry "abi" f.abi ++ Cbor.textEntry "orig" f.orig ++ Cbor.docsEntry f.docs)

/-- Reads a member. -/
def ofRecord? (r : Cbor.Record) : Option ManifestField := do
  return ⟨← r.text "name", ← r.int "offset", ← r.int "size", ← r.text "type", ← r.int "count",
    ← r.text "lower", ← r.text "abi", ← r.text "orig", ← r.texts "docs"⟩

end ManifestField

namespace ManifestStruct

/-- The binary form of a layout. -/
def toCbor (s : ManifestStruct) : Cbor :=
  .map (Cbor.entry "length" (.int s.length) ++ Cbor.boolEntry "expandable" s.expandable
    ++ Cbor.boolEntry "deferred" s.deferred
    ++ Cbor.entry "fields" (Cbor.ofList? (s.fields.map (·.map ManifestField.toCbor))))

/-- Reads a layout. -/
def ofRecord? (r : Cbor.Record) : Option ManifestStruct := do
  let fields ← r.field "fields" none (Cbor.toMembers? (Cbor.toRecord? ManifestField.ofRecord?))
  return ⟨← r.int "length", ← r.bool "expandable", ← r.bool "deferred", fields⟩

end ManifestStruct

namespace ManifestValue

/-- The binary form of a value. -/
def toCbor (v : ManifestValue) : Cbor :=
  .map (Cbor.entry "name" (.text v.name) ++ Cbor.entry "value" (.int v.value)
    ++ Cbor.textEntry "field" v.field ++ Cbor.textEntry "orig" v.orig ++ Cbor.docsEntry v.docs)

/-- Reads a value. -/
def ofRecord? (r : Cbor.Record) : Option ManifestValue := do
  return ⟨← r.text "name", ← r.int "value", ← r.text "field", ← r.text "orig", ← r.texts "docs"⟩

end ManifestValue

namespace ManifestType

/-- The binary form of a type. -/
def toCbor (t : ManifestType) : Cbor :=
  .map (Cbor.entry "name" (.text t.name) ++ Cbor.entry "kind" (.text t.kind)
    ++ Cbor.textEntry "orig" t.orig ++ Cbor.boolEntry "root" t.root ++ Cbor.docsEntry t.docs
    ++ Cbor.listEntry "attrs" (t.attrs.map ManifestAttr.toCbor)
    ++ (match t.struct with
      | some s => Cbor.entry "struct" s.toCbor
      | none => [])
    ++ Cbor.listEntry "values" (t.values.map ManifestValue.toCbor)
    ++ Cbor.boolEntry "bitmask" t.bitmask ++ Cbor.boolEntry "flag_list" t.flagList)

/-- Reads a layout, unless there is none. -/
def structOf? (item : Cbor) : Option (Option ManifestStruct) :=
  if item.isNothing then some none
  else (Cbor.toRecord? ManifestStruct.ofRecord? item).map some

/-- Reads a type. -/
def ofRecord? (r : Cbor.Record) : Option ManifestType := do
  let attrs ← r.field "attrs" none (Cbor.toMembers? (Cbor.toRecord? ManifestAttr.ofRecord?))
  let values ← r.field "values" none (Cbor.toMembers? (Cbor.toRecord? ManifestValue.ofRecord?))
  return ⟨← r.text "name", ← r.text "kind", ← r.text "orig", ← r.bool "root", ← r.texts "docs",
    attrs.getD [], ← r.field "struct" none structOf?, values.getD [], ← r.bool "bitmask",
    ← r.bool "flag_list"⟩

end ManifestType

namespace Manifest

/-- The binary form of a manifest as a data item. -/
def toCbor (m : Manifest) : Cbor :=
  .map (Cbor.textEntry "fingerprint" m.fingerprint
    ++ Cbor.entry "types" (Cbor.ofList? (m.types.map (·.map ManifestType.toCbor))))

/-- The binary form of a manifest. -/
def toBytes (m : Manifest) : Bytes := m.toCbor.encode

/-- Reads a manifest. -/
def ofRecord? (r : Cbor.Record) : Option Manifest := do
  let types ← r.field "types" none (Cbor.toMembers? (Cbor.toRecord? ManifestType.ofRecord?))
  return ⟨← r.text "fingerprint", types⟩

/-- The manifest of a binary form. -/
def ofBytes? (b : Bytes) : Option Manifest := do
  Cbor.toRecord? ofRecord? (← Cbor.decode? b)

/-- The digest of a manifest, whatever fingerprint it has. -/
def computeFingerprint (m : Manifest) : Text :=
  (Blake3.digest (toBytes { m with fingerprint := .empty })).toHex

/-- The manifest with its own digest as fingerprint. -/
def sign (m : Manifest) : Manifest := { m with fingerprint := m.computeFingerprint }

end Manifest

end NetlinkSchema
