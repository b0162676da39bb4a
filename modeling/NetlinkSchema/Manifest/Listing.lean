import NetlinkSchema.Listing
import NetlinkSchema.Manifest.Types

/-!
# Listings of manifests

A manifest as indented text: a line per property, and a block per type, attribute, member and
value. Properties that say nothing are left out.

## Main definitions

* `Manifest.listing`: The listing of a manifest.
-/

namespace NetlinkSchema

namespace Listing

/-- Writes a text after its name. -/
def textLine (indent : Nat) (name t : Text) (l : Listing) : Listing :=
  l.line indent (name ++ " = " ++ quote t)

/-- Writes a text after its name, unless it is empty. -/
def textLine? (indent : Nat) (name t : Text) (l : Listing) : Listing :=
  if t.isEmpty then l else l.textLine indent name t

/-- Writes a number after its name. -/
def intLine (indent : Nat) (name : Text) (n : Int) (l : Listing) : Listing :=
  l.line indent (name ++ " = " ++ Text.ofInt n)

/-- Writes a number after its name, unless it is zero. -/
def intLine? (indent : Nat) (name : Text) (n : Int) (l : Listing) : Listing :=
  if n = 0 then l else l.intLine indent name n

/-- Writes a name that holds. -/
def boolLine? (indent : Nat) (name : Text) (b : Bool) (l : Listing) : Listing :=
  if b then l.line indent (name ++ " = " ++ boolText true) else l

/-- Writes documentation, unless there is none. -/
def docsLines (indent : Nat) (docs : Docs) (l : Listing) : Listing :=
  match docs with
  | some ts => l.texts indent "docs" ts
  | none => l

/-- Writes a block for each member of a list. -/
def blocks {α : Type} (indent : Nat) (name : Text) (write : α → Nat → Listing → Listing)
    (members : List α) (l : Listing) : Listing :=
  members.foldl (fun l a => l.block indent (name ++ " \x7b") "\x7d" (write a (indent + 1))) l

end Listing

namespace ManifestAttr

/-- Writes the properties of an attribute. -/
def list (a : ManifestAttr) (indent : Nat) (l : Listing) : Listing :=
  l.textLine indent "name" a.name
    |>.intLine indent "index" a.index.toNat
    |>.textLine indent "type" a.type
    |>.textLine? indent "lower" a.lower
    |>.boolLine? indent "repeated" a.repeated
    |>.intLine? indent "max_length" a.maxLength.toInt
    |>.textLine? indent "orig" a.orig
    |>.docsLines indent a.docs

end ManifestAttr

namespace ManifestField

/-- Writes the properties of a member. -/
def list (f : ManifestField) (indent : Nat) (l : Listing) : Listing :=
  l.textLine indent "name" f.name
    |>.intLine indent "offset" f.offset.toInt
    |>.intLine indent "size" f.size.toInt
    |>.textLine indent "type" f.type
    |>.intLine? indent "count" f.count.toInt
    |>.textLine? indent "lower" f.lower
    |>.textLine? indent "abi" f.abi
    |>.textLine? indent "orig" f.orig
    |>.docsLines indent f.docs

end ManifestField

namespace ManifestStruct

/-- Writes the properties of a layout. -/
def list (s : ManifestStruct) (indent : Nat) (l : Listing) : Listing :=
  l.intLine indent "length" s.length.toInt
    |>.boolLine? indent "expandable" s.expandable
    |>.boolLine? indent "deferred" s.deferred
    |>.blocks indent "fields" ManifestField.list (s.fields.getD [])

end ManifestStruct

namespace ManifestValue

/-- Writes the properties of a value. -/
def list (v : ManifestValue) (indent : Nat) (l : Listing) : Listing :=
  l.textLine indent "name" v.name
    |>.intLine indent "value" v.value.toInt
    |>.textLine? indent "field" v.field
    |>.textLine? indent "orig" v.orig
    |>.docsLines indent v.docs

end ManifestValue

namespace ManifestType

/-- Writes the properties of a type. -/
def list (t : ManifestType) (indent : Nat) (l : Listing) : Listing :=
  l.textLine indent "name" t.name
    |>.textLine indent "kind" t.kind
    |>.textLine? indent "orig" t.orig
    |>.boolLine? indent "root" t.root
    |>.docsLines indent t.docs
    |>.blocks indent "attrs" ManifestAttr.list t.attrs
    |>.blocks indent "struct" ManifestStruct.list t.struct.toList
    |>.blocks indent "values" ManifestValue.list t.values
    |>.boolLine? indent "bitmask" t.bitmask
    |>.boolLine? indent "flag_list" t.flagList

end ManifestType

namespace Manifest

/-- The listing of a manifest. -/
def listing (m : Manifest) (room : Option Nat) : Listing :=
  (Listing.empty room).textLine? 0 "fingerprint" m.fingerprint
    |>.blocks 0 "types" ManifestType.list m.typeList

end Manifest

end NetlinkSchema
