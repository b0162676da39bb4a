import NetlinkSchema.GoSource.Identifier
import NetlinkSchema.Manifest.Types
import NetlinkSchema.Text.Quoted

/-!
# Constants

The numbers of a manifest as Go constants: the values of enums and flags types, the types of
attributes, and the lengths and offsets of structs. Each type that has any gets a block of
constants under a comment of its own.

## Main definitions

* `GoSource.Constant`, `GoSource.Block`: A constant, and the constants of a type.
* `GoSource.Block.ofType?`: The constants of a type.
* `GoSource.source`: The lines of the source text.
-/

namespace NetlinkSchema

namespace GoSource

/-- A constant. -/
structure Constant where
  docs : List Text
  name : Text
  value : Text
  orig : Text
deriving DecidableEq

/-- The constants of a type. -/
structure Block where
  docs : List Text
  orig : Text
  constants : List Constant
deriving DecidableEq

/-- An integer in hexadecimal. -/
def hexText (n : Int64) : Text :=
  (if n < 0 then "-" else "") ++ Text.hexLiteral n.toInt.natAbs

/-- The constant of a value. Flags are written in hexadecimal. -/
def valueConstant (t : ManifestType) (v : ManifestValue) : Constant :=
  { docs := v.docs.getD []
    name := exportedName [t.name, v.name]
    value := if t.kind = "flags" then hexText v.value else Text.ofInt v.value.toInt
    orig := v.orig }

/-- The constant of an attribute: its type on the wire. -/
def attrConstant (t : ManifestType) (a : ManifestAttr) : Constant :=
  ⟨a.docs.getD [], exportedName [t.name, a.name], Text.ofNat a.index.toNat, a.orig⟩

/-- The constant of a struct member: its offset. -/
def fieldConstant (t : ManifestType) (f : ManifestField) : Constant :=
  ⟨f.docs.getD [], exportedName [t.name, f.name, "Offset"], Text.ofInt f.offset.toInt, f.orig⟩

/-- The constant of a struct's length. -/
def lengthConstant (t : ManifestType) (s : ManifestStruct) : Constant :=
  { docs := if s.expandable then ["Minimum length. Newer kernels may append fields."] else []
    name := exportedName [t.name, "Length"]
    value := Text.ofInt s.length.toInt
    orig := .empty }

namespace Block

/-- The block of a type; what it holds is said in the comment if the type has no documentation. -/
def make (t : ManifestType) (content : Text) (constants : List Constant) : Block :=
  let docs := match t.docs.getD [] with
    | [] => [exportedName [t.name] ++ " " ++ content ++ "."]
    | docs => docs
  ⟨docs, t.orig, constants⟩

/-- The constants of a type, if it has any. -/
def ofType? (t : ManifestType) : Option Block :=
  match t.struct with
  | some s =>
    some (make t "layout"
      (lengthConstant t s :: (s.fields.getD []).map (fieldConstant t)))
  | none =>
    if !t.attrs.isEmpty then some (make t "attribute types" (t.attrs.map (attrConstant t)))
    else if !t.values.isEmpty then
      let content := if t.kind = "flags" then "flag bits" else "values"
      some (make t content (t.values.map (valueConstant t)))
    else none

end Block

/-- A line without blanks and tabs at its end. -/
def trimBlanks (t : Text) : Text :=
  ⟨(t.utf8.reverse.dropWhile fun b => b == 32 || b == 9).reverse⟩

/-- A comment line for each line of documentation. -/
def docLines (indent : Text) (docs : List Text) : List Text :=
  (docs.flatMap Text.lines).map fun line => indent ++ "// " ++ trimBlanks line

/-- The lines of a constant. -/
def Constant.lines (c : Constant) : List Text :=
  let comment : Text := if c.orig.isEmpty then "" else " // " ++ c.orig
  docLines "\t" c.docs ++ ["\t" ++ c.name ++ " = " ++ c.value ++ comment]

/-- The comment lines of a block. -/
def Block.headLines (b : Block) : List Text :=
  let orig : List Text := if b.orig.isEmpty then [] else ["//", "// C: " ++ b.orig]
  docLines "" b.docs ++ orig

/-- The lines of a block. -/
def Block.lines (b : Block) : List Text :=
  let body := b.constants.flatMap Constant.lines
  Text.empty :: b.headLines ++ Text.ofString "const (" :: body ++ [Text.ofString ")"]

/-- The blocks of a manifest. -/
def blocks (m : Manifest) : List Block := m.typeList.filterMap Block.ofType?

/-- The first line of the source text. -/
def banner (m : Manifest) : Text :=
  if m.fingerprint.isEmpty then "// Code generated by nlgen. DO NOT EDIT."
  else "// Code generated by nlgen from schema " ++ m.fingerprint ++ ". DO NOT EDIT."

/-- The source text of a manifest, before it is laid out. -/
def source (m : Manifest) (package : Text) : Text :=
  let lines := [banner m, "", "package " ++ package] ++ (blocks m).flatMap Block.lines
  Text.concat (lines.map (· ++ "\n"))

end GoSource

end NetlinkSchema
