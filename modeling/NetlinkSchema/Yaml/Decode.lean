import NetlinkSchema.Text.Base64
import NetlinkSchema.Text.Quoted
import NetlinkSchema.Yaml.Node

/-!
# Fields

Reading a node as a text, a boolean, an integer or a list of texts. An empty scalar leaves a field
as it was. Nodes of a wrong type are collected, so that all of them can be reported together; a
scalar that does not look like its tag ends the reading at once.

## Main definitions

* `Problem`: A node of a wrong type.
* `DecodeError`: Why a field could not be read.
* `Node.decodeText`, `Node.decodeBool`, `Node.decodeInt`, `Node.decodeTexts`: Reading a field.
-/

namespace NetlinkSchema

namespace Yaml

/-- A node that does not fit its field. -/
inductive Problem
  /-- The node's tag and text, and the type of the field. -/
  | wrongType (line : Nat) (tag value : String) (type : Text)
  | duplicateKey (line : Nat) (key : String) (firstLine : Nat)
  | unknownField (line : Nat) (name : Text) (type : Text)
  | repeatedField (line : Nat) (name : Text) (type : Text)
deriving DecidableEq

/-- The text of a node in a message: a long one is cut. -/
def shownValue (tag value : String) : Text :=
  if tag == seqTag || tag == mapTag then value
  else
    let bytes := (Text.ofString value).utf8
    let shown := if 10 < bytes.length then Text.mk (bytes.take 7) ++ "..." else value
    " `" ++ shown ++ "`"

namespace Problem

/-- The text of a problem. -/
def message : Problem → Text
  | wrongType line tag value type =>
    "line " ++ Text.ofNat line ++ ": cannot unmarshal " ++ tag ++ shownValue tag value ++ " into "
      ++ type
  | duplicateKey line key firstLine =>
    "line " ++ Text.ofNat line ++ ": mapping key " ++ (Text.ofString key).quoted
      ++ " already defined at line " ++ Text.ofNat firstLine
  | unknownField line name type =>
    "line " ++ Text.ofNat line ++ ": field " ++ name ++ " not found in type " ++ type
  | repeatedField line name type =>
    "line " ++ Text.ofNat line ++ ": field " ++ name ++ " already set in type " ++ type

end Problem

/-- Why a field could not be read. -/
inductive DecodeError
  | problems (all : List Problem)
  /-- A scalar that looks like another tag than its own. -/
  | unresolved (found value tag : String)
  | invalidBase64
  | invalidMerge
deriving DecidableEq

namespace DecodeError

/-- The text of an error. -/
def message : DecodeError → Text
  | problems all => "yaml: unmarshal errors:\n  " ++ Text.join "\n  " (all.map Problem.message)
  | unresolved found value tag =>
    "yaml: cannot decode " ++ found ++ " `" ++ value ++ "` as a " ++ tag
  | invalidBase64 => "yaml: !!binary value contains invalid base64 data"
  | invalidMerge => "yaml: map merge requires map or sequence of maps as the value"

end DecodeError

/-- What was read, or nothing if the field stays as it was, and the problems met. -/
structure Decoded (α : Type) where
  value? : Option α
  problems : List Problem

namespace Decoded

/-- A value without problems. -/
def value {α : Type} (a : α) : Decoded α := ⟨some a, []⟩

/-- No value and no problem. -/
def unchanged {α : Type} : Decoded α := ⟨none, []⟩

/-- No value because of problems. -/
def refused {α : Type} (problems : List Problem) : Decoded α := ⟨none, problems⟩

/-- The value, or the old one; a problem is an error. -/
def orElse {α : Type} (x : Decoded α) (old : α) : Except DecodeError α :=
  if x.problems.isEmpty then .ok (x.value?.getD old) else .error (.problems x.problems)

end Decoded

namespace Node

/-- Whether two nodes count as the same key. -/
def sameKey : Node → Node → Bool
  | scalar _ _ a, scalar _ _ b => a == b
  | reference _ a _, reference _ b _ => a == b
  | sequence _ _ _, sequence _ _ _ => true
  | mapping _ _ _, mapping _ _ _ => true
  | _, _ => false

/-- The keys that occur again further on. -/
def duplicateKeys : List (Node × Node) → List Problem
  | [] => []
  | (key, _) :: rest =>
    let again := (rest.map (·.1)).filter key.sameKey
    again.map (fun k => .duplicateKey k.line k.keyText key.line) ++ duplicateKeys rest

/-- The problem of a collection where a scalar belongs. -/
def collectionProblems (type : Text) : Node → List Problem
  | sequence line tag _ => [.wrongType line tag "" type]
  | mapping line tag entries =>
    match duplicateKeys entries with
    | [] => [.wrongType line tag "" type]
    | again => again
  | _ => []

/-- A scalar's meaning and its text, which is decoded if it is binary. -/
def resolveScalar (tag value : String) : Except DecodeError (Resolved × Text) :=
  match resolve tag value with
  | .error found => .error (.unresolved found value tag)
  | .ok (found, meaning) =>
    if found == binaryTag then
      match Base64.decode? (Text.ofString value).utf8 with
      | some bytes => .ok (meaning, ⟨bytes⟩)
      | none => .error .invalidBase64
    else .ok (meaning, value)

/-- Reads a scalar by its meaning and its text. -/
def decodeScalar {α : Type} (type : Text) (read : Resolved → Text → Option α) :
    Node → Except DecodeError (Decoded α)
  | scalar line tag value => do
    match ← resolveScalar tag value with
    | (.null, _) => return .unchanged
    | (meaning, text) =>
      match read meaning text with
      | some a => return .value a
      | none => return .refused [.wrongType line tag value type]
  | reference _ _ target => decodeScalar type read target
  | collection => return .refused (collectionProblems type collection)

/-- Reads a text: any scalar will do, as it is written. -/
def decodeText (n : Node) : Except DecodeError (Decoded Text) :=
  n.decodeScalar "string" fun _ text => some text

/-- Reads a boolean. Texts like `yes` and `off` will do. -/
def decodeBool (n : Node) : Except DecodeError (Decoded Bool) :=
  n.decodeScalar "bool" fun meaning text =>
    match meaning with
    | .bool b => some b
    | .text =>
      let among (words : List String) : Bool := words.any fun w => text == Text.ofString w
      if among ["y", "Y", "yes", "Yes", "YES", "on", "On", "ON"] then some true
      else if among ["n", "N", "no", "No", "NO", "off", "Off", "OFF"] then some false
      else none
    | _ => none

/-- The integer part of a double, if the double is at most 2^63. What does not fit a word becomes
    the least one. -/
def truncateDouble (bits : Nat) : Option Int64 :=
  match FloatFormat.double.decode bits with
  | .nan _ _ => none
  | .infinity negative => if negative then some Int64.minValue else none
  | .finite negative significand exponent =>
    let magnitude := if exponent < 0 then significand / Nat.pow 2 exponent.natAbs
      else significand * Nat.pow 2 exponent.natAbs
    let exceeds := 0x8000000000000000 < magnitude ∨ (magnitude = 0x8000000000000000 ∧ exponent < 0
      ∧ significand % Nat.pow 2 exponent.natAbs ≠ 0)
    if negative then
      some (if magnitude < 0x8000000000000000 then Int64.ofInt (-Int.ofNat magnitude)
        else .minValue)
    else if exceeds then none
    else some (if magnitude < 0x8000000000000000 then Int64.ofInt magnitude else .minValue)

/-- Reads an integer; a floating-point number is cut to its integer part. -/
def decodeInt (type : Text) (n : Node) : Except DecodeError (Decoded Int64) :=
  n.decodeScalar type fun meaning _ =>
    match meaning with
    | .int x => if x < 0x8000000000000000 then some (Int64.ofInt x) else none
    | .float bits => truncateDouble bits
    | _ => none

/-- Reads the items of a list; empty items are left out. -/
def decodeItems : List Node → Except DecodeError (List Text × List Problem)
  | [] => return ([], [])
  | n :: rest => do
    let item ← n.decodeText
    let (items, problems) ← decodeItems rest
    return (item.value?.toList ++ items, item.problems ++ problems)

/-- Reads a list of texts. An empty scalar clears the list. -/
def decodeTexts : Node → Except DecodeError (Decoded (Option (List Text)))
  | sequence _ _ items => do
    let (texts, problems) ← decodeItems items
    return ⟨some (some texts), problems⟩
  | reference _ _ target => decodeTexts target
  | scalar line tag value => do
    match ← resolveScalar tag value with
    | (.null, _) => return .value none
    | _ => return .refused [.wrongType line tag value "[]string"]
  | collection => return .refused (collectionProblems "[]string" collection)

end Node

end Yaml

end NetlinkSchema
