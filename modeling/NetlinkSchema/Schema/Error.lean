import NetlinkSchema.Schema.Types
import NetlinkSchema.Yaml.Decode

/-!
# Schema errors

Why a document is not a schema. An error has a cause and, unless the document as a whole is at
fault, a line; a cause names the place in the schema to which it belongs.

## Main definitions

* `Place`: A place in a schema.
* `SchemaFault`: The cause of an error.
* `SchemaError`: A cause with its line.
-/

namespace NetlinkSchema

/-- The notation of a document. -/
inductive Notation
  | yaml
  | json
deriving DecidableEq

namespace Notation

/-- The name of a notation. -/
def name : Notation → Text
  | yaml => "YAML"
  | json => "JSON"

end Notation

/-- A place in a schema. -/
inductive Place
  | document
  | type (name : Text)
  | attr (owner : Text) (index : Nat)
  | namedAttr (owner : Text) (index : Nat) (name : Text)
  | value (owner : Text) (index : Nat)
  | options (of : Place)
  | lowerType (of : Place)
deriving DecidableEq

namespace Place

/-- The text of a place. -/
def text : Place → Text
  | document => "schema document"
  | type name => "type '" ++ name ++ "'"
  | attr owner index => owner ++ ".attrs[" ++ Text.ofNat index ++ "]"
  | namedAttr owner index name =>
    owner ++ ".attrs[" ++ Text.ofNat index ++ "] (" ++ name ++ ")"
  | value owner index => owner ++ ".values[" ++ Text.ofNat index ++ "]"
  | options of => of.text ++ " options"
  | lowerType of => of.text ++ " lower type"

end Place

/-- What is wrong with a type expression. -/
inductive ExprFault
  | notName
  | notMapping
  | unknownKind (kind : Text)
  | zeroOutsideArray
  | notEnum
deriving DecidableEq

namespace ExprFault

/-- The text of a fault. -/
def message : ExprFault → Text
  | notName => "type name must be a non-empty string"
  | notMapping => "expected a type name or mapping"
  | unknownKind kind => "unknown kind " ++ kind.quoted
  | zeroOutsideArray => "'zero' is only valid for arrays"
  | notEnum => "flags must name an enum type"

end ExprFault

/-- What is wrong with the value of a key. -/
inductive FieldFault
  | undecodable (cause : Yaml.DecodeError)
  | notPositive
  | notSequence
  | emptyTypeName
  | lowerKind (kind : Text)
deriving DecidableEq

namespace FieldFault

/-- The text of a fault. -/
def message : FieldFault → Text
  | undecodable cause => cause.message
  | notPositive => "must be positive"
  | notSequence => "expected a sequence"
  | emptyTypeName => "empty type name"
  | lowerKind kind => "lower type kind must be \"flags\", got " ++ kind.quoted

end FieldFault

/-- What is wrong with an attribute. -/
inductive AttributeFault
  | shape
  | name
deriving DecidableEq

namespace AttributeFault

/-- The text of a fault. -/
def message : AttributeFault → Text
  | shape => "expected [name, type] or [name, type, options]"
  | name => "name must be a non-empty string"

end AttributeFault

/-- The cause of an error. -/
inductive SchemaFault
  | malformed (fmt : Notation)
  | notMapping (place : Place)
  | name (fault : NameFault)
  | typeExpr (place : Place) (fault : ExprFault)
  | kind (place : Place) (kind : Text)
  | unknownKey (place : Place) (key : Text)
  | field (place : Place) (key : Text) (fault : FieldFault)
  | attr (place : Place) (fault : AttributeFault)
  | missingKey (place : Place) (key : Text)
deriving DecidableEq

namespace SchemaFault

/-- The number of a cause. -/
def code : SchemaFault → Nat
  | malformed _ => 1000
  | notMapping _ => 1001
  | name (.duplicate _) => 1002
  | name (.builtin _) => 1003
  | typeExpr _ _ => 1004
  | kind _ _ => 1005
  | unknownKey _ _ => 1006
  | field _ _ _ => 1007
  | attr _ _ => 1008
  | missingKey _ _ => 1009
  | name .empty => 1010

/-- The text of a cause. -/
def message : SchemaFault → Text
  | malformed fmt => "Failed to parse " ++ fmt.name
  | notMapping place => "Expected " ++ place.text ++ " to be a mapping"
  | name (.duplicate n) => "Duplicate definition of type '" ++ n ++ "'"
  | name (.builtin n) => "Type name '" ++ n ++ "' conflicts with builtin type"
  | name .empty => "Type name must not be empty"
  | typeExpr place fault => "Invalid type expression for " ++ place.text ++ ": " ++ fault.message
  | kind place k =>
    "Invalid kind " ++ k.quoted ++ " for " ++ place.text
      ++ " (expected attrs, struct, enum, or flags)"
  | unknownKey place key => "Unknown key '" ++ key ++ "' in " ++ place.text
  | field place key fault =>
    "Invalid value for '" ++ key ++ "' in " ++ place.text ++ ": " ++ fault.message
  | attr place fault => "Invalid attribute " ++ place.text ++ ": " ++ fault.message
  | missingKey place key => "Missing required key '" ++ key ++ "' in " ++ place.text

end SchemaFault

/-- A cause and the line where it was found; the line zero stands for none. -/
structure SchemaError where
  fault : SchemaFault
  line : Nat
deriving DecidableEq

namespace SchemaError

/-- The text of an error. -/
def message (e : SchemaError) : Text :=
  let place : Text := if e.line = 0 then "" else "line " ++ Text.ofNat e.line ++ ": "
  "E" ++ Text.ofNat e.fault.code ++ ": " ++ place ++ e.fault.message

end SchemaError

end NetlinkSchema
