import NetlinkSchema.Text.Quoted

/-!
# Wire errors

Why bytes could not be decoded or a value could not be encoded. The cause comes first; where it
happened is wrapped around it, one layer for each field, element or type on the way.

## Main definitions

* `Bound`: A size or number that was checked against what the schema wants.
* `WireError`: A cause with its place.
* `WireError.message`: The text of an error.
-/

namespace NetlinkSchema

/-- What a failed check compared. -/
inductive Bound
  /-- A payload or struct must have exactly the length of its type. -/
  | length
  /-- An expandable struct must hold at least its known members. -/
  | minimum
  /-- An inline array or byte member has a fixed number of elements. -/
  | count
  /-- A string, its terminator included, may be limited. -/
  | maxLength
  /-- The elements of an array are numbered one after another. -/
  | sequence
  /-- An attribute with its header must fit 16 bits. -/
  | attributeLength
  /-- An attribute type must fit 14 bits. -/
  | attributeType
  /-- An attribute must lie within its buffer. -/
  | truncated
deriving DecidableEq

namespace Bound

/-- What is wrong when the check fails. -/
def message : Bound → Text
  | length => "nlattr: Length incorrect"
  | minimum => "nlattr: Length shorter than minimum"
  | count => "nlattr: Element count does not match schema"
  | maxLength => "nlattr: Maximum length exceeded"
  | sequence => "nlattr: Non-sequential array index"
  | attributeLength => "nlattr: Maximum attribute length exceeded"
  | attributeType => "nlattr: Attribute type out of range"
  | truncated => "nlattr: Truncated attribute"

end Bound

/-- The derived forms of an enum, which exist only if some field needs them. -/
inductive Variant
  | bitmask
  | flagList
deriving DecidableEq

/-- A cause, possibly with the place where it arose. -/
inductive WireError
  | bound (what : Bound) (want got : Int)
  | notTerminated
  | invalidBool
  | netByteOrder
  /-- An object has a key that its type does not declare. -/
  | undeclared
  /-- The same, with the key. -/
  | undeclaredKey (key : Text)
  | unknownName (name : Text)
  /-- The value's type cannot be encoded as the schema's type. -/
  | wrongType
  /-- The same, with both types. -/
  | unexpectedType (want got : Text)
  /-- The number, as written, does not fit the wire type. -/
  | outOfRange (number type : Text)
  | notCompiled (variant : Variant) (enum : Text)
  /-- Only a struct can be encoded into a buffer of the caller's. -/
  | notStruct (type : Text)
  /-- In a field of a type. -/
  | field (type name : Text) (cause : WireError)
  /-- At an element of an array or map. -/
  | element (index : Int) (cause : WireError)
  /-- In a value of a type. -/
  | within (type : Text) (cause : WireError)
deriving DecidableEq

namespace WireError

/-- The text of an error, the outermost place first. -/
def message : WireError → Text
  | bound what want got =>
    what.message ++ " (want " ++ Text.ofInt want ++ ", got " ++ Text.ofInt got ++ ")"
  | notTerminated => "nlattr: String is not NUL-terminated"
  | invalidBool => "nlattr: Invalid bool value"
  | netByteOrder => "nlattr: Unexpected NLA_F_NET_BYTEORDER flag"
  | undeclared => "nlattr: Unknown key"
  | undeclaredKey key => "nlattr: Unknown key " ++ key.quoted
  | unknownName name => "nlattr: Unknown enum value name " ++ name.quoted
  | wrongType => "nlattr: Value has wrong type"
  | unexpectedType want got => "nlattr: Value has wrong type: expected " ++ want ++ ", got " ++ got
  | outOfRange number type =>
    "nlattr: Value out of range: " ++ number ++ " does not fit in " ++ type
  | notCompiled variant enum =>
    let form : Text := match variant with
      | .bitmask => "bitmask"
      | .flagList => "flag list"
    "compiler: enum variant was not compiled: " ++ form ++ " of '" ++ enum ++ "'"
  | notStruct type => "compiler: EncodeInto: '" ++ type ++ "' is not a struct type"
  | field type name cause => type ++ "." ++ name ++ ": " ++ cause.message
  | element index cause => "[" ++ Text.ofInt index ++ "]: " ++ cause.message
  | within type cause => type ++ ": " ++ cause.message

/-- The innermost cause, without its place. -/
def cause : WireError → WireError
  | field _ _ e => e.cause
  | element _ e => e.cause
  | within _ e => e.cause
  | e => e

end WireError

end NetlinkSchema
