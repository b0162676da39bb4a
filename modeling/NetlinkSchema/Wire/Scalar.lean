import NetlinkSchema.Value
import NetlinkSchema.Wire.Error

/-!
# Scalar payloads

The payloads that are not numbers: strings with a terminator, opaque bytes, booleans of one byte,
and flags, which are there or not.

## Main definitions

* `Scalar.getString`, `Scalar.putString`: Strings with a terminating zero byte.
* `Scalar.putData`: Opaque bytes.
* `Scalar.getBool`, `Scalar.putBool`: Booleans.
* `Scalar.getFlag`, `Scalar.putFlag`: Flags.
-/

namespace NetlinkSchema

namespace Scalar

/-- Refuses a string that is longer, with its terminator, than a positive limit. -/
def checkMaxLength (maxLength : Int64) (length : Nat) : Except WireError Unit :=
  if 0 < maxLength.toInt ∧ maxLength.toInt < length then
    .error (.bound .maxLength maxLength.toInt length)
  else .ok ()

/-- Decodes a string up to its terminating zero byte, which must be the last byte. -/
def getString (data : Bytes) (maxLength : Int64) : Except WireError Value := do
  checkMaxLength maxLength data.length
  match data.getLast? with
  | some 0 => return .text ⟨data.dropLast⟩
  | _ => throw .notTerminated

/-- Encodes a text or a byte string with a terminating zero byte. -/
def putString (v : Value) (maxLength : Int64) : Except WireError Bytes := do
  let data ← match v with
    | .text t => pure t.utf8
    | .bytes b => pure b
    | _ => throw (.unexpectedType "string" v.typeName)
  checkMaxLength maxLength (data.length + 1)
  return data ++ [0]

/-- Encodes a byte string or a text as it is. -/
def putData : Value → Except WireError Bytes
  | .bytes b => .ok b
  | .text t => .ok t.utf8
  | v => .error (.unexpectedType "data" v.typeName)

/-- The boolean of a byte. -/
def readBool (b : UInt8) : Except WireError Value :=
  if b = 0 then .ok (.bool false)
  else if b = 1 then .ok (.bool true)
  else .error .invalidBool

/-- The byte of a boolean. -/
def writeBool : Value → Except WireError UInt8
  | .bool true => .ok 1
  | .bool false => .ok 0
  | v => .error (.unexpectedType "bool" v.typeName)

/-- Decodes a boolean payload of one byte. -/
def getBool : Bytes → Except WireError Value
  | [b] => readBool b
  | data => .error (.bound .length 1 data.length)

/-- Encodes a boolean payload. -/
def putBool (v : Value) : Except WireError Bytes := do
  let b ← writeBool v
  return [b]

/-- Decodes the payload of a flag that is there, which must be empty. -/
def getFlag : Bytes → Except WireError Value
  | [] => .ok (.bool true)
  | data => .error (.bound .length 0 data.length)

/-- The payload of a flag. Whether the flag is written at all is for the caller to decide. -/
def putFlag : Value → Except WireError Bytes
  | .bool _ => .ok []
  | v => .error (.unexpectedType "flag" v.typeName)

end Scalar

end NetlinkSchema
