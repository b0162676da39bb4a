import NetlinkSchema.Wire.Nested
import NetlinkSchema.Wire.Scalar
import NetlinkSchema.Text.Casing

/-!
# Enums

An enum names numbers. Besides the plain form, in which a number is decoded as its name, there are
two derived forms whose decoded value is an object with one entry per number that is present: the
bitmask, in which the number `n` stands for the bit `n`, and the flag list, in which it stands for
an empty attribute of type `n`. The entries of the derived forms have camel-case names.

A number may have several names; the first one declared is the one that decoding gives.

## Main definitions

* `camelCase`: The field name of a value name.
* `EnumType`: Named numbers.
* `EnumType.decodeName`, `EnumType.encodeName`: The plain form.
* `EnumType.decodeBitmask`, `EnumType.encodeBitmask`: The bitmask form.
* `EnumType.decodeFlagList`, `EnumType.encodeFlagList`: The flag-list form.
-/

namespace NetlinkSchema

/-- The first byte of a word in upper case. A byte that only starts a character of several bytes
    becomes U+FFFD, and the other bytes of that character stay. -/
def capitalizeByte : Bytes → Bytes
  | [] => []
  | b :: rest =>
    if b < 0x80 then UInt8.ofNat (Text.upperChar (Char.ofNat b.toNat)).toNat :: rest
    else String.utf8EncodeChar '�' ++ rest

/-- The field name of a value name such as `CMD_CAP_DO`: its words in lower case, each but the
    first with a capital. Leading underscores are kept. -/
def camelCase (name : Text) : Text :=
  let isUnderscore (b : UInt8) : Bool := b == 0x5F
  let words := Text.splitOn (Text.toLower ⟨name.utf8.dropWhile isUnderscore⟩) '_'
  let capitalized := (words.drop 1).map fun w => Text.mk (capitalizeByte w.utf8)
  Text.concat (⟨name.utf8.takeWhile isUnderscore⟩ :: words.take 1 ++ capitalized)

/-- A name for a number, and the field that stands for it in derived forms. -/
structure EnumValue where
  name : Text
  field : Text
  value : Int64
deriving DecidableEq

/-- Named numbers in the order of their declaration. -/
structure EnumType where
  name : Text
  values : List EnumValue
deriving DecidableEq

namespace EnumType

/-- The first name declared for a number. -/
def nameOf? (e : EnumType) (value : Int64) : Option Text :=
  (e.values.find? (·.value == value)).map (·.name)

/-- The number of a name, the last one declared if there are several. -/
def valueOf? (e : EnumType) (name : Text) : Option Int64 :=
  (e.values.reverse.find? (·.name == name)).map (·.value)

/-- The number of a field, the last one declared if there are several. -/
def valueOfField? (e : EnumType) (field : Text) : Option Int64 :=
  (e.values.reverse.find? (·.field == field)).map (·.value)

/-- The values whose name is the first one declared for their number. -/
def primary (e : EnumType) : List EnumValue :=
  e.values.filter fun v => e.nameOf? v.value == some v.name

/-- The name of a decoded integer, or the integer itself if it has none. -/
def decodeName (e : EnumType) (raw : Value) : Value :=
  match raw.toInt64?.bind e.nameOf? with
  | some name => .text name
  | none => raw

/-- The number of a name; what is not a name is left as it is. -/
def encodeName (e : EnumType) : Value → Except WireError Value
  | .text name =>
    match e.valueOf? name with
    | some value => .ok (.ofInt .int64 value.toInt)
    | none => .error (.unknownName name)
  | v => .ok v

/-- The numbers of the entries that are true. -/
def selected (e : EnumType) (obj : Object) : Except WireError (List Int64) :=
  obj.foldlM (fun picked (key, v) =>
    if v.isNull then .ok picked
    else
      match e.valueOfField? key, v with
      | none, _ => .error (.within e.name (.undeclaredKey key))
      | some value, .bool set => .ok (if set then value :: picked else picked)
      | some _, _ => .error (.field e.name key .wrongType)) []

/-- The bit that stands for a number. -/
def bitOf (value : Int64) : UInt64 :=
  if 0 ≤ value ∧ value < 64 then 1 <<< value.toUInt64 else 0

/-- An entry for each number whose bit is set. -/
def decodeBitmask (e : EnumType) (bits : UInt64) : Object :=
  e.primary.foldl (fun obj v =>
    if bits &&& bitOf v.value = 0 then obj else Object.set obj v.field (.bool true)) []

/-- The bits of the entries that are true. -/
def encodeBitmask (e : EnumType) (obj : Object) : Except WireError UInt64 := do
  let picked ← e.selected obj
  return picked.foldl (fun bits value => bits ||| bitOf value) 0

/-- The field of an attribute type. -/
def flagField? (e : EnumType) (type : UInt16) : Option Text :=
  (e.primary.find? (·.value.toInt == Int.ofNat type.toNat)).map (·.field)

/-- An entry for each number that is the type of an attribute. -/
def decodeFlagList (e : EnumType) (buf : Bytes) : Except WireError Object :=
  Nested.getObject buf fun type =>
    (e.flagField? type).map fun field => fun obj data _ =>
      match Scalar.getFlag data with
      | .ok v => .ok (Object.set obj field v)
      | .error err => .error (.field e.name field err)

/-- The numbers of an enum in the order of their first declaration. -/
def distinctValues (e : EnumType) : List Int64 :=
  e.values.foldl (fun seen v => if seen.contains v.value then seen else seen ++ [v.value]) []

/-- An empty attribute for each entry that is true, in the order of the declarations. -/
def encodeFlagList (e : EnumType) (obj : Object) : Except WireError Bytes := do
  let picked ← e.selected obj
  Write.toBytes ((e.distinctValues.filter picked.contains).forM fun value =>
    Write.put value.toUInt64.toUInt16 [])

end EnumType

end NetlinkSchema
