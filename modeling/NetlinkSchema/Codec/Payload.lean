import NetlinkSchema.Codec.Layout

/-!
# Payloads and attribute sets

What the payload of an attribute holds, and the attribute sets that name the attributes of a
stream. An attribute set is referred to by name, so sets may contain each other and themselves; a
message is finite all the same, because each attribute's payload is shorter than the stream around
it, and each element of a value is nested less deeply than the value.

## Main definitions

* `Payload`: The type of a payload.
* `Field`, `AttrSet`: A named attribute, and the attributes of a stream.
* `Payload.decode`, `Payload.encode`: Between a payload and a value.
-/

namespace NetlinkSchema

/-- The type of an attribute's payload. -/
inductive Payload
  | number (num : Number) (lower : Lowering)
  | string (maxLength : Int64)
  | data
  | bool
  | flag
  | array (zero : Bool) (elem : Payload)
  | map (elem : Payload)
  | flagList (enum : EnumType)
  | struct (layout : Layout)
  /-- A stream of the attributes of a named set. -/
  | attrs (name : Text)

/-- An attribute of a set. A repeated attribute may occur several times, and its value is the list
    of all occurrences. -/
structure Field where
  name : Text
  index : UInt16
  repeated : Bool
  payload : Payload

/-- The attributes of a stream. -/
structure AttrSet where
  name : Text
  fields : List Field

/-- The attribute sets that payloads refer to. -/
abbrev AttrSets := List AttrSet

namespace AttrSets

/-- The attributes of a named set; a set that is not there has none. -/
def fields (sets : AttrSets) (name : Text) : List Field :=
  match sets.find? (·.name == name) with
  | some s => s.fields
  | none => []

end AttrSets

namespace Field

/-- Adds a decoded occurrence to an object. The last occurrence wins, unless all are kept. -/
def store (f : Field) (obj : Object) (v : Value) : Object :=
  if f.repeated then
    let items := match Object.get obj f.name with
      | .list items => items
      | _ => []
    Object.set obj f.name (.list (items ++ [v]))
  else Object.set obj f.name v

end Field

namespace Payload

/-- Decodes a payload. -/
def decode (sets : AttrSets) (p : Payload) (data : Bytes) : Except WireError Value :=
  match p with
  | number num lower => do
    num.checkLength data
    return lower.read num data
  | string maxLength => Scalar.getString data maxLength
  | .data => .ok (.bytes data)
  | bool => Scalar.getBool data
  | flag => Scalar.getFlag data
  | array zero elem => do
    let items ← Nested.getArray data zero fun d _ => elem.decode sets d
    return .list items
  | map elem => do
    let entries ← Nested.getMap data fun d _ => elem.decode sets d
    return .map entries
  | flagList e => do
    let obj ← e.decodeFlagList data
    return .object obj
  | struct l => do
    let obj ← l.decode data
    return .object obj
  | attrs name => do
    let obj ← Nested.getObject data fun type =>
      ((sets.fields name).find? (·.index == type)).map fun f => fun obj d _ =>
        match f.payload.decode sets d with
        | .ok v => .ok (f.store obj v)
        | .error e => .error (.field name f.name e)
    return .object obj
termination_by data.length

/-- Whether a value is written by leaving its attribute out. -/
def omits : Payload → Value → Bool
  | flag, .bool false => true
  | _, _ => false

/-- Encodes a value. -/
def encode (sets : AttrSets) (p : Payload) (v : Value) : Except WireError Bytes :=
  match p with
  | number num lower => lower.toBytes num v
  | string maxLength => Scalar.putString v maxLength
  | .data => Scalar.putData v
  | bool => Scalar.putBool v
  | flag => Scalar.putFlag v
  | array zero elem => Write.toBytes (Nested.putArray v zero fun item _ => elem.encode sets item)
  | map elem => Write.toBytes (Nested.putMap v fun item _ => elem.encode sets item)
  | flagList e =>
    match v with
    | .object obj => e.encodeFlagList obj
    | _ => .error (.unexpectedType (asFlags e.name) v.typeName)
  | struct l =>
    match v with
    | .object obj => l.encode obj
    | _ => .error (.unexpectedType l.name v.typeName)
  | attrs name =>
    match v with
    | .object obj =>
      let put (f : Field) (x : Value) (_hx : x.depth < (Value.object obj).depth) : Write Unit :=
        if f.payload.omits x then pure ()
        else Write.mapError (.field name f.name) do
          let data ← Write.lift (f.payload.encode sets x)
          Write.put f.index data
      let writer (f : Field) : Nested.FieldWriter obj := ⟨f.name, fun x hx =>
        if f.repeated then
          match hi : x.items? with
          | none =>
            throw (.field name f.name (.unexpectedType "list of repeated values" x.typeName))
          | some items => items.attach.forM fun item =>
              put f item.1 (Nat.lt_trans (Value.depth_lt_of_mem_items hi item.2) hx)
        else put f x hx⟩
      Write.toBytes (Nested.putObject obj ((sets.fields name).map writer))
    | _ => .error (.unexpectedType name v.typeName)
termination_by v.depth

end Payload

end NetlinkSchema
