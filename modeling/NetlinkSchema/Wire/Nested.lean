import NetlinkSchema.Value
import NetlinkSchema.Wire.Attribute

/-!
# Nested attributes

Payloads that are themselves streams of attributes: objects, whose attribute types stand for
fields; arrays, whose attribute types count the elements; and maps, whose attribute types are the
keys.

The functions take the codec of the elements as an argument. A decoder is handed the evidence that
a payload is shorter than the stream around it, an encoder that an element is nested less deeply
than the value around it, so that codecs of recursive types end.

## Main definitions

* `Nested.getObject`, `Nested.putObject`: Fields by attribute type.
* `Nested.getArray`, `Nested.putArray`: Elements numbered one after another.
* `Nested.getMap`, `Nested.putMap`: Elements by key.
-/

namespace NetlinkSchema

namespace Nested

/-- Decodes a payload of a stream. -/
abbrev PayloadDecoder (buf : Bytes) (α : Type) :=
  (data : Bytes) → data.length < buf.length → Except WireError α

/-- Encodes an element of a value. -/
abbrev ItemEncoder (v : Value) := (item : Value) → item.depth < v.depth → Except WireError Bytes

/-- Folds over the attributes of a stream, each with the evidence that its payload is shorter
    than the stream. An error of the fold comes before one of the stream, as it does when the
    stream is read from front to back. -/
def foldAttributes {σ : Type} (buf : Bytes) (init : σ)
    (step : σ → (a : Attribute) → a.payload.length < buf.length → Except WireError σ) :
    Except WireError σ := do
  let s ← (Attribute.walk buf).1.attach.foldlM
    (fun s a => step s a.1 (Attribute.payload_lt_of_mem_walk a.2)) init
  match (Attribute.walk buf).2 with
  | some e => throw e
  | none => return s

/-- Decodes a stream into an object. Each declared attribute type has a decoder that adds a field;
    attributes of other types are skipped. -/
def getObject (buf : Bytes) (fields : UInt16 → Option (Object → PayloadDecoder buf Object)) :
    Except WireError Object :=
  foldAttributes buf [] fun obj a h =>
    match fields a.type with
    | none => .ok obj
    | some decode => if a.netByteOrder then .error .netByteOrder else decode obj a.payload h

/-- The number of an array's first element. -/
def firstIndex (zero : Bool) : Nat := if zero then 0 else 1

/-- Decodes a stream whose attribute types count up from the first index. -/
def getArray (buf : Bytes) (zero : Bool) (decode : PayloadDecoder buf Value) :
    Except WireError (List Value) := do
  let items ← foldAttributes buf (#[] : Array Value) fun items a h => do
    let want := firstIndex zero + items.size
    if a.type.toNat ≠ want then throw (.bound .sequence want a.type.toNat)
    if a.netByteOrder then throw .netByteOrder
    match decode a.payload h with
    | .ok item => return items.push item
    | .error e => throw (.element items.size e)
  return items.toList

/-- Sets the entry of a key: an old entry is replaced, a new one goes to its place in the order of
    keys. -/
def setEntry (key : UInt16) (v : Value) : List (UInt16 × Value) → List (UInt16 × Value)
  | [] => [(key, v)]
  | (k, old) :: rest =>
    if k = key then (k, v) :: rest
    else if k < key then (k, old) :: setEntry key v rest
    else (key, v) :: (k, old) :: rest

/-- Decodes a stream into a map by attribute type. -/
def getMap (buf : Bytes) (decode : PayloadDecoder buf Value) :
    Except WireError (List (UInt16 × Value)) :=
  foldAttributes buf [] fun entries a h =>
    if a.netByteOrder then .error .netByteOrder
    else
      match decode a.payload h with
      | .ok v => .ok (setEntry a.type v entries)
      | .error e => .error (.element a.type.toNat e)

/-- The first key, in the order of names, that is set and not declared. -/
def firstUndeclared? (obj : Object) (declared : List Text) : Option Text :=
  (obj.sorted.find? fun e => !e.2.isNull && !declared.contains e.1).map (·.1)

/-- Writes the attributes of one field of an object. -/
structure FieldWriter (obj : Object) where
  name : Text
  write : (v : Value) → v.depth < (Value.object obj).depth → Write Unit

/-- Writes the fields of an object that are set, in the order of the declarations. An undeclared
    field is refused before anything is written. -/
def putObject (obj : Object) (fields : List (FieldWriter obj)) : Write Unit := do
  if let some key := firstUndeclared? obj (fields.map (·.name)) then throw (.undeclaredKey key)
  fields.forM fun f =>
    let v := Object.get obj f.name
    if v.isNull then pure () else f.write v (Object.depth_get_lt obj f.name)

/-- Writes the elements of a sequence as attributes that count up from the first index. -/
def putArray (v : Value) (zero : Bool) (encode : ItemEncoder v) : Write Unit :=
  match h : v.items? with
  | none => throw (.unexpectedType "array" v.typeName)
  | some items =>
    items.attach.zipIdx.forM fun (item, i) => do
      let payload ← match encode item.1 (Value.depth_lt_of_mem_items h item.2) with
        | .ok payload => pure payload
        | .error e => throw (.element i e)
      let index := firstIndex zero + i
      if Attribute.typeMask < index then
        throw (.bound .attributeType Attribute.typeMask index)
      Write.put (UInt16.ofNat index) payload

/-- An entry of a map value, with the evidence that encoding it ends. -/
structure Entry (v : Value) where
  key : UInt16
  value : Value
  depth_lt : value.depth < v.depth

/-- The attribute type of a number. -/
def typeOfKey (key : Int) : Except WireError UInt16 :=
  if key < 0 ∨ Attribute.typeMask < key then
    .error (.bound .attributeType Attribute.typeMask key)
  else .ok (UInt16.ofInt key)

/-- The entries of any kind of map. Keys that are not attribute types already are checked. -/
def entries (v : Value) : Except WireError (List (Entry v)) :=
  match v with
  | .map es => .ok (es.attach.map fun e =>
      ⟨e.1.1, e.1.2, Nat.lt_succ_of_le (Value.depth_le_entriesDepth e.2)⟩)
  | .intMap es => es.attach.mapM fun e => do
      let key ← typeOfKey e.1.1.toInt
      return ⟨key, e.1.2, Nat.lt_succ_of_le (Value.depth_le_intEntriesDepth e.2)⟩
  | .object [] | .textMap [] => .ok []
  | .object (_ :: _) | .textMap (_ :: _) =>
    .error (.unexpectedType "integer map key" (Value.text "").typeName)
  | _ => .error (.unexpectedType "map" v.typeName)

/-- Writes the entries of a map in the order of their keys. -/
def putMap (v : Value) (encode : ItemEncoder v) : Write Unit := do
  let es ← Write.lift (entries v)
  (sortBy (fun a b => decide (a.key ≤ b.key)) es).forM fun e => do
    let payload ← match encode e.value e.depth_lt with
      | .ok payload => pure payload
      | .error err => throw (.element e.key.toNat err)
    Write.put e.key payload

end Nested

end NetlinkSchema
