import NetlinkSchema.Codec.Lowering

/-!
# Struct layouts

A struct is a run of members of fixed size, without padding. A member is a byte string, a boolean,
a number, another struct, or an inline array of those. Nested structs are part of the description,
so a layout is a finite tree and its size is a sum over it.

Sizes are 64-bit words: they are exact for every struct that a message could hold, and wrap around
beyond.

A struct that later versions may extend is expandable: bytes beyond its known members are kept.

## Main definitions

* `MemberType`: The type of a struct member.
* `Layout`: A struct.
* `Layout.decode`, `Layout.encode`, `Layout.encodeInto`: Between bytes and an object.
-/

namespace NetlinkSchema

/-- The field for the bytes beyond the known members of an expandable struct. -/
def unparsedField : Text := "__unparsed"

/-- Whether a field name has a meaning of its own. -/
def isReservedField (name : Text) : Bool := name == unknownField || name == unparsedField

/-- The type of a struct member. -/
inductive MemberType
  | bytes (count : Int64)
  | bool
  | number (num : Number) (lower : Lowering)
  | struct (name : Text) (members : List (Text × MemberType))
  | array (count : Int64) (elem : MemberType)

/-- The members of a struct with their names. -/
abbrev Members := List (Text × MemberType)

namespace MemberType

mutual

/-- The number of bytes of a member. -/
def size : MemberType → Int64
  | bytes count => count
  | bool => 1
  | number num _ => Int64.ofNat num.size
  | struct _ members => membersSize members
  | array count elem => elem.size * count

/-- The number of bytes of a list of members. -/
def membersSize : List (Text × MemberType) → Int64
  | [] => 0
  | (_, t) :: rest => t.size + membersSize rest

end

/-- The number of bytes of a member, as a length. -/
def length (t : MemberType) : Nat := t.size.toNatClampNeg

/-- The first `count` pieces of `size` bytes. -/
def pieces (size : Nat) : (count : Nat) → Bytes → List Bytes
  | 0, _ => []
  | count + 1, buf => buf.take size :: pieces size count (buf.drop size)

/-- Refuses a buffer of the wrong length. -/
def checkSize (name : Text) (want : Int) (buf : Bytes) : Except WireError Unit :=
  if buf.length = want then .ok () else .error (.within name (.bound .length want buf.length))

mutual

/-- Decodes the bytes of a member. -/
def decode : MemberType → Bytes → Except WireError Value
  | bytes _, buf => .ok (.bytes buf)
  | bool, buf => Scalar.readBool (buf.headD 0)
  | number num lower, buf => .ok (lower.read num buf)
  | struct name members, buf => do
    checkSize name (membersSize members).toInt buf
    return .object (← decodeMembers name members buf)
  | array count elem, buf => do
    let n := count.toNatClampNeg
    return .list (← (pieces (buf.length / n) n buf).mapM elem.decode)

/-- Decodes the members at the start of a buffer. -/
def decodeMembers (type : Text) : List (Text × MemberType) → Bytes → Except WireError Object
  | [], _ => .ok []
  | (name, t) :: rest, buf => do
    match t.decode (buf.take t.length) with
    | .error e => throw (.field type name e)
    | .ok v =>
      let others ← decodeMembers type rest (buf.drop t.length)
      return Object.set others name v

end

/-- A buffer after writing to it, and the error if writing stopped early. -/
abbrev Written := Bytes × Option WireError

/-- Writes elements of equal size one after another, and stops at the first error. -/
def writeItems (size : Nat) (write : Value → Bytes → Written) : List Value → Bytes → Written
  | [], buf => (buf, none)
  | v :: rest, buf =>
    match write v (buf.take size) with
    | (piece, some e) => (piece ++ buf.drop size, some e)
    | (piece, none) =>
      let (tail, e) := writeItems size write rest (buf.drop size)
      (piece ++ tail, e)

/-- The first entry of an object that is set and whose name is not declared. -/
def firstUndeclared? (obj : Object) (declared : List Text) : Option Text :=
  (obj.find? fun e => !e.2.isNull && !declared.contains e.1).map (·.1)

mutual

/-- Writes a value over the bytes of a member. -/
def write : MemberType → Value → Bytes → Written
  | bytes count, v, buf =>
    match Scalar.putData v with
    | .error e => (buf, some e)
    | .ok data =>
      if data.length = count.toInt then (Bytes.overwrite buf data, none)
      else (buf, some (.bound .count count.toInt data.length))
  | bool, v, buf =>
    -- A value of another type leaves the byte of `false`.
    match Scalar.writeBool v with
    | .ok b => (Bytes.overwrite buf [b], none)
    | .error e => (Bytes.overwrite buf [0], some e)
  | number num lower, v, buf =>
    match lower.toBytes num v with
    | .ok b => (Bytes.overwrite buf b, none)
    | .error e => (buf, some e)
  | struct name members, v, buf =>
    match v with
    | .object obj =>
      match checkSize name (membersSize members).toInt buf with
      | .error e => (buf, some e)
      | .ok () =>
        match firstUndeclared? obj (members.map (·.1)) with
        | some key => (buf, some (.field name key .undeclared))
        | none => writeMembers name members obj buf
    | _ => (buf, some (.unexpectedType name v.typeName))
  | array count elem, v, buf =>
    match v.items? with
    | none => (buf, some (.unexpectedType "array" v.typeName))
    | some items =>
      if items.length = count.toInt then
        writeItems (buf.length / items.length) elem.write items buf
      else (buf, some (.bound .count count.toInt items.length))

/-- Writes the members of an object at the start of a buffer. A member that is not set becomes
    zero. -/
def writeMembers (type : Text) : List (Text × MemberType) → Object → Bytes → Written
  | [], _, buf => (buf, none)
  | (name, t) :: rest, obj, buf =>
    let piece := buf.take t.length
    let written := match Object.get obj name with
      | .null => (Bytes.zeros piece.length, none)
      | v => t.write v piece
    match written with
    | (piece', some e) => (piece' ++ buf.drop t.length, some (.field type name e))
    | (piece', none) =>
      let (tail, e) := writeMembers type rest obj (buf.drop t.length)
      (piece' ++ tail, e)

end

end MemberType

/-- A struct. -/
structure Layout where
  name : Text
  members : Members
  expandable : Bool

namespace Layout

/-- The number of bytes of the known members. -/
def size (l : Layout) : Int64 := MemberType.membersSize l.members

/-- The names of the members. -/
def memberNames (l : Layout) : List Text := l.members.map (·.1)

/-- Refuses a buffer that is too short, or too long for a struct of fixed size. -/
def checkLength (l : Layout) (buf : Bytes) : Except WireError Unit :=
  let want := l.size.toInt
  if l.expandable then
    if buf.length < want then .error (.within l.name (.bound .minimum want buf.length)) else .ok ()
  else MemberType.checkSize l.name want buf

/-- Decodes a struct. The bytes beyond the known members are kept as they are. -/
def decode (l : Layout) (buf : Bytes) : Except WireError Object := do
  l.checkLength buf
  let obj ← MemberType.decodeMembers l.name l.members buf
  match buf.drop l.size.toNatClampNeg with
  | [] => return obj
  | tail => return if l.expandable then Object.set obj unparsedField (.bytes tail) else obj

/-- The bytes beyond the known members that an object brings along. -/
def tail (l : Layout) (obj : Object) : Except WireError Bytes :=
  if l.expandable then
    match Object.get obj unparsedField with
    | .null => .ok []
    | .bytes b => .ok b
    | v => .error (.field l.name unparsedField (.unexpectedType "[]byte" v.typeName))
  else .ok []

/-- The keys that an object may have. -/
def declaredKeys (l : Layout) : List Text :=
  if l.expandable then unparsedField :: l.memberNames else l.memberNames

/-- What an object writes into a buffer that has been checked. -/
def writeChecked (l : Layout) (obj : Object) (tail buf : Bytes) : MemberType.Written :=
  match MemberType.firstUndeclared? obj l.declaredKeys with
  | some key => (buf, some (.field l.name key .undeclared))
  | none =>
    let known := buf.take l.size.toNatClampNeg
    match MemberType.writeMembers l.name l.members obj known with
    | (known', some e) => (known' ++ buf.drop l.size.toNatClampNeg, some e)
    | (known', none) => (known' ++ tail, none)

/-- Encodes an object into a buffer, which must have exactly the encoded length. Where encoding
    fails the buffer may be partly written. -/
def encodeInto (l : Layout) (obj : Object) (buf : Bytes) : MemberType.Written :=
  match l.tail obj with
  | .error e => (buf, some e)
  | .ok tail =>
    let want := l.size.toInt + tail.length
    if buf.length = want then l.writeChecked obj tail buf
    else (buf, some (.within l.name (.bound .length want buf.length)))

/-- Encodes an object. -/
def encode (l : Layout) (obj : Object) : Except WireError Bytes := do
  let tail ← l.tail obj
  match l.encodeInto obj (Bytes.zeros (l.size.toNatClampNeg + tail.length)) with
  | (buf, none) => return buf
  | (_, some e) => throw e

end Layout

end NetlinkSchema
