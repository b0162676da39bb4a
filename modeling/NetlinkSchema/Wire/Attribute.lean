import NetlinkSchema.Wire.Error

/-!
# Attributes

An attribute is a header of four bytes, a 16-bit length and a 16-bit type, and then its payload.
The length counts the header but not the padding that brings the next attribute to a multiple of
four. The two high bits of the type are flags. Headers are little-endian.

## Main definitions

* `Attribute`: A type, its flags and a payload.
* `Attribute.parse`: Reads one attribute from the start of a buffer.
* `Attribute.walk`: The attributes of a buffer, and what ends them too early.
* `Writer`, `Writer.put`: A stream of attributes under construction.
* `Write`, `Write.put`: Writing to a stream.

## Theorems

* `Attribute.payload_lt_of_mem_walk`: A payload is shorter than the buffer that it comes from.
-/

namespace NetlinkSchema

namespace Attribute

/-- The size of a header. -/
def headerSize : Nat := 4

/-- The largest size of an attribute, header included. -/
def maxSize : Nat := 0xFFFF

/-- The bits of the type field that hold the type, and so also the largest type. -/
def typeMask : Nat := 0x3FFF

/-- Rounds a size up to the alignment. -/
def align (n : Int64) : Int64 := (n + 3) &&& ~~~3

/-- The size of an attribute together with the padding after it. -/
def paddedSize (n : Nat) : Nat := (n + 3) / 4 * 4

end Attribute

/-- An attribute of a message. -/
structure Attribute where
  type : UInt16
  nested : Bool
  netByteOrder : Bool
  payload : Bytes
deriving DecidableEq

namespace Attribute

/-- The attribute whose type field is `raw`. -/
def ofRawType (raw : Nat) (payload : Bytes) : Attribute where
  type := UInt16.ofNat (raw % 0x4000)
  nested := raw / 0x8000 % 2 == 1
  netByteOrder := raw / 0x4000 % 2 == 1
  payload := payload

/-- Reads the attribute at the start of a buffer; the length is the one in its header. -/
def parse : Bytes → Except WireError (Attribute × Nat)
  | l0 :: l1 :: t0 :: t1 :: rest =>
    let length := Bytes.toNatLittle [l0, l1]
    let payload := rest.take (length - headerSize)
    if length < headerSize ∨ payload.length < length - headerSize then
      .error (.bound .truncated length (headerSize + rest.length))
    else .ok (ofRawType (Bytes.toNatLittle [t0, t1]) payload, length)
  | short => .error (.bound .truncated headerSize short.length)

theorem parse_length {buf : Bytes} {a : Attribute} {n : Nat} (h : parse buf = .ok (a, n)) :
    headerSize ≤ n ∧ n ≤ buf.length ∧ a.payload.length + headerSize = n := by
  match buf, h with
  | l0 :: l1 :: t0 :: t1 :: rest, h =>
    simp only [parse] at h
    split at h
    · cases h
    · rename_i hfit
      simp only [Except.ok.injEq, Prod.mk.injEq] at h
      obtain ⟨rfl, rfl⟩ := h
      simp only [headerSize, ofRawType, List.length_cons, List.length_take] at hfit ⊢
      omega
  | [], h | [_], h | [_, _], h | [_, _, _], h => cases h

/-- The attributes of a buffer in order, and the error at which they end if the rest is not an
    attribute. Padding after the last attribute may be left out. -/
def walk (buf : Bytes) : List Attribute × Option WireError :=
  if buf.isEmpty then ([], none)
  else
    match _h : parse buf with
    | .error e => ([], some e)
    | .ok (a, length) =>
      let (rest, e) := walk (buf.drop (paddedSize length))
      (a :: rest, e)
termination_by buf.length
decreasing_by
  have := parse_length _h
  simp only [headerSize, paddedSize, List.length_drop] at *
  omega

/-- A payload is shorter than the buffer that it comes from, by a header at least. -/
theorem payload_lt_of_mem_walk {buf : Bytes} {a : Attribute} (h : a ∈ (walk buf).1) :
    a.payload.length < buf.length := by
  fun_induction walk buf with
  | case1 => cases h
  | case2 => cases h
  | case3 buf _ b length hp rest e hw ih =>
    have hlen := parse_length hp
    simp only [headerSize] at hlen
    rcases List.mem_cons.1 h with rfl | h
    · omega
    · rw [hw] at ih
      have := ih h
      simp only [List.length_drop] at this
      omega

/-- The header of an attribute without flags. -/
def header (type : UInt16) (size : Nat) : Bytes :=
  Bytes.ofNatLittle 2 size ++ Bytes.ofNatLittle 2 type.toNat

end Attribute

/-- A stream of attributes under construction. Padding is written in front of an attribute, so
    the stream never ends in padding. -/
structure Writer where
  buffer : Array UInt8
deriving DecidableEq

namespace Writer

/-- The stream without attributes. -/
def empty : Writer := ⟨#[]⟩

instance : Inhabited Writer := ⟨empty⟩

/-- The bytes written so far. -/
def bytes (w : Writer) : Bytes := w.buffer.toList

/-- The number of bytes written so far. -/
def size (w : Writer) : Nat := w.buffer.size

/-- The padding that is due before the next attribute. -/
def padding (w : Writer) : Bytes := Bytes.zeros ((4 - w.size % 4) % 4)

/-- Appends bytes as they are. -/
def append (w : Writer) (b : Bytes) : Writer := ⟨w.buffer ++ b⟩

@[simp] theorem bytes_append (w : Writer) (b : Bytes) : (w.append b).bytes = w.bytes ++ b := by
  simp [append, bytes]

/-- Appends an attribute after the padding that is due. -/
def add (w : Writer) (type : UInt16) (payload : Bytes) : Writer :=
  let padding := w.padding
  ((w.append padding).append (Attribute.header type (Attribute.headerSize + payload.length))).append
    payload

/-- Why an attribute cannot be written: its type or its size does not fit a header. -/
def refusal? (type : UInt16) (payload : Bytes) : Option WireError :=
  let size := Attribute.headerSize + payload.length
  if Attribute.typeMask < type.toNat then
    some (.bound .attributeType Attribute.typeMask type.toNat)
  else if Attribute.maxSize < size then some (.bound .attributeLength Attribute.maxSize size)
  else none

/-- Appends an attribute, unless its type or its size does not fit a header. -/
def put (w : Writer) (type : UInt16) (payload : Bytes) : Except WireError Writer :=
  match refusal? type payload with
  | some e => .error e
  | none => .ok (w.add type payload)

end Writer

/-- Writing to a stream, which may fail after part of it was written. -/
abbrev Write := EStateM WireError Writer

namespace Write

/-- Appends an attribute to the stream, which is left as it is if this is refused. -/
def put (type : UInt16) (payload : Bytes) : Write Unit := fun w =>
  match w.put type payload with
  | .error e => .error e w
  | .ok w' => .ok () w'

/-- A step that does not touch the stream. -/
def lift {α : Type} (x : Except WireError α) : Write α :=
  match x with
  | .ok a => pure a
  | .error e => throw e

/-- The same writing with its error placed further out. -/
def mapError {α : Type} (place : WireError → WireError) (x : Write α) : Write α := fun w =>
  match x w with
  | .ok a w' => .ok a w'
  | .error e w' => .error (place e) w'

/-- What was written, and the error if writing stopped early. -/
def run (x : Write Unit) : Writer × Option WireError :=
  match EStateM.run x Writer.empty with
  | .ok _ w => (w, none)
  | .error e w => (w, some e)

/-- The bytes of a stream that was written to the end. -/
def toBytes (x : Write Unit) : Except WireError Bytes :=
  match EStateM.run x Writer.empty with
  | .ok _ w => .ok w.bytes
  | .error e _ => .error e

end Write

end NetlinkSchema
