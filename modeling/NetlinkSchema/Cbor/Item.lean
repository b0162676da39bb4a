import NetlinkSchema.Text

/-!
# CBOR

Data items in the concise binary object representation. Writing is deterministic: each head is as
short as its number allows, and the entries of a map are sorted by the bytes of their keys.

## Main definitions

* `Cbor`: A data item.
* `Cbor.encode`: The bytes of a data item.
-/

namespace NetlinkSchema

/-- A data item. -/
inductive Cbor
  | unsigned (n : UInt64)
  /-- The integer `-1 - n`. -/
  | negative (n : UInt64)
  | bytes (b : Bytes)
  | text (t : Text)
  /-- A text in pieces. -/
  | pieces (ts : List Text)
  | array (items : List Cbor)
  | map (entries : List (Cbor × Cbor))
  | tag (number : UInt64) (content : Cbor)
  /-- A simple value, such as a boolean or null. -/
  | simple (n : UInt8)
  /-- The bits of a floating-point number of 2, 4 or 8 bytes. -/
  | float (size : Nat) (bits : UInt64)

namespace Cbor

/-- The item of a boolean. -/
def bool (b : Bool) : Cbor := simple (if b then 21 else 20)

/-- The item of nothing. -/
def null : Cbor := simple 22

/-- The item of an integer. -/
def int (n : Int64) : Cbor := if n < 0 then negative (~~~n).toUInt64 else unsigned n.toUInt64

/-- The head of an item: its major type and a number, in as few bytes as possible. -/
def head (major : UInt8) (n : Nat) : Bytes :=
  let lead (info : Nat) : UInt8 := major * 32 + UInt8.ofNat info
  if n < 24 then [lead n]
  else if n < 0x100 then lead 24 :: Bytes.ofNatBig 1 n
  else if n < 0x10000 then lead 25 :: Bytes.ofNatBig 2 n
  else if n < 0x100000000 then lead 26 :: Bytes.ofNatBig 4 n
  else lead 27 :: Bytes.ofNatBig 8 n

/-- The bytes of a text. -/
def encodeText (t : Text) : Bytes := head 3 t.size ++ t.utf8

mutual

/-- The bytes of a data item. -/
def encode : Cbor → Bytes
  | unsigned n => head 0 n.toNat
  | negative n => head 1 n.toNat
  | bytes b => head 2 b.length ++ b
  | text t => encodeText t
  | pieces ts => 0x7F :: ts.flatMap encodeText ++ [0xFF]
  | array items => head 4 items.length ++ encodeItems items
  | map entries =>
    let sorted := sortBy (fun a b => Bytes.le a.1 b.1) (encodeEntries entries)
    head 5 entries.length ++ sorted.flatMap fun e => e.1 ++ e.2
  | tag number content => head 6 number.toNat ++ content.encode
  | simple n => if n < 24 then [0xE0 + n] else [0xF8, n]
  | float size bits => (0xF9 + UInt8.ofNat (Nat.log2 size - 1)) :: Bytes.ofNatBig size bits.toNat

/-- The bytes of items one after another. -/
def encodeItems : List Cbor → Bytes
  | [] => []
  | item :: rest => item.encode ++ encodeItems rest

/-- The bytes of keys and values. -/
def encodeEntries : List (Cbor × Cbor) → List (Bytes × Bytes)
  | [] => []
  | (key, value) :: rest => (key.encode, value.encode) :: encodeEntries rest

end

end Cbor

end NetlinkSchema
