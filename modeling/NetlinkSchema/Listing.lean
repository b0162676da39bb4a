import NetlinkSchema.Text.Quoted
import NetlinkSchema.Value

/-!
# Listings

Decoded objects as indented text for people to read: a line per field, sorted by name, with nested
objects, lists and maps between brackets.

A listing is written from front to back. It may run out of room, and it stops at a value for which
there is no notation; what was written before stays. Lists and maps go on after an error, so of
several such values in a list the last one is reported.

## Main definitions

* `Listing`: A listing as far as it is written.
* `Listing.quote`: A text in quotation marks.
* `Listing.ofObject`, `Listing.ofValue`: The listing of an object.
-/

namespace NetlinkSchema

/-- Why a listing is incomplete. -/
inductive ListingError
  /-- A field's value, its type, and the name of the field. -/
  | field (shown type name : Text)
  | item (shown type : Text)
  | notObject (type : Text)
  | limit
deriving DecidableEq

namespace ListingError

/-- The text of an error. -/
def message : ListingError → Text
  | field shown type name =>
    "nltext: unhandled value " ++ shown ++ " (" ++ type ++ ") in field " ++ name.quoted
  | item shown type => "nltext: unhandled array item " ++ shown ++ " (" ++ type ++ ")"
  | notObject type => "nltext: cannot encode value of type " ++ type
  | limit => "limit reached"

end ListingError

/-- A listing as far as it is written. -/
structure Listing where
  /-- What is written, the last piece first. -/
  pieces : List Text
  /-- How many more bytes there is room for. -/
  room : Option Nat
  error : Option ListingError

namespace Listing

/-- An empty listing with room for a number of bytes. -/
def empty (room : Option Nat) : Listing := ⟨[], room, none⟩

/-- The text of a listing. -/
def text (l : Listing) : Text := Text.concat l.pieces.reverse

/-- Notes an error. -/
def fail (e : ListingError) (l : Listing) : Listing := { l with error := some e }

/-- Writes a piece of text, unless there was an error or there is no room for it. -/
def put (t : Text) (l : Listing) : Listing :=
  match l.error, l.room with
  | some _, _ => l
  | none, none => { l with pieces := t :: l.pieces }
  | none, some room =>
    if t.size ≤ room then { l with pieces := t :: l.pieces, room := some (room - t.size) }
    else l.fail .limit

/-- Writes a line. -/
def line (indent : Nat) (t : Text) (l : Listing) : Listing :=
  ((l.put ⟨List.replicate indent 9⟩).put t).put "\n"

/-- The escape of a character. Only quotation marks, backslashes and control characters have
    one. -/
def escape (c : Char) : List Char :=
  if c == '\\' || c == '"' then ['\\', c]
  else if c == '\t' then ['\\', 't']
  else if c == '\n' then ['\\', 'n']
  else if c.toNat < 0x20 || c.toNat == 0x7F then
    '\\' :: 'x' :: (Text.hexDigits 2 c.toNat).map Char.toUpper
  else [c]

/-- A text in quotation marks; stray bytes become U+FFFD. -/
def quote (t : Text) : Text := Text.ofChars ('"' :: t.chars.flatMap escape ++ ['"'])

/-- A byte string in brackets. -/
def bytesText (b : Bytes) : Text :=
  let byte (x : UInt8) : Text := "0x" ++ Text.ofChars ((Text.hexDigits 2 x.toNat).map Char.toUpper)
  "[" ++ Text.join ", " (b.map byte) ++ "]"

/-- The text of a boolean. -/
def boolText (b : Bool) : Text := if b then ".true" else ".false"

/-- The text of a value that takes no more than a word. -/
def scalar? : Value → Option Text
  | .bool b => some (boolText b)
  | .int i => if i.type = .uint then none else some i.toText
  | .float32 bits => some (FloatNotation.plain.write .single bits.toNat)
  | .float64 bits => some (FloatNotation.plain.write .double bits.toNat)
  | .text t => some (quote t)
  | .bytes b => some (bytesText b)
  | _ => none

/-- Writes what stands between two lines, one level deeper. -/
def block (indent : Nat) (opening closing : Text) (body : Listing → Listing) (l : Listing) :
    Listing :=
  (body (l.line indent opening)).line indent closing

/-- Writes a text per line. -/
def lines (indent : Nat) (ts : List Text) (l : Listing) : Listing :=
  ts.foldl (fun l t => l.line indent t) l

/-- Writes texts between brackets after a name. -/
def texts (indent : Nat) (name : Text) (ts : List Text) (l : Listing) : Listing :=
  if ts.isEmpty then l.line indent (name ++ " = []")
  else l.block indent (name ++ " = [") "]" (lines (indent + 1) (ts.map quote))

/-- Writes the fields of an object in the order of their names, up to an error. -/
def runFields (fields : List (Text × (Listing → Listing))) (l : Listing) : Listing :=
  (sortBy (fun a b => a.1.le b.1) fields).foldl
    (fun l f => if l.error.isSome then l else f.2 l) l

/-- Writes the entries of a map in the order of their keys. -/
def runEntries (entries : List (UInt16 × (Listing → Listing))) (l : Listing) : Listing :=
  (sortBy (fun a b => decide (a.1 ≤ b.1)) entries).foldl (fun l e => e.2 l) l

mutual

/-- Writes a field. An absent value leaves no trace. -/
def field (indent : Nat) (name : Text) (v : Value) (l : Listing) : Listing :=
  match scalar? v with
  | some t => l.line indent (name ++ " = " ++ t)
  | none =>
    match v with
    | .null => l
    | .texts ts => l.texts indent name ts
    | .object fields =>
      if fields.isEmpty then l.line indent (name ++ " = \x7b\x7d")
      else l.block indent (name ++ " = \x7b") "\x7d" (runFields (fieldWriters (indent + 1) fields))
    | .list items =>
      if items.isEmpty then l.line indent (name ++ " = []")
      else l.block indent (name ++ " = [") "]" (runItems (indent + 1) items)
    | .map entries =>
      if entries.isEmpty then l.line indent (name ++ " = \x7b\x7d")
      else l.block indent (name ++ " = \x7b") "\x7d"
        (runEntries (entryWriters (indent + 1) entries))
    | v => l.fail (.field v.plain v.typeName name)

/-- Writes an item of a list. -/
def item (indent : Nat) (v : Value) (l : Listing) : Listing :=
  match scalar? v with
  | some t => l.line indent t
  | none =>
    match v with
    | .object fields =>
      if fields.isEmpty then l.line indent "\x7b\x7d"
      else l.block indent "\x7b" "\x7d" (runFields (fieldWriters (indent + 1) fields))
    | .list items => l.block indent "[" "]" (runItems (indent + 1) items)
    | v => l.fail (.item v.plain v.typeName)

/-- Writes the items of a list. -/
def runItems (indent : Nat) : List Value → Listing → Listing
  | [], l => l
  | v :: rest, l => runItems indent rest (item indent v l)

/-- The fields of an object, each with what writes it. -/
def fieldWriters (indent : Nat) : List (Text × Value) → List (Text × (Listing → Listing))
  | [] => []
  | (name, v) :: rest => (name, field indent name v) :: fieldWriters indent rest

/-- The entries of a map, each with what writes it. -/
def entryWriters (indent : Nat) : List (UInt16 × Value) → List (UInt16 × (Listing → Listing))
  | [] => []
  | (key, v) :: rest => (key, field indent (Text.ofNat key.toNat) v) :: entryWriters indent rest

end

/-- The listing of an object. -/
def ofObject (obj : Object) (room : Option Nat) : Listing :=
  runFields (fieldWriters 0 obj) (empty room)

/-- The listing of a value, which must be an object. -/
def ofValue (v : Value) (room : Option Nat) : Listing :=
  match v with
  | .object obj => ofObject obj room
  | v => (empty room).fail (.notObject v.typeName)

end Listing

end NetlinkSchema
