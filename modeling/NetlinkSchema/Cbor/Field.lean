import NetlinkSchema.Cbor.Reader
import NetlinkSchema.Schema.Types

/-!
# Records in CBOR

A record is a map from names to values. Reading one is lenient where the names are concerned: names
of either case will do, the first of several counts, and unknown names are skipped. A value must
have the type of its field; nothing at all leaves the field as it was.

## Main definitions

* `Cbor.untag?`: An item without its tags.
* `Cbor.toText?`, `Cbor.toBool?`, `Cbor.toInt?`: The value of a field.
* `Cbor.Record`, `Cbor.toRecord?`: The entries of a record.
-/

namespace NetlinkSchema

namespace Cbor

/-- Whether the content of a tag is what the tag asks for. -/
def isTagContent (number : UInt64) (content : Cbor) : Bool :=
  match number, content with
  | 0, text _ | 0, pieces _ => true
  | 0, _ => false
  | 1, unsigned _ | 1, negative _ | 1, float _ _ => true
  | 1, _ => false
  | 2, bytes _ | 3, bytes _ => true
  | 2, _ | 3, _ => false
  | _, _ => true

/-- An item without its tags. The tags of large integers stay, and a tag whose content is of a
    wrong type is an error. -/
def untag? : Cbor → Option Cbor
  | tag number content =>
    if isTagContent number content then
      if number == 2 || number == 3 then some (tag number content) else untag? content
    else none
  | item => some item

/-- Whether an item says nothing. -/
def isNothing : Cbor → Bool
  | simple 22 | simple 23 => true
  | _ => false

/-- The characters of a text, which must be UTF-8. -/
def plainText? : Cbor → Option Text
  | text t => if t.isValid then some t else none
  | pieces ts => if ts.all Text.isValid then some (Text.concat ts) else none
  | _ => none

/-- An integer, however it is written. -/
def plainInt? : Cbor → Option Int
  | unsigned n => some n.toNat
  | negative n => some (-1 - Int.ofNat n.toNat)
  | simple n => if n == 20 || n == 21 then none else some n.toNat
  | tag 2 (bytes b) => some (Bytes.toNatBig b)
  | tag 3 (bytes b) => some (-1 - Int.ofNat (Bytes.toNatBig b))
  | _ => none

/-- Reads an untagged item, unless it says nothing. -/
def readOr {α : Type} (old : α) (read : Cbor → Option α) (item : Cbor) : Option α := do
  let item ← untag? item
  if item.isNothing then return old else read item

/-- The text of a field. -/
def toText? (item : Cbor) : Option Text := readOr .empty plainText? item

/-- The boolean of a field. -/
def toBool? (item : Cbor) : Option Bool :=
  readOr false (fun
    | simple 20 => some false
    | simple 21 => some true
    | _ => none) item

/-- The integer of a field, which must lie in a range. -/
def toInt? (least greatest : Int) (item : Cbor) : Option Int :=
  readOr 0 (fun item => do
    let n ← plainInt? item
    if least ≤ n ∧ n ≤ greatest then some n else none) item

/-- The signed word of a field. -/
def toInt64? (item : Cbor) : Option Int64 :=
  (toInt? (-0x8000000000000000) 0x7FFFFFFFFFFFFFFF item).map Int64.ofInt

/-- The list of a field. -/
def toList? {α : Type} (read : Cbor → Option α) (item : Cbor) : Option (Option (List α)) :=
  readOr none (fun
    | array items => (items.mapM read).map some
    | _ => none) item

/-- The texts of a field. -/
def toTexts? (item : Cbor) : Option Docs := toList? toText? item

/-- The members of a list, those that say nothing left out. -/
def toMembers? {α : Type} (read : Cbor → Option α) (item : Cbor) : Option (Option (List α)) :=
  readOr none (fun
    | array items => ((items.filter fun i => !i.isNothing).mapM read).map some
    | _ => none) item

/-- The entries of a record. -/
abbrev Record := List (Cbor × Cbor)

namespace Record

/-- Lower-case letters for capital ones of the basic alphabet. -/
def lowerAscii (t : Text) : Text := ⟨t.utf8.map fun b => if 65 ≤ b && b ≤ 90 then b + 32 else b⟩

/-- Whether every key can be that of a record. -/
def hasKeys (r : Record) : Bool :=
  r.all fun (key, _) =>
    match key with
    | unsigned _ | negative _ => true
    | key => (plainText? key).isSome

/-- The value of a name: the first one whose key differs from it in case only. -/
def value? (r : Record) (name : Text) : Option Cbor :=
  (r.find? fun (key, _) => (plainText? key).any fun t => lowerAscii t == name).map (·.2)

/-- Reads the value of a name; a name that does not occur has the value `old`. -/
def field {α : Type} (r : Record) (name : Text) (old : α) (read : Cbor → Option α) : Option α :=
  match r.value? name with
  | some item => read item
  | none => some old

/-- The text of a name. -/
def text (r : Record) (name : Text) : Option Text := r.field name .empty toText?

/-- The boolean of a name. -/
def bool (r : Record) (name : Text) : Option Bool := r.field name false toBool?

/-- The signed word of a name. -/
def int (r : Record) (name : Text) : Option Int64 := r.field name 0 toInt64?

/-- The texts of a name. -/
def texts (r : Record) (name : Text) : Option Docs := r.field name none toTexts?

end Record

/-- Reads a record; an item that says nothing is one without entries. -/
def toRecord? {α : Type} (read : Record → Option α) (item : Cbor) : Option α := do
  match ← untag? item with
  | map entries => if Record.hasKeys entries then read entries else none
  | item => if item.isNothing then read [] else none

end Cbor

end NetlinkSchema
