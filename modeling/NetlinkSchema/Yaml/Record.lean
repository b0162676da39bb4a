import NetlinkSchema.Yaml.Decode

/-!
# Records

Reading a mapping as a record with a fixed set of fields. Every key has to be the name of a field,
and no field may be set twice. The key `<<` brings in the entries of other mappings, for those names
that the mapping does not give itself; of several such mappings the earlier ones win.

Problems are collected over the whole record, and a field with a problem stays as it was.

## Main definitions

* `Field`: A name, and what a node does to the record.
* `RecordType`: The name of a type of records, and its fields.
* `Node.merged`: The mappings that a mapping brings in.
* `RecordType.read`: Reads a record.
-/

namespace NetlinkSchema

namespace Yaml

/-- A field of a record: its name, and what a node that is given for it does to the record. -/
structure Field (α : Type) where
  name : Text
  assign : α → Node → Except DecodeError (α × List Problem)

namespace Field

/-- A field that holds one value. An empty scalar leaves the old one. -/
def ofDecoder {α β : Type} (name : Text) (decode : Node → Except DecodeError (Decoded β))
    (set : α → β → α) : Field α where
  name := name
  assign record n := do
    let read ← decode n
    return ((read.value?.map (set record)).getD record, read.problems)

end Field

/-- A type of records. -/
structure RecordType (α : Type) where
  /-- The name by which problems refer to the type. -/
  name : Text
  fields : List (Field α)

namespace Node

/-- Whether the node is a key that brings in other mappings. -/
def isMerge : Node → Bool
  | scalar _ tag value => value == "<<" && shortTag tag == mergeTag
  | _ => false

/-- The name that a key stands for on its own, if it is a text. -/
def ownName? : Node → Option Text
  | scalar _ tag value =>
    match resolveScalar tag value with
    | .ok (.text, text) => some text
    | _ => none
  | reference _ _ target => ownName? target
  | _ => none

mutual

/-- The entries of a mapping and of those it brings in, each on their own and in order. A list of
    mappings will do only where `lists` says so. Nothing is brought in by a mapping that repeats a
    key. -/
def layers (lists : Bool) : Node → Except DecodeError (List (List (Node × Node)))
  | mapping _ _ entries =>
    if (duplicateKeys entries).isEmpty then do return entries :: (← merged entries)
    else return [entries]
  | reference _ _ target => layers false target
  | sequence _ _ items => if lists then layersOfItems items else .error .invalidMerge
  | scalar _ _ _ => .error .invalidMerge

/-- The entries of mappings that stand in a list. -/
def layersOfItems : List Node → Except DecodeError (List (List (Node × Node)))
  | [] => return []
  | n :: rest => do return (← layers false n) ++ (← layersOfItems rest)

/-- The mappings that a mapping with these entries brings in. -/
def merged : List (Node × Node) → Except DecodeError (List (List (Node × Node)))
  | [] => return []
  | (key, value) :: rest => do
    if key.isMerge then return (← layers true value) ++ (← merged rest) else merged rest

end

end Node

/-- A record while it is read. -/
structure Draft (α : Type) where
  record : α
  problems : List Problem
  /-- The fields set so far by the mapping that is being read. -/
  set : List Text
  /-- The names that are settled, when a mapping is read that another one brings in. -/
  settled : Option (List Text)

namespace Draft

/-- Notes problems. -/
def note {α : Type} (d : Draft α) (problems : List Problem) : Draft α :=
  { d with problems := d.problems ++ problems }

/-- Whether a name is settled. -/
def isSettled {α : Type} (d : Draft α) (name : Text) : Bool :=
  match d.settled with
  | some names => names.contains name
  | none => false

/-- Settles a name, if names are settled at all. -/
def settle {α : Type} (d : Draft α) (name : Text) : Draft α :=
  { d with settled := d.settled.map (name :: ·) }

end Draft

namespace RecordType

/-- Sets the field with a given name. -/
def assign {α : Type} (r : RecordType α) (d : Draft α) (line : Nat) (name : Text) (value : Node) :
    Except DecodeError (Draft α) :=
  match r.fields.find? (·.name == name) with
  | none => return d.note [.unknownField line name r.name]
  | some field =>
    if d.set.contains name then return d.note [.repeatedField line name r.name]
    else do
      let (record, problems) ← field.assign d.record value
      return { d.note problems with record := record, set := name :: d.set }

/-- Reads an entry. -/
def readEntry {α : Type} (r : RecordType α) (d : Draft α) (entry : Node × Node) :
    Except DecodeError (Draft α) :=
  if entry.1.isMerge then return d
  else do
    let key ← entry.1.decodeText
    match key.value? with
    | none => return d.note key.problems
    | some name =>
      if d.isSettled name then return d
      else r.assign (d.settle name) entry.1.line name entry.2

/-- Reads the entries of one mapping, unless a key is repeated. -/
def readEntries {α : Type} (r : RecordType α) (d : Draft α) (entries : List (Node × Node)) :
    Except DecodeError (Draft α) :=
  match Node.duplicateKeys entries with
  | [] => entries.foldlM r.readEntry { d with set := [] }
  | again => return d.note again

/-- Reads a record, starting from an old one. An empty scalar leaves the old one. -/
def read {α : Type} (r : RecordType α) (record : α) : Node → Except DecodeError (α × List Problem)
  | .mapping _ _ entries => do
    let own ← r.readEntries ⟨record, [], [], none⟩ entries
    let others ← if (Node.duplicateKeys entries).isEmpty then Node.merged entries else pure []
    let all ← others.foldlM r.readEntries
      { own with settled := some (entries.filterMap (·.1.ownName?)) }
    return (all.record, all.problems)
  | .reference _ _ target => read r record target
  | n => do
    let found ← n.decodeScalar r.name fun _ _ => (none : Option Unit)
    return (record, found.problems)

/-- A record as a field of another. -/
def toField {α : Type} (r : RecordType α) (name : Text) : Field α := ⟨name, r.read⟩

end RecordType

end Yaml

end NetlinkSchema
