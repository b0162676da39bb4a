import NetlinkSchema.Json.Comments
import NetlinkSchema.Schema.Error

/-!
# Schema documents

Reading a schema from a document. The document maps type names to types, a type maps the names of
its properties to values, and a field is a sequence of a name, a type expression and options. A key
that occurs twice counts each time, so its last occurrence wins, but every occurrence is checked.

Structure is checked on the nodes as they are written, so an alias is neither a mapping nor a
sequence; plain values are read through aliases.

## Main definitions

* `TypeExpr.ofNode`, `TypeDef.ofNode`: Reading an expression and a type.
* `Schema.ofNode`: Reading a schema.
* `Schema.parse`: Reading a schema from a text.
-/

namespace NetlinkSchema

open Yaml (Node Decoded DecodeError)

/-- An error at a node. -/
def faultAt {α : Type} (n : Node) (fault : SchemaFault) : Except SchemaError α :=
  .error ⟨fault, n.line⟩

/-- The key of an entry. -/
def keyOf (n : Node) : Text := n.keyText

/-- Folds a step over the entries of a mapping. -/
def foldMapping {σ : Type} (place : Place) (n : Node) (init : σ)
    (step : σ → Text → Node → Except SchemaError σ) : Except SchemaError σ :=
  match n with
  | .mapping _ _ entries => entries.foldlM (fun s e => step s (keyOf e.1) e.2) init
  | _ => faultAt n (.notMapping place)

/-- The value of a key. An empty scalar leaves the old one. -/
def readField {α : Type} (place : Place) (key : Text) (n : Node)
    (decode : Node → Except DecodeError (Decoded α)) (old : α) : Except SchemaError α :=
  match (decode n).bind (·.orElse old) with
  | .ok a => .ok a
  | .error e => faultAt n (.field place key (.undecodable e))

/-- Refuses a number that is not positive. -/
def requirePositive (place : Place) (key : Text) (n : Node) (x : Int64) :
    Except SchemaError Int64 :=
  if 0 < x then .ok x else faultAt n (.field place key .notPositive)

/-- What was read of the mapping of a type expression. -/
structure ExprDraft where
  kind : Text
  /-- The element, the line of its node, and the reading of it. -/
  elem : Option (Nat × Except SchemaError TypeExpr)
  zero : Bool
  hasZero : Bool

namespace ExprDraft

/-- A mapping without entries. -/
def empty : ExprDraft := ⟨.empty, none, false, false⟩

/-- The expression of a mapping whose entries have been read. -/
def finish (place : Place) (line : Nat) (d : ExprDraft) : Except SchemaError TypeExpr := do
  let known : Bool := d.kind == "array" || d.kind == "map" || d.kind == "flags"
  if d.kind.isEmpty then throw ⟨.missingKey place "kind", line⟩
  else if !known then throw ⟨.typeExpr place (.unknownKind d.kind), line⟩
  else
    match d.elem with
    | none => throw ⟨.missingKey place "type", line⟩
    | some (elemLine, elem) =>
      if d.hasZero && d.kind != "array" then throw ⟨.typeExpr place .zeroOutsideArray, line⟩
      else
        let elem ← elem
        if d.kind == "array" then return .array elem d.zero
        else if d.kind == "map" then return .map elem
        else
          match elem with
          | .name _ => return .flags elem
          | _ => throw ⟨.typeExpr place .notEnum, elemLine⟩

end ExprDraft

namespace TypeExpr

mutual

/-- Reads a type expression. -/
def ofNode (place : Place) : Node → Except SchemaError TypeExpr
  | .scalar line tag value =>
    if tag == Yaml.strTag && !value.isEmpty then .ok (.name value)
    else .error ⟨.typeExpr place .notName, line⟩
  | .mapping line _ entries => do
    let draft ← ofEntries place entries .empty
    draft.finish place line
  | .sequence line _ _ => .error ⟨.typeExpr place .notMapping, line⟩
  | .reference line _ _ => .error ⟨.typeExpr place .notMapping, line⟩

/-- Reads the entries of a type expression. -/
def ofEntries (place : Place) : List (Node × Node) → ExprDraft → Except SchemaError ExprDraft
  | [], draft => .ok draft
  | (k, v) :: rest, draft => do
    let key := keyOf k
    let draft ←
      if key == "kind" then do
        let kind ← readField place key v Node.decodeText .empty
        pure { draft with kind }
      else if key == "type" then
        pure { draft with elem := some (v.line, ofNode place v) }
      else if key == "zero" then do
        let zero ← readField place key v Node.decodeBool draft.zero
        pure { draft with zero, hasZero := true }
      else faultAt v (.unknownKey place key)
    ofEntries place rest draft

end

end TypeExpr

namespace LowerType

/-- Reads a lower type: a name, or a mapping that asks for the bitmask form of an enum. -/
def ofNode (place : Place) (n : Node) : Except SchemaError LowerType :=
  match n with
  | .scalar _ _ value =>
    if value.isEmpty then faultAt n (.field place "type" .emptyTypeName)
    else .ok ⟨value, false⟩
  | _ => do
    let (kind, name) ← foldMapping (.lowerType place) n (Text.empty, Text.empty)
      fun (kind, name) key v =>
        if key == "kind" then do
          let kind ← readField place key v Node.decodeText kind
          pure (kind, name)
        else if key == "type" then do
          let name ← readField place key v Node.decodeText name
          pure (kind, name)
        else faultAt v (.unknownKey place key)
    if kind != "flags" then faultAt n (.field place "type" (.lowerKind kind))
    else if name.isEmpty then faultAt n (.missingKey (.lowerType place) "type")
    else return ⟨name, true⟩

end LowerType

namespace AttributeOptions

/-- Reads the options of a field. -/
def ofNode (place : Place) (n : Node) : Except SchemaError AttributeOptions :=
  foldMapping (.options place) n .empty fun o key v =>
    if key == "docs" then do
      let docs ← readField place key v Node.decodeTexts o.docs
      pure { o with docs }
    else if key == "type" then do
      let lower ← LowerType.ofNode place v
      pure { o with type := some lower }
    else if key == "maxLength" then do
      let n ← readField place key v (Node.decodeInt "int") o.maxLength
      let maxLength ← requirePositive place key v n
      pure { o with maxLength }
    else if key == "orig" then do
      let orig ← readField place key v Node.decodeText o.orig
      pure { o with orig }
    else if key == "repeated" then do
      let repeated ← readField place key v Node.decodeBool o.repeated
      pure { o with repeated }
    else if key == "count" then do
      let n ← readField place key v (Node.decodeInt "int") o.count
      let count ← requirePositive place key v n
      pure { o with count }
    else if key == "abi" then do
      let abi ← readField place key v Node.decodeText o.abi
      pure { o with abi }
    else faultAt v (.unknownKey (.options place) key)

end AttributeOptions

namespace AttributeDef

/-- Reads a field from the nodes of its name, type and options. -/
def ofParts (type : Text) (index : Nat) (name expr : Node) (options : Option Node) :
    Except SchemaError AttributeDef :=
  match name with
  | .scalar _ _ value =>
    if value.isEmpty then faultAt name (.attr (.attr type index) .name)
    else do
      let place := Place.namedAttr type index value
      let expr ← TypeExpr.ofNode place expr
      match options with
      | none => return ⟨value, expr, .empty⟩
      | some o => return ⟨value, expr, ← AttributeOptions.ofNode place o⟩
  | _ => faultAt name (.attr (.attr type index) .name)

/-- Reads a field. -/
def ofNode (type : Text) (index : Nat) (n : Node) : Except SchemaError AttributeDef :=
  match n with
  | .sequence _ _ [name, expr] => ofParts type index name expr none
  | .sequence _ _ [name, expr, options] => ofParts type index name expr (some options)
  | _ => faultAt n (.attr (.attr type index) .shape)

end AttributeDef

namespace ValueDef

/-- Reads a value of an enum or of a flags type. -/
def ofNode (type : Text) (index : Nat) (n : Node) : Except SchemaError ValueDef := do
  let place := Place.value type index
  let (v, hasValue) ← foldMapping place n (ValueDef.empty, false) fun (v, hasValue) key field =>
    if key == "value" then do
      let value ← readField place key field (Node.decodeInt "int64") v.value
      pure ({ v with value }, true)
    else if key == "name" then do
      let name ← readField place key field Node.decodeText v.name
      pure ({ v with name }, hasValue)
    else if key == "docs" then do
      let docs ← readField place key field Node.decodeTexts v.docs
      pure ({ v with docs }, hasValue)
    else if key == "orig" then do
      let orig ← readField place key field Node.decodeText v.orig
      pure ({ v with orig }, hasValue)
    else faultAt field (.unknownKey place key)
  if !hasValue then faultAt n (.missingKey place "value")
  else if v.name.isEmpty then faultAt n (.missingKey place "name")
  else return v

end ValueDef

/-- Reads the items of a sequence, counted from `index`. -/
def readItems {α : Type} (read : Nat → Node → Except SchemaError α) :
    (index : Nat) → List Node → Except SchemaError (List α)
  | _, [] => .ok []
  | index, n :: rest => do
    let item ← read index n
    let items ← readItems read (index + 1) rest
    return item :: items

/-- Reads the sequence of a key, if there is one. -/
def readSequence {α : Type} (place : Place) (key : Text) (n : Option Node)
    (read : Nat → Node → Except SchemaError α) : Except SchemaError (List α) :=
  match n with
  | none => .ok []
  | some (.sequence _ _ items) => readItems read 0 items
  | some n => faultAt n (.field place key .notSequence)

/-- What was read of a type: its properties, and the nodes of its fields and values. -/
structure TypeDraft where
  properties : TypeDef
  attrs : Option Node
  values : Option Node

namespace TypeDef

/-- Reads an entry of a type. -/
def readEntry (place : Place) (d : TypeDraft) (key : Text) (v : Node) :
    Except SchemaError TypeDraft :=
  let p := d.properties
  if key == "kind" then do
    let word ← readField place key v Node.decodeText .empty
    let kind := Kind.ofName? word
    if kind.all Kind.isKnown then pure { d with properties := { p with kind } }
    else faultAt v (.kind place word)
  else if key == "orig" then do
    let orig ← readField place key v Node.decodeText p.orig
    pure { d with properties := { p with orig } }
  else if key == "docs" then do
    let docs ← readField place key v Node.decodeTexts p.docs
    pure { d with properties := { p with docs } }
  else if key == "root" then do
    let root ← readField place key v Node.decodeBool p.root
    pure { d with properties := { p with root } }
  else if key == "zero" then do
    let zero ← readField place key v Node.decodeBool p.zero
    pure { d with properties := { p with zero } }
  else if key == "attrs" then pure { d with attrs := some v }
  else if key == "values" then pure { d with values := some v }
  else faultAt v (.unknownKey place key)

/-- Reads a type. -/
def ofNode (name : Text) (n : Node) : Except SchemaError TypeDef := do
  let place := Place.type name
  let d ← foldMapping place n ⟨.empty, none, none⟩ (readEntry place)
  let attrs ← readSequence place "attrs" d.attrs (AttributeDef.ofNode name)
  let values ← readSequence place "values" d.values (ValueDef.ofNode name)
  return { d.properties with attrs, values }

end TypeDef

namespace Schema

/-- Appends the type of an entry of a document. -/
def readEntry (s : Schema) (e : Node × Node) : Except SchemaError Schema := do
  let d ← TypeDef.ofNode (keyOf e.1) e.2
  match s.add (keyOf e.1) d with
  | .ok s => return s
  | .error fault => faultAt e.1 (.name fault)

/-- Reads a schema. -/
def ofNode (n : Node) : Except SchemaError Schema :=
  match n with
  | .mapping _ _ entries => entries.foldlM readEntry .empty
  | _ => faultAt n (.notMapping .document)

/-- The text of a document in which comments and trailing commas, if the notation has them, are
    blanked. -/
def documentText : Notation → Text → Text
  | .yaml, source => source
  | .json, source => ⟨Json.blank source.utf8⟩

/-- Reads a schema from the text of a document; an empty document has no types. JSON is read as
    YAML once its comments are gone. -/
def parse (fmt : Notation) (source : Text) : Except SchemaError Schema :=
  match Node.parse? (documentText fmt source) with
  | none => .error ⟨.malformed fmt, 0⟩
  | some none => .ok .empty
  | some (some n) => ofNode n

end Schema

end NetlinkSchema
