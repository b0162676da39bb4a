import NetlinkSchema.Text.Quoted
import NetlinkSchema.Wire.Number

/-!
# Schemas

A schema is an ordered collection of named types. A type is an attribute set, a struct of fixed
layout, an enum, or a flags type. Fields refer to types by expressions, and an integer field may
have a lower type, which gives its numbers a meaning.

## Main definitions

* `Kind`: The kind of a type.
* `TypeExpr`, `LowerType`: How a field refers to types.
* `AttributeDef`, `ValueDef`, `TypeDef`: The declarations of a schema.
* `Schema`: Named types in the order of their declaration.
* `Schema.add`: Appends a type under a name of its own.
-/

namespace NetlinkSchema

/-- Whether a word is given as a kind but means nothing here. -/
def isOtherKind (word : Text) : Bool :=
  !word.isEmpty && !(["attrs", "struct", "enum", "flags"].any fun s => Text.ofString s == word)

/-- The kind of a type. -/
inductive Kind
  | attrs
  | struct
  | enum
  | flags
  /-- A kind that means nothing here; types of such a kind are carried along. -/
  | other (name : Text) (unknown : isOtherKind name = true)
deriving DecidableEq

namespace Kind

/-- The word for a kind. -/
def name : Kind → Text
  | attrs => "attrs"
  | struct => "struct"
  | enum => "enum"
  | flags => "flags"
  | other name _ => name

/-- The kind of a word; the empty word stands for none. -/
def ofName? (word : Text) : Option Kind :=
  if h : isOtherKind word then some (other word h)
  else [attrs, struct, enum, flags].find? (·.name == word)

/-- Whether the kind means something. -/
def isKnown : Kind → Bool
  | other _ _ => false
  | _ => true

end Kind

/-- A reference to a type, or an element type wrapped as an array, a map or a list of flags. -/
inductive TypeExpr
  | name (name : Text)
  /-- An array whose elements are numbered from zero or from one. -/
  | array (elem : TypeExpr) (zero : Bool)
  | map (elem : TypeExpr)
  /-- The flag-list form of an enum. -/
  | flags (elem : TypeExpr)
  /-- A wrapping that means nothing here. -/
  | other (kind : Text)
  /-- No type at all. -/
  | missing
deriving DecidableEq, Inhabited

namespace TypeExpr

/-- The text of an expression. -/
def text : TypeExpr → Text
  | name n => n
  | array elem true => "array(" ++ elem.text ++ ", zero)"
  | array elem false => "array(" ++ elem.text ++ ")"
  | map elem => "map(" ++ elem.text ++ ")"
  | flags elem => "asflags(" ++ elem.text ++ ")"
  | other kind => "<invalid " ++ kind.quoted ++ ">"
  | missing => "<nil>"

/-- The innermost expression under arrays and maps. -/
def core : TypeExpr → TypeExpr
  | array elem _ => elem.core
  | map elem => elem.core
  | e => e

end TypeExpr

/-- The expression for a derived form of an enum. -/
def asFlags (enum : Text) : Text := "asflags(" ++ enum ++ ")"

/-- A reference to an enum or a flags type, or to the bitmask form of an enum. -/
structure LowerType where
  name : Text
  asFlags : Bool
deriving DecidableEq

namespace LowerType

/-- The text of a reference. -/
def text (l : LowerType) : Text := if l.asFlags then NetlinkSchema.asFlags l.name else l.name

end LowerType

/-- Lines of documentation; having none differs from having an empty list. -/
abbrev Docs := Option (List Text)

/-- What may be said about a field. Zero stands for no length and no count. -/
structure AttributeOptions where
  docs : Docs
  type : Option LowerType
  /-- The greatest length of a string with its terminator. -/
  maxLength : Int64
  orig : Text
  repeated : Bool
  /-- The length of an inline array. -/
  count : Int64
  /-- The version at which an expandable struct ends. -/
  abi : Text
deriving DecidableEq

namespace AttributeOptions

/-- Nothing said. -/
def empty : AttributeOptions := ⟨none, none, 0, .empty, false, 0, .empty⟩

end AttributeOptions

/-- A field of an attribute set or of a struct. -/
structure AttributeDef where
  name : Text
  type : TypeExpr
  options : AttributeOptions
deriving DecidableEq

/-- A value of an enum or of a flags type. -/
structure ValueDef where
  name : Text
  value : Int64
  docs : Docs
  orig : Text
deriving DecidableEq

namespace ValueDef

/-- A value about which nothing is known. -/
def empty : ValueDef := ⟨.empty, 0, none, .empty⟩

end ValueDef

/-- The declaration of a type. -/
structure TypeDef where
  kind : Option Kind
  orig : Text
  docs : Docs
  /-- Whether the type is the payload of a message. -/
  root : Bool
  /-- Whether attributes are numbered from zero. -/
  zero : Bool
  attrs : List AttributeDef
  values : List ValueDef
deriving DecidableEq

namespace TypeDef

/-- A type about which nothing is declared. -/
def empty : TypeDef := ⟨none, .empty, none, false, false, [], []⟩

/-- The kind of the type: without a declared one it is an attribute set. -/
def effectiveKind (d : TypeDef) : Kind := d.kind.getD .attrs

end TypeDef

/-- Whether a name is that of a type that every schema has. -/
def isBuiltin (name : Text) : Bool :=
  ["bool", "flag", "data", "string"].any (fun s => Text.ofString s == name)
    || (Number.ofName? name).isSome

/-- Why a name cannot be given to a type. -/
inductive NameFault
  | empty
  | builtin (name : Text)
  | duplicate (name : Text)
deriving DecidableEq

/-- Whether a type may have a name: it is neither empty nor that of a builtin type. -/
def isTypeName (name : Text) : Bool := !name.isEmpty && !isBuiltin name

/-- Named types in the order of their declaration. -/
structure Schema where
  types : List (Text × TypeDef)
  distinct : (types.map Prod.fst).Nodup
  named : ∀ name ∈ types.map Prod.fst, isTypeName name = true

namespace Schema

/-- The schema without types. -/
def empty : Schema := ⟨[], List.nodup_nil, fun _ h => nomatch h⟩

/-- The names of the types. -/
def names (s : Schema) : List Text := s.types.map Prod.fst

/-- The number of types. -/
def size (s : Schema) : Nat := s.types.length

/-- The declaration of a name. -/
def get? (s : Schema) (name : Text) : Option TypeDef :=
  (s.types.find? (·.1 == name)).map (·.2)

/-- The kind of a name. -/
def kind? (s : Schema) (name : Text) : Option Kind := (s.get? name).map (·.effectiveKind)

/-- Appends a type. Its name must be new and must not be that of a builtin type. -/
def add (s : Schema) (name : Text) (d : TypeDef) : Except NameFault Schema :=
  if he : name.isEmpty then .error .empty
  else if hb : isBuiltin name then .error (.builtin name)
  else if h : name ∈ s.types.map Prod.fst then .error (.duplicate name)
  else .ok
    { types := s.types ++ [(name, d)]
      distinct := by
        rw [List.map_append, List.nodup_append]
        refine ⟨s.distinct, by simp, ?_⟩
        rintro a ha b hb rfl
        obtain rfl := List.mem_singleton.1 hb
        exact h ha
      named := by
        intro n hn
        rw [List.map_append, List.mem_append] at hn
        rcases hn with hn | hn
        · exact s.named n hn
        · obtain rfl := List.mem_singleton.1 hn
          simp [isTypeName, he, hb] }

end Schema

end NetlinkSchema
