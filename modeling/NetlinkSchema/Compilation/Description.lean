import NetlinkSchema.Compilation.Cycle
import NetlinkSchema.Compilation.Resolution
import NetlinkSchema.Manifest.Types

/-!
# The manifest of a schema

Describes the compiled types of a schema. A struct is marked as deferred if it contains a struct
that is declared after it, or one that is deferred itself.

The sizes of structs are part of the description, and the size of a deferred struct is looked for in
the structs that it contains, and in those that they contain. A struct that contains itself has no
size, and the search for it does not end.

## Main definitions

* `Schema.settledStructs`: The structs that are not deferred.
* `Schema.allSized`: All structs have a size.
* `Schema.describe`: The manifest of a schema, without its fingerprint.
-/

namespace NetlinkSchema

namespace MemberType

/-- The struct of a member, if it is one or an inline array of one. -/
def struct? : MemberType → Option Text
  | struct name _ => some name
  | array _ elem => elem.struct?
  | _ => none

end MemberType

namespace Schema

/-- The structs whose members are all of known size where they are declared. -/
def settledStructs (s : Schema) : List Text :=
  s.types.foldl (fun settled t =>
    let known := (s.members t.1).all fun m =>
      match m.2.struct? with
      | some name => settled.contains name
      | none => true
    if t.2.effectiveKind = .struct ∧ known then settled ++ [t.1] else settled) []

/-- The struct that a member contains, be it once or a number of times. -/
def contained? (s : Schema) (a : AttributeDef) : Option Text :=
  match a.type with
  | .name n => if s.isStruct n then some n else none
  | _ => none

/-- The structs that the members of a struct contain. -/
def contained (s : Schema) (name : Text) : List Text :=
  match s.get? name with
  | some d => (knownMembers d.attrs).filterMap s.contained?
  | none => []

/-- Whether the size of a struct is found by looking into the structs that it contains, into those
    that they contain, and so on to the given depth. -/
def sizedWithin (s : Schema) : (depth : Nat) → Text → Bool
  | 0, _ => false
  | depth + 1, name => (s.contained name).all (s.sizedWithin depth)

/-- Whether all structs have a size. A way down through structs that comes upon none of them twice
    is no longer than the schema. -/
def allSized (s : Schema) : Bool := (s.names.filter s.isStruct).all (s.sizedWithin s.size)

/-- The text of a lower type, empty if there is none. -/
def lowerText (l : Option LowerType) : Text :=
  match l with
  | some l => l.text
  | none => .empty

/-- The descriptions of the attributes of a set. -/
def describeAttrs (s : Schema) (d : TypeDef) : List ManifestAttr :=
  (usable d).filterMap fun (index, a) =>
    (s.attributePayload a).result?.map fun _ =>
      { name := a.name, index := UInt16.ofNat index, type := a.type.text,
        lower := lowerText a.options.type, repeated := a.options.repeated,
        maxLength := a.options.maxLength, orig := a.options.orig, docs := a.options.docs }

/-- The descriptions of struct members that follow each other from an offset on. -/
def describeFields (offset : Int64) : List (AttributeDef × MemberType) → List ManifestField
  | [] => []
  | (a, t) :: rest =>
    { name := a.name, offset, size := t.size, type := a.type.text, count := a.options.count,
      lower := lowerText a.options.type, abi := a.options.abi, orig := a.options.orig,
      docs := a.options.docs } :: describeFields (offset + t.size) rest

/-- The members of a struct with their declarations. -/
def declaredMembers (s : Schema) (d : TypeDef) : List (AttributeDef × MemberType) :=
  (knownMembers d.attrs).filterMap fun a =>
    (s.memberType (s.membersTo (s.size - 1)) a).result?.map (a, ·)

/-- The list, or nothing if it is empty. -/
def presentList {α : Type} (xs : List α) : Option (List α) := if xs.isEmpty then none else some xs

/-- The description of a struct, given the structs that are not deferred. -/
def describeStruct (s : Schema) (settled : List Text) (name : Text) (d : TypeDef) :
    ManifestStruct :=
  { length := (s.layout name d).size
    expandable := isExpandable d
    deferred := !settled.contains name
    fields := presentList (describeFields 0 (s.declaredMembers d)) }

/-- The description of a value. -/
def describeValue (withField : Bool) (v : ValueDef) : ManifestValue :=
  ⟨v.name, v.value, if withField then camelCase v.name else .empty, v.orig, v.docs⟩

/-- The description of a type, given the derived forms of enums that the schema needs and the
    structs that are not deferred. -/
def describeType (s : Schema) (needs : List (Text × Variant)) (settled : List Text) (name : Text)
    (d : TypeDef) : ManifestType :=
  let base : ManifestType := { ManifestType.empty with
    name, kind := d.effectiveKind.name, orig := d.orig, root := d.root, docs := d.docs }
  match d.effectiveKind with
  | .attrs => { base with attrs := s.describeAttrs d }
  | .struct => { base with struct := some (s.describeStruct settled name d) }
  | .flags => { base with values := d.values.map (describeValue false) }
  | .enum =>
    let bitmask := needs.contains (name, .bitmask)
    let flagList := needs.contains (name, .flagList)
    { base with bitmask, flagList, values := d.values.map (describeValue (bitmask || flagList)) }
  | .other _ _ => base

/-- The manifest of a schema, without its fingerprint. -/
def describe (s : Schema) : Manifest :=
  let needs := s.needs
  let settled := s.settledStructs
  ⟨.empty, presentList (s.types.map fun t => s.describeType needs settled t.1 t.2)⟩

end Schema

end NetlinkSchema
