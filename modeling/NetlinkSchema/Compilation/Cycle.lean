import NetlinkSchema.Compilation.Diagnostic

/-!
# Cycles

Structs and attribute sets refer to each other through their fields. A struct that contains itself
has no size, so a cycle of structs is an error. A cycle through an attribute set describes finite
messages all the same; it is worth a warning, or an error if the caller asks for it.

The references are followed depth first, each type's in the order of its fields, and a reference
back to a type that is still being followed closes a cycle. Of the cycles through the same types
only the first one is reported; for this the sorted names are joined by NUL bytes.

## Main definitions

* `Schema.references`: The structs and attribute sets that a type refers to.
* `Schema.cycles`: The cycles of a schema in the order in which they are found.
* `Schema.cycleFindings`: What is reported about them.
-/

namespace NetlinkSchema

namespace Schema

/-- Whether a name is that of a struct or of an attribute set. -/
def isComposite (s : Schema) (name : Text) : Bool :=
  match s.kind? name with
  | some .struct | some .attrs => true
  | _ => false

/-- Whether a name is that of a struct. -/
def isStruct (s : Schema) (name : Text) : Bool := s.kind? name == some .struct

/-- The structs and attribute sets that a field refers to, directly or as an element. -/
def reference? (s : Schema) (a : AttributeDef) : Option Text :=
  match a.type.core with
  | .name n => if s.isComposite n then some n else none
  | _ => none

/-- The list without the members that equal an earlier one. -/
def firstOccurrences (ts : List Text) : List Text :=
  ts.foldl (fun seen t => if seen.contains t then seen else seen ++ [t]) []

/-- The structs and attribute sets that a type refers to, in the order of its fields. -/
def references (s : Schema) (name : Text) : List Text :=
  match s.get? name with
  | some d => firstOccurrences (d.attrs.filterMap s.reference?)
  | none => []

/-- The types that have been followed to the end, and the cycles found. -/
structure Search where
  visited : List Text
  cycles : List (List Text)

namespace Search

/-- Names the types of a cycle, whatever their order. -/
def key (cycle : List Text) : Text :=
  Text.join ⟨[0]⟩ (sortBy Text.le cycle.dropLast)

/-- Adds a cycle, unless one with the same key is there. -/
def report (st : Search) (cycle : List Text) : Search :=
  if (st.cycles.map key).contains (key cycle) then st
  else { st with cycles := st.cycles ++ [cycle] }

end Search

/-- Follows the references of a type. The types on the way to it are on the `path`, outermost
    first. -/
def follow (s : Schema) : (fuel : Nat) → (path : List Text) → (name : Text) → Search → Search
  | 0, _, _, st => st
  | fuel + 1, path, name, st =>
    let path := path ++ [name]
    let st := (s.references name).foldl (fun st ref =>
      if path.contains ref then st.report (path.dropWhile (· != ref) ++ [ref])
      else if st.visited.contains ref then st
      else follow s fuel path ref st) st
    { st with visited := name :: st.visited }

/-- The cycles of a schema in the order in which they are found. A path has each type at most once,
    so none is longer than the schema. -/
def cycles (s : Schema) : List (List Text) :=
  (s.names.foldl (fun st name =>
    if !s.isComposite name || st.visited.contains name then st
    else s.follow s.size [] name st) (Search.mk [] [])).cycles

/-- What is reported about a cycle. -/
def findingOfCycle (s : Schema) (rejectAttrCycles : Bool) (cycle : List Text) : Findings :=
  let site := Site.ofType (cycle.headD .empty)
  if cycle.all s.isStruct then .error ⟨site, .structCycle cycle⟩
  else if rejectAttrCycles then .error ⟨site, .attrsCycle cycle⟩
  else .warning ⟨site, .attrsCycle cycle⟩

/-- What is reported about the cycles of a schema. -/
def cycleFindings (s : Schema) (rejectAttrCycles : Bool) : Findings :=
  Findings.concat (s.cycles.map (s.findingOfCycle rejectAttrCycles))

end Schema

end NetlinkSchema
