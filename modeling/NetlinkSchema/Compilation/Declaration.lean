import NetlinkSchema.Codec.Layout
import NetlinkSchema.Compilation.Diagnostic

/-!
# Declarations

What can be said of a type without looking at any other: attribute sets and structs have fields and
no values, enums and flags types have values and no fields, and names occur once.

## Main definitions

* `TypeDef.findings`: What is wrong with a declaration.
* `Schema.declarationFindings`: What is wrong with the declarations of a schema.
-/

namespace NetlinkSchema

/-- The members of a list that equal an earlier one. -/
def repeatedAfter (seen : List Text) : List Text → List Text
  | [] => []
  | t :: rest => if seen.contains t then t :: repeatedAfter seen rest
    else repeatedAfter (t :: seen) rest

namespace TypeDef

/-- What is wrong with the names of the fields of `owner`, after those that have been `seen`. -/
def fieldFaults (owner : Text) : (seen : List Text) → List AttributeDef → List CompileError
  | _, [] => []
  | seen, a :: rest =>
    let site : Site := ⟨owner, a.name⟩
    (if seen.contains a.name then [⟨site, .duplicateField⟩] else [])
      ++ (if isReservedField a.name then [⟨site, .reservedField⟩] else [])
      ++ fieldFaults owner (a.name :: seen) rest

/-- What is wrong with a declaration. -/
def findings (name : Text) (d : TypeDef) : Findings :=
  let site := Site.ofType name
  let kind := d.effectiveKind
  match kind with
  | .attrs | .struct =>
    ⟨(if d.values.isEmpty then [] else [⟨site, .kindContent kind true⟩])
      ++ fieldFaults name [] d.attrs, []⟩
  | .enum | .flags =>
    ⟨(if d.attrs.isEmpty then [] else [⟨site, .kindContent kind false⟩])
      ++ (repeatedAfter [] (d.values.map (·.name))).map (⟨site, .duplicateValue ·⟩), []⟩
  | .other _ _ => .empty

end TypeDef

namespace Schema

/-- What is wrong with the declarations of a schema. -/
def declarationFindings (s : Schema) : Findings :=
  Findings.concat (s.types.map fun t => t.2.findings t.1)

end Schema

end NetlinkSchema
