import NetlinkSchema.Compilation.Cycle
import NetlinkSchema.Compilation.Declaration
import NetlinkSchema.Compilation.Description
import NetlinkSchema.Manifest.Binary

/-!
# Compilation

Compiling a schema goes by phases, and a phase begins only if those before it found no errors:
declarations on their own, cycles, then structs, flags types and attribute sets, and at last the
enums, whose derived forms the other types ask for. A schema without errors is described; if it has
a struct without a size, this does not come to an end.

## Main definitions

* `CompileOptions`: What the caller asks for.
* `LogEvent`: What the compiler notes on its way.
* `Outcome`: How a compilation ends, if it does.
* `Compilation`: What was found and noted, and the outcome.
* `Schema.compile`: Compiles a schema.
-/

namespace NetlinkSchema

/-- What the caller asks for. -/
structure CompileOptions where
  rejectAttrCycles : Bool
  warningsAsErrors : Bool
deriving DecidableEq

namespace CompileOptions

/-- Cycles of attribute sets and warnings are tolerated. -/
def default : CompileOptions := ⟨false, false⟩

end CompileOptions

/-- What the compiler notes on its way. -/
inductive LogEvent
  /-- All types but enums are compiled; some enums are needed in derived forms. -/
  | compiledTypes (types enums : Nat)
  | compilingEnum (name : Text) (bitmask flagList : Bool)
  | failed (errors warnings : Nat)
deriving DecidableEq

/-- The codecs and the description of a schema. -/
structure Compiled where
  bundle : Bundle
  manifest : Manifest

/-- How a compilation ends. -/
inductive Outcome
  | compiled (c : Compiled)
  /-- There were errors. -/
  | refused
  /-- There were no errors, but the size of a struct is looked for without end. -/
  | endless

/-- A compilation. What was found is handed to the caller at its end. -/
structure Compilation where
  findings : Findings
  log : List LogEvent
  outcome : Outcome

namespace Compilation

/-- What was compiled, if anything was. -/
def output (c : Compilation) : Option Compiled :=
  match c.outcome with
  | .compiled out => some out
  | .refused | .endless => none

end Compilation

namespace Schema

/-- What is wrong with a type other than an enum. -/
def typeFindings (s : Schema) (name : Text) (d : TypeDef) : Findings :=
  match d.effectiveKind with
  | .struct => s.structFindings name d
  | .flags => flagsFindings name d
  | .attrs => s.attrsFindings name d
  | .enum | .other _ _ => .empty

/-- The enums of a schema. -/
def enums (s : Schema) : List (Text × TypeDef) := s.types.filter (·.2.effectiveKind = .enum)

/-- What is found, phase by phase, and what is noted. -/
def examine (s : Schema) (o : CompileOptions) : Findings × List LogEvent :=
  let declared := s.declarationFindings
  if !declared.errors.isEmpty then (declared, [])
  else
    let cyclic := declared ++ s.cycleFindings o.rejectAttrCycles
    if !cyclic.errors.isEmpty then (cyclic, [])
    else
      let typed := cyclic ++ Findings.concat (s.types.map fun t => s.typeFindings t.1 t.2)
      let needs := s.needs
      let event := LogEvent.compiledTypes s.size (firstOccurrences (needs.map (·.1))).length
      if !typed.errors.isEmpty then (typed, [event])
      else
        (typed ++ Findings.concat (s.enums.map fun t => enumFindings needs t.1 t.2),
          event :: s.enums.map fun t =>
            .compilingEnum t.1 (needs.contains (t.1, .bitmask)) (needs.contains (t.1, .flagList)))

/-- What becomes of a type, given the derived forms of enums that the schema needs. -/
def compileType (s : Schema) (needs : List (Text × Variant)) (name : Text) (d : TypeDef) :
    CompiledType :=
  match d.effectiveKind with
  | .attrs => .attrs (s.attrSet name d)
  | .struct => .struct (s.layout name d)
  | .enum => .enum ⟨EnumType.ofDef name d, needs.contains (name, .bitmask),
      needs.contains (name, .flagList)⟩
  | .flags => .flags (FlagsType.ofDef name d)
  | .other kind _ => .other kind

/-- The codecs of a schema. -/
def bundle (s : Schema) : Bundle :=
  let needs := s.needs
  ⟨s.types.map fun t => (t.1, s.compileType needs t.1 t.2)⟩

/-- The findings, in which warnings may count as errors. -/
def settle (o : CompileOptions) (f : Findings) : Findings :=
  if o.warningsAsErrors then
    { f with errors := f.errors ++ f.warnings.map fun w => ⟨w.site, .warning w⟩ }
  else f

/-- Compiles a schema. -/
def compile (s : Schema) (o : CompileOptions) : Compilation :=
  let (found, log) := s.examine o
  let findings := settle o found
  if findings.errors.isEmpty then
    ⟨findings, log, if s.allSized then .compiled ⟨s.bundle, s.describe.sign⟩ else .endless⟩
  else
    ⟨findings, log ++ [.failed findings.errors.length findings.warnings.length], .refused⟩

end Schema

end NetlinkSchema
