import NetlinkSchema.Compilation.Result
import NetlinkSchema.Json.Printer

/-!
# Log lines

What the compiler notes, as lines of JSON.

## Main definitions

* `logLine`: The line of a message with details.
* `LogEvent.line`: The line of an event.
-/

namespace NetlinkSchema

/-- The line of a message with details. -/
def logLine (message : Text) (details : List (Text × Json)) : Text :=
  Json.compact ⟨false⟩ (.object (Json.field "level" (.string "DEBUG")
    ++ Json.field "msg" (.string message) ++ details))

namespace LogEvent

/-- The message of an event. -/
def message : LogEvent → Text
  | compiledTypes _ _ => "compiled structs, flags and attribute sets"
  | compilingEnum _ _ _ => "compiling enum"
  | failed _ _ => "compilation failed"

/-- The details of an event. -/
def details : LogEvent → List (Text × Json)
  | compiledTypes types enums => [("types", .int types), ("enum_variants", .int enums)]
  | compilingEnum name bitmask flagList =>
    [("enum", .string name), ("bitmask", .bool bitmask), ("flag_list", .bool flagList)]
  | failed errors warnings => [("errors", .int errors), ("warnings", .int warnings)]

/-- The line of an event; details of its context come first. -/
def line (e : LogEvent) (context : List (Text × Json)) : Text :=
  logLine e.message (context ++ e.details)

end LogEvent

end NetlinkSchema
