import NetlinkSchema.Compilation.Result
import NetlinkSchema.Yaml.Record

/-!
# Configuration

Settings that a file gives for every run. The file is a YAML document with the sections `compile`,
`output` and `codegen`; what it leaves out, or leaves empty, keeps its default.

## Main definitions

* `OutputFormat`: How manifests and decoded values are written.
* `Config`: The settings.
* `ConfigError`: Why a file was refused.
* `Config.parse`: Reads a file.
-/

namespace NetlinkSchema

/-- How manifests and decoded values are written. -/
inductive OutputFormat
  | text
  | json
  | cbor
deriving DecidableEq

namespace OutputFormat

/-- The name of a format. -/
def name : OutputFormat → Text
  | text => "text"
  | json => "json"
  | cbor => "cbor"

/-- The format with a given name. -/
def ofName? (t : Text) : Option OutputFormat := [text, json, cbor].find? (·.name == t)

end OutputFormat

/-- The settings. -/
structure Config where
  compile : CompileOptions
  format : OutputFormat
  /-- The package of generated constants. -/
  package : Text

/-- Why a configuration file was refused. -/
inductive ConfigError
  /-- The file is no YAML document, or a value contradicts its own tag. -/
  | document
  | problems (all : List Yaml.Problem)
  | unsupportedFormat (name : Text)
  | emptyPackage
deriving DecidableEq

namespace ConfigError

/-- The text of an error. -/
def message : ConfigError → Text
  | document => "yaml"
  | problems all => (Yaml.DecodeError.problems all).message
  | unsupportedFormat name =>
    "unsupported output format " ++ name.quoted ++ " (choose text, json or cbor)"
  | emptyPackage => "codegen package name must not be empty"

end ConfigError

/-- The settings as they are written, before they are checked. -/
structure ConfigDraft where
  compile : CompileOptions
  format : Text
  package : Text

namespace ConfigDraft

open Yaml (Field RecordType Node)

/-- The section of the compiler's options. -/
def compileSection : RecordType ConfigDraft where
  name := "config.CompileConfig"
  fields := [
    .ofDecoder "reject_attr_cycles" Node.decodeBool fun c b =>
      { c with compile := { c.compile with rejectAttrCycles := b } },
    .ofDecoder "warnings_as_errors" Node.decodeBool fun c b =>
      { c with compile := { c.compile with warningsAsErrors := b } }]

/-- The section of the output. -/
def outputSection : RecordType ConfigDraft where
  name := "config.OutputConfig"
  fields := [.ofDecoder "format" Node.decodeText fun c t => { c with format := t }]

/-- The section of generated constants. -/
def codegenSection : RecordType ConfigDraft where
  name := "config.CodegenConfig"
  fields := [.ofDecoder "package" Node.decodeText fun c t => { c with package := t }]

/-- The whole document. -/
def document : RecordType ConfigDraft where
  name := "config.Config"
  fields := [compileSection.toField "compile", outputSection.toField "output",
    codegenSection.toField "codegen"]

/-- What holds where the file says nothing. -/
def default : ConfigDraft := ⟨.default, "text", "nlschema"⟩

/-- Checks the settings; the format comes first. -/
def check (d : ConfigDraft) : Except ConfigError Config :=
  match OutputFormat.ofName? d.format with
  | none => .error (.unsupportedFormat d.format)
  | some format =>
    if d.package.isEmpty then .error .emptyPackage else .ok ⟨d.compile, format, d.package⟩

end ConfigDraft

namespace Config

/-- The settings without a file. -/
def default : Config := ⟨.default, .text, "nlschema"⟩

/-- Reads the settings from the first document of a file, if it has any. -/
def parse (source : Text) : Except ConfigError Config :=
  match Yaml.Node.parse? source with
  | none => .error .document
  | some none => ConfigDraft.default.check
  | some (some root) =>
    match ConfigDraft.document.read .default root with
    | .ok (draft, []) => draft.check
    | .ok (_, found) => .error (.problems found)
    | .error (.problems found) => .error (.problems found)
    | .error _ => .error .document

end Config

end NetlinkSchema
