import NetlinkSchema.CommandLine.Action
import NetlinkSchema.CommandLine.Flag
import NetlinkSchema.Compilation.Log
import NetlinkSchema.Config
import NetlinkSchema.GoSource.Layout
import NetlinkSchema.Manifest.Document
import NetlinkSchema.Manifest.Listing
import NetlinkSchema.Schema.Document
import NetlinkSchema.Text.Casing

/-!
# Commands

The commands on schemas: `compile` prints the manifest, `codegen` the generated constants, and
`decode` a message that is given in hexadecimal. A flag overrides the configuration, and only if it
was given. The count of operands is checked first, then the configuration is read, then the message
and at last the schema.

## Main definitions

* `Command`: The commands and their flags.
* `loadConfig`, `loadSchema`: Reading files.
* `Session.compile`: Compiles a schema and prints what was found.
* `Command.run`: Runs a command and gives its exit code.
-/

namespace NetlinkSchema

/-- A command on schemas. -/
inductive Command
  | compile
  | codegen
  | decode
deriving DecidableEq

namespace Command

/-- All commands. -/
def all : List Command := [compile, codegen, decode]

/-- The name of a command. -/
def name : Command → Text
  | compile => "compile"
  | codegen => "codegen"
  | decode => "decode"

/-- The command with a given name. -/
def ofName? (t : Text) : Option Command := all.find? (·.name == t)

/-- How a command is called. -/
def usage : Command → Text
  | compile => "nlgen compile SCHEMA"
  | codegen => "nlgen codegen SCHEMA"
  | decode => "nlgen decode SCHEMA TYPE [HEX]"

/-- The flags of all commands. -/
def sharedFlags : List Flag := [⟨"config", none, false⟩, ⟨"verbose", some 'v', true⟩]

/-- The flags of a command. -/
def flags (c : Command) : List Flag :=
  (match c with
  | compile => [⟨"output", some 'o', false⟩, ⟨"format", some 'f', false⟩]
  | codegen => [⟨"output", some 'o', false⟩, ⟨"package", none, false⟩]
  | decode => [⟨"format", some 'f', false⟩])
    ++ [⟨"reject-attr-cycles", none, true⟩, ⟨"werror", none, true⟩] ++ sharedFlags

end Command

/-- Why the settings could not be loaded. -/
inductive ConfigLoadError
  | file (e : FileError)
  | config (path : Text) (e : ConfigError)

namespace ConfigLoadError

/-- The text of an error. -/
def message : ConfigLoadError → Text
  | file e => e.message
  | config path e => path ++ ": " ++ e.message

end ConfigLoadError

/-- Loads the settings from the file at `path`, or else from the one that the environment names. -/
def loadConfig (path environment : Text) : Action (Except ConfigLoadError Config) := do
  let path := if path.isEmpty then environment else path
  if path.isEmpty then return .ok .default
  match ← Action.readFile path .done with
  | .error e => return .error (.file e)
  | .ok content =>
    match Config.parse ⟨content⟩ with
    | .ok config => return .ok config
    | .error e => return .error (.config path e)

/-- Why a schema could not be loaded. -/
inductive SchemaLoadError
  | file (e : FileError)
  | unknownExtension (path extension : Text)
  | schema (path : Text) (e : SchemaError)

namespace SchemaLoadError

/-- The text of an error. -/
def message : SchemaLoadError → Text
  | file e => e.message
  | unknownExtension path ext => path ++ ": unknown schema file extension " ++ ext.quoted
  | schema path e => path ++ ": " ++ e.message

end SchemaLoadError

/-- The notation of the documents with a given extension. -/
def Notation.ofExtension? (ext : Text) : Option Notation :=
  if ext == ".yaml" || ext == ".yml" then some .yaml
  else if ext == ".json" || ext == ".jsonc" then some .json
  else none

/-- Loads the schema at a path; its extension tells the notation. -/
def loadSchema (path : Text) : Action (Except SchemaLoadError Schema) := do
  match ← Action.readFile path .done with
  | .error e => return .error (.file e)
  | .ok content =>
    let ext := (Path.extension path).toLower
    match Notation.ofExtension? ext with
    | none => return .error (.unknownExtension path ext)
    | some fmt =>
      match Schema.parse fmt ⟨content⟩ with
      | .ok schema => return .ok schema
      | .error e => return .error (.schema path e)

/-- Prints an error; the exit code says that the command failed. -/
def fail (message : Text) : Action Nat := do
  Action.complain ("[ERROR] " ++ message)
  return 1

/-- Writes to the file at a path, or prints if there is no path. -/
def writeOutput (path : Text) (content : Bytes) : Action Nat := do
  if path.isEmpty then Action.print .output content (.done 0)
  else
    match ← Action.writeFile path content .done with
    | .ok () => return 0
    | .error e => fail e.message

/-- Where a finding is, for the user. -/
def Site.note (s : Site) : Text :=
  if s.type.isEmpty then .empty
  else if s.field.isEmpty then " (in " ++ s.type ++ ")"
  else " (in " ++ s.type ++ "." ++ s.field ++ ")"

/-- Prints several lines. -/
def complainAll : List Text → Action Unit
  | [] => return ()
  | line :: rest => do
    Action.complain line
    complainAll rest

/-- A warning for the user. -/
def Warning.line (w : Warning) : Text := "[WARN ] " ++ w.text ++ w.site.note

/-- An error for the user. -/
def CompileError.line (e : CompileError) : Text := "[ERROR] " ++ e.text ++ e.site.note

/-- The lines of what was found, the warnings first. -/
def Findings.lines (f : Findings) : List Text :=
  f.warnings.map Warning.line ++ f.errors.map CompileError.line

/-- The arguments of a command together with the settings. -/
structure Session where
  arguments : Arguments
  config : Config

namespace Session

/-- The compiler's options: a switch overrides a setting if it was given. -/
def options (s : Session) : CompileOptions where
  rejectAttrCycles :=
    (s.arguments.switch? "reject-attr-cycles").getD s.config.compile.rejectAttrCycles
  warningsAsErrors := (s.arguments.switch? "werror").getD s.config.compile.warningsAsErrors

/-- The value of a flag, or else a setting. -/
def textOr (s : Session) (flag setting : Text) : Text :=
  let given := s.arguments.text flag
  if given.isEmpty then setting else given

/-- Prints lines of the log, if they are asked for. -/
def log (s : Session) (lines : List Text) : Action Unit :=
  if (s.arguments.switch? "verbose").getD false then complainAll lines else return ()

/-- Compiles the schema at a path and prints what was found. A compilation without end breaks the
    program off. -/
def compile (s : Session) (path : Text) : Action (Option Compiled) := do
  match ← loadSchema path with
  | .error e =>
    let _ ← fail e.message
    return none
  | .ok schema =>
    let context := Json.field "schema" (.string path)
    s.log [logLine "schema loaded" (context ++ Json.field "types" (.int schema.size))]
    let result := schema.compile s.options
    s.log (result.log.map (·.line context))
    match result.outcome with
    | .endless => .abort
    | .refused =>
      complainAll result.findings.lines
      return none
    | .compiled compiled =>
      complainAll result.findings.lines
      s.log [logLine "schema compiled"
        (context ++ Json.field "fingerprint" (.string compiled.manifest.fingerprint))]
      return some compiled

/-- The error of a format that a command does not know. -/
def refuseFormat (format : Text) : Action Nat :=
  fail ("Unsupported output format " ++ format.quoted)

/-- Prints the manifest of a schema. -/
def runCompile (s : Session) (path : Text) : Action Nat := do
  match ← s.compile path with
  | none => return 1
  | some compiled =>
    let manifest := compiled.manifest
    let format := s.textOr "format" s.config.format.name
    let write (content : Bytes) : Action Nat := writeOutput (s.arguments.text "output") content
    match OutputFormat.ofName? format with
    | some .text => write (manifest.listing none).text.utf8
    | some .json => write (manifest.toJson.pretty ++ "\n").utf8
    | some .cbor => write manifest.toBytes
    | none => refuseFormat format

/-- Prints constants generated from a schema. -/
def runCodegen (s : Session) (path : Text) : Action Nat := do
  match ← s.compile path with
  | none => return 1
  | some compiled =>
    match GoSource.generate compiled.manifest (s.textOr "package" s.config.package) with
    | .ok source => writeOutput (s.arguments.text "output") source.utf8
    | .error e => fail e.message

end Session

/-- The text of an error in hexadecimal digits. A byte is named as one of the first 256
    characters. -/
def Bytes.HexError.message : Bytes.HexError → Text
  | .invalid byte =>
    let c := Char.ofNat byte.toNat
    let number := Text.ofChars ((Text.hexDigits 4 byte.toNat).map Char.toUpper)
    let shown : Text :=
      if Text.isPrintable c then " '" ++ Text.ofChars [c] ++ "'" else .empty
    "encoding/hex: invalid byte: U+" ++ number ++ shown
  | .oddLength => "encoding/hex: odd length hex string"

/-- Reads hexadecimal digits, with blanks anywhere between them. -/
def readMessage (t : Text) : Except Bytes.HexError Bytes :=
  Bytes.ofHexDigits? (Text.ofRunes (t.runes.filter fun
    | .char c => !Text.isSpace c
    | .stray _ => true)).utf8

namespace Session

/-- Prints a decoded message. -/
def runDecode (s : Session) (path type message : Text) : Action Nat := do
  match readMessage message with
  | .error e => fail ("invalid hex input: " ++ e.message)
  | .ok data =>
    match ← s.compile path with
    | none => return 1
    | some compiled =>
      match compiled.bundle.codec? type with
      | none => fail ("Type " ++ type.quoted ++ " is not an attribute set or struct")
      | some codec =>
        match codec.decode data with
        | .error e => fail e.message
        | .ok obj =>
          let format := s.textOr "format" s.config.format.name
          match OutputFormat.ofName? format with
          | some .text => writeOutput .empty (Listing.ofObject obj none).text.utf8
          | some .json =>
            match (Value.object obj).toJson with
            | .ok json => writeOutput .empty (json.pretty ++ "\n").utf8
            | .error e => fail e.message
          | _ => refuseFormat format

end Session

namespace Command

/-- Loads the settings and goes on with them. -/
def withConfig (arguments : Arguments) (environment : Text) (next : Session → Action Nat) :
    Action Nat := do
  match ← loadConfig (arguments.text "config") environment with
  | .ok config => next ⟨arguments, config⟩
  | .error e =>
    Action.complain e.message
    return 1

/-- Runs a command and gives its exit code. -/
def run (c : Command) (arguments : Arguments) (environment : Text) : Action Nat :=
  match c, arguments.operands with
  | compile, [path] => withConfig arguments environment (·.runCompile path)
  | codegen, [path] => withConfig arguments environment (·.runCodegen path)
  | decode, [path, type] => withConfig arguments environment fun s => do
    let input ← Action.readInput .done
    s.runDecode path type ⟨input⟩
  | decode, [path, type, message] =>
    withConfig arguments environment (·.runDecode path type message)
  | _, _ => fail ("usage: " ++ c.usage)

end Command

end NetlinkSchema
