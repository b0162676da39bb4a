import NetlinkSchema.CommandLine.Program

/-!
# Entry point

Performs the actions of the program on the files, the input and the output of the process.

## Main definitions

* `Action.perform`: Performs an action.
* `main`: The program.
-/

namespace NetlinkSchema

/-- The fault that an error of the system stands for. -/
def FileFault.ofError : IO.Error → FileFault
  | .noFileOrDirectory _ _ _ => .missing
  | .noSuchThing _ _ _ => .missing
  | .inappropriateType _ _ _ => .notDirectory
  | e => .other (Text.ofString (toString e))

/-- Reads the whole file at a path. -/
def readPath (path : Text) : IO (Except FileError Bytes) := do
  try
    let content ← IO.FS.readBinFile path.toString
    return .ok content.data.toList
  catch e => return .error ⟨"open", path, .ofError e⟩

/-- Writes the whole file at a path. -/
def writePath (path : Text) (content : Bytes) : IO (Except FileError Unit) := do
  try
    IO.FS.writeBinFile path.toString ⟨content.toArray⟩
    return .ok ()
  catch e => return .error ⟨"open", path, .ofError e⟩

/-- Prints bytes as they are. -/
def printBytes (stream : Stream) (content : Bytes) : IO Unit := do
  let target ← match stream with
    | .output => IO.getStdout
    | .errors => IO.getStderr
  target.write ⟨content.toArray⟩
  target.flush

/-- Performs an action and gives its result, if it has one. -/
def Action.perform {α : Type} : Action α → IO (Option α)
  | done a => return some a
  | abort => return none
  | readFile path next => do perform (next (← readPath path))
  | writeFile path content next => do perform (next (← writePath path content))
  | readInput next => do
    let input ← (← IO.getStdin).readToEnd
    perform (next (Text.ofString input).utf8)
  | print stream content next => do
    printBytes stream content
    perform next

end NetlinkSchema

/-- Runs the program on its arguments. -/
def main (arguments : List String) : IO UInt32 := do
  let environment := (← IO.getEnv "NLGEN_CONFIG").getD ""
  let code ← (NetlinkSchema.Program.run (arguments.map NetlinkSchema.Text.ofString)
    (NetlinkSchema.Text.ofString environment)).perform
  return UInt32.ofNat (code.getD NetlinkSchema.Program.abortCode)
