import NetlinkSchema.CommandLine.Command

/-!
# The program

Choosing a command. The first word among the arguments names it; flags may stand before that word,
and only the flags shared by all commands are known there. A flag that is not known counts as one
with a value, so the argument after it is not taken for a word.

## Main definitions

* `Program.words`, `Program.without`: The words among arguments, and the arguments without one.
* `Program.distance`: How many changes lead from one name to another.
* `Program.run`: Runs the program.
-/

namespace NetlinkSchema

namespace Program

/-- The name of the program. -/
def name : Text := "nlgen"

/-- The exit code of a program that broke off. -/
def abortCode : Nat := 2

/-- Whether a known flag is a switch. -/
def isSwitch (flag : Option Flag) : Bool := flag.any (·.isSwitch)

/-- Whether the value of a flag is in the argument that follows it. -/
def takesNext (flags : List Flag) (argument : Text) : Bool :=
  !argument.utf8.contains 61 &&
    match argument.utf8 with
    | 45 :: 45 :: rest => !isSwitch (Flag.byName? flags ⟨rest⟩)
    | [45, letter] => !isSwitch (Flag.byLetter? flags letter)
    | _ => false

/-- Whether an argument is a word. -/
def isWord (argument : Text) : Bool := !argument.isEmpty && !argument.startsWith "-"

/-- The words among arguments. If all that follows a flag is its value, that ends the words. -/
def words (flags : List Flag) : List Text → List Text
  | [] => []
  | argument :: rest =>
    if argument == "--" then []
    else if takesNext flags argument then
      match rest with
      | [] | [_] => []
      | _ :: next :: rest => words flags (next :: rest)
    else if isWord argument then argument :: words flags rest
    else words flags rest

/-- The arguments without the first occurrence of a word. -/
def without (flags : List Flag) (word : Text) : List Text → List Text
  | [] => []
  | argument :: rest =>
    if argument == "--" then argument :: rest
    else if takesNext flags argument then
      match rest with
      | [] => [argument]
      | value :: rest => argument :: value :: without flags word rest
    else if isWord argument && argument == word then rest
    else argument :: without flags word rest

/-- The next row of the table of distances, given the entry to its left, and the entries above with
    the one above to the left. -/
def distanceRow (c : UInt8) : (left diagonal : Nat) → Bytes → (above : List Nat) → List Nat
  | left, diagonal, d :: ds, up :: above =>
    let here := if c == d then diagonal else 1 + min diagonal (min left up)
    here :: distanceRow c here up ds above
  | _, _, _, _ => []

/-- The number of insertions, deletions and replacements of bytes that lead from `a` to `b`. -/
def distance (a b : Bytes) : Nat :=
  let rows := a.foldl (fun (row : List Nat) c =>
    match row with
    | [] => []
    | first :: above => (first + 1) :: distanceRow c (first + 1) first b above)
    (List.range (b.length + 1))
  rows.getLastD 0

/-- The commands whose names a word resembles. -/
def similar (word : Text) : List Command :=
  let low := word.toLower
  Command.all.filter fun c =>
    decide (distance low.utf8 c.name.utf8 ≤ 2) || c.name.startsWith low

/-- A hint at the commands that may have been meant. -/
def hint (word : Text) : Text :=
  match similar word with
  | [] => .empty
  | commands =>
    "\n\nDid you mean this?\n" ++ Text.concat (commands.map fun c => "\t" ++ c.name ++ "\n")

/-- The flag that asks for help. -/
def helpFlag : Flag := ⟨"help", some 'h', true⟩

/-- Reads the arguments of a command. If help is asked for, there is nothing to run. -/
def withArguments (flags : List Flag) (arguments : List Text) (next : Arguments → Action Nat) :
    Action Nat :=
  match Arguments.parse (flags ++ [helpFlag]) arguments with
  | .error e => do
    Action.complain ("Error: " ++ e.message)
    return 1
  | .ok read => if (read.switch? "help").getD false then return 0 else next read

/-- Refuses a word that is no command. -/
def refuse (word : Text) : Action Nat := do
  Action.complain ("Error: unknown command " ++ word.quoted ++ " for " ++ name.quoted ++ hint word)
  Action.complain ("Run '" ++ name ++ " --help' for usage.")
  return 1

/-- Runs the program and gives its exit code. The environment may name a file of settings. -/
def run (arguments : List Text) (environment : Text) : Action Nat :=
  match words Command.sharedFlags arguments with
  | [] => withArguments Command.sharedFlags arguments fun _ => return 1
  | word :: _ =>
    match Command.ofName? word with
    | some c =>
      withArguments c.flags (without Command.sharedFlags word arguments) fun read =>
        c.run read environment
    | none => if word == "help" then return 0 else refuse word

end Program

end NetlinkSchema
