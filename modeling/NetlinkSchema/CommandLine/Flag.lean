import NetlinkSchema.Text.Quoted

/-!
# Flags

Reading the arguments of a command. A flag has a name, written after two dashes, and may have a
letter, written after one. Flags and operands may be mixed, and all after the argument `--` are
operands. A switch needs no value; any other flag takes it after an equals sign, or from the next
argument. Letters may share one dash, and the rest of the argument is the value of the first letter
that takes one.

## Main definitions

* `Flag`, `FlagValue`: A flag, and what it may be set to.
* `Arguments`: The flags that were set, and the operands.
* `FlagError`: Why arguments could not be read.
* `Arguments.parse`: Reads arguments.
-/

namespace NetlinkSchema

/-- A flag that a command knows. -/
structure Flag where
  name : Text
  letter : Option Char
  /-- Whether the flag is on or off, and needs no value. -/
  isSwitch : Bool
deriving DecidableEq

/-- What a flag is set to. -/
inductive FlagValue
  | text (t : Text)
  | switch (on : Bool)
deriving DecidableEq

/-- Why arguments could not be read. -/
inductive FlagError
  | badSyntax (argument : Text)
  | unknownName (name : Text)
  /-- A byte that is no letter of a flag, and the letters from it on. -/
  | unknownLetter (byte : UInt8) (letters : Text)
  | nameWithoutValue (name : Text)
  | letterWithoutValue (letter : Char) (letters : Text)
  | invalidSwitch (flag : Flag) (value : Text)
  | helpRequested
deriving DecidableEq

/-- A known flag as it may be written. -/
def Flag.usage (f : Flag) : Text :=
  match f.letter with
  | some c => "-" ++ Text.ofChars [c] ++ ", --" ++ f.name
  | none => "--" ++ f.name

namespace FlagError

/-- The character that stands for an unknown letter: beyond ASCII, the first byte of its encoding as
    one of the first 256 characters. -/
def shownLetter (byte : UInt8) : Char :=
  Char.ofNat ((String.utf8EncodeChar (Char.ofNat byte.toNat)).headD 0).toNat

/-- The text of an error. -/
def message : FlagError → Text
  | badSyntax argument => "bad flag syntax: " ++ argument
  | unknownName name => "unknown flag: --" ++ name
  | unknownLetter byte letters =>
    "unknown shorthand flag: " ++ Text.quotedChar (shownLetter byte) ++ " in -" ++ letters
  | nameWithoutValue name => "flag needs an argument: --" ++ name
  | letterWithoutValue letter letters =>
    "flag needs an argument: " ++ Text.quotedChar letter ++ " in -" ++ letters
  | invalidSwitch flag value =>
    "invalid argument " ++ value.quoted ++ " for " ++ flag.usage.quoted
      ++ " flag: strconv.ParseBool: parsing " ++ value.quoted ++ ": invalid syntax"
  | helpRequested => "pflag: help requested"

end FlagError

/-- The position of a switch that a text asks for. -/
def parseSwitch? (t : Text) : Option Bool :=
  let among (words : List String) : Bool := words.any fun w => t == Text.ofString w
  if among ["1", "t", "T", "true", "TRUE", "True"] then some true
  else if among ["0", "f", "F", "false", "FALSE", "False"] then some false
  else none

/-- A flag and its value. -/
structure Setting where
  flag : Flag
  value : FlagValue
deriving DecidableEq

namespace Flag

/-- Sets a flag to a value that is written out. -/
def setTo (f : Flag) (value : Text) : Except FlagError Setting :=
  if f.isSwitch then
    match parseSwitch? value with
    | some on => .ok ⟨f, .switch on⟩
    | none => .error (.invalidSwitch f value)
  else .ok ⟨f, .text value⟩

/-- Sets a switch that is given without a value. -/
def turnOn (f : Flag) : Setting := ⟨f, .switch true⟩

/-- The flag with a given letter. -/
def byLetter? (flags : List Flag) (letter : UInt8) : Option Flag :=
  flags.find? fun f => f.letter.any (·.toNat == letter.toNat)

/-- The flag with a given name. -/
def byName? (flags : List Flag) (name : Text) : Option Flag := flags.find? (·.name == name)

end Flag

/-- What one argument says. -/
inductive Reading
  | operand
  /-- All that follow are operands. -/
  | endOfFlags
  | settings (all : List Setting)
  /-- The value of the last flag has to follow; there is an error if nothing does. -/
  | pending (before : List Setting) (flag : Flag) (lacking : FlagError)

namespace Reading

/-- Puts a setting in front. -/
def cons (s : Setting) : Reading → Reading
  | settings all => settings (s :: all)
  | pending before flag lacking => pending (s :: before) flag lacking
  | r => r

/-- Reads what follows one dash. Letters from `test.` on have no effect. -/
def ofLetters (flags : List Flag) : Bytes → Except FlagError Reading
  | [] => .ok (.settings [])
  | c :: rest =>
    let letters : Text := ⟨c :: rest⟩
    if letters.startsWith "test." then .ok (.settings [])
    else
      match Flag.byLetter? flags c with
      | none => .error (if c == 104 then .helpRequested else .unknownLetter c letters)
      | some flag =>
        match rest with
        | 61 :: b :: bs => return .settings [← flag.setTo ⟨b :: bs⟩]
        | _ =>
          if flag.isSwitch then return (← ofLetters flags rest).cons flag.turnOn
          else if rest.isEmpty then
            .ok (.pending [] flag (.letterWithoutValue (flag.letter.getD '-') letters))
          else return .settings [← flag.setTo ⟨rest⟩]

/-- Reads what follows two dashes. -/
def ofName (flags : List Flag) (argument : Text) (b : Bytes) : Except FlagError Reading :=
  let name : Text := ⟨b.takeWhile (· != 61)⟩
  if name.isEmpty || name.startsWith "-" then .error (.badSyntax argument)
  else
    match Flag.byName? flags name with
    | none => .error (if name == "help" then .helpRequested else .unknownName name)
    | some flag =>
      match b.dropWhile (· != 61) with
      | _ :: value => return .settings [← flag.setTo ⟨value⟩]
      | [] =>
        if flag.isSwitch then .ok (.settings [flag.turnOn])
        else .ok (.pending [] flag (.nameWithoutValue name))

/-- Reads one argument. A dash alone is an operand. -/
def ofArgument (flags : List Flag) (argument : Text) : Except FlagError Reading :=
  match argument.utf8 with
  | 45 :: 45 :: [] => .ok .endOfFlags
  | 45 :: 45 :: rest => ofName flags argument rest
  | 45 :: b :: rest => ofLetters flags (b :: rest)
  | _ => .ok .operand

end Reading

/-- The arguments of a command: the flags that were set, in order, and the operands. -/
structure Arguments where
  settings : List Setting
  operands : List Text

namespace Arguments

/-- Puts settings in front. -/
def addSettings (s : List Setting) (a : Arguments) : Arguments :=
  { a with settings := s ++ a.settings }

/-- Puts an operand in front. -/
def addOperand (t : Text) (a : Arguments) : Arguments := { a with operands := t :: a.operands }

/-- Reads arguments. -/
def parse (flags : List Flag) : List Text → Except FlagError Arguments
  | [] => .ok ⟨[], []⟩
  | argument :: rest => do
    match ← Reading.ofArgument flags argument with
    | .operand => return (← parse flags rest).addOperand argument
    | .endOfFlags => return ⟨[], rest⟩
    | .settings all => return (← parse flags rest).addSettings all
    | .pending before flag lacking =>
      match rest with
      | [] => .error lacking
      | value :: rest =>
        let setting ← flag.setTo value
        return (← parse flags rest).addSettings (before ++ [setting])

/-- The last value of a flag. -/
def value? (a : Arguments) (name : Text) : Option FlagValue :=
  (a.settings.reverse.find? (·.flag.name == name)).map (·.value)

/-- The last text that a flag was set to; none is the same as an empty one. -/
def text (a : Arguments) (name : Text) : Text :=
  match a.value? name with
  | some (.text t) => t
  | _ => .empty

/-- The last position of a switch, if it was given. -/
def switch? (a : Arguments) (name : Text) : Option Bool :=
  match a.value? name with
  | some (.switch on) => some on
  | _ => none

end Arguments

end NetlinkSchema
