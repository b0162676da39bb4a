import NetlinkSchema.Text.Casing
import NetlinkSchema.Text.Category

/-!
# Go identifiers

An identifier is made of letters, digits and underscores, does not start with a digit, and is no
keyword. The names of a schema become exported identifiers, which start with a capital letter.

## Main definitions

* `GoSource.isIdentifier`: Whether a text is an identifier.
* `GoSource.exportedName`: The exported identifier of a list of names.
-/

namespace NetlinkSchema

namespace GoSource

/-- The words that are no identifiers. -/
def keywords : List String :=
  ["break", "case", "chan", "const", "continue", "default", "defer", "else", "fallthrough", "for",
    "func", "go", "goto", "if", "import", "interface", "map", "package", "range", "return",
    "select", "struct", "switch", "type", "var"]

/-- Whether a character may stand in an identifier. -/
def isWordChar (c : Char) : Bool := c == '_' || Text.isLetter c || Text.isDecimalDigit c

/-- Whether a text is an identifier. -/
def isIdentifier (t : Text) : Bool :=
  match t.chars with
  | [] => false
  | c :: rest =>
    (c == '_' || Text.isLetter c) && rest.all isWordChar
      && !keywords.any fun w => Text.ofString w == t

/-- The characters of names with underscores between the names and in place of what an identifier
    cannot have. -/
def joinedChars (parts : List Text) : List Char :=
  (Text.join "_" parts).chars.map fun c => if isWordChar c then c else '_'

/-- The exported identifier of a list of names: an `X` goes before what is no letter. -/
def exportedName (parts : List Text) : Text :=
  match joinedChars parts with
  | [] => "X"
  | c :: rest =>
    if Text.isLetter c then Text.ofChars (Text.upperChar c :: rest)
    else Text.ofChars ('X' :: c :: rest)

end GoSource

end NetlinkSchema
