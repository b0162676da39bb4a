import NetlinkSchema.GoSource.Constants

/-!
# The layout of source text

Source text is laid out the usual way. In a block of constants the equals signs stand below each
other, and so do the comments of neighbouring lines; a comment line or an empty line starts anew.
Lines do not end in white space, no two lines in a row are empty, and a comment right before a
block neither begins nor ends with an empty line.

The text is read line by line. Documentation cannot break it, but other texts of a manifest may
hold line breaks, and what follows such a break must itself be an empty line or a comment.

## Main definitions

* `GoSource.SourceLine`: What a line holds.
* `GoSource.layOut`: The text with its lines laid out.
* `GoSource.generate`: The constants of a manifest as a source file.
-/

namespace NetlinkSchema

namespace GoSource

/-- What a line holds. -/
inductive SourceLine
  | blank
  /-- A comment with its slashes, and whether it starts the line. -/
  | comment (t : Text) (first : Bool)
  | package (name : Text)
  | openBlock
  | closeBlock
  | constant (name value : Text) (comment : Option Text)
deriving DecidableEq

/-- A comment as it is written: without carriage returns, and without white space at its end. -/
def commentText (t : Text) : Text :=
  let chars := t.chars.filter (· != '\r')
  Text.ofChars (chars.reverse.dropWhile Text.isSpace).reverse

/-- Reads a constant after the tab of its line. -/
def readConstant (b : Bytes) : Option SourceLine :=
  let isBlank (x : UInt8) : Bool := x == 32
  let name := b.takeWhile (!isBlank ·)
  match b.dropWhile (!isBlank ·) with
  | 32 :: 61 :: 32 :: rest =>
    let value := rest.takeWhile (!isBlank ·)
    if !isIdentifier ⟨name⟩ || value.isEmpty then none
    else
      match rest.dropWhile (!isBlank ·) with
      | [] => some (.constant ⟨name⟩ ⟨value⟩ none)
      | 32 :: 47 :: 47 :: comment =>
        some (.constant ⟨name⟩ ⟨value⟩ (some (commentText ⟨47 :: 47 :: comment⟩)))
      | _ => none
  | _ => none

/-- Reads a line. -/
def SourceLine.read (t : Text) : Option SourceLine :=
  let isWhite (x : UInt8) : Bool := x == 32 || x == 9 || x == 13
  match t.utf8.dropWhile isWhite with
  | [] => some .blank
  | 47 :: 47 :: rest => some (.comment ⟨47 :: 47 :: rest⟩ (t.startsWith "//"))
  | content =>
    if t = "const (" then some .openBlock
    else if t = ")" then some .closeBlock
    else if t.startsWith "package " then some (.package ⟨t.utf8.drop 8⟩)
    else if t.startsWith "\t" then readConstant content
    else none

/-- Whether lines are those of a file: a package clause, and then blocks of constants. -/
def isFile : (inBlock seenPackage : Bool) → List SourceLine → Bool
  | inBlock, seenPackage, [] => !inBlock && seenPackage
  | inBlock, seenPackage, line :: rest =>
    match line with
    | .blank | .comment _ _ => isFile inBlock seenPackage rest
    | .package _ => !seenPackage && isFile false true rest
    | .openBlock => seenPackage && !inBlock && isFile true true rest
    | .closeBlock => inBlock && isFile false true rest
    | .constant _ _ _ => inBlock && isFile true true rest

/-- Whether a comment says nothing. -/
def isEmptyComment (t : Text) : Bool := commentText t == "//"

/-- The comments in front of a block: without empty ones at either end, and without two empty ones
    in a row. -/
def tidyComments (comments : List Text) : List Text :=
  let leading (ts : List Text) : List Text := ts.dropWhile isEmptyComment
  let inner := (leading (leading comments).reverse).reverse
  inner.foldr (fun t rest =>
    match rest with
    | next :: _ => if isEmptyComment t && isEmptyComment next then rest else t :: rest
    | [] => [t]) []

/-- Tidies the comments that end right before a block; `pending` are those since the last line of
    another sort. -/
def tidyBefore : (pending : List Text) → List SourceLine → List SourceLine
  | pending, .comment t first :: rest =>
    if first then tidyBefore (pending ++ [t]) rest
    else pending.map (.comment · true) ++ .comment t first :: tidyBefore [] rest
  | pending, .openBlock :: rest =>
    let exact := pending.getLast?.all fun t => !t.utf8.contains 13
    let comments := if exact then tidyComments pending else pending
    comments.map (.comment · true) ++ .openBlock :: tidyBefore [] rest
  | pending, line :: rest => pending.map (.comment · true) ++ line :: tidyBefore [] rest
  | pending, [] => pending.map (.comment · true)

/-- Drops empty lines next to each other, at the end of a block and at the end of the file. -/
def dropBlanks (lines : List SourceLine) : List SourceLine :=
  lines.foldr (fun line rest =>
    match line, rest with
    | .blank, [] | .blank, .blank :: _ | .blank, .closeBlock :: _ => rest
    | line, rest => line :: rest) []

/-- A constant of a block. -/
structure Row where
  name : Text
  value : Text
  comment : Option Text

/-- A run of constants, or another line. -/
inductive Piece
  | rows (rows : List Row)
  | line (l : SourceLine)

/-- Gathers neighbouring constants. -/
def gather (lines : List SourceLine) : List Piece :=
  lines.foldr (fun line rest =>
    match line, rest with
    | .constant name value comment, .rows rows :: rest =>
      .rows (⟨name, value, comment⟩ :: rows) :: rest
    | .constant name value comment, rest => .rows [⟨name, value, comment⟩] :: rest
    | line, rest => .line line :: rest) []

/-- Gathers neighbouring rows that have comments; the others stand alone. -/
def commentRuns (rows : List Row) : List (List Row) :=
  rows.foldr (fun row rest =>
    match rest with
    | (next :: run) :: rest =>
      if row.comment.isSome && next.comment.isSome then (row :: next :: run) :: rest
      else [row] :: (next :: run) :: rest
    | rest => [row] :: rest) []

/-- The number of characters of a text. -/
def width (t : Text) : Nat := t.chars.length

/-- A text followed by blanks up to a width. -/
def pad (n : Nat) (t : Text) : Text := t ++ ⟨List.replicate (n - width t) 32⟩

/-- The greatest width of texts. -/
def maxWidth (ts : List Text) : Nat := (ts.map width).foldl max 0

/-- The text of a row, given the widths of names and values. -/
def rowText (nameWidth valueWidth : Nat) (r : Row) : Text :=
  let start := "\t" ++ pad nameWidth r.name ++ " = "
  match r.comment with
  | some c => start ++ pad valueWidth r.value ++ " " ++ c
  | none => start ++ r.value

/-- The texts of a run of constants. -/
def rowTexts (rows : List Row) : List Text :=
  let nameWidth := maxWidth (rows.map (·.name))
  (commentRuns rows).flatMap fun run => run.map (rowText nameWidth (maxWidth (run.map (·.value))))

/-- The texts of the pieces of a file. Comments in a block are indented. -/
def pieceTexts : (inBlock : Bool) → List Piece → List Text
  | _, [] => []
  | inBlock, .rows rows :: rest => rowTexts rows ++ pieceTexts inBlock rest
  | inBlock, .line l :: rest =>
    match l with
    | .blank => "" :: pieceTexts inBlock rest
    | .comment t _ =>
      ((if inBlock then "\t" else "") ++ commentText t) :: pieceTexts inBlock rest
    | .package name => ("package " ++ name) :: pieceTexts inBlock rest
    | .openBlock => "const (" :: pieceTexts true rest
    | .closeBlock => ")" :: pieceTexts false rest
    | .constant _ _ _ => pieceTexts inBlock rest

/-- Whether a source text may hold a character. -/
def isSourceChar (c : Char) : Bool := c.toNat != 0 && c.toNat != 0xFEFF

/-- The text with its lines laid out, unless it is no source text. -/
def layOut (t : Text) : Option Text := do
  if !t.isValid || !t.chars.all isSourceChar then none
  else
    let lines ← t.lines.mapM SourceLine.read
    if isFile false false lines then
      let texts := pieceTexts false (gather (dropBlanks (tidyBefore [] lines)))
      return Text.concat (texts.map (· ++ "\n"))
    else none

/-- Why there is no source file. -/
inductive GenerateError
  | package (name : Text)
  | invalidSource
deriving DecidableEq

namespace GenerateError

/-- The text of an error. -/
def message : GenerateError → Text
  | package name => "codegen: invalid Go package name " ++ name.quoted
  | invalidSource => "codegen: generated invalid Go source"

end GenerateError

/-- The constants of a manifest as a source file. -/
def generate (m : Manifest) (package : Text) : Except GenerateError Text :=
  if isIdentifier package then
    match layOut (source m package) with
    | some t => .ok t
    | none => .error .invalidSource
  else .error (.package package)

end GoSource

end NetlinkSchema
