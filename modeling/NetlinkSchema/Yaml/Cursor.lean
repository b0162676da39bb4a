/-!
# Reading characters

A place in a YAML text: the characters that follow, and the line and column reached. Line breaks
are the carriage return, the line feed, both together, and the three Unicode line ends; all but
the line and paragraph separators are read as a line feed.

## Main definitions

* `Cursor`: A place in a text.
* `Cursor.readBreak`: Reads a line break.
* `Gap`: The blanks and line breaks between two words of a scalar.
-/

namespace NetlinkSchema

namespace Yaml

/-- Spaces and tabs. -/
def isBlank (c : Char) : Bool := c == ' ' || c == '\t'

/-- Characters that end a line. -/
def isBreak (c : Char) : Bool :=
  c == '\r' || c == '\n' || c == Char.ofNat 0x85 || c == Char.ofNat 0x2028 || c == Char.ofNat 0x2029

/-- Letters, digits, the underscore and the hyphen. -/
def isWordChar (c : Char) : Bool := c.isAlphanum || c == '_' || c == '-'

/-- Characters that a text may contain. -/
def isAllowed (c : Char) : Bool :=
  let n := c.toNat
  n == 0x09 || n == 0x0A || n == 0x0D || (0x20 ≤ n && n ≤ 0x7E) || n == 0x85
    || (0xA0 ≤ n && n ≤ 0xD7FF) || (0xE000 ≤ n && n ≤ 0xFFFD) || 0x10000 ≤ n

/-- A place in a text; lines and columns are counted from zero. -/
structure Cursor where
  rest : List Char
  index : Nat
  line : Nat
  column : Nat

namespace Cursor

/-- The start of a text. -/
def start (text : List Char) : Cursor := ⟨text, 0, 0, 0⟩

/-- The character `n` places further on. -/
def peek (c : Cursor) (n : Nat) : Option Char := c.rest[n]?

/-- Whether the character `n` places further on is this one. -/
def sees (c : Cursor) (n : Nat) (ch : Char) : Bool := c.peek n == some ch

/-- Whether the text has ended `n` places further on, or the character there satisfies `p`. -/
def endsOr (c : Cursor) (n : Nat) (p : Char → Bool) : Bool :=
  match c.peek n with
  | none => true
  | some ch => p ch

/-- Whether the text or the word ends `n` places further on. -/
def atGap (c : Cursor) (n : Nat) : Bool := c.endsOr n fun ch => isBlank ch || isBreak ch

/-- Whether the text or the line ends here. -/
def atLineEnd (c : Cursor) : Bool := c.endsOr 0 isBreak

/-- Whether the character here is a line break. -/
def atBreak (c : Cursor) : Bool :=
  match c.rest with
  | ch :: _ => isBreak ch
  | [] => false

/-- The place `n` characters further on in the same line. -/
def advance (c : Cursor) (n : Nat) : Cursor :=
  ⟨c.rest.drop n, c.index + n, c.line, c.column + n⟩

/-- The longest run of characters that satisfy `p`, and the place after it. -/
def span (c : Cursor) (p : Char → Bool) : List Char × Cursor :=
  let run := c.rest.takeWhile p
  (run, c.advance run.length)

/-- The place after a run of characters that satisfy `p`. -/
def skipWhile (c : Cursor) (p : Char → Bool) : Cursor := (c.span p).2

/-- The place after the rest of the line. -/
def skipLine (c : Cursor) : Cursor := c.skipWhile fun ch => !isBreak ch

/-- The text of the line break here, and the place after it. -/
def readBreak (c : Cursor) : List Char × Cursor :=
  match c.rest with
  | '\r' :: '\n' :: rest => (['\n'], ⟨rest, c.index + 2, c.line + 1, 0⟩)
  | ch :: rest =>
    if isBreak ch then
      let kept := ch == Char.ofNat 0x2028 || ch == Char.ofNat 0x2029
      ([if kept then ch else '\n'], ⟨rest, c.index + 1, c.line + 1, 0⟩)
    else ([], c)
  | [] => ([], c)

/-- The place after the line break here. -/
def skipBreak (c : Cursor) : Cursor := c.readBreak.2

/-- Whether a line of three times `ch` starts here, which marks the bounds of a document. -/
def atMarker (c : Cursor) (ch : Char) : Bool :=
  c.column == 0 && c.sees 0 ch && c.sees 1 ch && c.sees 2 ch && c.atGap 3

/-- Whether a document starts or ends here. -/
def atDocumentMarker (c : Cursor) : Bool := c.atMarker '-' || c.atMarker '.'

end Cursor

/-- The blanks and line breaks between two words of a scalar. -/
structure Gap where
  /-- Blanks that stand on one line with both words. -/
  blanks : List Char
  /-- The first line break; an escaped one has no text. -/
  firstBreak : Option (List Char)
  /-- The texts of the other line breaks. -/
  moreBreaks : List Char

namespace Gap

/-- Nothing between two words. -/
def empty : Gap := ⟨[], none, []⟩

/-- What stands for the gap in the value: a single line break is folded into a space, and of
    several the first is left out. -/
def joined (g : Gap) : List Char :=
  match g.firstBreak with
  | none => g.blanks
  | some ['\n'] => if g.moreBreaks.isEmpty then [' '] else g.moreBreaks
  | some first => first ++ g.moreBreaks

/-- Reads on to the next word. Below `indent`, a tab may not stand at the start of a line. -/
def read (indent : Nat) : (fuel : Nat) → Gap → Cursor → Option (Gap × Cursor)
  | 0, g, c => some (g, c)
  | fuel + 1, g, c =>
    match c.rest with
    | [] => some (g, c)
    | ch :: _ =>
      if isBlank ch then
        if g.firstBreak.isNone then
          read indent fuel { g with blanks := g.blanks ++ [ch] } (c.advance 1)
        else if ch == '\t' && c.column < indent then none
        else read indent fuel g (c.advance 1)
      else if isBreak ch then
        let (text, c') := c.readBreak
        match g.firstBreak with
        | none => read indent fuel ⟨[], some text, []⟩ c'
        | some _ => read indent fuel { g with moreBreaks := g.moreBreaks ++ text } c'
      else some (g, c)

end Gap

end Yaml

end NetlinkSchema
