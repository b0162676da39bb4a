import NetlinkSchema.Yaml.Cursor

/-!
# Scalars as they are written

The four ways to write a scalar: plain, between single or double quotation marks, and as a block
of indented lines. Each reader starts at the first character of the scalar and gives its value and
the place after it.

## Main definitions

* `readPlain`: A plain scalar, possibly of several lines.
* `readQuoted`: A scalar between quotation marks.
* `readBlock`: A literal or folded block.
-/

namespace NetlinkSchema

namespace Yaml

/-- A plain scalar that was read. -/
structure PlainScalar where
  value : List Char
  /-- Whether reading went on to a later line and found that the scalar had ended. -/
  endedAfterBreak : Bool
  next : Cursor

/-- The characters of a plain scalar up to the next blank. A colon ends it in front of a blank;
    within brackets their separators end it too. -/
def plainRun (flow : Bool) : List Char → List Char
  | [] => []
  | ch :: rest =>
    let beforeGap := match rest with
      | [] => true
      | next :: _ => isBlank next || isBreak next
    if isBlank ch || isBreak ch || (ch == ':' && beforeGap)
        || (flow && ",?[]\x7b\x7d".contains ch) then []
    else ch :: plainRun flow rest

/-- Reads a plain scalar word by word; `acc` is what was read so far, backwards. In block context
    a line that is indented less than `indent` ends it. -/
def readPlainFrom (flow : Bool) (indent : Nat) :
    (fuel : Nat) → (acc : List Char) → Gap → Cursor → Option PlainScalar
  | 0, acc, g, c => some ⟨acc.reverse, g.firstBreak.isSome, c⟩
  | fuel + 1, acc, g, c =>
    if c.atDocumentMarker || c.sees 0 '#' then some ⟨acc.reverse, g.firstBreak.isSome, c⟩
    else
      let run := plainRun flow c.rest
      let c' := c.advance run.length
      let g' := if run.isEmpty then g else Gap.empty
      let acc' := if run.isEmpty then acc else run.reverse ++ (g.joined.reverse ++ acc)
      if c'.rest.isEmpty || !c'.atGap 0 then some ⟨acc'.reverse, g'.firstBreak.isSome, c'⟩
      else do
        let (gap, next) ← Gap.read indent c'.rest.length Gap.empty c'
        if !flow && next.column < indent then
          return ⟨acc'.reverse, gap.firstBreak.isSome, next⟩
        readPlainFrom flow indent fuel acc' gap next

/-- Reads a plain scalar. -/
def readPlain (flow : Bool) (indent : Nat) (c : Cursor) : Option PlainScalar :=
  readPlainFrom flow indent (c.rest.length + 1) [] Gap.empty c

/-- The character that a letter stands for after a backslash. -/
def escapedChar? : Char → Option Char
  | '0' => some (Char.ofNat 0)
  | 'a' => some (Char.ofNat 7)
  | 'b' => some (Char.ofNat 8)
  | 't' => some '\t'
  | '\t' => some '\t'
  | 'n' => some '\n'
  | 'v' => some (Char.ofNat 11)
  | 'f' => some (Char.ofNat 12)
  | 'r' => some '\r'
  | 'e' => some (Char.ofNat 27)
  | ' ' => some ' '
  | '"' => some '"'
  | '\\' => some '\\'
  | 'N' => some (Char.ofNat 0x85)
  | '_' => some (Char.ofNat 0xA0)
  | 'L' => some (Char.ofNat 0x2028)
  | 'P' => some (Char.ofNat 0x2029)
  | c => if c.toNat == 39 then some c else none

/-- The number of hexadecimal digits that follow a letter after a backslash. -/
def escapeDigits? : Char → Option Nat
  | 'x' => some 2
  | 'u' => some 4
  | 'U' => some 8
  | _ => none

/-- The value of a hexadecimal digit. -/
def hexDigit? (c : Char) : Option Nat :=
  if c.isDigit then some (c.toNat - 48)
  else if 'a' ≤ c && c ≤ 'f' then some (c.toNat - 87)
  else if 'A' ≤ c && c ≤ 'F' then some (c.toNat - 55)
  else none

/-- The character of a code in hexadecimal digits. -/
def charOfCode? (digits : List Char) : Option Char := do
  let values ← digits.mapM hexDigit?
  let code := values.foldl (fun n d => 16 * n + d) 0
  if (0xD800 ≤ code && code ≤ 0xDFFF) || 0x10FFFF < code then none
  else some (Char.ofNat code)

/-- The character of the escape sequence here and the place after it. -/
def readEscape (c : Cursor) : Option (Char × Cursor) := do
  let letter ← c.peek 1
  match escapeDigits? letter with
  | none =>
    let ch ← escapedChar? letter
    return (ch, c.advance 2)
  | some n =>
    let digits := (c.rest.drop 2).take n
    if digits.length < n then none
    else
      let ch ← charOfCode? digits
      return (ch, c.advance (2 + n))

/-- Reads up to the next blank or the closing mark. The flag says that an escaped line break was
    read. -/
def readQuotedWord (mark : Char) : (fuel : Nat) → (acc : List Char) → Cursor →
    Option (List Char × Bool × Cursor)
  | 0, acc, c => some (acc, false, c)
  | fuel + 1, acc, c =>
    match c.rest with
    | [] => some (acc, false, c)
    | ch :: _ =>
      if isBlank ch || isBreak ch then some (acc, false, c)
      else if ch == mark then
        if mark != '"' && c.sees 1 mark then readQuotedWord mark fuel (mark :: acc) (c.advance 2)
        else some (acc, false, c)
      else if mark == '"' && ch == '\\' then
        if (c.advance 1).atBreak then some (acc, true, (c.advance 1).skipBreak)
        else do
          let (e, next) ← readEscape c
          readQuotedWord mark fuel (e :: acc) next
      else readQuotedWord mark fuel (ch :: acc) (c.advance 1)

/-- Reads the words of a quoted scalar up to its closing mark. -/
def readQuotedFrom (mark : Char) : (fuel : Nat) → (acc : List Char) → Cursor →
    Option (List Char × Cursor)
  | 0, _, _ => none
  | fuel + 1, acc, c =>
    if c.atDocumentMarker || c.rest.isEmpty then none
    else do
      let (word, escapedBreak, c') ← readQuotedWord mark c.rest.length acc c
      if c'.sees 0 mark then return (word.reverse, c'.advance 1)
      let before := if escapedBreak then ⟨[], some [], []⟩ else Gap.empty
      let (gap, next) ← Gap.read 0 c'.rest.length before c'
      readQuotedFrom mark fuel (gap.joined.reverse ++ word) next

/-- Reads a scalar between two marks. -/
def readQuoted (mark : Char) (c : Cursor) : Option (List Char × Cursor) :=
  readQuotedFrom mark (c.rest.length + 1) [] (c.advance 1)

/-- What happens to the line breaks at the end of a block. -/
inductive Chomping
  | strip
  | clip
  | keep
deriving DecidableEq

/-- The mark of a chomping rule. -/
def chomping? : Option Char → Option Chomping
  | some '+' => some .keep
  | some '-' => some .strip
  | _ => none

/-- The header of a block: how its end is chomped, and the indentation if it is given. -/
def readBlockHeader (c : Cursor) : Option (Chomping × Nat × Cursor) := do
  let digit (c : Cursor) : Option (Nat × Cursor) :=
    match c.rest with
    | ch :: _ =>
      if ch == '0' then none
      else if ch.isDigit then some (ch.toNat - 48, c.advance 1)
      else some (0, c)
    | [] => some (0, c)
  let (chomping, increment, c) ← match chomping? (c.peek 0) with
    | some ch => do
      let (n, c) ← digit (c.advance 1)
      pure (ch, n, c)
    | none => do
      let (n, c) ← digit c
      match if n == 0 then none else chomping? (c.peek 0) with
      | some ch => pure (ch, n, c.advance 1)
      | none => pure (.clip, n, c)
  let c := c.skipWhile isBlank
  let c := if c.sees 0 '#' then c.skipLine else c
  if c.atLineEnd then return (chomping, increment, c.skipBreak) else none

/-- Reads empty lines and the indentation of the line after them. An `indent` of zero is not yet
    known: then every space counts. -/
def readIndentation (indent : Nat) : (fuel maxColumn : Nat) → (breaks : List Char) → Cursor →
    Option (List Char × Nat × Cursor)
  | 0, maxColumn, breaks, c => some (breaks, maxColumn, c)
  | fuel + 1, maxColumn, breaks, c =>
    let spaces := (c.span (· == ' ')).1.length
    let taken := if indent == 0 then spaces else min spaces (indent - c.column)
    let c := c.advance taken
    let maxColumn := max maxColumn c.column
    if (indent == 0 || c.column < indent) && c.sees 0 '\t' then none
    else if c.atBreak then
      let (text, c') := c.readBreak
      readIndentation indent fuel maxColumn (breaks ++ text) c'
    else some (breaks, maxColumn, c)

/-- A block under construction: its text backwards, the break after the last line, the empty lines
    after that, and whether the last line began with a blank. -/
structure BlockText where
  acc : List Char
  lastBreak : List Char
  emptyLines : List Char
  lastIndented : Bool

namespace BlockText

/-- Adds a line. In a folded block a single break between two lines that do not begin with a blank
    becomes a space. -/
def addLine (b : BlockText) (literal : Bool) (line lineBreak : List Char) : BlockText :=
  let indented := match line with
    | ch :: _ => isBlank ch
    | [] => false
  let folded := !literal && !b.lastIndented && !indented && b.lastBreak == ['\n']
  let between := if folded then (if b.emptyLines.isEmpty then [' '] else []) else b.lastBreak
  ⟨line.reverse ++ (b.emptyLines.reverse ++ (between.reverse ++ b.acc)), lineBreak, [], indented⟩

/-- The value of the block. -/
def value (b : BlockText) (chomping : Chomping) : List Char :=
  let lastBreak := if chomping = .strip then [] else b.lastBreak
  let emptyLines := if chomping = .keep then b.emptyLines else []
  b.acc.reverse ++ lastBreak ++ emptyLines

end BlockText

/-- Reads the lines of a block that are indented as far as its first one. -/
def readBlockLines (literal : Bool) (indent : Nat) : (fuel : Nat) → BlockText → Cursor →
    Option (BlockText × Cursor)
  | 0, b, c => some (b, c)
  | fuel + 1, b, c =>
    if c.column == indent && !c.rest.isEmpty then do
      let (line, c1) := c.span fun ch => !isBreak ch
      let (lineBreak, c2) := c1.readBreak
      let (breaks, _, c3) ← readIndentation indent (c2.rest.length + 1) 0 [] c2
      let b := { b.addLine literal line lineBreak with emptyLines := breaks }
      readBlockLines literal indent fuel b c3
    else some (b, c)

/-- Reads a block. `parent` is the indentation around it, or -1. -/
def readBlock (literal : Bool) (parent : Int) (c : Cursor) : Option (List Char × Cursor) := do
  let (chomping, increment, c) ← readBlockHeader (c.advance 1)
  let given := if increment == 0 then 0 else (max parent 0).toNat + increment
  let (breaks, maxColumn, c) ← readIndentation given (c.rest.length + 1) 0 [] c
  let indent := if given == 0 then max (max maxColumn (parent + 1).toNat) 1 else given
  let (b, c) ← readBlockLines literal indent (c.rest.length + 1) ⟨[], [], breaks, false⟩ c
  return (b.value chomping, c)

end Yaml

end NetlinkSchema
