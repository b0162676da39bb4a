import NetlinkSchema.Yaml.Lexeme

/-!
# Tokens

The tokens of a YAML text. Indentation shows as tokens that open and close block collections. That
a scalar was the key of a mapping is known only at the colon after it, so the token that opens the
key, and if need be the one that opens the mapping, are put in front of the scalar afterwards.

A text is read only as far as its first document asks for, and the reader looks two tokens ahead.
If scanning fails, `Token.scan` leaves out the tokens that could not be asked for without running
into the failure; a reader that comes to the end of the tokens has come to the failure.

## Main definitions

* `Token`: A token with the line where it starts.
* `Scanner`: The state of scanning.
* `Token.scan`: The tokens of a text.
-/

namespace NetlinkSchema

namespace Yaml

/-- The kinds of tokens. -/
inductive TokenKind
  | streamEnd
  | versionDirective (major minor : Nat)
  | tagDirective (handle expansion : String)
  | documentStart
  | documentEnd
  | blockSequenceStart
  | blockMappingStart
  | blockEnd
  | flowSequenceStart
  | flowSequenceEnd
  | flowMappingStart
  | flowMappingEnd
  | blockEntry
  | flowEntry
  | key
  | value
  | reference (name : String)
  | anchor (name : String)
  | tag (handle suffix : String)
  | scalar (value : String) (plain : Bool)
deriving DecidableEq

/-- A token with the line where it starts, counted from zero. -/
structure Token where
  kind : TokenKind
  line : Nat
deriving DecidableEq

/-- A place where the key of a mapping may have started. -/
structure KeyCandidate where
  /-- The number of the token that starts there. -/
  token : Nat
  /-- Whether nothing but a key may stand there. -/
  required : Bool
  index : Nat
  line : Nat
  column : Nat

/-- The state of scanning. The lists of candidates and indentations have the innermost level in
    front. -/
structure Scanner where
  cursor : Cursor
  tokens : Array Token
  /-- The column of the innermost block collection, or -1. -/
  indent : Int
  outerIndents : List Int
  /-- The key candidate of this level of brackets. -/
  candidate : Option KeyCandidate
  /-- The key candidates of the levels around. -/
  outerCandidates : List (Option KeyCandidate)
  keyAllowed : Bool

namespace Scanner

/-- The start of a text. -/
def start (text : List Char) : Scanner := ⟨Cursor.start text, #[], -1, [], none, [], true⟩

/-- Whether the scanner is within brackets. -/
def inFlow (s : Scanner) : Bool := !s.outerCandidates.isEmpty

/-- Whether a key candidate is too far behind: keys are on one line and not longer than 1024
    characters. -/
def isStale (s : Scanner) (k : KeyCandidate) : Bool :=
  k.line < s.cursor.line || k.index + 1024 < s.cursor.index

/-- Adds a token that starts at the given line. -/
def push (s : Scanner) (kind : TokenKind) (line : Nat) : Scanner :=
  { s with tokens := s.tokens.push ⟨kind, line⟩ }

/-- Adds a token that starts here, and goes on after it. -/
def pushHere (s : Scanner) (kind : TokenKind) (next : Cursor) : Scanner :=
  { s with tokens := s.tokens.push ⟨kind, s.cursor.line⟩, cursor := next }

/-- Closes the block collections that are indented further than `column`. -/
def closeBlocks (column : Int) (line : Nat) : (outer : List Int) → Scanner → Scanner
  | [], s => s
  | indent :: outer, s =>
    if column < s.indent then
      closeBlocks column line outer
        { s.push .blockEnd line with indent := indent, outerIndents := outer }
    else s

/-- Closes the block collections that are indented further than `column`; within brackets
    indentation does not count. -/
def unindent (s : Scanner) (column : Int) (line : Nat) : Scanner :=
  if s.inFlow then s else closeBlocks column line s.outerIndents s

/-- Opens a block collection at a column, with its token in front of token number `at`. -/
def openBlock (s : Scanner) (column number : Nat) (kind : TokenKind) (line : Nat) : Scanner :=
  if s.inFlow || (column : Int) ≤ s.indent then s
  else
    { s with
      tokens := s.tokens.insertIdxIfInBounds number ⟨kind, line⟩
      indent := column
      outerIndents := s.indent :: s.outerIndents }

/-- Gives up the key candidate of this level, which must not be required. -/
def dropCandidate (s : Scanner) : Option Scanner :=
  match s.candidate with
  | some k => if k.required then none else some { s with candidate := none }
  | none => some s

/-- Notes that a key may start here. -/
def saveCandidate (s : Scanner) : Option Scanner :=
  if s.keyAllowed then do
    let s' ← s.dropCandidate
    let c := s.cursor
    let required := !s.inFlow && s.indent == (c.column : Int)
    return { s' with candidate := some ⟨s.tokens.size, required, c.index, c.line, c.column⟩ }
  else some s

/-- Skips comments that directly follow each other. Lines between them may be indented with tabs;
    the place after the last comment is the end of its line. -/
def skipComments : (fuel : Nat) → Cursor → Cursor
  | 0, c => c
  | fuel + 1, c =>
    let c := c.skipLine
    let isGap (ch : Char) : Bool := isBlank ch || ch == '\n' || ch == '\r'
    let gap := ((c.rest.take 512).takeWhile isGap).length
    if c.sees gap '#' && gap < 512 && 0 < gap then skipComments fuel (skipGap (gap + 1) gap c)
    else c
where
  /-- Advances over blanks and line breaks up to the given number of characters. -/
  skipGap : Nat → Nat → Cursor → Cursor
    | 0, _, c => c
    | fuel + 1, n, c =>
      if n == 0 then c
      else if c.atBreak then
        let c' := c.skipBreak
        skipGap fuel (n - (c'.index - c.index)) c'
      else skipGap fuel (n - 1) (c.advance 1)

/-- Skips blanks, comments and line breaks in front of the next token. A new line may start a key,
    and where a key may start, tabs may not stand. -/
def skipToToken : (fuel : Nat) → Scanner → Scanner
  | 0, s => s
  | fuel + 1, s =>
    let c := if s.cursor.column == 0 && s.cursor.sees 0 (Char.ofNat 0xFEFF) then s.cursor.advance 1
      else s.cursor
    let tabs := s.inFlow || !s.keyAllowed
    let c := c.skipWhile fun ch => ch == ' ' || (tabs && ch == '\t')
    let c := if c.sees 0 '#' then skipComments c.rest.length c else c
    if c.atBreak then
      skipToToken fuel { s with cursor := c.skipBreak, keyAllowed := s.keyAllowed || !s.inFlow }
    else { s with cursor := c }

/-- Skips a comment on the line of the token just read; no blank needs to stand before it. -/
def skipLineComment (s : Scanner) : Scanner :=
  let c := s.cursor.skipWhile isBlank
  if c.sees 0 '#' then { s with cursor := c.skipLine } else s

/-- The end of the text. -/
def fetchStreamEnd (s : Scanner) : Option Scanner := do
  let line := if s.cursor.column == 0 then s.cursor.line else s.cursor.line + 1
  let s ← (s.unindent (-1) line).dropCandidate
  return { s.push .streamEnd line with keyAllowed := false }

/-- The marker of a document's start or end. -/
def fetchMarker (s : Scanner) (kind : TokenKind) : Option Scanner := do
  let s ← (s.unindent (-1) s.cursor.line).dropCandidate
  return { s.pushHere kind (s.cursor.advance 3) with keyAllowed := false }

/-- An opening bracket. -/
def fetchFlowStart (s : Scanner) (kind : TokenKind) : Option Scanner := do
  let s ← s.saveCandidate
  return { s.pushHere kind (s.cursor.advance 1) with
    candidate := none, outerCandidates := s.candidate :: s.outerCandidates, keyAllowed := true }

/-- A closing bracket. -/
def fetchFlowEnd (s : Scanner) (kind : TokenKind) : Option Scanner := do
  let s ← s.dropCandidate
  let s := match s.outerCandidates with
    | outer :: rest => { s with candidate := outer, outerCandidates := rest }
    | [] => s
  return { s.pushHere kind (s.cursor.advance 1) with keyAllowed := false }

/-- A comma within brackets. -/
def fetchFlowEntry (s : Scanner) : Option Scanner := do
  let s ← s.dropCandidate
  return { s.pushHere .flowEntry (s.cursor.advance 1) with keyAllowed := true }

/-- The dash of a sequence entry. -/
def fetchBlockEntry (s : Scanner) : Option Scanner := do
  if !s.inFlow && !s.keyAllowed then none
  else
    let c := s.cursor
    let s ← (s.openBlock c.column s.tokens.size .blockSequenceStart c.line).dropCandidate
    return { s.pushHere .blockEntry (c.advance 1) with keyAllowed := true }

/-- The question mark of an explicit key. -/
def fetchKey (s : Scanner) : Option Scanner := do
  if !s.inFlow && !s.keyAllowed then none
  else
    let c := s.cursor
    let s ← (s.openBlock c.column s.tokens.size .blockMappingStart c.line).dropCandidate
    return { s.pushHere .key (c.advance 1) with keyAllowed := !s.inFlow }

/-- The colon of a value. If a key candidate is still near, it was a key. -/
def fetchValue (s : Scanner) : Option Scanner := do
  let c := s.cursor
  let simple ← match s.candidate with
    | some k => if s.isStale k then (if k.required then none else some none) else some (some k)
    | none => some none
  match simple with
  | some k =>
    let s := { s with tokens := s.tokens.insertIdxIfInBounds k.token ⟨.key, k.line⟩ }
    let s := s.openBlock k.column k.token .blockMappingStart k.line
    return { s.pushHere .value (c.advance 1) with candidate := none, keyAllowed := false }
  | none =>
    if !s.inFlow && !s.keyAllowed then none
    else
      let s := s.openBlock c.column s.tokens.size .blockMappingStart c.line
      return { s.pushHere .value (c.advance 1) with candidate := none, keyAllowed := !s.inFlow }

/-- An anchor or an alias. -/
def fetchAnchor (s : Scanner) (kind : String → TokenKind) : Option Scanner := do
  let s ← s.saveCandidate
  let (name, next) := (s.cursor.advance 1).span isWordChar
  let ends (ch : Char) : Bool := isBlank ch || isBreak ch || "?:,]\x7d%@`".contains ch
  if name.isEmpty || !next.endsOr 0 ends then none
  else return { s.pushHere (kind (String.ofList name)) next with keyAllowed := false }

/-- Characters of a tag besides letters, digits, underscore and hyphen. -/
def isUriChar (c : Char) : Bool :=
  isWordChar c || ";/?:@&=+$.,!~*()[]".contains c || c.toNat == 39

/-- Reads the characters of a tag, in which an escaped byte is a percent sign and two digits. -/
def readUri : (fuel : Nat) → (acc : List Char) → Cursor → Option (List Char × Cursor)
  | 0, acc, c => some (acc.reverse, c)
  | fuel + 1, acc, c =>
    match c.rest with
    | '%' :: hi :: lo :: _ => do
      let h ← hexDigit? hi
      let l ← hexDigit? lo
      -- Only bytes that are characters by themselves are accepted.
      if 8 ≤ h then none else readUri fuel (Char.ofNat (16 * h + l) :: acc) (c.advance 3)
    | ch :: _ =>
      if isUriChar ch then readUri fuel (ch :: acc) (c.advance 1) else some (acc.reverse, c)
    | [] => some (acc.reverse, c)

/-- Reads the handle of a tag: an exclamation mark, and a word between two of them. -/
def readHandle (c : Cursor) : List Char × Cursor :=
  let (word, next) := (c.advance 1).span isWordChar
  if next.sees 0 '!' then ('!' :: (word ++ ['!']), next.advance 1) else ('!' :: word, next)

/-- Reads a tag as its handle and suffix. -/
def readTag (c : Cursor) : Option (String × String × Cursor) := do
  let (handle, suffix, next) ←
    if c.sees 1 '<' then do
      let (uri, next) ← readUri c.rest.length [] (c.advance 2)
      if uri.isEmpty || !next.sees 0 '>' then none else some ([], uri, next.advance 1)
    else do
      let (handle, next) := readHandle c
      if 1 < handle.length && handle.getLast? == some '!' then do
        let (uri, next) ← readUri c.rest.length [] next
        if uri.isEmpty then none else some (handle, uri, next)
      else do
        let (uri, next) ← readUri c.rest.length [] next
        let suffix := handle.drop 1 ++ uri
        if suffix.isEmpty then some ([], ['!'], next) else some (['!'], suffix, next)
  if next.atGap 0 then return (String.ofList handle, String.ofList suffix, next) else none

/-- A tag. -/
def fetchTag (s : Scanner) : Option Scanner := do
  let s ← s.saveCandidate
  let (handle, suffix, next) ← readTag s.cursor
  return { s.pushHere (.tag handle suffix) next with keyAllowed := false }

/-- Reads a number of at most two digits. -/
def readVersionNumber (c : Cursor) : Option (Nat × Cursor) :=
  let (digits, next) := c.span Char.isDigit
  if digits.isEmpty || 2 < digits.length then none
  else some (digits.foldl (fun n d => 10 * n + (d.toNat - 48)) 0, next)

/-- A directive. -/
def fetchDirective (s : Scanner) : Option Scanner := do
  let s ← (s.unindent (-1) s.cursor.line).dropCandidate
  let (name, c) := (s.cursor.advance 1).span isWordChar
  if name.isEmpty || !c.atGap 0 then none
  let c := c.skipWhile isBlank
  let (kind, c) ←
    if name == "YAML".toList then do
      let (major, c) ← readVersionNumber c
      if !c.sees 0 '.' then none
      else
        let (minor, c) ← readVersionNumber (c.advance 1)
        some (TokenKind.versionDirective major minor, c)
    else if name == "TAG".toList then do
      if !c.sees 0 '!' then none
      else
        let (handle, c) := readHandle c
        if handle != ['!'] && handle.getLast? != some '!' then none
        else if !c.endsOr 0 isBlank || c.rest.isEmpty then none
        else
          let (uri, c) ← readUri c.rest.length [] (c.skipWhile isBlank)
          if uri.isEmpty || !c.atGap 0 then none
          else some (TokenKind.tagDirective (String.ofList handle) (String.ofList uri), c)
    else none
  let c := c.skipWhile isBlank
  let c := if c.sees 0 '#' then c.skipLine else c
  if !c.atLineEnd then none
  else return { s.pushHere kind c.skipBreak with keyAllowed := false }

/-- A block scalar. -/
def fetchBlock (s : Scanner) (literal : Bool) : Option Scanner := do
  let s ← s.dropCandidate
  let (value, next) ← readBlock literal s.indent s.cursor
  return { s.pushHere (.scalar (String.ofList value) false) next with keyAllowed := true }

/-- A quoted scalar. -/
def fetchQuoted (s : Scanner) (mark : Char) : Option Scanner := do
  let s ← s.saveCandidate
  let (value, next) ← readQuoted mark s.cursor
  return skipLineComment
    { s.pushHere (.scalar (String.ofList value) false) next with keyAllowed := false }

/-- A plain scalar. One that ended on a later line is followed by a place for a key. -/
def fetchPlain (s : Scanner) : Option Scanner := do
  let s ← s.saveCandidate
  let scalar ← readPlain s.inFlow (s.indent + 1).toNat s.cursor
  let s := { s.pushHere (.scalar (String.ofList scalar.value) true) scalar.next with
    keyAllowed := scalar.endedAfterBreak }
  return if scalar.endedAfterBreak then s else s.skipLineComment

/-- Whether a plain scalar may start with the character here. -/
def startsPlain (s : Scanner) (ch : Char) : Bool :=
  let next := s.cursor.peek 1
  if ch == '-' then !(next.any isBlank)
  else if ch == '?' || ch == ':' then !s.inFlow && !s.cursor.atGap 1
  else !(isBlank ch || isBreak ch || ",[]\x7b\x7d#&*!|>\"%@`".contains ch || ch.toNat == 39)

/-- Reads the next token. -/
def fetch (s : Scanner) : Option Scanner := do
  let before := s.cursor
  let s := skipToToken (s.cursor.rest.length + 1) s
  let s := s.unindent s.cursor.column before.line
  let c := s.cursor
  match c.rest with
  | [] => s.fetchStreamEnd
  | ch :: _ =>
    if c.column == 0 && ch == '%' then s.fetchDirective
    else if c.atMarker '-' then s.fetchMarker .documentStart
    else if c.atMarker '.' then s.fetchMarker .documentEnd
    else if ch == '[' then return (← s.fetchFlowStart .flowSequenceStart).skipLineComment
    else if ch == '\x7b' then return (← s.fetchFlowStart .flowMappingStart).skipLineComment
    else if ch == ']' then return (← s.fetchFlowEnd .flowSequenceEnd).skipLineComment
    else if ch == '\x7d' then return (← s.fetchFlowEnd .flowMappingEnd).skipLineComment
    else if ch == ',' then return (← s.fetchFlowEntry).skipLineComment
    else if ch == '-' && c.atGap 1 then s.fetchBlockEntry
    else if ch == '?' && (s.inFlow || c.atGap 1) then return (← s.fetchKey).skipLineComment
    else if ch == ':' && (s.inFlow || c.atGap 1) then return (← s.fetchValue).skipLineComment
    else if ch == '*' then return (← s.fetchAnchor .reference).skipLineComment
    else if ch == '&' then return (← s.fetchAnchor .anchor).skipLineComment
    else if ch == '!' then return (← s.fetchTag).skipLineComment
    else if ch == '|' && !s.inFlow then s.fetchBlock true
    else if ch == '>' && !s.inFlow then s.fetchBlock false
    else if ch == '"' || ch.toNat == 39 then s.fetchQuoted ch
    else if s.startsPlain ch then s.fetchPlain
    else none

/-- The number of tokens that can be asked for when no further token can be read: two tokens are
    looked ahead, and a key candidate is settled before its token is given out. -/
def reachable (s : Scanner) : Nat :=
  let settled (k : Option KeyCandidate) : Nat :=
    match k with
    | some k => if s.isStale k && !k.required then s.tokens.size else k.token
    | none => s.tokens.size
  (s.candidate :: s.outerCandidates).foldl (fun n k => min n (settled k)) (s.tokens.size - 2)

/-- Reads tokens to the end of the text, or as far as possible. -/
def run : (fuel : Nat) → Scanner → List Token
  | 0, s => s.tokens.toList.take s.reachable
  | fuel + 1, s =>
    match s.fetch with
    | none => s.tokens.toList.take s.reachable
    | some s' =>
      match s'.tokens.back? with
      | some ⟨.streamEnd, _⟩ => s'.tokens.toList
      | _ => run fuel s'

end Scanner

namespace Token

/-- The tokens of a text. A text with a character that may not be in one has no tokens. -/
def scan (text : List Char) : List Token :=
  let text := match text with
    | ch :: rest => if ch.toNat == 0xFEFF then rest else text
    | [] => []
  if text.all isAllowed then Scanner.run (text.length + 1) (Scanner.start text) else []

end Token

end Yaml

end NetlinkSchema
