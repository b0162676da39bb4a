import NetlinkSchema.Text
import NetlinkSchema.Yaml.Scalar
import NetlinkSchema.Yaml.Token

/-!
# Nodes

The tree of a YAML document: scalars, sequences, mappings and aliases, each with the line where it
starts. A mapping keeps its entries in the order in which they are written, also if a key occurs
twice. An alias carries the node that it stands for; within that node itself only its outline.

## Main definitions

* `Node`: A node of a document.
* `Node.ofTokens?`: The first document of a list of tokens.
* `Node.parse?`: The first document of a text.
-/

namespace NetlinkSchema

namespace Yaml

/-- A node of a document; lines are counted from one. -/
inductive Node
  | scalar (line : Nat) (tag value : String)
  | sequence (line : Nat) (tag : String) (items : List Node)
  | mapping (line : Nat) (tag : String) (entries : List (Node × Node))
  | reference (line : Nat) (name : String) (target : Node)

namespace Node

/-- The line where the node starts. -/
def line : Node → Nat
  | scalar line _ _ => line
  | sequence line _ _ => line
  | mapping line _ _ => line
  | reference line _ _ => line

/-- The text of the node where it serves as a key: that of a scalar, or the name of an alias. -/
def keyText : Node → String
  | scalar _ _ value => value
  | reference _ name _ => name
  | sequence _ _ _ => ""
  | mapping _ _ _ => ""

end Node

/-- What is left to read, the anchors seen so far, and the tag handles of the document. -/
structure Reader where
  tokens : List Token
  /-- Anchored nodes, the latest first, and whether they are still being read. -/
  anchors : List (String × Bool × Node)
  handles : List (String × String)

namespace Reader

/-- The next token. -/
def peek (r : Reader) : Option Token := r.tokens.head?

/-- Goes on after the next token. -/
def skip (r : Reader) : Reader := { r with tokens := r.tokens.drop 1 }

/-- Notes an anchored node. -/
def define (r : Reader) (anchor : Option String) (open' : Bool) (n : Node) : Reader :=
  match anchor with
  | some name => { r with anchors := (name, open', n) :: r.anchors }
  | none => r

/-- Completes an anchored collection, unless its anchor was used again within it. -/
def complete (r : Reader) (anchor : Option String) (n : Node) : Reader :=
  match anchor with
  | none => r
  | some name =>
    match r.anchors.find? (·.1 == name) with
    | some (_, true, _) => { r with anchors := (name, false, n) :: r.anchors }
    | _ => r

/-- The tag of a handle and a suffix. -/
def tagOf? (r : Reader) (handle suffix : String) : Option String :=
  if handle.isEmpty then some suffix
  else (r.handles.find? (·.1 == handle)).map fun h => h.2 ++ suffix

end Reader

/-- What may stand in front of a node's content. -/
structure Properties where
  anchor : Option String
  tag : Option String

namespace Properties

/-- Whether there are any. -/
def isSome (p : Properties) : Bool := p.anchor.isSome || p.tag.isSome

/-- The short form of the tag, if it says anything. -/
def specificTag? (p : Properties) : Option String :=
  match p.tag with
  | some "!" => none
  | some tag => some (shortTag tag)
  | none => none

end Properties

/-- A scalar without explicit tag has the tag of its meaning; a quoted one is a text, and two
    plain angle brackets ask for a merge. -/
def scalarNode (line : Nat) (tag : Option String) (value : String) (plain : Bool) : Node :=
  let tag := match tag with
    | some tag => tag
    | none => if !plain then strTag else if value == "<<" then mergeTag else (resolvePlain value).1
  .scalar line tag value

/-- The scalar that stands where a node was left out. -/
def emptyNode (line : Nat) : Node := scalarNode line none "" true

/-- Reads an anchor and a tag in either order. -/
def readProperties (r : Reader) : Option (Properties × Reader) := do
  let tag (r : Reader) : Option (Option String × Reader) := do
    match (← r.peek).kind with
    | .tag handle suffix => return (some (← r.tagOf? handle suffix), r.skip)
    | _ => return (none, r)
  let anchor (r : Reader) : Option (Option String × Reader) := do
    match (← r.peek).kind with
    | .anchor name => return (some name, r.skip)
    | _ => return (none, r)
  let (a, r) ← anchor r
  let (t, r) ← tag r
  match a, t with
  | none, some t =>
    let (a, r) ← anchor r
    return (⟨a, some t⟩, r)
  | _, _ => return (⟨a, t⟩, r)

mutual

/-- Reads a node. Block collections may stand only in block context, and a sequence that is not
    indented only as the value of a mapping. -/
def readNode : (fuel : Nat) → (block indentless : Bool) → Reader → Option (Node × Reader)
  | 0, _, _, _ => none
  | fuel + 1, block, indentless, r => do
    let first ← r.peek
    let line := first.line + 1
    if let .reference name := first.kind then
      let (_, _, target) ← r.anchors.find? (·.1 == name)
      return (.reference line name target, r.skip)
    let (props, r) ← readProperties r
    let token ← r.peek
    let sequence (read : Reader → Option (List Node × Reader)) : Option (Node × Reader) := do
      let tag := props.specificTag?.getD seqTag
      let (items, r) ← read (r.define props.anchor true (.sequence line tag []))
      let node := Node.sequence line tag items
      return (node, r.complete props.anchor node)
    let mapping (read : Reader → Option (List (Node × Node) × Reader)) :
        Option (Node × Reader) := do
      let tag := props.specificTag?.getD mapTag
      let (entries, r) ← read (r.define props.anchor true (.mapping line tag []))
      let node := Node.mapping line tag entries
      return (node, r.complete props.anchor node)
    let leaf (n : Node) (r : Reader) : Option (Node × Reader) :=
      some (n, r.define props.anchor false n)
    match token.kind with
    | .scalar value plain => leaf (scalarNode line props.specificTag? value plain) r.skip
    | .flowSequenceStart => sequence fun r => readFlowSequence fuel true r.skip
    | .flowMappingStart => mapping fun r => readFlowMapping fuel true r.skip
    | kind =>
      if indentless && kind = .blockEntry then sequence (readIndentlessSequence fuel)
      else if block && kind = .blockSequenceStart then
        sequence fun r => readBlockSequence fuel r.skip
      else if block && kind = .blockMappingStart then
        mapping fun r => readBlockMapping fuel r.skip
      else if props.isSome then leaf (scalarNode line props.specificTag? "" true) r
      else none

/-- Reads a node, or nothing in front of one of the tokens `stop`. -/
def readOptional : (fuel : Nat) → (block indentless : Bool) → (line : Nat) →
    (stop : List TokenKind) → Reader → Option (Node × Reader)
  | 0, _, _, _, _, _ => none
  | fuel + 1, block, indentless, line, stop, r => do
    let token ← r.peek
    if stop.contains token.kind then return (emptyNode line, r)
    else readNode fuel block indentless r

/-- Reads the entries of an indented sequence. -/
def readBlockSequence : (fuel : Nat) → Reader → Option (List Node × Reader)
  | 0, _ => none
  | fuel + 1, r => do
    let token ← r.peek
    match token.kind with
    | .blockEntry =>
      let stop := [TokenKind.blockEntry, .blockEnd]
      let (item, r) ← readOptional fuel true false (token.line + 1) stop r.skip
      let (items, r) ← readBlockSequence fuel r
      return (item :: items, r)
    | .blockEnd => return ([], r.skip)
    | _ => none

/-- Reads the entries of a sequence that is indented no further than its mapping. -/
def readIndentlessSequence : (fuel : Nat) → Reader → Option (List Node × Reader)
  | 0, _ => none
  | fuel + 1, r => do
    let token ← r.peek
    match token.kind with
    | .blockEntry =>
      let stop := [TokenKind.blockEntry, .key, .value, .blockEnd]
      let (item, r) ← readOptional fuel true false (token.line + 1) stop r.skip
      let (items, r) ← readIndentlessSequence fuel r
      return (item :: items, r)
    | _ => return ([], r)

/-- Reads the entries of a block mapping. -/
def readBlockMapping : (fuel : Nat) → Reader → Option (List (Node × Node) × Reader)
  | 0, _ => none
  | fuel + 1, r => do
    let token ← r.peek
    match token.kind with
    | .key =>
      let stop := [TokenKind.key, .value, .blockEnd]
      let (key, r) ← readOptional fuel true true (token.line + 1) stop r.skip
      let next ← r.peek
      let (value, r) ← if next.kind = .value then
          readOptional fuel true true (next.line + 1) stop r.skip
        else some (emptyNode (next.line + 1), r)
      let (entries, r) ← readBlockMapping fuel r
      return ((key, value) :: entries, r)
    | .blockEnd => return ([], r.skip)
    | _ => none

/-- Reads the entries of a sequence in brackets. An entry with a colon is a mapping of one
    entry. -/
def readFlowSequence : (fuel : Nat) → (isFirst : Bool) → Reader → Option (List Node × Reader)
  | 0, _, _ => none
  | fuel + 1, isFirst, r => do
    let token ← r.peek
    if token.kind = .flowSequenceEnd then return ([], r.skip)
    if !isFirst && token.kind ≠ .flowEntry then none
    let r := if isFirst then r else r.skip
    let token ← r.peek
    if token.kind = .flowSequenceEnd then return ([], r.skip)
    let stop := [TokenKind.flowEntry, .flowSequenceEnd]
    let (item, r) ← if token.kind = .key then do
        let r := r.skip
        let next ← r.peek
        -- A key that was left out takes the token after it along.
        let (key, r) ← if (TokenKind.value :: stop).contains next.kind then
            some (emptyNode (next.line + 1), r.skip)
          else readNode fuel false false r
        let next ← r.peek
        let (value, r) ← if next.kind = .value then
            readOptional fuel false false (next.line + 1) stop r.skip
          else some (emptyNode (next.line + 1), r)
        some (Node.mapping (token.line + 1) mapTag [(key, value)], r)
      else readNode fuel false false r
    let (items, r) ← readFlowSequence fuel false r
    return (item :: items, r)

/-- Reads the entries of a mapping in braces. -/
def readFlowMapping : (fuel : Nat) → (isFirst : Bool) → Reader →
    Option (List (Node × Node) × Reader)
  | 0, _, _ => none
  | fuel + 1, isFirst, r => do
    let token ← r.peek
    if token.kind = .flowMappingEnd then return ([], r.skip)
    if !isFirst && token.kind ≠ .flowEntry then none
    let r := if isFirst then r else r.skip
    let token ← r.peek
    if token.kind = .flowMappingEnd then return ([], r.skip)
    let stop := [TokenKind.flowEntry, .flowMappingEnd]
    let (entry, r) ← if token.kind = .key then do
        let r := r.skip
        let next ← r.peek
        let (key, r) ← readOptional fuel false false (next.line + 1) (.value :: stop) r
        let next ← r.peek
        let (value, r) ← if next.kind = .value then do
            let after ← r.skip.peek
            readOptional fuel false false (after.line + 1) stop r.skip
          else some (emptyNode (next.line + 1), r)
        some ((key, value), r)
      else do
        let (key, r) ← readNode fuel false false r
        let next ← r.peek
        some ((key, emptyNode (next.line + 1)), r)
    let (entries, r) ← readFlowMapping fuel false r
    return (entry :: entries, r)

end

/-- The directives in front of a document: one version at most, which must be 1.1, and one
    expansion at most for each handle. -/
def readDirectives : List Token → (version : Bool) → (handles : List (String × String)) →
    Option (List (String × String) × List Token)
  | ⟨.versionDirective major minor, _⟩ :: rest, version, handles =>
    if version || major != 1 || minor != 1 then none else readDirectives rest true handles
  | ⟨.tagDirective handle expansion, _⟩ :: rest, version, handles =>
    if handles.any (·.1 == handle) then none
    else readDirectives rest version (handles ++ [(handle, expansion)])
  | tokens, _, handles => some (handles, tokens)

/-- The handles that need no directive. -/
def defaultHandles : List (String × String) := [("!", "!"), ("!!", "tag:yaml.org,2002:")]

/-- Reads the content of a document whose start was marked. -/
def readMarkedContent (fuel : Nat) (r : Reader) : Option (Node × Reader) := do
  let token ← r.peek
  match token.kind with
  | .versionDirective _ _ | .tagDirective _ _ | .documentStart | .documentEnd | .streamEnd =>
    return (emptyNode (token.line + 1), r)
  | _ => readNode fuel true false r

/-- The first document of a list of tokens, if there is one. What follows a complete document is
    not looked at, but there must be a token. -/
def Node.ofTokens? (tokens : List Token) : Option (Option Node) := do
  let fuel := 4 * tokens.length + 8
  let first ← tokens.head?
  if first.kind = .streamEnd then return none
  let (handles, rest) ← readDirectives tokens false []
  let (marked, rest) ← match rest with
    | ⟨.documentStart, _⟩ :: rest => some (true, rest)
    | _ => if handles.isEmpty && rest.length == tokens.length then some (false, rest) else none
  let r : Reader := ⟨rest, [], handles ++ defaultHandles⟩
  let (root, r) ← if marked then readMarkedContent fuel r else readNode fuel true false r
  let _ ← r.peek
  return some root

/-- The first document of a text, if there is one. The text must be UTF-8. -/
def Node.parse? (text : Text) : Option (Option Node) :=
  if text.isValid then Node.ofTokens? (Token.scan text.chars) else none

end Yaml

end NetlinkSchema
