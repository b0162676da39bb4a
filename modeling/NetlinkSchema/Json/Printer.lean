import NetlinkSchema.Text.Base64
import NetlinkSchema.Text.Quoted
import NetlinkSchema.Value

/-!
# JSON

JSON texts on one line, or indented by two blanks a level. Strings are written so that they can
stand in a web page, unless the style says otherwise.

A decoded value becomes JSON with the fields of objects sorted by name and byte strings in base64.
There is no JSON for numbers that are not finite.

## Main definitions

* `Json`: A JSON value.
* `Json.compact`, `Json.pretty`: Its text.
* `Value.toJson`: The JSON of a decoded value.
-/

namespace NetlinkSchema

/-- A JSON value. A number is its text. -/
inductive Json
  | null
  | bool (b : Bool)
  | number (t : Text)
  | string (t : Text)
  | array (items : List Json)
  | object (fields : List (Text × Json))

namespace Json

/-- Which characters of a string are escaped besides those that must be. -/
structure StringStyle where
  /-- Whether the brackets and the ampersand of web pages are escaped. -/
  webSafe : Bool

/-- The escape of a character by its number. -/
def numericEscape (n : Nat) : List Char := '\\' :: 'u' :: Text.hexDigits 4 n

/-- A character in a string. Line separators beyond ASCII are always escaped. -/
def escapeChar (style : StringStyle) (c : Char) : List Char :=
  if c == '"' || c == '\\' then ['\\', c]
  else if c == '\n' then ['\\', 'n']
  else if c == '\r' then ['\\', 'r']
  else if c == '\t' then ['\\', 't']
  else if c.toNat < 0x20 || c.toNat == 0x2028 || c.toNat == 0x2029 then numericEscape c.toNat
  else if style.webSafe && (c == '<' || c == '>' || c == '&') then numericEscape c.toNat
  else [c]

/-- A rune in a string: a stray byte is written as the escape of U+FFFD. -/
def escapeRune (style : StringStyle) : Rune → List Char
  | .char c => escapeChar style c
  | .stray _ => numericEscape 0xFFFD

/-- A string in quotation marks. -/
def quote (style : StringStyle) (t : Text) : Text :=
  Text.ofChars ('"' :: t.runes.flatMap (escapeRune style) ++ ['"'])

/-- Pieces between brackets, with commas between them. -/
def bracketed (opening closing : Text) (pieces : List Text) : Text :=
  opening ++ Text.join "," pieces ++ closing

mutual

/-- The text of a value on one line. -/
def compact (style : StringStyle) : Json → Text
  | null => "null"
  | bool b => if b then "true" else "false"
  | number t => t
  | string t => quote style t
  | array items => bracketed "[" "]" (compactItems style items)
  | object fields => bracketed "\x7b" "\x7d" (compactFields style fields)

/-- The texts of items. -/
def compactItems (style : StringStyle) : List Json → List Text
  | [] => []
  | item :: rest => item.compact style :: compactItems style rest

/-- The texts of fields. -/
def compactFields (style : StringStyle) : List (Text × Json) → List Text
  | [] => []
  | (name, value) :: rest =>
    (quote style name ++ ":" ++ value.compact style) :: compactFields style rest

end

/-- A line break and two blanks for each level. -/
def newLine (level : Nat) : Text := "\n" ++ ⟨List.replicate (2 * level) 32⟩

/-- Pieces between brackets, each on its line. Nothing stands between the brackets if there are no
    pieces. -/
def indented (level : Nat) (opening closing : Text) (pieces : List Text) : Text :=
  if pieces.isEmpty then opening ++ closing
  else
    opening ++ Text.join "," (pieces.map (newLine (level + 1) ++ ·)) ++ newLine level ++ closing

mutual

/-- The indented text of a value at a level. -/
def prettyAt (level : Nat) : Json → Text
  | null => "null"
  | bool b => if b then "true" else "false"
  | number t => t
  | string t => quote ⟨true⟩ t
  | array items => indented level "[" "]" (prettyItems (level + 1) items)
  | object fields => indented level "\x7b" "\x7d" (prettyFields (level + 1) fields)

/-- The indented texts of items. -/
def prettyItems (level : Nat) : List Json → List Text
  | [] => []
  | item :: rest => item.prettyAt level :: prettyItems level rest

/-- The indented texts of fields. -/
def prettyFields (level : Nat) : List (Text × Json) → List Text
  | [] => []
  | (name, value) :: rest =>
    (quote ⟨true⟩ name ++ ": " ++ value.prettyAt level) :: prettyFields level rest

end

/-- The indented text of a value. -/
def pretty (j : Json) : Text := j.prettyAt 0

/-- A field. -/
def field (name : Text) (value : Json) : List (Text × Json) := [(name, value)]

/-- The JSON of an integer. -/
def int (n : Int) : Json := number (Text.ofInt n)

/-- The JSON of texts. -/
def texts (ts : List Text) : Json := array (ts.map string)

end Json

/-- A number that JSON has no notation for. -/
structure JsonError where
  shown : Text
deriving DecidableEq

namespace JsonError

/-- The text of an error. -/
def message (e : JsonError) : Text := "json: unsupported value: " ++ e.shown

end JsonError

namespace Value

/-- The JSON of a floating-point number, which must be finite. -/
def floatToJson (fmt : FloatFormat) (bits : Nat) : Except JsonError Json :=
  match fmt.decode bits with
  | .finite _ _ _ => .ok (.number (FloatNotation.json.write fmt bits))
  | _ => .error ⟨FloatNotation.plain.write fmt bits⟩

/-- Fields in the order of their names; the first error among them counts. -/
def sortedFields (fields : List (Text × Except JsonError Json)) : Except JsonError Json := do
  let sorted ← (sortBy (fun a b => a.1.le b.1) fields).mapM fun f => do
    let value ← f.2
    return (f.1, value)
  return .object sorted

mutual

/-- The JSON of a value. -/
def toJson : Value → Except JsonError Json
  | null => .ok .null
  | bool b => .ok (.bool b)
  | int i => .ok (.number i.toText)
  | float32 bits => floatToJson .single bits.toNat
  | float64 bits => floatToJson .double bits.toNat
  | text t => .ok (.string t)
  | bytes b => .ok (.string ⟨Base64.encode b⟩)
  | object fields => sortedFields (fieldsToJson fields)
  | list items => do
    let items ← itemsToJson items
    return .array items
  | map entries => sortedFields (entriesToJson entries)
  | intMap entries => sortedFields (intEntriesToJson entries)
  | textMap entries => sortedFields (entries.map fun e => (e.1, .ok (.string e.2)))
  | texts items => .ok (.texts items)
  | ints type _ items => .ok (.array (items.map fun x => .int (type.reduce x)))

/-- The JSON of the items of a list. -/
def itemsToJson : List Value → Except JsonError (List Json)
  | [] => .ok []
  | v :: rest => do
    let item ← v.toJson
    let items ← itemsToJson rest
    return item :: items

/-- The JSON of the fields of an object. -/
def fieldsToJson : List (Text × Value) → List (Text × Except JsonError Json)
  | [] => []
  | (name, v) :: rest => (name, v.toJson) :: fieldsToJson rest

/-- The JSON of the entries of a map, whose keys become names. -/
def entriesToJson : List (UInt16 × Value) → List (Text × Except JsonError Json)
  | [] => []
  | (key, v) :: rest => (Text.ofNat key.toNat, v.toJson) :: entriesToJson rest

/-- The JSON of the entries of a map, whose keys become names. -/
def intEntriesToJson : List (Int64 × Value) → List (Text × Except JsonError Json)
  | [] => []
  | (key, v) :: rest => (Text.ofInt key.toInt, v.toJson) :: intEntriesToJson rest

end

end Value

end NetlinkSchema
