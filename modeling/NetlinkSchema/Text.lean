import NetlinkSchema.Bytes

/-!
# Text

Names, documentation and messages are byte strings that are UTF-8 by convention only: a string
payload may hold any bytes, and so may a message that quotes it. `Text` keeps the bytes as they
are, and `Text.runes` reads them as characters, one byte at a time where they are not UTF-8.

## Main definitions

* `Text`: A byte string meant to be read.
* `Rune`: A character, or a byte that is part of none.
* `Text.runes`, `Text.ofRunes`: The reading of a text as characters and the text of characters.
* `Text.toString`: The text with each stray byte replaced by U+FFFD.
-/

namespace NetlinkSchema

/-- A byte string meant to be read, in UTF-8 by convention. -/
structure Text where
  utf8 : Bytes
deriving DecidableEq

namespace Text

/-- The UTF-8 encoding of a string. -/
def ofString (s : String) : Text := ⟨s.toByteArray.data.toList⟩

instance : Coe String Text := ⟨ofString⟩

instance : Append Text := ⟨fun a b => ⟨a.utf8 ++ b.utf8⟩⟩

instance : Inhabited Text := ⟨⟨[]⟩⟩

@[simp] theorem utf8_append (a b : Text) : (a ++ b).utf8 = a.utf8 ++ b.utf8 := rfl

/-- The text without characters. -/
def empty : Text := ⟨[]⟩

/-- Whether the text has no characters. -/
def isEmpty (t : Text) : Bool := t.utf8.isEmpty

/-- The number of bytes. -/
def size (t : Text) : Nat := t.utf8.length

/-- The order of names: bytewise. -/
def le (a b : Text) : Bool := Bytes.le a.utf8 b.utf8

/-- The texts one after another. -/
def concat (ts : List Text) : Text := ⟨ts.flatMap utf8⟩

/-- The texts one after another with `sep` between neighbours. -/
def join (sep : Text) : List Text → Text
  | [] => empty
  | t :: ts => concat (t :: ts.flatMap fun u => [sep, u])

/-- The number in decimal. -/
def ofInt (n : Int) : Text := ofString (toString n)

/-- The number in decimal. -/
def ofNat (n : Nat) : Text := ofString (toString n)

/-- Splits at every occurrence of a byte; there is always at least one piece. -/
def splitBytes (sep : UInt8) : Bytes → List Bytes
  | [] => [[]]
  | b :: rest =>
    match splitBytes sep rest with
    | [] => [[]]
    | piece :: pieces => if b == sep then [] :: piece :: pieces else (b :: piece) :: pieces

/-- Splits at every occurrence of an ASCII character. -/
def splitOn (t : Text) (sep : Char) : List Text :=
  (splitBytes (UInt8.ofNat sep.toNat) t.utf8).map fun b => ⟨b⟩

/-- The lines of a text; a final line break opens an empty last line. -/
def lines (t : Text) : List Text := t.splitOn '\n'

/-- Whether the text begins with another. -/
def startsWith (t pre : Text) : Bool := pre.utf8.isPrefixOf t.utf8

end Text

/-- A character of a text, or a byte that belongs to no character. -/
inductive Rune
  | char (c : Char)
  | stray (b : UInt8)
deriving DecidableEq

namespace Rune

/-- The UTF-8 encoding of a character; a stray byte stays as it is. -/
def encode : Rune → Bytes
  | char c => String.utf8EncodeChar c
  | stray b => [b]

/-- The character, with U+FFFD standing for a stray byte. -/
def toChar : Rune → Char
  | char c => c
  | stray _ => '�'

/-- Whether a byte continues a character of several bytes. -/
def isContinuation (b : UInt8) : Bool := 0x80 ≤ b && b ≤ 0xBF

/-- The least and greatest second byte after a leading byte: the bounds exclude encodings longer
    than needed, the surrogates, and numbers beyond the last code point. -/
def secondByteRange (lead : UInt8) : UInt8 × UInt8 :=
  if lead == 0xE0 then (0xA0, 0xBF)
  else if lead == 0xED then (0x80, 0x9F)
  else if lead == 0xF0 then (0x90, 0xBF)
  else if lead == 0xF4 then (0x80, 0x8F)
  else (0x80, 0xBF)

/-- Whether `second` may follow the leading byte `lead`. -/
def isSecond (lead second : UInt8) : Bool :=
  (secondByteRange lead).1 ≤ second && second ≤ (secondByteRange lead).2

/-- The six low bits of a continuation byte. -/
def payload (b : UInt8) : Nat := b.toNat % 64

/-- Reads bytes as UTF-8. Where no character starts, one byte is stray and reading goes on after
    it. -/
def decode : Bytes → List Rune
  | [] => []
  | b :: rest =>
    if b < 0x80 then char (Char.ofNat b.toNat) :: decode rest
    else if 0xC2 ≤ b && b ≤ 0xDF then
      match rest with
      | b1 :: rest1 =>
        if isContinuation b1 then
          char (Char.ofNat (b.toNat % 32 * 64 + payload b1)) :: decode rest1
        else stray b :: decode (b1 :: rest1)
      | [] => [stray b]
    else if 0xE0 ≤ b && b ≤ 0xEF then
      match rest with
      | b1 :: b2 :: rest2 =>
        if isSecond b b1 && isContinuation b2 then
          char (Char.ofNat (b.toNat % 16 * 4096 + payload b1 * 64 + payload b2)) :: decode rest2
        else stray b :: decode (b1 :: b2 :: rest2)
      | short => stray b :: decode short
    else if 0xF0 ≤ b && b ≤ 0xF4 then
      match rest with
      | b1 :: b2 :: b3 :: rest3 =>
        if isSecond b b1 && isContinuation b2 && isContinuation b3 then
          char (Char.ofNat (b.toNat % 8 * 262144 + payload b1 * 4096 + payload b2 * 64
            + payload b3)) :: decode rest3
        else stray b :: decode (b1 :: b2 :: b3 :: rest3)
      | short => stray b :: decode short
    else stray b :: decode rest

end Rune

namespace Text

/-- The characters of a text and its stray bytes, in order. -/
def runes (t : Text) : List Rune := Rune.decode t.utf8

/-- The text of a list of characters. -/
def ofRunes (rs : List Rune) : Text := ⟨rs.flatMap Rune.encode⟩

/-- The text of a list of characters. -/
def ofChars (cs : List Char) : Text := ⟨cs.flatMap String.utf8EncodeChar⟩

/-- The characters of a text, each stray byte read as U+FFFD. -/
def chars (t : Text) : List Char := t.runes.map Rune.toChar

/-- The text as a string, each stray byte replaced by U+FFFD. -/
def toString (t : Text) : String := String.ofList t.chars

/-- Whether the text has no stray bytes. -/
def isValid (t : Text) : Bool := t.runes.all fun
  | .char _ => true
  | .stray _ => false

end Text

end NetlinkSchema
