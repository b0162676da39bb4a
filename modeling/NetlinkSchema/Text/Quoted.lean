import NetlinkSchema.Text
import NetlinkSchema.Text.Category

/-!
# Quoted text

How messages show a name that may hold anything: between quotation marks, with the mark and the
backslash escaped, the usual letters for control characters, and the code in hexadecimal for
whatever else does not print. Bytes that are not UTF-8 are shown one by one.

## Main definitions

* `Text.quoted`: A text between double quotation marks.
* `Text.quotedChar`: A character between single quotation marks.
-/

namespace NetlinkSchema

namespace Text

/-- The `digits` low hexadecimal digits of a number. -/
def hexDigits : (digits : Nat) → Nat → List Char
  | 0, _ => []
  | digits + 1, n => hexDigits digits (n / 16) ++ [Nat.digitChar (n % 16)]

/-- The number in lower-case hexadecimal after `0x`. -/
def hexLiteral (n : Nat) : Text := ofString "0x" ++ ofChars (Nat.toDigits 16 n)

/-- The letter that stands for a control character after a backslash. -/
def controlLetter? (c : Char) : Option Char :=
  match c.toNat with
  | 7 => some 'a'
  | 8 => some 'b'
  | 12 => some 'f'
  | 10 => some 'n'
  | 13 => some 'r'
  | 9 => some 't'
  | 11 => some 'v'
  | _ => none

/-- A character as it stands between two marks `quote`. -/
def escapeChar (quote c : Char) : List Char :=
  if c == quote || c == '\\' then ['\\', c]
  else if isPrintable c then [c]
  else
    match controlLetter? c with
    | some l => ['\\', l]
    | none =>
      if c.toNat < 0x80 then '\\' :: 'x' :: hexDigits 2 c.toNat
      else if c.toNat < 0x10000 then '\\' :: 'u' :: hexDigits 4 c.toNat
      else '\\' :: 'U' :: hexDigits 8 c.toNat

/-- A character or a stray byte as it stands between two marks `quote`. -/
def escapeRune (quote : Char) : Rune → List Char
  | .char c => escapeChar quote c
  | .stray b => '\\' :: 'x' :: hexDigits 2 b.toNat

/-- The text between double quotation marks. -/
def quoted (t : Text) : Text :=
  ofChars ('"' :: (t.runes.flatMap (escapeRune '"') ++ ['"']))

/-- The single quotation mark. -/
def singleMark : Char := Char.ofNat 39

/-- A character between single quotation marks. -/
def quotedChar (c : Char) : Text :=
  ofChars (singleMark :: (escapeChar singleMark c ++ [singleMark]))

end Text

end NetlinkSchema
