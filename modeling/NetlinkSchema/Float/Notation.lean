import NetlinkSchema.Float.Shortest
import NetlinkSchema.Text

/-!
# Floating-point notation

Numbers are written with the shortest digits that read back, positionally while the power of ten
of the first digit lies in a window, and otherwise with an exponent of at least two digits.

## Main definitions

* `FloatNotation`: The window of positional notation.
* `FloatNotation.write`: The text of a floating-point number.
-/

namespace NetlinkSchema

/-- The magnitudes that are written positionally: from `least` on and below `limit`. -/
structure FloatNotation where
  least : Int
  limit : Int

namespace FloatNotation

/-- The notation of values in text and in messages: up to six digits before the point. -/
def plain : FloatNotation := ⟨-4, 6⟩

/-- The notation of numbers in JSON. -/
def json : FloatNotation := ⟨-6, 21⟩

/-- Digits with a point before the digit of power -1. -/
def positional (digits : List Char) (exponent : Int) : List Char :=
  if 0 ≤ exponent then digits ++ List.replicate exponent.natAbs '0'
  else if exponent.natAbs < digits.length then
    let whole := digits.length - exponent.natAbs
    digits.take whole ++ '.' :: digits.drop whole
  else '0' :: '.' :: (List.replicate (exponent.natAbs - digits.length) '0' ++ digits)

/-- One digit, the others after a point, and the power of ten of the first one. -/
def scientific (digits : List Char) (magnitude : Int) : List Char :=
  let fraction := match digits.drop 1 with
    | [] => []
    | rest => '.' :: rest
  let sign := if magnitude < 0 then '-' else '+'
  let power := Nat.toDigits 10 magnitude.natAbs
  let padded := if power.length < 2 then '0' :: power else power
  digits.take 1 ++ fraction ++ 'e' :: sign :: padded

/-- A decimal in the notation. -/
def writeDecimal (notat : FloatNotation) (d : Decimal) : List Char :=
  if notat.least ≤ d.magnitude && d.magnitude < notat.limit then
    positional d.digitChars d.exponent
  else scientific d.digitChars d.magnitude

/-- The text of a pattern. Zero keeps its sign, and so do the infinities. -/
def write (notat : FloatNotation) (f : FloatFormat) (bits : Nat) : Text :=
  match f.decode bits with
  | .nan _ _ => Text.ofString "NaN"
  | .infinity negative => Text.ofString (if negative then "-Inf" else "+Inf")
  | .finite negative significand exponent =>
    let magnitude := if significand == 0 then ['0']
      else notat.writeDecimal (f.shortest significand exponent)
    Text.ofChars (if negative then '-' :: magnitude else magnitude)

end FloatNotation

end NetlinkSchema
