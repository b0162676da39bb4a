/-!
# Binary floating-point numbers

A floating-point number is handled as its bit pattern. A format says how many bits hold the
fraction and the exponent; a pattern is decoded into an exact multiple of a power of two, and an
exact quotient is rounded back to the nearest pattern, a tie going to the even one. Everything is
`Nat` and `Int` arithmetic.

## Main definitions

* `FloatFormat`, `FloatFormat.single`, `FloatFormat.double`: The widths of the fields.
* `FloatValue`: What a pattern stands for.
* `FloatFormat.decode`: The meaning of a pattern.
* `FloatFormat.roundRatio`: The pattern nearest to a quotient.
* `FloatFormat.convert`: The nearest pattern of another format.
-/

namespace NetlinkSchema

/-- The widths of the fields of a pattern: the sign takes one more bit. -/
structure FloatFormat where
  fractionBits : Nat
  exponentBits : Nat

/-- What a bit pattern stands for. A finite number is `significand * 2 ^ exponent`. -/
inductive FloatValue
  | nan (negative : Bool) (payload : Nat)
  | infinity (negative : Bool)
  | finite (negative : Bool) (significand : Nat) (exponent : Int)
deriving DecidableEq

namespace FloatFormat

/-- The 32-bit format. -/
def single : FloatFormat := ⟨23, 8⟩

/-- The 64-bit format. -/
def double : FloatFormat := ⟨52, 11⟩

/-- The exponent of the smallest positive number, which is also the spacing of the numbers next
    to zero. -/
def minExponent (f : FloatFormat) : Int :=
  2 - Int.ofNat (Nat.pow 2 (f.exponentBits - 1)) - f.fractionBits

/-- The magnitude bits of infinity: all exponent bits set. -/
def infinityBits (f : FloatFormat) : Nat :=
  (Nat.pow 2 f.exponentBits - 1) * Nat.pow 2 f.fractionBits

/-- The sign bit of a pattern. -/
def signBit (f : FloatFormat) (negative : Bool) : Nat :=
  if negative then Nat.pow 2 (f.fractionBits + f.exponentBits) else 0

/-- The meaning of a pattern. -/
def decode (f : FloatFormat) (bits : Nat) : FloatValue :=
  let fraction := bits % Nat.pow 2 f.fractionBits
  let exponent := bits / Nat.pow 2 f.fractionBits % Nat.pow 2 f.exponentBits
  let negative := bits / Nat.pow 2 (f.fractionBits + f.exponentBits) % 2 == 1
  if exponent == Nat.pow 2 f.exponentBits - 1 then
    if fraction == 0 then .infinity negative else .nan negative fraction
  else if exponent == 0 then .finite negative fraction f.minExponent
  else .finite negative (Nat.pow 2 f.fractionBits + fraction) (f.minExponent + exponent - 1)

/-- The quotient rounded to the nearest number, a tie going to the even one. -/
def divideToEven (num den : Nat) : Nat :=
  let quotient := num / den
  let twice := 2 * (num % den)
  if twice < den then quotient
  else if den < twice then quotient + 1
  else quotient + quotient % 2

/-- `num / den` as a fraction of `2 ^ exponent`. -/
def scaleBy (exponent : Int) (num den : Nat) : Nat × Nat :=
  if exponent < 0 then (num * Nat.pow 2 exponent.natAbs, den)
  else (num, den * Nat.pow 2 exponent.natAbs)

/-- The exponent at which `num / den` has exactly the significand bits that the format holds,
    but at least the smallest one. -/
def ratioExponent (f : FloatFormat) (num den : Nat) : Int :=
  let guess : Int := Int.ofNat num.log2 - Int.ofNat den.log2 - f.fractionBits
  let (n, d) := scaleBy guess num den
  let exact := if n < d * Nat.pow 2 f.fractionBits then guess - 1 else guess
  max exact f.minExponent

/-- The magnitude bits nearest to `num / den`, for a positive `den`; infinity if the quotient is
    too large. A significand that rounds up to the next power of two carries into the exponent
    field, which is the pattern of that power. -/
def roundRatio (f : FloatFormat) (num den : Nat) : Nat :=
  if num == 0 then 0
  else
    let exponent := f.ratioExponent num den
    let (n, d) := scaleBy exponent num den
    let bits := (exponent - f.minExponent).toNat * Nat.pow 2 f.fractionBits + divideToEven n d
    min bits f.infinityBits

/-- The pattern nearest to an integer. -/
def ofInt (f : FloatFormat) (x : Int) : Nat :=
  f.signBit (decide (x < 0)) + f.roundRatio x.natAbs 1

/-- Moves the payload of a NaN to a field of another width, keeping its leading bits, and marks
    it as quiet. -/
def quietPayload (source target : FloatFormat) (payload : Nat) : Nat :=
  let moved := payload * Nat.pow 2 target.fractionBits / Nat.pow 2 source.fractionBits
  let quiet := Nat.pow 2 (target.fractionBits - 1)
  quiet + moved % quiet

/-- The nearest pattern of another format. -/
def convert (source target : FloatFormat) (bits : Nat) : Nat :=
  match source.decode bits with
  | .nan negative payload =>
    target.signBit negative + target.infinityBits + quietPayload source target payload
  | .infinity negative => target.signBit negative + target.infinityBits
  | .finite negative significand exponent =>
    let (n, d) := scaleBy (-exponent) significand 1
    target.signBit negative + target.roundRatio n d

end FloatFormat

end NetlinkSchema
