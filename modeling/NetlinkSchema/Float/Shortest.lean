import NetlinkSchema.Float.Format

/-!
# Shortest decimals

The decimal with the fewest digits that reads back as a given floating-point number, and the
nearest such decimal if there are several. A decimal reads back if it lies between the two points
halfway to the neighbouring numbers; the points themselves count if the significand is even,
because reading rounds ties to even.

## Main definitions

* `Decimal`: A number in decimal notation.
* `FloatFormat.shortest`: The shortest decimal that reads back.
-/

namespace NetlinkSchema

/-- The number `digits * 10 ^ exponent`. -/
structure Decimal where
  digits : Nat
  exponent : Int
deriving DecidableEq

namespace Decimal

/-- The digits from the most significant one on. -/
def digitChars (d : Decimal) : List Char := Nat.toDigits 10 d.digits

/-- The power of ten of the most significant digit. -/
def magnitude (d : Decimal) : Int := d.exponent + d.digitChars.length - 1

end Decimal

/-- The interval of numbers that read back, in units of a quarter of the significand's last
    place. -/
structure ReadBack where
  low : Nat
  high : Nat
  closed : Bool

namespace ReadBack

/-- Whether `num / den`, in the interval's units, lies in the interval. -/
def contains (i : ReadBack) (num den : Nat) : Bool :=
  if i.closed then i.low * den ≤ num && num ≤ i.high * den
  else i.low * den < num && num < i.high * den

end ReadBack

namespace FloatFormat

/-- The interval around `significand * 2 ^ exponent`: below a power of two the spacing is half of
    what it is above. -/
def readBack (f : FloatFormat) (significand : Nat) (exponent : Int) : ReadBack :=
  let lowGap := if significand == Nat.pow 2 f.fractionBits && f.minExponent < exponent then 1 else 2
  ⟨4 * significand - lowGap, 4 * significand + 2, significand % 2 == 0⟩

/-- The least `k` with `num / den < 10 ^ k`, for a positive quotient. -/
def decimalMagnitude (num den : Nat) : Int :=
  if den ≤ num then (Nat.toDigits 10 (num / den)).length
  else
    let places := (Nat.toDigits 10 (den / num)).length
    if num * Nat.pow 10 (places - 1) == den then 2 - Int.ofNat places else 1 - Int.ofNat places

/-- The multiples of `10 ^ exponent` on either side of `num / den`, the nearer one first, a tie
    going to the even multiple. -/
def gridNeighbours (num den : Nat) (exponent : Int) : List Nat :=
  let n := if exponent < 0 then num * Nat.pow 10 exponent.natAbs else num
  let d := if exponent < 0 then den else den * Nat.pow 10 exponent.natAbs
  let below := n / d
  let nearest := divideToEven n d
  if nearest == below then [below, below + 1] else [below + 1, below]

/-- Tries one more digit at a time until a neighbour on the decimal grid reads back. -/
def searchDigits (num den : Nat) (reads : Nat → Int → Bool) (magnitude : Int) :
    (tries digits : Nat) → Decimal
  | 0, digits =>
    let exponent := magnitude - digits
    ⟨(gridNeighbours num den exponent).headD 0, exponent⟩
  | tries + 1, digits =>
    let exponent := magnitude - digits
    match (gridNeighbours num den exponent).find? (reads · exponent) with
    | some d => ⟨d, exponent⟩
    | none => searchDigits num den reads magnitude tries (digits + 1)

/-- Removes trailing zeros. -/
def trimZeros : (fuel : Nat) → Decimal → Decimal
  | 0, d => d
  | fuel + 1, d =>
    if d.digits % 10 == 0 then trimZeros fuel ⟨d.digits / 10, d.exponent + 1⟩ else d

/-- The shortest decimal that reads back as `significand * 2 ^ exponent`, for a positive
    significand. Seventeen digits are enough for the formats in use. -/
def shortest (f : FloatFormat) (significand : Nat) (exponent : Int) : Decimal :=
  let (num, den) := scaleBy (-exponent) significand 1
  let interval := f.readBack significand exponent
  let reads (d : Nat) (e : Int) : Bool :=
    let n := if e < 0 then d else d * Nat.pow 10 e.natAbs
    let m := if e < 0 then Nat.pow 10 e.natAbs else 1
    let (n', m') := scaleBy (exponent - 2) n m
    interval.contains n' m'
  let found := searchDigits num den reads (decimalMagnitude num den) 17 1
  trimZeros (Nat.toDigits 10 found.digits).length found

end FloatFormat

end NetlinkSchema
