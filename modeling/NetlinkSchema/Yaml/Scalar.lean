import NetlinkSchema.Float.Format

/-!
# The meaning of plain scalars

A plain scalar stands for nothing, a boolean, an integer, a floating-point number, a point in time
or a text, by the look of its characters. An explicit tag narrows this down, and what does not look
like its tag is an error.

## Main definitions

* `Resolved`: What a scalar stands for.
* `resolvePlain`: The tag and the meaning of a plain scalar.
* `resolve`: The meaning of a scalar under a tag.
-/

namespace NetlinkSchema

namespace Yaml

/-- What a scalar stands for. A floating-point number is the bit pattern of a double. -/
inductive Resolved
  | null
  | bool (b : Bool)
  | int (n : Int)
  | float (bits : Nat)
  | timestamp
  | text
deriving DecidableEq

/-- The short forms of the standard tags. -/
def strTag : String := "!!str"
def nullTag : String := "!!null"
def boolTag : String := "!!bool"
def intTag : String := "!!int"
def floatTag : String := "!!float"
def timestampTag : String := "!!timestamp"
def binaryTag : String := "!!binary"
def mergeTag : String := "!!merge"
def seqTag : String := "!!seq"
def mapTag : String := "!!map"

/-- The short form of a tag: the standard tags begin with two exclamation marks. -/
def shortTag (tag : String) : String :=
  let long := "tag:yaml.org,2002:".toList
  if long.isPrefixOf tag.toList then String.ofList ('!' :: '!' :: tag.toList.drop long.length)
  else tag

/-- The value of a letter or digit in bases up to 36. -/
def digitValue (c : Char) : Nat :=
  if c.isDigit then c.toNat - 48
  else if 'a' ≤ c && c ≤ 'z' then c.toNat - 87
  else if 'A' ≤ c && c ≤ 'Z' then c.toNat - 55
  else 36

/-- The number that digits stand for; there must be at least one. -/
def parseDigits (base : Nat) (cs : List Char) : Option Nat :=
  if cs.isEmpty || cs.any fun c => base ≤ digitValue c then none
  else some (cs.foldl (fun n c => base * n + digitValue c) 0)

/-- The number of digits with a mark for the base in front. A leading zero alone marks octal
    digits. -/
def parseMagnitude : List Char → Option Nat
  | ['0'] => some 0
  | '0' :: mark :: digit :: rest =>
    let digits := digit :: rest
    match mark.toLower with
    | 'b' => parseDigits 2 digits
    | 'o' => parseDigits 8 digits
    | 'x' => parseDigits 16 digits
    | _ => parseDigits 8 (mark :: digits)
  | '0' :: rest => parseDigits 8 rest
  | cs => parseDigits 10 cs

/-- A signed number that fits 64 bits. -/
def parseSigned (magnitude : List Char → Option Nat) (cs : List Char) : Option Int := do
  let (negative, rest) := match cs with
    | '-' :: rest => (true, rest)
    | '+' :: rest => (false, rest)
    | _ => (false, cs)
  let n ← magnitude rest
  if negative then
    if n ≤ 0x8000000000000000 then some (-Int.ofNat n) else none
  else if n < 0x8000000000000000 then some (Int.ofNat n)
  else none

/-- A number without sign that fits 64 bits. -/
def parseUnsigned (magnitude : List Char → Option Nat) (cs : List Char) : Option Int := do
  let n ← magnitude cs
  if n < 0x10000000000000000 then some (Int.ofNat n) else none

/-- A number that fits 64 bits, signed or not. -/
def parseWord (magnitude : List Char → Option Nat) (cs : List Char) : Option Int :=
  parseSigned magnitude cs <|> parseUnsigned magnitude cs

/-- The parts of a decimal number: its digits without the point, and the power of ten of the last
    one. -/
structure DecimalParts where
  negative : Bool
  digits : List Char
  exponent : Int

/-- Splits a decimal number: digits on one side of the point at least, and an exponent perhaps. -/
def decimalParts? (cs : List Char) : Option DecimalParts := do
  let (negative, cs) := match cs with
    | '-' :: rest => (true, rest)
    | '+' :: rest => (false, rest)
    | _ => (false, cs)
  let whole := cs.takeWhile Char.isDigit
  let cs := cs.dropWhile Char.isDigit
  let (fraction, cs) := match cs with
    | '.' :: rest => (rest.takeWhile Char.isDigit, rest.dropWhile Char.isDigit)
    | _ => ([], cs)
  if whole.isEmpty && fraction.isEmpty then none
  else
    let scale : Int := -Int.ofNat fraction.length
    match cs with
    | [] => some ⟨negative, whole ++ fraction, scale⟩
    | e :: rest =>
      if e.toLower != 'e' then none
      else
        let (down, digits) := match rest with
          | '-' :: digits => (true, digits)
          | '+' :: digits => (false, digits)
          | _ => (false, rest)
        let power ← parseDigits 10 digits
        some ⟨negative, whole ++ fraction, scale + if down then -Int.ofNat power else power⟩

/-- The double nearest to a decimal number, if it is finite. Powers of ten far outside the range of
    doubles are decided without computing them. -/
def DecimalParts.toDouble? (d : DecimalParts) : Option Nat :=
  let m := (parseDigits 10 d.digits).getD 0
  let sign := FloatFormat.double.signBit d.negative
  let magnitude : Int := (Nat.toDigits 10 m).length + d.exponent
  if m == 0 || magnitude < -400 then some sign
  else if 400 < magnitude then none
  else
    let bits :=
      if d.exponent < 0 then FloatFormat.double.roundRatio m (Nat.pow 10 d.exponent.natAbs)
      else FloatFormat.double.roundRatio (m * Nat.pow 10 d.exponent.natAbs) 1
    if bits < FloatFormat.double.infinityBits then some (sign + bits) else none

/-- Whether every underscore stands between two digits. -/
def underscoresSeparate : (afterDigit : Bool) → List Char → Bool
  | _, [] => true
  | afterDigit, '_' :: rest =>
    afterDigit && (match rest with
      | c :: _ => c.isDigit
      | [] => false) && underscoresSeparate false rest
  | _, c :: rest => underscoresSeparate c.isDigit rest

/-- A number that begins with its decimal point. -/
def parseFraction (cs : List Char) : Option Nat :=
  if underscoresSeparate false cs then
    (decimalParts? (cs.filter (· != '_'))).bind DecimalParts.toDouble?
  else none

/-- A number of one or two digits, and what follows. -/
def readShortNumber (cs : List Char) : Option (Nat × List Char) :=
  let digits := (cs.take 2).takeWhile Char.isDigit
  (parseDigits 10 digits).map fun n => (n, cs.drop digits.length)

/-- What follows a given character. -/
def expectChar (c : Char) : List Char → Option (List Char)
  | d :: rest => if d == c then some rest else none
  | [] => none

/-- The number of days of a month. -/
def daysInMonth (year month : Nat) : Nat :=
  let leap := year % 4 == 0 && (year % 100 != 0 || year % 400 == 0)
  if month == 2 then (if leap then 29 else 28)
  else if month == 4 || month == 6 || month == 9 || month == 11 then 30
  else 31

/-- A time of day, and what follows its seconds and their fraction. -/
def readClock (cs : List Char) : Option (List Char) := do
  let (hour, cs) ← readShortNumber cs
  let (minute, cs) ← readShortNumber (← expectChar ':' cs)
  let (second, cs) ← readShortNumber (← expectChar ':' cs)
  if 24 ≤ hour || 60 ≤ minute || 60 ≤ second then none
  match cs with
  | point :: digit :: rest =>
    if (point == '.' || point == ',') && digit.isDigit then return rest.dropWhile Char.isDigit
    else return cs
  | _ => return cs

/-- Whether the characters are a time zone. -/
def isZone : List Char → Bool
  | ['Z'] => true
  | [sign, h1, h2, ':', m1, m2] =>
    let small (limit : Nat) (cs : List Char) : Bool := (parseDigits 10 cs).any (· ≤ limit)
    (sign == '+' || sign == '-') && small 24 [h1, h2] && small 60 [m1, m2]
  | _ => false

/-- Whether the characters are a date, perhaps with a time of day. -/
def isTimestamp (cs : List Char) : Bool :=
  let year := cs.takeWhile Char.isDigit
  let date := do
    let (month, rest) ← readShortNumber (← expectChar '-' (cs.drop 4))
    let (day, rest) ← readShortNumber (← expectChar '-' rest)
    let inYear := (parseDigits 10 year).any fun y => day ≤ daysInMonth y month
    if year.length != 4 || month < 1 || 12 < month || day < 1 || !inYear then none else some rest
  match date with
  | none => false
  | some [] => true
  | some (mark :: rest) =>
    if mark == 'T' || mark == 't' then (readClock rest).any isZone
    else mark == ' ' && (readClock (rest.dropWhile (· == ' '))).any List.isEmpty

/-- The scalars with a fixed meaning. -/
def fixedMeaning? (s : String) : Option (String × Resolved) :=
  let infinity := FloatFormat.double.infinityBits
  if ["", "~", "null", "Null", "NULL"].contains s then some (nullTag, .null)
  else if ["true", "True", "TRUE"].contains s then some (boolTag, .bool true)
  else if ["false", "False", "FALSE"].contains s then some (boolTag, .bool false)
  else if [".nan", ".NaN", ".NAN"].contains s then
    some (floatTag, .float (infinity + 0x8000000000000))
  else if [".inf", ".Inf", ".INF", "+.inf", "+.Inf", "+.INF"].contains s then
    some (floatTag, .float infinity)
  else if ["-.inf", "-.Inf", "-.INF"].contains s then
    some (floatTag, .float (FloatFormat.double.signBit true + infinity))
  else none

/-- The number after a mark for its base, whose digits may have a sign of their own. -/
def parseMarked (mark : Char) (base : Nat) : List Char → Option Int
  | '0' :: c :: rest => if c == mark then parseWord (parseDigits base) rest else none
  | '-' :: '0' :: c :: rest =>
    if c == mark then parseSigned (parseDigits base) ('-' :: rest) else none
  | _ => none

/-- The meaning of a scalar that begins with a digit or a sign. Dates count only if `dates` is
    set. -/
def numericMeaning (dates : Bool) (cs : List Char) : String × Resolved :=
  if dates && isTimestamp cs then (timestampTag, .timestamp)
  else
    let plain := cs.filter (· != '_')
    match parseWord parseMagnitude plain with
    | some n => (intTag, .int n)
    | none =>
      match (decimalParts? plain).bind DecimalParts.toDouble? with
      | some bits => (floatTag, .float bits)
      | none =>
        match parseMarked 'b' 2 plain <|> parseMarked 'o' 8 plain with
        | some n => (intTag, .int n)
        | none => (strTag, .text)

/-- What a scalar looks like. -/
def meaning (dates : Bool) (s : String) : String × Resolved :=
  match fixedMeaning? s with
  | some m => m
  | none =>
    match s.toList with
    | '.' :: _ =>
      match parseFraction s.toList with
      | some bits => (floatTag, .float bits)
      | none => (strTag, .text)
    | c :: _ =>
      if c.isDigit || c == '+' || c == '-' then numericMeaning dates s.toList else (strTag, .text)
    | [] => (strTag, .text)

/-- The tag and the meaning of a plain scalar without a tag. -/
def resolvePlain (s : String) : String × Resolved := meaning true s

/-- The meaning of a scalar under a tag; on failure, the tag that it looks like. A tag that is not
    a standard one makes it a text. An integer will do for a floating-point number. -/
def resolve (tag s : String) : Except String (String × Resolved) :=
  if tag == strTag then .ok (strTag, .text)
  else if !([boolTag, intTag, floatTag, nullTag, timestampTag].contains tag) then .ok (tag, .text)
  else
    let (found, value) := meaning (tag == timestampTag) s
    if found == tag then .ok (found, value)
    else
      match tag == floatTag, value with
      | true, .int n =>
        if n < 0x8000000000000000 then .ok (floatTag, .float (FloatFormat.double.ofInt n))
        else .error found
      | _, _ => .error found

end Yaml

end NetlinkSchema
