import NetlinkSchema.Text

/-!
# Base64

Bytes in groups of three as four characters, the last group filled up with equals signs. Reading
skips line breaks between the characters.

## Main definitions

* `Base64.encode`: The characters of a byte string.
* `Base64.decode?`: The bytes of a text.
-/

namespace NetlinkSchema

namespace Base64

/-- The character of a number below 64. -/
def digit (n : Nat) : UInt8 :=
  if n < 26 then UInt8.ofNat (65 + n)
  else if n < 52 then UInt8.ofNat (71 + n)
  else if n < 62 then UInt8.ofNat (n - 4)
  else if n == 62 then 43
  else 47

/-- The number of a character. -/
def digitValue? (c : UInt8) : Option Nat :=
  if 65 ≤ c && c ≤ 90 then some (c.toNat - 65)
  else if 97 ≤ c && c ≤ 122 then some (c.toNat - 71)
  else if 48 ≤ c && c ≤ 57 then some (c.toNat + 4)
  else if c == 43 then some 62
  else if c == 47 then some 63
  else none

/-- The equals sign. -/
def fill : UInt8 := 61

/-- The characters of a byte string. -/
def encode : Bytes → Bytes
  | [] => []
  | [a] => [digit (a.toNat / 4), digit (a.toNat % 4 * 16), fill, fill]
  | [a, b] =>
    [digit (a.toNat / 4), digit (a.toNat % 4 * 16 + b.toNat / 16), digit (b.toNat % 16 * 4), fill]
  | a :: b :: c :: rest =>
    digit (a.toNat / 4) :: digit (a.toNat % 4 * 16 + b.toNat / 16)
      :: digit (b.toNat % 16 * 4 + c.toNat / 64) :: digit (c.toNat % 64) :: encode rest

/-- The bytes of characters without line breaks. -/
def decodeGroups : Bytes → Option Bytes
  | [] => some []
  | [p, q, r, s] =>
    if s == fill then
      if r == fill then do
        let a ← digitValue? p
        let b ← digitValue? q
        return [UInt8.ofNat (a * 4 + b / 16)]
      else do
        let a ← digitValue? p
        let b ← digitValue? q
        let c ← digitValue? r
        return [UInt8.ofNat (a * 4 + b / 16), UInt8.ofNat (b % 16 * 16 + c / 4)]
    else group p q r s
  | p :: q :: r :: s :: rest => do
    let first ← group p q r s
    let others ← decodeGroups rest
    return first ++ others
  | _ => none
where
  /-- The bytes of four characters. -/
  group (p q r s : UInt8) : Option Bytes := do
    let a ← digitValue? p
    let b ← digitValue? q
    let c ← digitValue? r
    let d ← digitValue? s
    return [UInt8.ofNat (a * 4 + b / 16), UInt8.ofNat (b % 16 * 16 + c / 4),
      UInt8.ofNat (c % 4 * 64 + d)]

/-- The bytes of a text, line breaks left aside. -/
def decode? (b : Bytes) : Option Bytes :=
  decodeGroups (b.filter fun c => c != 10 && c != 13)

end Base64

end NetlinkSchema
