/-!
# Byte strings

Buffers are lists of bytes. A buffer is read as one number in either byte order, and written
back at a given width; both readings are plain `Nat` arithmetic, so that what a number occupies
on the wire can be computed and reasoned about without machine words.

## Main definitions

* `Bytes`: A byte string.
* `Bytes.toNatLittle`, `Bytes.ofNatLittle`: The little-endian reading and its inverse.
* `Bytes.toHex`, `Bytes.ofHexDigits?`: Two hexadecimal digits per byte.
* `Bytes.le`: The lexicographic order.
-/

namespace NetlinkSchema

/-- A byte string, such as a payload or a whole message. -/
abbrev Bytes := List UInt8

namespace Bytes

/-- The number whose least significant byte comes first. -/
def toNatLittle : Bytes → Nat
  | [] => 0
  | b :: rest => b.toNat + 256 * toNatLittle rest

/-- The `size` low bytes of a number, least significant first. -/
def ofNatLittle : (size : Nat) → Nat → Bytes
  | 0, _ => []
  | size + 1, n => UInt8.ofNat n :: ofNatLittle size (n / 256)

/-- The number whose most significant byte comes first. -/
def toNatBig (b : Bytes) : Nat := toNatLittle b.reverse

/-- The `size` low bytes of a number, most significant first. -/
def ofNatBig (size n : Nat) : Bytes := (ofNatLittle size n).reverse

@[simp] theorem length_ofNatLittle (size n : Nat) : (ofNatLittle size n).length = size := by
  induction size generalizing n with
  | zero => rfl
  | succ size ih => simp [ofNatLittle, ih]

@[simp] theorem length_ofNatBig (size n : Nat) : (ofNatBig size n).length = size := by
  simp [ofNatBig]

/-- Lexicographic order, a proper initial part coming first. -/
def le : Bytes → Bytes → Bool
  | [], _ => true
  | _ :: _, [] => false
  | a :: as, b :: bs => a < b || (a == b && le as bs)

/-- Replaces the first bytes of a buffer, as far as the buffer reaches. -/
def overwrite (buffer new : Bytes) : Bytes :=
  new.take buffer.length ++ buffer.drop new.length

/-- `n` zero bytes. -/
def zeros (n : Nat) : Bytes := List.replicate n 0

/-- The lower-case hexadecimal digit of a number below sixteen. -/
def hexDigit (n : Nat) : Char := Nat.digitChar n

/-- Two lower-case hexadecimal digits per byte. -/
def toHex (b : Bytes) : String :=
  String.ofList (b.flatMap fun x => [hexDigit (x.toNat / 16), hexDigit (x.toNat % 16)])

/-- The value of a hexadecimal digit of either case. -/
def hexValue? (c : UInt8) : Option Nat :=
  if 48 ≤ c && c ≤ 57 then some (c.toNat - 48)
  else if 97 ≤ c && c ≤ 102 then some (c.toNat - 87)
  else if 65 ≤ c && c ≤ 70 then some (c.toNat - 55)
  else none

/-- Why hexadecimal digits could not be read. -/
inductive HexError
  | invalid (byte : UInt8)
  | oddLength
deriving DecidableEq

/-- Reads hexadecimal digits in pairs. A character that is no digit is reported even when the
    count of characters is odd as well. -/
def ofHexDigits? : Bytes → Except HexError Bytes
  | [] => .ok []
  | [hi] =>
    match hexValue? hi with
    | none => .error (.invalid hi)
    | some _ => .error .oddLength
  | hi :: lo :: rest =>
    match hexValue? hi, hexValue? lo with
    | none, _ => .error (.invalid hi)
    | _, none => .error (.invalid lo)
    | some h, some l => (ofHexDigits? rest).map (UInt8.ofNat (16 * h + l) :: ·)

end Bytes

/-- Inserts an element in front of the first element that it does not exceed. -/
def insertOrdered {α : Type _} (le : α → α → Bool) (x : α) : List α → List α
  | [] => [x]
  | y :: ys => if le x y then x :: y :: ys else y :: insertOrdered le x ys

/-- Stable sorting by insertion. -/
def sortBy {α : Type _} (le : α → α → Bool) : List α → List α
  | [] => []
  | x :: xs => insertOrdered le x (sortBy le xs)

end NetlinkSchema
