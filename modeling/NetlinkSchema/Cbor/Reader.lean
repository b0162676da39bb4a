import NetlinkSchema.Cbor.Item

/-!
# Reading CBOR

A byte string is read as one data item that takes up all of it. Arrays, maps and texts of unknown
length, which end with a mark of their own, are accepted. Items nest at most 32 levels deep, and a
collection has at most 131072 members.

## Main definitions

* `Cbor.Head`: The head of an item.
* `Cbor.decode?`: The data item of a byte string.
-/

namespace NetlinkSchema

namespace Cbor

/-- How deeply arrays and maps may nest. -/
def maxDepth : Nat := 32

/-- How many members a collection may have. -/
def maxMembers : Nat := 131072

/-- The head of an item: its major type, the low bits of its first byte, and its number. -/
structure Head where
  major : UInt8
  info : UInt8
  number : Nat

namespace Head

/-- Whether the item has no length of its own. -/
def isOpen (h : Head) : Bool := h.info == 31

/-- Reads a head. A simple value that fits one byte must be written as one. -/
def read : Bytes → Option (Head × Bytes)
  | [] => none
  | b :: rest =>
    let major := b / 32
    let info := b % 32
    let sized (size : Nat) : Option (Head × Bytes) :=
      if size ≤ rest.length then
        let number := Bytes.toNatBig (rest.take size)
        if major == 7 && size == 1 && number < 32 then none
        else some (⟨major, info, number⟩, rest.drop size)
      else none
    if info < 24 then some (⟨major, info, info.toNat⟩, rest)
    else if info == 24 then sized 1
    else if info == 25 then sized 2
    else if info == 26 then sized 4
    else if info == 27 then sized 8
    else if info == 31 && 2 ≤ major && major ≤ 5 then some (⟨major, info, 0⟩, rest)
    else none

end Head

/-- Splits off the first bytes, if there are as many. -/
def takeBytes (n : Nat) (b : Bytes) : Option (Bytes × Bytes) :=
  if n ≤ b.length then some (b.take n, b.drop n) else none

/-- Reads the pieces of a byte string or text of unknown length, up to its end mark. -/
def readPieces (major : UInt8) : (fuel : Nat) → Bytes → Option (List Bytes × Bytes)
  | 0, _ => none
  | _, 0xFF :: rest => some ([], rest)
  | fuel + 1, b => do
    let (h, rest) ← Head.read b
    if h.major != major || h.isOpen then none
    else
      let (part, rest) ← takeBytes h.number rest
      let (parts, rest) ← readPieces major fuel rest
      return (part :: parts, rest)

/-- Pairs up keys and values. -/
def pairUp : List Cbor → Option (List (Cbor × Cbor))
  | [] => some []
  | [_] => none
  | key :: value :: rest => (pairUp rest).map ((key, value) :: ·)

mutual

/-- Reads an item at a depth. -/
def readItem : (fuel : Nat) → (depth : Nat) → Bytes → Option (Cbor × Bytes)
  | 0, _, _ => none
  | fuel + 1, depth, b => do
    let (h, rest) ← Head.read b
    match h.major with
    | 0 => return (unsigned (UInt64.ofNat h.number), rest)
    | 1 => return (negative (UInt64.ofNat h.number), rest)
    | 2 =>
      if h.isOpen then
        let (parts, rest) ← readPieces 2 fuel rest
        return (bytes parts.flatten, rest)
      else
        let (content, rest) ← takeBytes h.number rest
        return (bytes content, rest)
    | 3 =>
      if h.isOpen then
        let (parts, rest) ← readPieces 3 fuel rest
        return (pieces (parts.map Text.mk), rest)
      else
        let (content, rest) ← takeBytes h.number rest
        return (text ⟨content⟩, rest)
    | 4 =>
      if maxDepth ≤ depth then none
      else
        let (items, rest) ← if h.isOpen then readOpen fuel (depth + 1) maxMembers rest
          else if maxMembers < h.number then none
          else readItems fuel (depth + 1) h.number rest
        return (array items, rest)
    | 5 =>
      if maxDepth ≤ depth then none
      else
        let (items, rest) ← if h.isOpen then readOpen fuel (depth + 1) (2 * maxMembers) rest
          else if maxMembers < h.number then none
          else readItems fuel (depth + 1) (2 * h.number) rest
        return (map (← pairUp items), rest)
    | 6 =>
      -- Only a tag right inside another tag counts as a level.
      let nested := match rest with
        | next :: _ => next / 32 == 6
        | [] => false
      if nested && maxDepth ≤ depth then none
      else
        let (content, rest) ← readItem fuel (if nested then depth + 1 else depth) rest
        return (tag (UInt64.ofNat h.number) content, rest)
    | _ =>
      if h.info == 25 then return (float 2 (UInt64.ofNat h.number), rest)
      else if h.info == 26 then return (float 4 (UInt64.ofNat h.number), rest)
      else if h.info == 27 then return (float 8 (UInt64.ofNat h.number), rest)
      else return (simple (UInt8.ofNat h.number), rest)

/-- Reads a number of items. -/
def readItems : (fuel : Nat) → (depth count : Nat) → Bytes → Option (List Cbor × Bytes)
  | _, _, 0, b => some ([], b)
  | 0, _, _, _ => none
  | fuel + 1, depth, count + 1, b => do
    let (item, rest) ← readItem fuel depth b
    let (items, rest) ← readItems fuel depth count rest
    return (item :: items, rest)

/-- Reads items up to an end mark. -/
def readOpen : (fuel : Nat) → (depth limit : Nat) → Bytes → Option (List Cbor × Bytes)
  | 0, _, _, _ => none
  | _, _, _, 0xFF :: rest => some ([], rest)
  | _, _, 0, _ => none
  | fuel + 1, depth, limit + 1, b => do
    let (item, rest) ← readItem fuel depth b
    let (items, rest) ← readOpen fuel depth limit rest
    return (item :: items, rest)

end

/-- The data item of a byte string, which must take up all of it. Each item takes at least one
    byte, which bounds the number of steps. -/
def decode? (b : Bytes) : Option Cbor :=
  match readItem (2 * b.length + 2) 0 b with
  | some (item, []) => some item
  | _ => none

end Cbor

end NetlinkSchema
