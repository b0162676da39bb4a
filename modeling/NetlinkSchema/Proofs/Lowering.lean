import NetlinkSchema.Codec.Lowering
import NetlinkSchema.Proofs.Enum
import NetlinkSchema.Proofs.Number

/-!
# Lowered integers

An integer field, whatever its meaning, is read from any bytes of its size. Names and flags lose
nothing, so the value is written as the bytes that were read. A bitmask drops the bits that no
number of its enum stands for; but the bytes that are written then are read as the same value, and
everything that is ever written is already free of such bits.

`Lowering.Canonical` names the bytes that survive reading and writing. The round trips of structs
and attributes are built from the three facts about it: what is written is canonical, every value
that is read has canonical bytes, and zeros are canonical.

## Main definitions

* `Lowering.WellFormed`: The enum or flags type of a meaning is well formed.
* `Lowering.Canonical`: Bytes that are written again after they were read.

## Theorems

* `Lowering.canonical_of_toBytes`: What is written is canonical.
* `Lowering.exists_canonical`: What is read is also read from canonical bytes.
* `Lowering.canonical_zeros`: Zeros are canonical.
-/

namespace NetlinkSchema

namespace Lowering

/-- The enum or flags type of a meaning is well formed. -/
def WellFormed : Lowering → Prop
  | none => True
  | enum e => e.WellFormed
  | bitmask e => e.WellFormed
  | flags f => f.WellFormed

/-- Bytes of the right length that are written again after they were read. -/
def Canonical (l : Lowering) (num : Number) (b : Bytes) : Prop :=
  b.length = num.size ∧ l.toBytes num (l.read num b) = .ok b

/-- The bits of a bitmask are those of the buffer. -/
theorem read_bitmask (e : EnumType) (num : Number) (b : Bytes) :
    (bitmask e).read num b = .object (e.decodeBitmask (num.readBits b)) := by
  rw [read, num.rawBits_read]

/-- The bits of flags are those of the buffer. -/
theorem read_flags (f : FlagsType) (num : Number) (b : Bytes) :
    (flags f).read num b = .object (f.decode (num.readBits b)) := by
  rw [read, num.rawBits_read]

-- A value that is read is never absent: an absent value would be written by other means.
theorem isNull_read (l : Lowering) (num : Number) (b : Bytes) :
    (l.read num b).isNull = false := by
  have hnum : (num.read b).isNull = false := by
    rcases num with ⟨kind, order⟩
    cases kind with
    | unsigned w => rfl
    | signed w => rfl
    | float32 => rfl
    | float64 => rfl
  cases l with
  | none => exact hnum
  | enum e =>
      rw [read, EnumType.decodeName]
      split
      · rfl
      · exact hnum
  | bitmask e => rfl
  | flags f => rfl

section Object

variable {num : Number} {want : Text} {encode : Object → Except WireError UInt64}

theorem objectBytes_eq_ok {v : Value} {b : Bytes} (h : objectBytes num want v encode = .ok b) :
    ∃ obj bits, v = .object obj ∧ encode obj = .ok bits ∧ bits.toNat < 2 ^ (8 * num.size) ∧
      b = num.bitsToBytes bits := by
  cases v with
  | object obj =>
      rcases bind_eq_ok_iff.1 h with ⟨bits, hbits, hrest⟩
      rcases bind_eq_ok_iff.1 hrest with ⟨u, hcheck, hb⟩
      cases hb
      exact ⟨obj, bits, rfl, hbits, num.checkBits_eq_ok_iff.1 hcheck, rfl⟩
  | _ => cases h

theorem objectBytes_of_encode {obj : Object} {bits : UInt64} (h : encode obj = .ok bits)
    (hlt : bits.toNat < 2 ^ (8 * num.size)) :
    objectBytes num want (.object obj) encode = .ok (num.bitsToBytes bits) := by
  rw [objectBytes, h, ok_bind, num.checkBits_eq_ok_iff.2 hlt, ok_bind, pure_eq_ok]

end Object

/-- A name is written as the number that it was read from. -/
theorem toBytes_read_enum {e : EnumType} (h : (e.values.map EnumValue.name).Nodup) {num : Number}
    {b : Bytes} (hb : b.length = num.size) :
    (enum e).toBytes num ((enum e).read num b) = .ok b := by
  rw [toBytes, read, EnumType.decodeName]
  cases hname : (num.read b).toInt64?.bind e.nameOf? with
  | none =>
      -- A number without a name is left as it is.
      have hnotext : ∀ t, num.read b ≠ .text t := by
        intro t
        rcases num with ⟨kind, order⟩
        cases kind with
        | unsigned w => exact nofun
        | signed w => exact nofun
        | float32 => exact nofun
        | float64 => exact nofun
      have hself : e.encodeName (num.read b) = .ok (num.read b) := by
        cases hv : num.read b with
        | text t => exact absurd hv (hnotext t)
        | _ => rfl
      rw [hself, ok_bind]
      exact num.put_read hb
  | some name =>
      rcases Option.bind_eq_some_iff.1 hname with ⟨x, hx, hxname⟩
      -- Only an integer that fits a signed word has a name, and the word has its value.
      have hint : ∃ i, num.read b = .int i ∧ i.toInt64? = some x := by
        cases hv : num.read b with
        | int i => exact ⟨i, rfl, by rw [← hx, hv]; rfl⟩
        | _ => rw [hv] at hx; cases hx
      rcases hint with ⟨i, hread, hix⟩
      have hfloat : num.isFloat = false := by
        by_contra hf
        rw [Number.toInt64?_read_of_isFloat (Bool.not_eq_false _ ▸ hf)] at hx
        cases hx
      have hval : (Integer.wrap .int64 x.toInt).val = i.val :=
        (Integer.val_wrap_int64 x).trans (Integer.toInt_of_toInt64? hix)
      have hnumber : e.encodeName (.text name) = .ok (.ofInt .int64 x.toInt) := by
        rw [EnumType.encodeName, EnumType.valueOf?_nameOf? h hxname]
      simp only [hnumber, ok_bind]
      rw [Value.ofInt, Number.put_int_congr hfloat hval, ← hread]
      exact num.put_read hb

theorem toBytes_read_flags {f : FlagsType} (h : f.WellFormed) {num : Number} {b : Bytes}
    (hb : b.length = num.size) : (flags f).toBytes num ((flags f).read num b) = .ok b := by
  rw [toBytes, read_flags, objectBytes_of_encode (FlagsType.encode_decode h _) (num.readBits_lt b),
    num.bitsToBytes_readBits hb]

/-- A bitmask is written without the bits that no number stands for. -/
theorem toBytes_read_bitmask {e : EnumType} (h : e.WellFormed) (num : Number) (b : Bytes) :
    (bitmask e).toBytes num ((bitmask e).read num b)
      = .ok (num.bitsToBytes (num.readBits b &&& e.mask)) := by
  have hlt : (num.readBits b &&& e.mask).toNat < 2 ^ (8 * num.size) := by
    rw [UInt64.toNat_and]
    exact Nat.lt_of_le_of_lt Nat.and_le_left (num.readBits_lt b)
  rw [toBytes, read_bitmask,
    objectBytes_of_encode (EnumType.encodeBitmask_decodeBitmask h.readsBack _) hlt]

-- Bits that fit are read back, so canonical patterns are those without foreign bits.
theorem canonical_bitmask {e : EnumType} (h : e.WellFormed) {num : Number} {bits : UInt64}
    (hlt : bits.toNat < 2 ^ (8 * num.size)) (hmask : bits &&& e.mask = bits) :
    (bitmask e).Canonical num (num.bitsToBytes bits) := by
  refine ⟨num.length_bitsToBytes bits, ?_⟩
  rw [toBytes_read_bitmask h, num.readBits_bitsToBytes hlt, hmask]

variable {l : Lowering} {num : Number}

/-- What is written is canonical. -/
theorem canonical_of_toBytes (h : l.WellFormed) {v : Value} {b : Bytes}
    (henc : l.toBytes num v = .ok b) : l.Canonical num b := by
  cases l with
  | none =>
      have hb := Number.length_of_put henc
      exact ⟨hb, num.put_read hb⟩
  | enum e =>
      rcases bind_eq_ok_iff.1 henc with ⟨raw, -, hraw⟩
      have hb := Number.length_of_put hraw
      exact ⟨hb, toBytes_read_enum (EnumType.WellFormed.distinct h) hb⟩
  | bitmask e =>
      rcases objectBytes_eq_ok henc with ⟨obj, bits, -, hbits, hlt, rfl⟩
      exact canonical_bitmask h hlt (EnumType.and_mask_of_encodeBitmask hbits)
  | flags f =>
      rcases objectBytes_eq_ok henc with ⟨obj, bits, -, -, -, rfl⟩
      have hb := num.length_bitsToBytes bits
      exact ⟨hb, toBytes_read_flags h hb⟩

/-- What is read from any bytes is also read from canonical ones. -/
theorem exists_canonical (h : l.WellFormed) {b : Bytes} (hb : b.length = num.size) :
    ∃ b', l.Canonical num b' ∧ l.read num b' = l.read num b := by
  cases l with
  | none => exact ⟨b, ⟨hb, num.put_read hb⟩, rfl⟩
  | enum e => exact ⟨b, ⟨hb, toBytes_read_enum (EnumType.WellFormed.distinct h) hb⟩, rfl⟩
  | bitmask e =>
      have hlt : (num.readBits b &&& e.mask).toNat < 2 ^ (8 * num.size) := by
        rw [UInt64.toNat_and]
        exact Nat.lt_of_le_of_lt Nat.and_le_left (num.readBits_lt b)
      have hmask : num.readBits b &&& e.mask &&& e.mask = num.readBits b &&& e.mask := by
        rw [UInt64.and_assoc, UInt64.and_self]
      refine ⟨_, canonical_bitmask h hlt hmask, ?_⟩
      rw [read_bitmask, read_bitmask, num.readBits_bitsToBytes hlt, EnumType.decodeBitmask_and_mask]
  | flags f => exact ⟨b, ⟨hb, toBytes_read_flags h hb⟩, rfl⟩

/-- Zeros are canonical. -/
theorem canonical_zeros (h : l.WellFormed) : l.Canonical num (Bytes.zeros num.size) := by
  have hb : (Bytes.zeros num.size).length = num.size := Bytes.length_zeros _
  cases l with
  | none => exact ⟨hb, num.put_read hb⟩
  | enum e => exact ⟨hb, toBytes_read_enum (EnumType.WellFormed.distinct h) hb⟩
  | bitmask e =>
      refine ⟨hb, ?_⟩
      rw [toBytes_read_bitmask h, num.readBits_zeros, UInt64.zero_and, ← num.readBits_zeros,
        num.bitsToBytes_readBits hb]
  | flags f => exact ⟨hb, toBytes_read_flags h hb⟩

end Lowering

end NetlinkSchema
