import NetlinkSchema.Proofs.Bytes
import NetlinkSchema.Proofs.Outcome
import NetlinkSchema.Wire.Number

/-!
# Numbers on the wire are exact

A buffer of a number's size is one pattern of bits, every pattern stands for one value, and the
value is encoded as the pattern again. So decoding a number loses nothing, whatever its kind, width
and byte order; floating-point numbers are compared by their bits.

Integers come to their patterns on two ways, one for signed and one for unsigned machine types,
which mask the bits and compare with bounds made by shifts. Both come to the same: an integer in the
range of the number has its remainder as its pattern, and any other one is refused.

## Main definitions

* `Number.patternOf`: The pattern of an integer.
* `Number.InRange`: An integer is in the mathematical range of a number.

## Theorems

* `ByteOrder.decode_encode`, `ByteOrder.encode_decode`: Bytes and numbers in either byte order.
* `Number.readBits_bitsToBytes`, `Number.bitsToBytes_readBits`: Buffers and patterns.
* `Number.checkBits_eq_ok_iff`: Which patterns fit.
* `Number.integerBits_eq`: The patterns of integers, and which integers have one.
* `Number.toBits_ofBits`, `Number.toBits_read`: The value of a pattern has that pattern.
* `Number.put_read`: A decoded number is encoded as the bytes that it was read from.
* `Number.integers_exact`: Integers of the range are encoded and decoded as they are.
-/

namespace NetlinkSchema

namespace Integer

/-- An integer that fits a signed word is that word. -/
theorem toInt_of_toInt64? {i : Integer} {x : Int64} (h : i.toInt64? = some x) :
    x.toInt = i.val := by
  have hleast : -2 ^ 63 ≤ i.type.least := by cases i.type <;> decide
  unfold toInt64? at h
  split at h
  · rename_i hlt
    cases h
    exact Int64.toInt_ofInt_of_le (Int.le_trans hleast i.least_le) hlt
  · cases h

theorem val_wrap_int64 (x : Int64) : (wrap .int64 x.toInt).val = x.toInt := by
  have hle := x.le_toInt
  have hlt := x.toInt_lt
  change Int.bmod x.toInt 0x10000000000000000 = x.toInt
  exact Int.bmod_eq_of_le (by omega) (by omega)

end Integer

namespace ByteOrder

theorem decode_lt (o : ByteOrder) (b : Bytes) : o.decode b < 256 ^ b.length := by
  cases o with
  | big => exact Bytes.toNatBig_lt b
  | native => exact Bytes.toNatLittle_lt b
  | little => exact Bytes.toNatLittle_lt b

theorem decode_encode (o : ByteOrder) (size n : Nat) :
    o.decode (o.encode size n) = n % 256 ^ size := by
  cases o with
  | big => exact Bytes.toNatBig_ofNatBig size n
  | native => exact Bytes.toNatLittle_ofNatLittle size n
  | little => exact Bytes.toNatLittle_ofNatLittle size n

theorem encode_decode (o : ByteOrder) (b : Bytes) : o.encode b.length (o.decode b) = b := by
  cases o with
  | big => exact Bytes.ofNatBig_toNatBig b
  | native => exact Bytes.ofNatLittle_toNatLittle b
  | little => exact Bytes.ofNatLittle_toNatLittle b

@[simp] theorem length_encode (o : ByteOrder) (size n : Nat) : (o.encode size n).length = size := by
  cases o with
  | big => exact Bytes.length_ofNatBig size n
  | native => exact Bytes.length_ofNatLittle size n
  | little => exact Bytes.length_ofNatLittle size n

theorem decode_zeros (o : ByteOrder) (n : Nat) : o.decode (Bytes.zeros n) = 0 := by
  cases o with
  | big => exact Bytes.toNatBig_zeros n
  | native => exact Bytes.toNatLittle_zeros n
  | little => exact Bytes.toNatLittle_zeros n

end ByteOrder

namespace Number

theorem size_le (n : Number) : n.size ≤ 8 := by
  rcases n with ⟨kind, order⟩
  cases kind with
  | unsigned w => cases w <;> simp [size, Width.size]
  | signed w => cases w <;> simp [size, Width.size]
  | float32 => simp [size]
  | float64 => simp [size]

theorem pow_size (n : Number) : 256 ^ n.size = 2 ^ (8 * n.size) := (pow_mul 2 8 n.size).symm

/-- A pattern of a number's width is a 64-bit word. -/
theorem pow_size_le (n : Number) : 2 ^ (8 * n.size) ≤ 2 ^ 64 := by
  have h := n.size_le
  exact Nat.pow_le_pow_right (by decide) (by omega)

theorem decode_take_lt (n : Number) (buf : Bytes) :
    n.order.decode (buf.take n.size) < 2 ^ (8 * n.size) := by
  calc n.order.decode (buf.take n.size)
      < 256 ^ (buf.take n.size).length := n.order.decode_lt _
    _ ≤ 256 ^ n.size := by
        apply Nat.pow_le_pow_right (by decide)
        rw [List.length_take]
        exact Nat.min_le_left _ _
    _ = 2 ^ (8 * n.size) := n.pow_size

theorem toNat_readBits (n : Number) (buf : Bytes) :
    (n.readBits buf).toNat = n.order.decode (buf.take n.size) := by
  rw [readBits, UInt64.toNat_ofNat']
  exact Nat.mod_eq_of_lt (Nat.lt_of_lt_of_le (n.decode_take_lt buf) n.pow_size_le)

/-- The bits of a buffer fit the width. -/
theorem readBits_lt (n : Number) (buf : Bytes) : (n.readBits buf).toNat < 2 ^ (8 * n.size) := by
  rw [toNat_readBits]
  exact n.decode_take_lt buf

theorem readBits_zeros (n : Number) : n.readBits (Bytes.zeros n.size) = 0 := by
  rw [readBits, List.take_of_length_le (Nat.le_of_eq (Bytes.length_zeros _)),
    ByteOrder.decode_zeros]
  rfl

@[simp] theorem length_bitsToBytes (n : Number) (bits : UInt64) :
    (n.bitsToBytes bits).length = n.size := ByteOrder.length_encode _ _ _

theorem readBits_bitsToBytes (n : Number) {bits : UInt64} (h : bits.toNat < 2 ^ (8 * n.size)) :
    n.readBits (n.bitsToBytes bits) = bits := by
  apply UInt64.toNat_inj.1
  rw [toNat_readBits, List.take_of_length_le (Nat.le_of_eq (n.length_bitsToBytes bits)),
    bitsToBytes, ByteOrder.decode_encode, pow_size, Nat.mod_eq_of_lt h]

theorem bitsToBytes_readBits (n : Number) {buf : Bytes} (h : buf.length = n.size) :
    n.bitsToBytes (n.readBits buf) = buf := by
  rw [bitsToBytes, toNat_readBits, ← h, List.take_length, ByteOrder.encode_decode]

section Mask

theorem size_cases (n : Number) : n.size = 1 ∨ n.size = 2 ∨ n.size = 4 ∨ n.size = 8 := by
  rcases n with ⟨kind, order⟩
  cases kind with
  | unsigned w => cases w <;> simp [size, Width.size]
  | signed w => cases w <;> simp [size, Width.size]
  | float32 => simp [size]
  | float64 => simp [size]

theorem toNat_mask (n : Number) : n.mask.toNat = 2 ^ (8 * n.size) - 1 := by
  rw [mask]
  rcases n.size_cases with h | h | h | h
  all_goals
    rw [h]
    decide +kernel

theorem toNat_and_mask (n : Number) (x : UInt64) :
    (x &&& n.mask).toNat = x.toNat % 2 ^ (8 * n.size) := by
  rw [UInt64.toNat_and, toNat_mask, Nat.and_two_pow_sub_one_eq_mod]

-- A pattern consists of its bits within the width and those above.
theorem and_not_mask_eq_zero_iff (n : Number) (x : UInt64) :
    x &&& ~~~n.mask = 0 ↔ x &&& n.mask = x := by
  have hparts : x &&& n.mask ||| x &&& ~~~n.mask = x := by
    apply UInt64.toBitVec_inj.1
    simp only [UInt64.toBitVec_or, UInt64.toBitVec_and, UInt64.toBitVec_not,
      ← BitVec.and_or_distrib_left, BitVec.or_not_self, BitVec.and_allOnes]
  constructor
  · intro h
    rwa [h, UInt64.or_zero] at hparts
  · intro h
    rw [← h, UInt64.and_assoc, UInt64.and_not_self, UInt64.and_zero]

theorem checkBits_eq_ok_iff (n : Number) {bits : UInt64} :
    n.checkBits bits = .ok () ↔ bits.toNat < 2 ^ (8 * n.size) := by
  have hwidth : bits &&& ~~~n.mask = 0 ↔ bits.toNat < 2 ^ (8 * n.size) := by
    rw [and_not_mask_eq_zero_iff, ← UInt64.toNat_inj, toNat_and_mask]
    exact Nat.mod_eq_iff_lt (Nat.two_pow_pos _).ne'
  rw [← hwidth, checkBits]
  by_cases h : bits &&& ~~~n.mask = 0
  · rw [if_pos h]
    exact ⟨fun _ => h, fun _ => rfl⟩
  · rw [if_neg h]
    constructor
    · intro hc
      cases hc
    · exact fun hc => absurd hc h

end Mask

section Integers

variable {n : Number} {t : IntType}

/-- The machine type of an integer type has as many numbers as the width has patterns. -/
theorem span_of_intType? (ht : n.intType? = some t) : t.span = 2 ^ (8 * n.size) := by
  rcases n with ⟨kind, order⟩
  cases kind with
  | unsigned w => cases ht; cases w <;> rfl
  | signed w => cases ht; cases w <;> rfl
  | float32 => cases ht
  | float64 => cases ht

theorem isSigned_of_intType? (ht : n.intType? = some t) : n.isSigned = t.isSigned := by
  rcases n with ⟨kind, order⟩
  cases kind with
  | unsigned w => cases ht; cases w <;> rfl
  | signed w => cases ht; cases w <;> rfl
  | float32 => cases ht
  | float64 => cases ht

/-- The greatest unsigned word is the greatest number of the type. -/
theorem toNat_greatestWord (ht : n.intType? = some t) :
    (n.greatestWord.toNat : Int) = t.greatest := by
  have hspan := span_of_intType? ht
  have hhalf := t.span_eq
  have hpos := t.half_pos
  have hmask := n.toNat_mask
  rw [greatestWord, IntType.greatest, ← isSigned_of_intType? ht]
  by_cases hs : n.isSigned = true
  · rw [if_pos hs, if_pos hs, UInt64.toNat_shiftRight]
    change ((n.mask.toNat >>> 1 : Nat) : Int) = _
    omega
  · rw [if_neg hs, if_neg hs]
    omega

/-- The bounds for signed words are those of the type. In 64 bits the second one wraps around and
    comes out right all the same. -/
theorem toInt_leastWord (ht : n.intType? = some t) (hs : n.isSigned = true) :
    n.leastWord.toInt = t.least ∧ (-n.leastWord - 1).toInt = t.greatest := by
  have hspan := span_of_intType? ht
  have hsigned : t.isSigned = true := isSigned_of_intType? ht ▸ hs
  have hword : ∀ size ∈ [1, 2, 4, 8],
      ((-1 : Int64) <<< Int64.ofNat (8 * size - 1)).toInt = -((2 ^ (8 * size) / 2 : Nat) : Int) ∧
        (-((-1 : Int64) <<< Int64.ofNat (8 * size - 1)) - 1).toInt
          = ((2 ^ (8 * size) / 2 : Nat) : Int) - 1 := by
    decide +kernel
  have hsize : n.size ∈ [1, 2, 4, 8] := by simpa using n.size_cases
  have h := hword n.size hsize
  rw [← hspan, t.span_eq, Nat.mul_div_cancel_left _ (by decide)] at h
  rw [IntType.least, IntType.greatest, if_pos hsigned, if_pos hsigned]
  exact h

/-- A signed word has the bits of its remainder. -/
theorem toNat_toUInt64 (x : Int64) : (x.toUInt64.toNat : Int) = x.toInt % (2 ^ 64 : Nat) := by
  have h : x.toInt = (x.toUInt64.toNat : Int).bmod (2 ^ 64) := BitVec.toInt_eq_toNat_bmod _
  have hlt := x.toUInt64.toNat_lt
  rw [h, Int.bmod_emod]
  exact (Int.emod_eq_of_lt (by omega) (by omega)).symm

theorem greatest_lt_span (t : IntType) : t.greatest < t.span := by
  have hspan := t.span_eq
  have hpos := t.half_pos
  unfold IntType.greatest
  split <;> omega

theorem least_nonpos (t : IntType) : t.least ≤ 0 := by
  unfold IntType.least
  split <;> omega

/-- The pattern of an integer: its remainder by the number of patterns. -/
def patternOf (n : Number) (x : Int) : UInt64 := UInt64.ofNat (x % (2 ^ (8 * n.size) : Nat)).toNat

theorem toNat_patternOf (n : Number) (x : Int) :
    ((n.patternOf x).toNat : Int) = x % (2 ^ (8 * n.size) : Nat) := by
  have hle := n.pow_size_le
  have hpos : 0 < 2 ^ (8 * n.size) := Nat.two_pow_pos _
  have hnonneg := Int.emod_nonneg x (b := (2 ^ (8 * n.size) : Nat)) (by omega)
  have hlt := Int.emod_lt_of_pos x (b := (2 ^ (8 * n.size) : Nat)) (by omega)
  rw [patternOf, UInt64.toNat_ofNat', Nat.mod_eq_of_lt (by omega)]
  omega

/-- An unsigned word is its own pattern, and is accepted up to the greatest number. -/
theorem unsignedBits_eq (ht : n.intType? = some t) (x : UInt64) :
    n.unsignedBits x = if t.least ≤ (x.toNat : Int) ∧ (x.toNat : Int) ≤ t.greatest
      then .ok (n.patternOf x.toNat) else .error (.outOfRange (Text.ofInt x.toNat) n.name) := by
  have hgreatest := toNat_greatestWord ht
  have hleast := least_nonpos t
  have hspan := span_of_intType? ht
  have hlt := greatest_lt_span t
  rw [unsignedBits]
  by_cases h : (x.toNat : Int) ≤ t.greatest
  · have hpattern : n.patternOf x.toNat = x := by
      apply UInt64.toNat_inj.1
      have hnat := n.toNat_patternOf x.toNat
      rw [Int.emod_eq_of_lt (by omega) (by omega)] at hnat
      omega
    rw [if_pos (by rw [UInt64.le_iff_toNat_le]; omega), if_pos ⟨by omega, h⟩, hpattern]
  · rw [if_neg (by rw [UInt64.le_iff_toNat_le]; omega), if_neg fun hc => h hc.2]

/-- A signed word is accepted if it is a number of the type. -/
theorem signedBits_eq (ht : n.intType? = some t) (x : Int64) :
    n.signedBits x = if t.least ≤ x.toInt ∧ x.toInt ≤ t.greatest
      then .ok (n.patternOf x.toInt) else .error (.outOfRange (Text.ofInt x.toInt) n.name) := by
  have hword := toNat_toUInt64 x
  rw [signedBits]
  by_cases hs : n.isSigned = true
  · rcases toInt_leastWord ht hs with ⟨hleast, hgreatest⟩
    have hpattern : x.toUInt64 &&& n.mask = n.patternOf x.toInt := by
      apply UInt64.toNat_inj.1
      have hdvd : ((2 ^ (8 * n.size) : Nat) : Int) ∣ (2 ^ 64 : Nat) :=
        Int.natCast_dvd_natCast.2 (Nat.pow_dvd_pow 2 (by have := n.size_le; omega))
      have hnat := n.toNat_patternOf x.toInt
      rw [← Int.emod_emod_of_dvd _ hdvd, ← hword] at hnat
      rw [toNat_and_mask]
      omega
    have hbounds : n.size < 8 ∧ (x < n.leastWord ∨ -n.leastWord - 1 < x) ↔
        ¬ (t.least ≤ x.toInt ∧ x.toInt ≤ t.greatest) := by
      rw [Int64.lt_iff_toInt_lt, Int64.lt_iff_toInt_lt, hleast, hgreatest]
      constructor
      · omega
      · intro h
        refine ⟨Nat.lt_of_le_of_ne n.size_le fun hsize => h ?_, by omega⟩
        -- In 64 bits there is no word beyond the bounds.
        rw [leastWord, hsize] at hleast hgreatest
        rw [← hleast, ← hgreatest]
        exact ⟨x.le_toInt, Int.le_of_lt_add_one x.toInt_lt⟩
    rw [if_pos hs]
    by_cases h : t.least ≤ x.toInt ∧ x.toInt ≤ t.greatest
    · rw [if_pos h, if_neg fun hc => hbounds.1 hc h, hpattern]
    · rw [if_neg h, if_pos (hbounds.2 h)]
  · have hleast : t.least = 0 := by
      rw [IntType.least, ← isSigned_of_intType? ht, if_neg hs]
    rw [if_neg hs]
    by_cases hneg : x < 0
    · have hlt : x.toInt < 0 := Int64.lt_iff_toInt_lt.1 hneg
      rw [if_pos hneg, if_neg (by omega)]
    · have hnonneg : 0 ≤ x.toInt := Int.not_lt.1 fun h => hneg (Int64.lt_iff_toInt_lt.2 h)
      have hlt := x.toInt_lt
      have hsame : (x.toUInt64.toNat : Int) = x.toInt := by
        rw [hword]
        exact Int.emod_eq_of_lt hnonneg (by omega)
      rw [if_neg hneg, unsignedBits_eq ht, hsame]

/-- An integer is accepted if it is a number of the type, whatever its machine type. -/
theorem integerBits_eq (ht : n.intType? = some t) (i : Integer) :
    n.integerBits i = if t.least ≤ i.val ∧ i.val ≤ t.greatest
      then .ok (n.patternOf i.val) else .error (.outOfRange (Text.ofInt i.val) n.name) := by
  have hleast := i.least_le
  have hgreatest := i.le_greatest
  rw [integerBits]
  by_cases hs : i.type.isSigned = true
  · have hle : -2 ^ 63 ≤ i.type.least := by cases i.type <;> decide
    have hlt : i.type.greatest < 2 ^ 63 := by
      rw [IntType.greatest, if_pos hs]
      cases i.type <;> decide
    rw [if_pos hs, signedBits_eq ht, Int64.toInt_ofInt_of_le (by omega) (by omega)]
  · have hzero : i.type.least = 0 := by rw [IntType.least, if_neg hs]
    have hlt : i.type.greatest < 2 ^ 64 := by cases i.type <;> decide
    have hsame : ((UInt64.ofInt i.val).toNat : Int) = i.val := by
      rw [UInt64.ofInt, UInt64.toNat_ofNat']
      omega
    rw [if_neg hs, unsignedBits_eq ht, hsame]

theorem toBits_int (ht : n.intType? = some t) (i : Integer) :
    n.toBits (.int i) = n.integerBits i := by
  rcases n with ⟨kind, order⟩
  cases kind with
  | unsigned w => rfl
  | signed w => rfl
  | float32 => cases ht
  | float64 => cases ht

/-- The numbers of an integer type are the patterns of its width, read with or without sign. -/
theorem integerBits_wrap (ht : n.intType? = some t) {bits : UInt64}
    (h : bits.toNat < 2 ^ (8 * n.size)) :
    n.integerBits (Integer.wrap t bits.toNat) = .ok bits := by
  have hspan := span_of_intType? ht
  have hmod : t.reduce bits.toNat % (2 ^ (8 * n.size) : Nat) = bits.toNat := by
    rw [← hspan]
    unfold IntType.reduce
    split
    · rw [Int.bmod_emod]
      exact Int.emod_eq_of_lt (by omega) (by omega)
    · rw [Int.emod_emod_of_dvd _ (Int.dvd_refl _)]
      exact Int.emod_eq_of_lt (by omega) (by omega)
  have hpattern : n.patternOf (t.reduce bits.toNat) = bits := by
    apply UInt64.toNat_inj.1
    have hnat := n.toNat_patternOf (t.reduce bits.toNat)
    omega
  rw [integerBits_eq ht, if_pos ⟨t.least_le_reduce _, t.reduce_le_greatest _⟩]
  exact congrArg Except.ok hpattern

end Integers

/-- The value of a pattern has that pattern. -/
theorem toBits_ofBits (n : Number) {bits : UInt64} (h : bits.toNat < 2 ^ (8 * n.size)) :
    n.toBits (n.ofBits bits) = .ok bits := by
  rcases n with ⟨kind, order⟩
  cases kind with
  | unsigned w => exact integerBits_wrap (n := ⟨.unsigned w, order⟩) rfl h
  | signed w => exact integerBits_wrap (n := ⟨.signed w, order⟩) rfl h
  | float32 =>
      change Except.ok (UInt64.ofNat (UInt32.ofNat bits.toNat).toNat) = Except.ok bits
      have hlt : bits.toNat < 2 ^ 32 := h
      rw [UInt32.toNat_ofNat', Nat.mod_eq_of_lt hlt, UInt64.ofNat_toNat]
  | float64 =>
      change Except.ok (UInt64.ofNat bits.toNat) = Except.ok bits
      rw [UInt64.ofNat_toNat]

/-- The bits of a decoded number are those that it was read from. -/
theorem toBits_read (n : Number) (buf : Bytes) : n.toBits (n.read buf) = .ok (n.readBits buf) :=
  toBits_ofBits n (n.readBits_lt buf)

@[simp] theorem rawBits_read (n : Number) (buf : Bytes) :
    n.rawBits (n.read buf) = n.readBits buf := by
  rw [rawBits, toBits_read]

/-- A decoded number is encoded as the bytes that it was read from. -/
theorem put_read (n : Number) {buf : Bytes} (h : buf.length = n.size) :
    n.put (n.read buf) = .ok buf := by
  rw [put, toBits_read, ok_bind, pure_eq_ok, bitsToBytes_readBits n h]

theorem length_of_put {n : Number} {v : Value} {b : Bytes} (h : n.put v = .ok b) :
    b.length = n.size := by
  rcases bind_eq_ok_iff.1 h with ⟨bits, -, hb⟩
  cases hb
  exact n.length_bitsToBytes bits

theorem exists_intType? {n : Number} (hn : n.isFloat = false) : ∃ t, n.intType? = some t := by
  rcases n with ⟨kind, order⟩
  cases kind with
  | unsigned w => exact ⟨_, rfl⟩
  | signed w => exact ⟨_, rfl⟩
  | float32 => cases hn
  | float64 => cases hn

/-- The bits of integers of equal value do not depend on their machine types, unless the number is
    a floating-point number. -/
theorem toBits_int_congr {n : Number} (hn : n.isFloat = false) {i j : Integer}
    (h : i.val = j.val) : n.toBits (.int i) = n.toBits (.int j) := by
  rcases exists_intType? hn with ⟨t, ht⟩
  rw [toBits_int ht, toBits_int ht, integerBits_eq ht, integerBits_eq ht, h]

theorem put_int_congr {n : Number} (hn : n.isFloat = false) {i j : Integer} (h : i.val = j.val) :
    n.put (.int i) = n.put (.int j) := by
  rw [put, put, toBits_int_congr hn h]

/-- A floating-point number is not read as an integer. -/
theorem toInt64?_read_of_isFloat {n : Number} (hn : n.isFloat = true) (buf : Bytes) :
    (n.read buf).toInt64? = none := by
  rcases n with ⟨kind, order⟩
  cases kind with
  | unsigned w => cases hn
  | signed w => cases hn
  | float32 => rfl
  | float64 => rfl

section Exact

/-- An integer is in the mathematical range of the type. -/
def InRange (n : Number) (x : Int) : Prop :=
  if n.isSigned then -2 ^ (8 * n.size - 1) ≤ x ∧ x < 2 ^ (8 * n.size - 1)
  else 0 ≤ x ∧ x < 2 ^ (8 * n.size)

instance (n : Number) (x : Int) : Decidable (n.InRange x) := by
  unfold InRange
  infer_instance

variable {n : Number} {t : IntType}

/-- The machine type of an integer type has exactly the integers of the range. -/
theorem inRange_iff (ht : n.intType? = some t) {x : Int} :
    n.InRange x ↔ t.least ≤ x ∧ x ≤ t.greatest := by
  have hspan := span_of_intType? ht
  have hhalf : t.half = 2 ^ (8 * n.size - 1) := by
    have hdouble := t.span_eq
    have hsize := n.size_cases
    rw [hspan, show 8 * n.size = 8 * n.size - 1 + 1 by omega, Nat.pow_succ] at hdouble
    omega
  rw [InRange, IntType.least, IntType.greatest, ← isSigned_of_intType? ht]
  by_cases hs : n.isSigned = true
  · rw [if_pos hs, if_pos hs, if_pos hs, hhalf]
    push_cast
    omega
  · rw [if_neg hs, if_neg hs, if_neg hs, hspan]
    push_cast
    omega

/-- An integer of a machine type is determined by its remainder. -/
theorem reduce_emod {x : Int} (hleast : t.least ≤ x) (hgreatest : x ≤ t.greatest) :
    t.reduce (x % t.span) = x := by
  have hspan := t.span_eq
  have hpos := t.half_pos
  rw [IntType.least] at hleast
  rw [IntType.greatest] at hgreatest
  rw [IntType.reduce]
  by_cases hs : t.isSigned = true
  · rw [if_pos hs] at hleast hgreatest ⊢
    rw [Int.emod_bmod]
    exact Int.bmod_eq_of_le (by omega) (by omega)
  · rw [if_neg hs] at hleast hgreatest ⊢
    rw [Int.emod_emod_of_dvd _ (Int.dvd_refl _)]
    exact Int.emod_eq_of_lt hleast (by omega)

theorem ofBits_eq_int (ht : n.intType? = some t) (bits : UInt64) :
    n.ofBits bits = .int (Integer.wrap t bits.toNat) := by
  rcases n with ⟨kind, order⟩
  cases kind with
  | unsigned w => cases ht; rfl
  | signed w => cases ht; rfl
  | float32 => cases ht
  | float64 => cases ht

/-- The pattern of an integer of the type stands for that integer. -/
theorem ofBits_patternOf (ht : n.intType? = some t) {x : Int} (hleast : t.least ≤ x)
    (hgreatest : x ≤ t.greatest) : ∃ j : Integer, n.ofBits (n.patternOf x) = .int j ∧
      j.type = t ∧ j.val = x := by
  refine ⟨_, ofBits_eq_int ht _, rfl, ?_⟩
  change t.reduce (n.patternOf x).toNat = x
  rw [toNat_patternOf, ← span_of_intType? ht]
  exact reduce_emod hleast hgreatest

theorem put_int_eq_ok_iff (ht : n.intType? = some t) {i : Integer} {b : Bytes} :
    n.put (.int i) = .ok b ↔ n.InRange i.val ∧ b = n.bitsToBytes (n.patternOf i.val) := by
  rw [inRange_iff ht, put, toBits_int ht, integerBits_eq ht]
  by_cases h : t.least ≤ i.val ∧ i.val ≤ t.greatest
  · rw [if_pos h, ok_bind, pure_eq_ok, Except.ok.injEq]
    exact ⟨fun hb => ⟨h, hb.symm⟩, fun hb => hb.2.symm⟩
  · rw [if_neg h, error_bind]
    constructor
    · intro hb
      cases hb
    · intro hb
      exact absurd hb.1 h

theorem get_of_length (n : Number) {b : Bytes} (hb : b.length = n.size) :
    n.get b = .ok (n.read b) := by
  rw [get, checkLength, if_pos hb, ok_bind, pure_eq_ok]

/-- Integers are exact on the wire. An integer of any machine type is encoded if it is in the range
    of the wire type, and is then decoded as the same number of the machine type that belongs to
    the wire type. Every buffer of the right size is decoded, the decoded number is encoded as that
    buffer, and has the bits that the buffer has. -/
theorem integers_exact {n : Number} {t : IntType} (ht : n.intType? = some t) :
    (∀ i : Integer, ((∃ b, n.put (.int i) = .ok b) ↔ n.InRange i.val) ∧
      ∀ b, n.put (.int i) = .ok b →
        ∃ j : Integer, n.get b = .ok (.int j) ∧ j.type = t ∧ j.val = i.val) ∧
    ∀ b : Bytes, b.length = n.size →
      (∃ v, n.get b = .ok v ∧ n.put v = .ok b) ∧ n.toBits (n.read b) = .ok (n.readBits b) := by
  refine ⟨fun i => ⟨⟨?_, fun h => ⟨_, (put_int_eq_ok_iff ht).2 ⟨h, rfl⟩⟩⟩, fun b hb => ?_⟩,
    fun b hb => ⟨⟨_, n.get_of_length hb, n.put_read hb⟩, n.toBits_read b⟩⟩
  · rintro ⟨b, hb⟩
    exact ((put_int_eq_ok_iff ht).1 hb).1
  · rcases (put_int_eq_ok_iff ht).1 hb with ⟨hrange, rfl⟩
    rcases (inRange_iff ht).1 hrange with ⟨hleast, hgreatest⟩
    have hlt : (n.patternOf i.val).toNat < 2 ^ (8 * n.size) := by
      have hnat := n.toNat_patternOf i.val
      have hpos : 0 < 2 ^ (8 * n.size) := Nat.two_pow_pos _
      have hmod := Int.emod_lt_of_pos i.val (b := (2 ^ (8 * n.size) : Nat)) (by omega)
      omega
    rw [n.get_of_length (n.length_bitsToBytes _), read, n.readBits_bitsToBytes hlt]
    rcases ofBits_patternOf ht hleast hgreatest with ⟨j, hj, htype, hval⟩
    exact ⟨j, by rw [hj], htype, hval⟩

theorem s16be_exact :
    (∃ b, put ⟨.signed .w16, .big⟩ (.ofInt .int (-32768)) = .ok b) ∧
    (¬ ∃ b, put ⟨.signed .w16, .big⟩ (.ofInt .uint16 32768) = .ok b) ∧
    (∃ j : Integer, get ⟨.signed .w16, .big⟩ [0x80, 0] = .ok (.int j) ∧ j.type = .int16 ∧
      j.val = -32768) ∧
    ∃ v, get ⟨.signed .w16, .big⟩ [0xFF, 0xFE] = .ok v ∧
      put ⟨.signed .w16, .big⟩ v = .ok [0xFF, 0xFE] := by
  rcases integers_exact (n := ⟨.signed .w16, .big⟩) rfl with ⟨hput, hget⟩
  have hleast : put ⟨.signed .w16, .big⟩ (.ofInt .int (-32768)) = .ok [0x80, 0] := by
    decide +kernel
  refine ⟨⟨_, hleast⟩, fun h => ?_, (hput (Integer.wrap .int (-32768))).2 _ hleast,
    (hget [0xFF, 0xFE] rfl).1⟩
  exact absurd ((hput (Integer.wrap .uint16 32768)).1.1 h) (by decide +kernel)

end Exact

end Number

end NetlinkSchema
