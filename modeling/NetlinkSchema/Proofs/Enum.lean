import NetlinkSchema.Codec.Enum
import NetlinkSchema.Proofs.Flags
import NetlinkSchema.Proofs.Stream

/-!
# Names, bitmasks and flag lists of enums

The derived forms of an enum are sets of its numbers. A bitmask is the set of the bits that are on,
a flag list the set of the attribute types that occur, and the object that stands for either has
the fields of the numbers in the set. Both forms are read and written by way of that set, and
`EnumType.Represents` ties an object to it; so decoding after encoding, and encoding after
decoding, are two ways around the same triangle.

A number with several names has several fields, of which decoding uses the first. The set is
still determined by the object as long as no field stands for two numbers.

## Main definitions

* `EnumType.WellFormed`: Names are distinct, and a field stands for one number.
* `EnumType.AttributeTypes`: Every number is an attribute type.
* `EnumType.ReadsBack`: The field under which a number is decoded is read as that number.
* `EnumType.BitIndices`: Every number is the index of a bit.
* `EnumType.Represents`: An object stands for a set of numbers.
* `EnumType.mask`: The bits that the numbers of an enum stand for.
* `EnumType.flagStream`: The flag list of a set of numbers.

## Theorems

* `EnumType.valueOf?_nameOf?`: The name of a number is a name for that number.
* `EnumType.encodeBitmask_decodeBitmask`: What decoding sees of a pattern is encoded again.
* `EnumType.encodeFlagList_of_represents`, `EnumType.decodeFlagList_flagStream`: The flag list of a
  set, written and read.
* `EnumType.readsBack_of_bitmask`, `EnumType.readsBack_of_flagList`: The two forms come back from
  their objects only if every field is read as its number.
-/

namespace NetlinkSchema

namespace EnumType

/-- Names are distinct, and a field stands for one number. -/
structure WellFormed (e : EnumType) : Prop where
  distinct : (e.values.map EnumValue.name).Nodup
  field_value : ∀ v ∈ e.values, ∀ w ∈ e.values, v.field = w.field → v.value = w.value

variable {e : EnumType}

/-- The first name of a number is a name for that number. -/
theorem valueOf?_nameOf? (h : (e.values.map EnumValue.name).Nodup) {x : Int64} {name : Text}
    (hname : e.nameOf? x = some name) : e.valueOf? name = some x := by
  rcases Option.map_eq_some_iff.1 hname with ⟨v, hfind, rfl⟩
  have hv : v ∈ e.values := List.mem_of_find?_eq_some hfind
  have hx : v.value = x := by simpa using List.find?_some hfind
  have hdistinct : (e.values.reverse.map EnumValue.name).Nodup := by
    rw [List.map_reverse]
    exact List.nodup_reverse.2 h
  rw [valueOf?, find?_key hdistinct (List.mem_reverse.2 hv), Option.map_some, hx]

theorem exists_of_valueOfField? {k : Text} {x : Int64} (h : e.valueOfField? k = some x) :
    ∃ v ∈ e.values, v.field = k ∧ v.value = x := by
  rcases Option.map_eq_some_iff.1 h with ⟨v, hfind, hx⟩
  have hk : v.field = k := by simpa using List.find?_some hfind
  exact ⟨v, List.mem_reverse.1 (List.mem_of_find?_eq_some hfind), hk, hx⟩

/-- The field of a number is that of some number. -/
theorem exists_valueOfField? {v : EnumValue} (hv : v ∈ e.values) :
    ∃ w ∈ e.values, e.valueOfField? v.field = some w.value := by
  unfold valueOfField?
  cases hfound : e.values.reverse.find? (·.field == v.field) with
  | none =>
      have := List.find?_eq_none.1 hfound v (List.mem_reverse.2 hv)
      simp at this
  | some w => exact ⟨w, List.mem_reverse.1 (List.mem_of_find?_eq_some hfound), rfl⟩

theorem valueOfField?_of_mem (h : e.WellFormed) {v : EnumValue} (hv : v ∈ e.values) :
    e.valueOfField? v.field = some v.value := by
  rcases exists_valueOfField? hv with ⟨w, -, hw⟩
  rcases exists_of_valueOfField? hw with ⟨u, hu, hfield, hvalue⟩
  rw [hw, ← hvalue, h.field_value u hu v hv hfield]

theorem mem_primary {v : EnumValue} :
    v ∈ e.primary ↔ v ∈ e.values ∧ e.nameOf? v.value = some v.name := by
  rw [primary, List.mem_filter, beq_iff_eq]

/-- Every number has a first name. -/
theorem exists_primary {v : EnumValue} (hv : v ∈ e.values) :
    ∃ p ∈ e.primary, p.value = v.value := by
  cases hfound : e.values.find? (·.value == v.value) with
  | none =>
      have := List.find?_eq_none.1 hfound v hv
      simp at this
  | some p =>
      have hp : p.value = v.value := by simpa using List.find?_some hfound
      refine ⟨p, mem_primary.2 ⟨List.mem_of_find?_eq_some hfound, ?_⟩, hp⟩
      rw [nameOf?, hp, hfound, Option.map_some]

/-- The field under which a number is decoded is read as that number. -/
def ReadsBack (e : EnumType) : Prop := ∀ p ∈ e.primary, e.valueOfField? p.field = some p.value

theorem WellFormed.readsBack (h : e.WellFormed) : e.ReadsBack := fun _ hp =>
  valueOfField?_of_mem h (mem_primary.1 hp).1

/-- An object stands for a set of numbers: it has the field of each, and they are true. -/
def Represents (e : EnumType) (obj : Object) (picked : Int64 → Bool) : Prop :=
  Object.Marks obj fun k => ∃ v ∈ e.primary, picked v.value = true ∧ v.field = k

/-- The numbers that an object selects are those whose fields are true. -/
theorem mem_selected {obj : Object} {picked : List Int64} (h : e.selected obj = .ok picked)
    (x : Int64) : x ∈ picked ↔ ∃ k, (k, .bool true) ∈ obj ∧ e.valueOfField? k = some x := by
  refine foldlM_invariant (fun passed picked => ∀ x, x ∈ picked ↔
    ∃ k, (k, .bool true) ∈ passed ∧ e.valueOfField? k = some x) (by simp) ?_ h x
  rintro passed ⟨k, v⟩ old new - hold hstep x
  have hlast : (∃ k', (k', Value.bool true) ∈ passed ++ [(k, v)] ∧ e.valueOfField? k' = some x) ↔
      x ∈ old ∨ (v = .bool true ∧ e.valueOfField? k = some x) := by
    rw [hold]
    constructor
    · rintro ⟨k', hk', hx⟩
      rcases List.mem_append.1 hk' with hk' | hk'
      · exact Or.inl ⟨k', hk', hx⟩
      · cases List.mem_singleton.1 hk'
        exact Or.inr ⟨rfl, hx⟩
    · rintro (⟨k', hk', hx⟩ | ⟨rfl, hx⟩)
      · exact ⟨k', List.mem_append_left _ hk', hx⟩
      · exact ⟨k, List.mem_append_right _ (List.mem_singleton_self _), hx⟩
  rw [hlast]
  simp only at hstep
  split at hstep
  · -- An absent entry selects nothing.
    rename_i hnull
    cases hstep
    constructor
    · exact Or.inl
    · rintro (hx | ⟨rfl, -⟩)
      · exact hx
      · cases hnull
  · cases hk : e.valueOfField? k with
    | none =>
        rw [hk] at hstep
        cases hstep
    | some value =>
        rw [hk] at hstep
        cases v with
        | bool set =>
            cases hstep
            cases set with
            | false => simp
            | true => simp [or_comm, eq_comm]
        | _ => cases hstep

theorem selected_of_represents (h : e.ReadsBack) {obj : Object} {picked : Int64 → Bool}
    (hobj : e.Represents obj picked) :
    ∃ xs, e.selected obj = .ok xs ∧
      ∀ x, x ∈ xs ↔ picked x = true ∧ ∃ v ∈ e.values, v.value = x := by
  have hentry : ∀ k v, (k, v) ∈ obj → ∃ p ∈ e.values, picked p.value = true ∧
      e.valueOfField? k = some p.value ∧ v = .bool true := by
    intro k v hkv
    rcases (hobj.mem_iff k v).1 hkv with ⟨⟨p, hp, hpick, rfl⟩, hv⟩
    exact ⟨p, (mem_primary.1 hp).1, hpick, h p hp, hv⟩
  have hok : ∃ xs, e.selected obj = .ok xs := by
    refine foldlM_succeeds [] ?_
    rintro ⟨k, v⟩ hkv s
    rcases hentry k v hkv with ⟨p, -, -, hfield, rfl⟩
    exact ⟨p.value :: s, by simp [Value.isNull, hfield]⟩
  rcases hok with ⟨xs, hxs⟩
  refine ⟨xs, hxs, fun x => ?_⟩
  rw [mem_selected hxs]
  constructor
  · rintro ⟨k, hk, hx⟩
    rcases hentry k _ hk with ⟨p, hp, hpick, hfield, -⟩
    cases hfield.symm.trans hx
    exact ⟨hpick, p, hp, rfl⟩
  · rintro ⟨hpick, v, hv, rfl⟩
    rcases exists_primary hv with ⟨p, hp, hpv⟩
    exact ⟨p.field, (hobj.mem_iff _ _).2 ⟨⟨p, hp, hpv ▸ hpick, rfl⟩, rfl⟩, hpv ▸ h p hp⟩

section Bitmask

theorem bit_shiftLeft {k : UInt64} {i : Nat} :
    bit (1 <<< k) i = true ↔ i = (k.toBitVec % 64).toNat := by
  have hlt : (k.toBitVec % 64).toNat < 64 := by
    rw [BitVec.toNat_umod]
    exact Nat.mod_lt _ (by decide)
  rw [bit, UInt64.toBitVec_shiftLeft, BitVec.shiftLeft_eq', BitVec.getLsbD_shiftLeft,
    show UInt64.toBitVec 1 = 1#64 from rfl, BitVec.getLsbD_one]
  simp only [Bool.and_eq_true, decide_eq_true_eq, Bool.not_eq_true',
    decide_eq_false_iff_not]
  omega

/-- A number stands for one bit at most. -/
theorem eq_of_bit_bitOf {x : Int64} {i j : Nat} (hi : bit (bitOf x) i = true)
    (hj : bit (bitOf x) j = true) : i = j := by
  unfold bitOf at hi hj
  by_cases hx : 0 ≤ x ∧ x < 64
  · rw [if_pos hx] at hi hj
    rw [bit_shiftLeft.1 hi, bit_shiftLeft.1 hj]
  · rw [if_neg hx, bit_zero] at hi
    cases hi

/-- A pattern meets the bit of a number exactly if it has that bit. -/
theorem and_bitOf_ne_zero {x : Int64} {i : Nat} (hi : bit (bitOf x) i = true) (bits : UInt64) :
    bits &&& bitOf x ≠ 0 ↔ bit bits i = true := by
  rw [ne_zero_iff]
  constructor
  · rintro ⟨j, hj⟩
    rw [bit_and, Bool.and_eq_true] at hj
    rw [eq_of_bit_bitOf hi hj.2]
    exact hj.1
  · intro hbits
    exact ⟨i, by rw [bit_and, hbits, hi, Bool.and_self]⟩

/-- The bits that the numbers of an enum stand for. -/
def mask (e : EnumType) : UInt64 := union (e.values.map fun v => bitOf v.value)

theorem bit_mask {i : Nat} :
    bit e.mask i = true ↔ ∃ v ∈ e.values, bit (bitOf v.value) i = true := bit_union

theorem represents_decodeBitmask (bits : UInt64) :
    e.Represents (e.decodeBitmask bits) fun x => decide (bits &&& bitOf x ≠ 0) := by
  have h := Object.Marks.nil.foldl EnumValue.field (fun v => bits &&& bitOf v.value ≠ 0) e.primary
  simp only [ite_not, or_false] at h
  exact h.congr fun k => by simp only [decide_eq_true_eq]

/-- The bits of a set of numbers. -/
theorem encodeBitmask_of_represents (h : e.ReadsBack) {obj : Object} {picked : Int64 → Bool}
    (hobj : e.Represents obj picked) :
    ∃ bits, e.encodeBitmask obj = .ok bits ∧ ∀ i, bit bits i = true ↔
      ∃ v ∈ e.values, picked v.value = true ∧ bit (bitOf v.value) i = true := by
  rcases selected_of_represents h hobj with ⟨xs, hxs, hmem⟩
  refine ⟨union (xs.map bitOf), ?_, fun i => ?_⟩
  · rw [encodeBitmask, hxs, union, List.foldl_map]
    rfl
  · rw [bit_union]
    constructor
    · rintro ⟨x, hx, hi⟩
      rcases (hmem x).1 hx with ⟨hpick, v, hv, rfl⟩
      exact ⟨v, hv, hpick, hi⟩
    · rintro ⟨v, hv, hpick, hi⟩
      exact ⟨v.value, (hmem _).2 ⟨hpick, v, hv, rfl⟩, hi⟩

/-- What decoding sees of a pattern is what encoding gives back. -/
theorem encodeBitmask_decodeBitmask (h : e.ReadsBack) (bits : UInt64) :
    e.encodeBitmask (e.decodeBitmask bits) = .ok (bits &&& e.mask) := by
  rcases encodeBitmask_of_represents h (represents_decodeBitmask bits) with ⟨bits', hbits, hi⟩
  rw [hbits]
  congr 1
  refine eq_of_bit_eq fun i => Bool.eq_iff_iff.2 ?_
  rw [hi, bit_and, Bool.and_eq_true, bit_mask]
  constructor
  · rintro ⟨v, hv, hpick, hvi⟩
    exact ⟨(and_bitOf_ne_zero hvi bits).1 (of_decide_eq_true hpick), v, hv, hvi⟩
  · rintro ⟨hbit, v, hv, hvi⟩
    exact ⟨v, hv, decide_eq_true ((and_bitOf_ne_zero hvi bits).2 hbit), hvi⟩

/-- Encoding gives only bits that the numbers stand for. -/
theorem and_mask_of_encodeBitmask {obj : Object} {bits : UInt64}
    (h : e.encodeBitmask obj = .ok bits) : bits &&& e.mask = bits := by
  rcases bind_eq_ok_iff.1 h with ⟨xs, hxs, hbits⟩
  cases hbits
  rw [← List.foldl_map (f := bitOf) (g := (· ||| ·))]
  refine eq_of_bit_eq fun i => Bool.eq_iff_iff.2 ?_
  rw [bit_and, Bool.and_eq_true, and_iff_left_iff_imp]
  intro hi
  rcases bit_union.1 hi with ⟨x, hx, hxi⟩
  rcases (mem_selected hxs x).1 hx with ⟨k, -, hk⟩
  rcases exists_of_valueOfField? hk with ⟨v, hv, -, rfl⟩
  exact bit_mask.2 ⟨v, hv, hxi⟩

/-- Every number is the index of a bit. -/
def BitIndices (e : EnumType) : Prop := ∀ v ∈ e.values, 0 ≤ v.value.toInt ∧ v.value.toInt ≤ 63

theorem toNat_toUInt64 {x : Int64} (hpos : 0 ≤ x.toInt) : (x.toUInt64.toNat : Int) = x.toInt := by
  have hnat : x.toUInt64.toNat = x.toBitVec.toNat := rfl
  have hint : x.toInt = x.toBitVec.toInt := rfl
  have hcond := BitVec.toInt_eq_toNat_cond x.toBitVec
  have hlt := x.toBitVec.isLt
  split at hcond <;> omega

/-- The index of a bit stands for that bit. -/
theorem bit_bitOf {x : Int64} (hpos : 0 ≤ x.toInt) (hle : x.toInt ≤ 63) {i : Nat} :
    bit (bitOf x) i = true ↔ (i : Int) = x.toInt := by
  have hrange : 0 ≤ x ∧ x < 64 := by
    rw [Int64.le_iff_toInt_le, Int64.lt_iff_toInt_lt]
    exact ⟨hpos, Int.lt_of_le_of_lt hle (by decide)⟩
  have hword := toNat_toUInt64 hpos
  have hindex : (x.toUInt64.toBitVec % 64).toNat = x.toUInt64.toNat % 64 := BitVec.toNat_umod
  rw [bitOf, if_pos hrange, bit_shiftLeft, hindex]
  omega

/-- If every pattern comes back as far as it is seen, then every field is read as its number. -/
theorem readsBack_of_bitmask (hindices : e.BitIndices)
    (h : ∀ bits, e.encodeBitmask (e.decodeBitmask bits) = .ok (bits &&& e.mask)) :
    e.ReadsBack := by
  intro p hp
  have hpv := (mem_primary.1 hp).1
  -- The pattern is the bit of the number alone, so the field may only stand for that bit.
  rcases bind_eq_ok_iff.1 (h (bitOf p.value)) with ⟨xs, hxs, hbits⟩
  have hself : bitOf p.value &&& bitOf p.value ≠ 0 := by
    rw [UInt64.and_self, ne_zero_iff]
    exact ⟨p.value.toInt.toNat, (bit_bitOf (hindices p hpv).1 (hindices p hpv).2).2
      (Int.toNat_of_nonneg (hindices p hpv).1)⟩
  have hmark : (p.field, Value.bool true) ∈ e.decodeBitmask (bitOf p.value) :=
    ((represents_decodeBitmask _).mem_iff _ _).2 ⟨⟨p, hp, decide_eq_true hself, rfl⟩, rfl⟩
  rcases exists_valueOfField? hpv with ⟨w, hw, hfield⟩
  have hmem : w.value ∈ xs := (mem_selected hxs _).2 ⟨p.field, hmark, hfield⟩
  have hwi := (bit_bitOf (hindices w hw).1 (hindices w hw).2).2
    (Int.toNat_of_nonneg (hindices w hw).1)
  have hunion : union (xs.map bitOf) = bitOf p.value &&& e.mask := by
    rw [union, List.foldl_map]
    exact Except.ok.inj hbits
  have hpi : bit (bitOf p.value &&& e.mask) w.value.toInt.toNat = true := by
    rw [← hunion]
    exact bit_union.2 ⟨_, hmem, hwi⟩
  rw [bit_and, Bool.and_eq_true] at hpi
  have hindex := (bit_bitOf (hindices p hpv).1 (hindices p hpv).2).1 hpi.1
  have hval : w.value.toInt = p.value.toInt := by
    rw [← hindex, Int.toNat_of_nonneg (hindices w hw).1]
  rw [hfield, Int64.toInt_inj.1 hval]

/-- Bits that no number stands for are not seen. -/
theorem decodeBitmask_and_mask (bits : UInt64) :
    e.decodeBitmask (bits &&& e.mask) = e.decodeBitmask bits := by
  have hseen : ∀ v ∈ e.values,
      bits &&& e.mask &&& bitOf v.value ≠ 0 ↔ bits &&& bitOf v.value ≠ 0 := by
    intro v hv
    rw [ne_zero_iff, ne_zero_iff]
    refine exists_congr fun i => ?_
    simp only [bit_and, Bool.and_eq_true]
    constructor
    · rintro ⟨⟨hbits, -⟩, hi⟩
      exact ⟨hbits, hi⟩
    · rintro ⟨hbits, hi⟩
      exact ⟨⟨hbits, bit_mask.2 ⟨v, hv, hi⟩⟩, hi⟩
  refine (represents_decodeBitmask _).unique ((represents_decodeBitmask bits).congr fun k => ?_)
  refine exists_congr fun v => and_congr_right fun hv => ?_
  rw [decide_eq_true_eq, decide_eq_true_eq, hseen v (mem_primary.1 hv).1]

end Bitmask

section FlagList

/-- Every number is an attribute type. -/
def AttributeTypes (e : EnumType) : Prop :=
  ∀ v ∈ e.values, 0 ≤ v.value.toInt ∧ v.value.toInt ≤ 0x3FFF

/-- The attribute type of a number. -/
def typeOf (x : Int64) : UInt16 := x.toUInt64.toUInt16

/-- The flag list of a set of numbers, in the order of the declarations. -/
def flagStream (e : EnumType) (picked : Int64 → Bool) : Bytes :=
  Writer.stream ((e.distinctValues.filter picked).map fun x => (typeOf x, []))

/-- The numbers in the order of their first declaration, each once. -/
theorem distinctValues_eq (e : EnumType) :
    e.distinctValues = (e.values.map EnumValue.value).eraseDups := by
  refine (foldl_distinct EnumValue.value e.values []).trans ?_
  rw [List.nil_append, List.filter_eq_self.2]
  exact fun _ _ => rfl

theorem mem_distinctValues {x : Int64} : x ∈ e.distinctValues ↔ ∃ v ∈ e.values, v.value = x :=
  (mem_foldl_distinct EnumValue.value e.values []).trans (by simp)

theorem toNat_typeOf (ht : e.AttributeTypes) {v : EnumValue} (hv : v ∈ e.values) :
    ((typeOf v.value).toNat : Int) = v.value.toInt := by
  have hword := toNat_toUInt64 (ht v hv).1
  have hle := (ht v hv).2
  rw [typeOf, UInt64.toNat_toUInt16]
  omega

/-- Numbers that are attribute types are told apart by them. -/
theorem eq_typeOf_iff (ht : e.AttributeTypes) {v : EnumValue} (hv : v ∈ e.values) {type : UInt16} :
    type = typeOf v.value ↔ v.value.toInt = Int.ofNat type.toNat := by
  have htype := toNat_typeOf ht hv
  constructor
  · rintro rfl
    exact htype.symm
  · intro h
    refine UInt16.toNat_inj.1 ?_
    have : Int.ofNat type.toNat = type.toNat := rfl
    omega

/-- A flag list is a header for each number of the set. -/
theorem flagStream_eq (e : EnumType) (picked : Int64 → Bool) :
    e.flagStream picked = ((e.values.map EnumValue.value).eraseDups.filter picked).flatMap
      fun x => Attribute.header (typeOf x) Attribute.headerSize := by
  have hstream := Writer.stream_empty ((e.distinctValues.filter picked).map typeOf)
  rw [List.map_map, List.flatMap_map, distinctValues_eq] at hstream
  rw [flagStream, distinctValues_eq]
  exact hstream

/-- The attributes of a flag list fit their headers. -/
theorem accept_of_mem_flags (ht : e.AttributeTypes) {picked : Int64 → Bool} {a : UInt16 × Bytes}
    (ha : a ∈ (e.distinctValues.filter picked).map fun x => (typeOf x, [])) :
    Writer.accept a.1 a.2 = .ok a := by
  rcases List.mem_map.1 ha with ⟨x, hx, rfl⟩
  rcases mem_distinctValues.1 (List.mem_filter.1 hx).1 with ⟨v, hv, rfl⟩
  have htype := toNat_typeOf ht hv
  have hle := (ht v hv).2
  refine Writer.accept_eq_ok_iff.2 ⟨?_, Nat.le_of_ble_eq_true rfl, rfl⟩
  simp only
  omega

theorem encodeFlagList_of_selected (ht : e.AttributeTypes) {obj : Object} {xs : List Int64}
    (h : e.selected obj = .ok xs) : e.encodeFlagList obj = .ok (e.flagStream xs.contains) := by
  have haccept : ∀ x ∈ e.distinctValues.filter xs.contains,
      Writer.accept (typeOf x) [] = .ok (typeOf x, []) := fun x hx =>
    accept_of_mem_flags ht (List.mem_map_of_mem (f := fun x => (typeOf x, [])) hx)
  have hyields : Write.Yields ((e.distinctValues.filter xs.contains).forM fun x =>
      Write.put (typeOf x) []) _ :=
    Write.Yields.forM_single fun x _ => Write.Yields.put (typeOf x) []
  rw [mapM_of_forall haccept] at hyields
  rw [encodeFlagList, h, ok_bind]
  exact hyields.toBytes

/-- The flag list of the set that an object stands for. -/
theorem encodeFlagList_of_represents (h : e.ReadsBack) (ht : e.AttributeTypes) {obj : Object}
    {picked : Int64 → Bool} (hobj : e.Represents obj picked) :
    e.encodeFlagList obj = .ok (e.flagStream picked) := by
  rcases selected_of_represents h hobj with ⟨xs, hxs, hmem⟩
  rw [encodeFlagList_of_selected ht hxs, flagStream, flagStream]
  congr 3
  refine List.filter_congr fun x hx => Bool.eq_iff_iff.2 ?_
  rw [List.contains_iff_mem, hmem]
  exact and_iff_left (mem_distinctValues.1 hx)

/-- What one attribute does to the object of a flag list. -/
def flagStep (e : EnumType) : Object → Attribute → Except WireError Object :=
  Nested.fieldStep e.flagField? fun field obj data =>
    match Scalar.getFlag data with
    | .ok v => .ok (Object.set obj field v)
    | .error err => .error (.field e.name field err)

theorem decodeFlagList_eq (buf : Bytes) :
    e.decodeFlagList buf = Nested.foldAttributes buf [] fun obj a _ => e.flagStep obj a :=
  Nested.getObject_eq _ _ _

theorem primary_eq (h : (e.values.map EnumValue.name).Nodup) {v w : EnumValue} (hv : v ∈ e.primary)
    (hw : w ∈ e.primary) (hvw : v.value = w.value) : v = w := by
  have hv := mem_primary.1 hv
  have hw := mem_primary.1 hw
  rw [hvw, hw.2, Option.some.injEq] at hv
  exact List.inj_on_of_nodup_map h hv.1 hw.1 hv.2.symm

/-- The field of an attribute type is that of the number with this type. -/
theorem flagField?_eq_some_iff (h : (e.values.map EnumValue.name).Nodup) (ht : e.AttributeTypes)
    {type : UInt16} {field : Text} :
    e.flagField? type = some field ↔
      ∃ v ∈ e.primary, type = typeOf v.value ∧ v.field = field := by
  unfold flagField?
  constructor
  · intro hfind
    rcases Option.map_eq_some_iff.1 hfind with ⟨v, hv, hfield⟩
    have hmem := List.mem_of_find?_eq_some hv
    have htype : v.value.toInt = Int.ofNat type.toNat := by simpa using List.find?_some hv
    exact ⟨v, hmem, (eq_typeOf_iff ht (mem_primary.1 hmem).1).2 htype, hfield⟩
  · rintro ⟨v, hv, htype, rfl⟩
    have hvalue := (eq_typeOf_iff ht (mem_primary.1 hv).1).1 htype
    cases hfound : e.primary.find? (·.value.toInt == Int.ofNat type.toNat) with
    | none =>
        have := List.find?_eq_none.1 hfound v hv
        simp [hvalue] at this
    | some w =>
        have hw : w.value.toInt = Int.ofNat type.toNat := by simpa using List.find?_some hfound
        have hwv : w.value = v.value := Int64.toInt_inj.1 (hw.trans hvalue.symm)
        rw [primary_eq h (List.mem_of_find?_eq_some hfound) hv hwv, Option.map_some]

/-- Whether some attribute has the type of a number. -/
def occurs (as : List Attribute) (x : Int64) : Bool := as.any fun a => a.type == typeOf x

theorem occurs_concat (as : List Attribute) (a : Attribute) (x : Int64) :
    occurs (as ++ [a]) x = (occurs as x || a.type == typeOf x) := by
  rw [occurs, List.any_append, List.any_cons, List.any_nil, Bool.or_false]
  rfl

/-- An attribute whose type is that of a number sets the field of that number, and any other is
    skipped. -/
theorem flagStep_eq_ok {old new : Object} {a : Attribute} (h : e.flagStep old a = .ok new) :
    e.flagField? a.type = none ∧ new = old ∨
      ∃ field, e.flagField? a.type = some field ∧ new = Object.set old field (.bool true) := by
  unfold flagStep Nested.fieldStep at h
  cases hfield : e.flagField? a.type with
  | none =>
      rw [hfield] at h
      cases h
      exact Or.inl ⟨rfl, rfl⟩
  | some field =>
      rw [hfield] at h
      simp only at h
      split at h
      · cases h
      · -- A flag has no payload.
        cases hp : a.payload with
        | nil =>
            rw [hp] at h
            cases h
            exact Or.inr ⟨field, rfl, rfl⟩
        | cons b rest =>
            rw [hp] at h
            cases h

/-- One more attribute adds its number to the set. -/
theorem represents_flagStep (h : (e.values.map EnumValue.name).Nodup) (ht : e.AttributeTypes)
    {passed : List Attribute} {a : Attribute} {old new : Object}
    (hold : e.Represents old (occurs passed)) (hstep : e.flagStep old a = .ok new) :
    e.Represents new (occurs (passed ++ [a])) := by
  rcases flagStep_eq_ok hstep with ⟨hfield, rfl⟩ | ⟨field, hfield, rfl⟩
  · refine hold.congr fun k => exists_congr fun v => and_congr_right fun hv => ?_
    -- The attribute's type is not that of any number.
    have hne : (a.type == typeOf v.value) = false := by
      rw [beq_eq_false_iff_ne]
      intro htype
      have hsome := (flagField?_eq_some_iff h ht).2 ⟨v, hv, htype, rfl⟩
      rw [hfield] at hsome
      cases hsome
    rw [occurs_concat, hne, Bool.or_false]
  · rcases (flagField?_eq_some_iff h ht).1 hfield with ⟨p, hp, htype, rfl⟩
    refine (hold.set p.field).congr fun k => ?_
    simp only [occurs_concat, Bool.or_eq_true, beq_iff_eq, or_and_right, and_or_left, exists_or]
    rw [or_comm]
    refine or_congr_right ⟨?_, ?_⟩
    · rintro rfl
      exact ⟨p, hp, htype, rfl⟩
    · rintro ⟨v, hv, hvtype, rfl⟩
      have hsome := (flagField?_eq_some_iff h ht).2 ⟨v, hv, hvtype, rfl⟩
      rw [hfield] at hsome
      exact (Option.some.inj hsome).symm

/-- The object of a flag list stands for the numbers whose types occur. -/
theorem represents_foldlM_flagStep (h : (e.values.map EnumValue.name).Nodup)
    (ht : e.AttributeTypes) {as : List Attribute} {obj : Object}
    (hfold : as.foldlM e.flagStep [] = .ok obj) : e.Represents obj (occurs as) :=
  foldlM_invariant (fun passed obj => e.Represents obj (occurs passed))
    (Object.Marks.nil.congr fun k => by simp [occurs])
    (fun _ _ _ _ _ hold hstep => represents_flagStep h ht hold hstep) hfold

theorem walk_flagStream (ht : e.AttributeTypes) (picked : Int64 → Bool) :
    Attribute.walk (e.flagStream picked) =
      (((e.distinctValues.filter picked).map fun x => (typeOf x, [])).map Attribute.plain, none) :=
  Attribute.walk_stream fun _ ha => accept_of_mem_flags ht ha

/-- The numbers that occur in the flag list of a set are those of the set. -/
theorem occurs_flagStream (ht : e.AttributeTypes) (picked : Int64 → Bool) {v : EnumValue}
    (hv : v ∈ e.values) :
    occurs (Attribute.walk (e.flagStream picked)).1 v.value = picked v.value := by
  rw [walk_flagStream ht, Bool.eq_iff_iff]
  simp only [occurs, List.any_map, List.any_eq_true, List.mem_filter, Function.comp_apply,
    Attribute.plain, beq_iff_eq]
  constructor
  · rintro ⟨x, ⟨hx, hpick⟩, htype⟩
    rcases mem_distinctValues.1 hx with ⟨w, hw, rfl⟩
    have hvw : v.value.toInt = w.value.toInt :=
      ((eq_typeOf_iff ht hv).1 htype).trans (toNat_typeOf ht hw)
    rw [Int64.toInt_inj.1 hvw]
    exact hpick
  · intro hpick
    exact ⟨v.value, ⟨mem_distinctValues.2 ⟨v, hv, rfl⟩, hpick⟩, rfl⟩

/-- Reading a flag list gives an object for the set that was written. -/
theorem decodeFlagList_flagStream (h : (e.values.map EnumValue.name).Nodup) (ht : e.AttributeTypes)
    (picked : Int64 → Bool) :
    ∃ obj, e.decodeFlagList (e.flagStream picked) = .ok obj ∧ e.Represents obj picked := by
  have hwalk := walk_flagStream ht picked
  have hok : ∃ obj, (Attribute.walk (e.flagStream picked)).1.foldlM e.flagStep [] = .ok obj := by
    rw [hwalk]
    refine foldlM_succeeds [] fun a ha s => ?_
    rcases List.mem_map.1 ha with ⟨b, hb, rfl⟩
    rcases List.mem_map.1 hb with ⟨x, -, rfl⟩
    unfold flagStep Nested.fieldStep
    cases e.flagField? (Attribute.plain (typeOf x, [])).type with
    | none => exact ⟨s, rfl⟩
    | some field => exact ⟨Object.set s field (.bool true), rfl⟩
  rcases hok with ⟨obj, hobj⟩
  refine ⟨obj, ?_, ?_⟩
  · rw [decodeFlagList_eq]
    exact Nested.foldAttributes_eq_ok_iff.2 ⟨by rw [hwalk], hobj⟩
  · refine (represents_foldlM_flagStep h ht hobj).congr fun k => ?_
    refine exists_congr fun v => and_congr_right fun hv => ?_
    rw [occurs_flagStream ht picked (mem_primary.1 hv).1]

/-- Whatever flag list is read, its object stands for the numbers whose types occur in it. -/
theorem represents_decodeFlagList (h : (e.values.map EnumValue.name).Nodup) (ht : e.AttributeTypes)
    {buf : Bytes} {obj : Object} (hdec : e.decodeFlagList buf = .ok obj) :
    e.Represents obj (occurs (Attribute.walk buf).1) := by
  rw [decodeFlagList_eq] at hdec
  exact represents_foldlM_flagStep h ht (Nested.foldAttributes_eq_ok_iff.1 hdec).2

/-- If every flag list comes back as the set of its numbers, then every field is read as its
    number. -/
theorem readsBack_of_flagList (h : (e.values.map EnumValue.name).Nodup) (ht : e.AttributeTypes)
    (hkept : ∀ buf obj, e.decodeFlagList buf = .ok obj →
      e.encodeFlagList obj = .ok (e.flagStream (occurs (Attribute.walk buf).1))) :
    e.ReadsBack := by
  intro p hp
  have hpv := (mem_primary.1 hp).1
  -- The flag list has the type of the number alone, and so has what is written from its field.
  rcases decodeFlagList_flagStream h ht (· == p.value) with ⟨obj, hobj, hrep⟩
  have hmark : (p.field, Value.bool true) ∈ obj :=
    (hrep.mem_iff _ _).2 ⟨⟨p, hp, beq_self_eq_true _, rfl⟩, rfl⟩
  have henc := hkept _ _ hobj
  rcases bind_eq_ok_iff.1 henc with ⟨xs, hxs, -⟩
  rw [encodeFlagList_of_selected ht hxs, Except.ok.injEq] at henc
  rcases exists_valueOfField? hpv with ⟨w, hw, hfield⟩
  have hmem : w.value ∈ xs := (mem_selected hxs _).2 ⟨p.field, hmark, hfield⟩
  have hsame : xs.contains w.value = (w.value == p.value) := by
    rw [← occurs_flagStream ht xs.contains hw, henc, occurs_flagStream ht _ hw,
      occurs_flagStream ht _ hw]
  rw [List.contains_iff_mem.2 hmem] at hsame
  rw [hfield, eq_of_beq hsame.symm]

/-- A flag list that was written is read, and written the same again. -/
theorem flagList_encoded (h : e.WellFormed) (ht : e.AttributeTypes) {obj : Object} {b : Bytes}
    (henc : e.encodeFlagList obj = .ok b) :
    ∃ obj', e.decodeFlagList b = .ok obj' ∧ e.encodeFlagList obj' = .ok b := by
  rcases bind_eq_ok_iff.1 henc with ⟨xs, hxs, -⟩
  rw [encodeFlagList_of_selected ht hxs] at henc
  cases henc
  rcases decodeFlagList_flagStream h.distinct ht xs.contains with ⟨obj', hobj', hrep⟩
  exact ⟨obj', hobj', encodeFlagList_of_represents h.readsBack ht hrep⟩

/-- A flag list that was read can be written, and is read the same again. -/
theorem flagList_decoded (h : e.WellFormed) (ht : e.AttributeTypes) {obj : Object} {b : Bytes}
    (hdec : e.decodeFlagList b = .ok obj) :
    ∃ b', e.encodeFlagList obj = .ok b' ∧ e.decodeFlagList b' = .ok obj := by
  have hrep := represents_decodeFlagList h.distinct ht hdec
  rcases decodeFlagList_flagStream h.distinct ht (occurs (Attribute.walk b).1) with
    ⟨obj', hobj', hrep'⟩
  refine ⟨_, encodeFlagList_of_represents h.readsBack ht hrep, ?_⟩
  rw [hobj', hrep'.unique hrep]

end FlagList

end EnumType

end NetlinkSchema
