import NetlinkSchema.Proofs.Number
import NetlinkSchema.Proofs.SameResult

/-!
# Machine types of integers

What an integer is encoded as depends on its value, whatever machine type it has, and so does
whether it is encoded at all. This is so for all integer types of the wire. To floating-point
types an integer comes as a signed word. Values beyond the signed words have machine types of two
kinds only, and just one of them has a way of its own: the unsigned type with 64 bits in its name.
The unsigned type without a width is refused there, although the value is the same.

## Theorems

* `Integer.type_of_le_val`: The machine types of large values.
* `Number.toBits_int_of_isFloat`: The bits of an integer in a floating-point type.
* `Number.equal_integers_iff`: When integers of equal value are encoded alike.
-/

namespace NetlinkSchema

/-- Beyond the signed words there are only two machine types. -/
theorem Integer.type_of_le_val {i : Integer} (h : 2 ^ 63 ≤ i.val) :
    i.type = .uint ∨ i.type = .uint64 := by
  have hgreatest := i.le_greatest
  have hsmall : i.type ≠ .uint → i.type ≠ .uint64 → i.type.greatest < 2 ^ 63 := by
    cases i.type <;> decide
  by_cases huint : i.type = .uint
  · exact Or.inl huint
  by_cases huint64 : i.type = .uint64
  · exact Or.inr huint64
  have hlt := hsmall huint huint64
  omega

/-- A value that is refused under two conditions is refused alike if the conditions are. -/
theorem sameResult_unless_iff {ε α : Type} {p q : Prop} [Decidable p] [Decidable q] {e e' : ε}
    {a : α} : SameResult (if p then .error e else .ok a) (if q then .error e' else .ok a) ↔
      (p ↔ q) := by
  by_cases hp : p
  · by_cases hq : q
    · rw [if_pos hp, if_pos hq]
      exact iff_of_true (SameResult.error _ _) (iff_of_true hp hq)
    · rw [if_pos hp, if_neg hq]
      exact iff_of_false (fun hsame => by cases hsame) fun hiff => hq (hiff.1 hp)
  · by_cases hq : q
    · rw [if_neg hp, if_pos hq]
      exact iff_of_false (fun hsame => by cases hsame) fun hiff => hp (hiff.2 hq)
    · rw [if_neg hp, if_neg hq]
      exact iff_of_true (SameResult.refl _) (iff_of_false hp hq)

namespace Number

theorem integerToDouble?_eq (i : Integer) : integerToDouble? i =
    if 2 ^ 63 ≤ i.val ∧ i.type = .uint then none else some (FloatFormat.double.ofInt i.val) := by
  rw [integerToDouble?]
  by_cases hlarge : 2 ^ 63 ≤ i.val
  · rcases i.type_of_le_val hlarge with htype | htype
    · rw [if_neg (by simp only [htype, reduceCtorEq, or_false]; omega), if_pos ⟨hlarge, htype⟩]
    · rw [if_pos (Or.inr htype), if_neg (by simp [htype])]
  · rw [if_pos (Or.inl (by omega)), if_neg fun h => hlarge h.1]

/-- In a floating-point type the bits of an integer are a function of its value. Only a large value
    of the unsigned type without a width has none. -/
theorem toBits_int_of_isFloat {n : Number} (hn : n.isFloat = true) : ∃ pattern : Int → UInt64,
    ∀ i : Integer, n.toBits (.int i) = if 2 ^ 63 ≤ i.val ∧ i.type = .uint
      then .error (.unexpectedType n.name i.type.name) else .ok (pattern i.val) := by
  rcases n with ⟨kind, order⟩
  cases kind with
  | unsigned w => cases hn
  | signed w => cases hn
  | float32 =>
      refine ⟨fun x =>
        UInt64.ofNat (FloatFormat.double.convert .single (FloatFormat.double.ofInt x)), fun i => ?_⟩
      have hdouble := integerToDouble?_eq i
      by_cases hnone : 2 ^ 63 ≤ i.val ∧ i.type = .uint
      · rw [if_pos hnone] at hdouble ⊢
        simp only [toBits, singleBits?, hdouble, Option.map_none, Value.typeName]
      · rw [if_neg hnone] at hdouble ⊢
        simp only [toBits, singleBits?, hdouble, Option.map_some]
  | float64 =>
      refine ⟨fun x => UInt64.ofNat (FloatFormat.double.ofInt x), fun i => ?_⟩
      have hdouble := integerToDouble?_eq i
      by_cases hnone : 2 ^ 63 ≤ i.val ∧ i.type = .uint
      · rw [if_pos hnone] at hdouble ⊢
        simp only [toBits, doubleBits?, hdouble, Value.typeName]
      · rw [if_neg hnone] at hdouble ⊢
        simp only [toBits, doubleBits?, hdouble]

/-- Integers of equal value never have different bits. They have the same bits, or none either way,
    if and only if the number is an integer type, or the value is a signed word, or both or none of
    them are of the unsigned type without a width. -/
theorem equal_integers_iff (n : Number) {i j : Integer} (h : i.val = j.val) :
    (∀ b c, n.toBits (.int i) = .ok b → n.toBits (.int j) = .ok c → b = c) ∧
    (SameResult (n.toBits (.int i)) (n.toBits (.int j)) ↔
      (n.isFloat = true → 2 ^ 63 ≤ i.val → (i.type = .uint ↔ j.type = .uint))) := by
  by_cases hn : n.isFloat = true
  · rcases toBits_int_of_isFloat hn with ⟨pattern, hbits⟩
    rw [hbits i, hbits j, ← h]
    constructor
    · intro b c hb hc
      split_ifs at hb hc
      cases hb
      cases hc
      rfl
    · -- The value is the same, so only the machine types can tell the refusals apart.
      rw [sameResult_unless_iff, and_congr_right_iff, imp_iff_right hn]
  · have heq := toBits_int_congr (Bool.eq_false_iff.2 hn) h
    rw [heq]
    refine ⟨fun b c hb hc => ?_, iff_of_true (SameResult.refl _) fun hf => absurd hf hn⟩
    rw [hb] at hc
    exact Except.ok.inj hc

/-- The greatest word has the same bits in both unsigned types, and a negative number has the same
    nearest float in all signed ones. -/
theorem words_encoded_alike :
    SameResult (toBits ⟨.unsigned .w64, .big⟩ (.ofInt .uint 0xFFFFFFFFFFFFFFFF))
        (toBits ⟨.unsigned .w64, .big⟩ (.ofInt .uint64 0xFFFFFFFFFFFFFFFF)) ∧
      SameResult (toBits ⟨.float32, .little⟩ (.ofInt .int8 (-100)))
        (toBits ⟨.float32, .little⟩ (.ofInt .int (-100))) := by
  have hword := equal_integers_iff ⟨.unsigned .w64, .big⟩
    (i := Integer.wrap .uint 0xFFFFFFFFFFFFFFFF) (j := Integer.wrap .uint64 0xFFFFFFFFFFFFFFFF)
    (by decide +kernel)
  have hfloat := equal_integers_iff ⟨.float32, .little⟩
    (i := Integer.wrap .int8 (-100)) (j := Integer.wrap .int (-100)) (by decide +kernel)
  exact ⟨hword.2.2 fun h => absurd h (by decide),
    hfloat.2.2 fun _ h => absurd h (by decide +kernel)⟩

/-- The first number beyond the signed words is a double in one unsigned type, and has the wrong
    type in the other. -/
theorem unsigned_refused_as_float :
    (Integer.wrap .uint64 (2 ^ 63)).val = (Integer.wrap .uint (2 ^ 63)).val ∧
    toBits ⟨.float64, .native⟩ (.ofInt .uint64 (2 ^ 63)) = .ok 0x43E0000000000000 ∧
    toBits ⟨.float64, .native⟩ (.ofInt .uint (2 ^ 63)) = .error (.unexpectedType "f64" "uint") ∧
    ¬ SameResult (toBits ⟨.float64, .native⟩ (.ofInt .uint64 (2 ^ 63)))
      (toBits ⟨.float64, .native⟩ (.ofInt .uint (2 ^ 63))) := by
  have hdouble : toBits ⟨.float64, .native⟩ (.ofInt .uint64 (2 ^ 63)) = .ok 0x43E0000000000000 := by
    decide +kernel
  have hrefused : toBits ⟨.float64, .native⟩ (.ofInt .uint (2 ^ 63))
      = .error (.unexpectedType "f64" "uint") := by
    decide +kernel
  refine ⟨by decide +kernel, hdouble, hrefused, fun hsame => ?_⟩
  rw [hdouble, hrefused] at hsame
  cases hsame

end Number

end NetlinkSchema
