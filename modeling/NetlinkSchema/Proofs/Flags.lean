import NetlinkSchema.Codec.Flags
import NetlinkSchema.Proofs.Object
import NetlinkSchema.Proofs.Outcome

/-!
# Flags keep every bit

Encoding a flags object is a union of bits, so what it gives is known bit by bit: a bit is set if
some entry sets it. The entries that decoding makes cover the pattern exactly. A present flag has
only bits of the pattern, and the field for the rest has those that no present flag has.

The field for the rest must not be a flag itself, or it would take the flag's place.

## Main definitions

* `bit`, `union`: A bit of a word, and the bits of several words.
* `FlagsType.WellFormed`: Names are distinct and none is the field for the rest.

## Theorems

* `bit_union`: A bit of a union is set if some word has it.
* `FlagsType.encode_eq_union`: Encoding is the union of what the entries set.
* `FlagsType.encode_decode`: Decoding a pattern and encoding the object gives the pattern.
* `FlagsType.encode_decode_iff`: It does so for all patterns only if no flag has the name of the
  field for the rest.
-/

namespace NetlinkSchema

/-- A bit of a word. -/
def bit (x : UInt64) (i : Nat) : Bool := x.toBitVec.getLsbD i

@[simp] theorem bit_zero (i : Nat) : bit 0 i = false := BitVec.getLsbD_zero

@[simp] theorem bit_or (x y : UInt64) (i : Nat) : bit (x ||| y) i = (bit x i || bit y i) := by
  rw [bit, UInt64.toBitVec_or, BitVec.getLsbD_or]
  rfl

@[simp] theorem bit_and (x y : UInt64) (i : Nat) : bit (x &&& y) i = (bit x i && bit y i) := by
  rw [bit, UInt64.toBitVec_and, BitVec.getLsbD_and]
  rfl

/-- A bit that no word has is not a bit of any complement either. -/
theorem bit_and_not (x y : UInt64) (i : Nat) : bit (x &&& ~~~y) i = (bit x i && !bit y i) := by
  rw [bit, UInt64.toBitVec_and, UInt64.toBitVec_not, BitVec.getLsbD_and, BitVec.getLsbD_not]
  by_cases hi : i < 64
  · rw [decide_eq_true hi, Bool.true_and]
    rfl
  · have hx : bit x i = false := BitVec.getLsbD_of_ge _ _ (Nat.not_lt.1 hi)
    rw [hx, Bool.false_and, ← bit, hx, Bool.false_and]

theorem eq_of_bit_eq {x y : UInt64} (h : ∀ i, bit x i = bit y i) : x = y :=
  UInt64.eq_of_toBitVec_eq (BitVec.eq_of_getLsbD_eq fun i _ => h i)

theorem ne_zero_iff {x : UInt64} : x ≠ 0 ↔ ∃ i, bit x i = true := by
  constructor
  · intro hx
    by_contra hnone
    refine hx (eq_of_bit_eq fun i => ?_)
    rw [bit_zero]
    exact Bool.eq_false_iff.2 fun hi => hnone ⟨i, hi⟩
  · rintro ⟨i, hi⟩ rfl
    rw [bit_zero] at hi
    cases hi

/-- The bits of several words. -/
def union (xs : List UInt64) : UInt64 := xs.foldl (· ||| ·) 0

theorem bit_foldl_or (xs : List UInt64) (init : UInt64) (i : Nat) :
    bit (xs.foldl (· ||| ·) init) i = (bit init i || xs.any (bit · i)) := by
  induction xs generalizing init with
  | nil => simp
  | cons x xs ih => rw [List.foldl_cons, ih, bit_or, List.any_cons, Bool.or_assoc]

/-- A bit of a union is set if some word has it. -/
theorem bit_union {α : Type} {word : α → UInt64} {xs : List α} {i : Nat} :
    bit (union (xs.map word)) i = true ↔ ∃ x ∈ xs, bit (word x) i = true := by
  rw [union, bit_foldl_or, bit_zero, Bool.false_or, List.any_map, List.any_eq_true]
  rfl

namespace FlagsType

/-- Names are distinct, and none is the field for the bits that no flag covers. -/
structure WellFormed (f : FlagsType) : Prop where
  distinct : (f.flags.map FlagBits.name).Nodup
  unknown : unknownField ∉ f.flags.map FlagBits.name

theorem mask?_of_mem {f : FlagsType} (h : f.WellFormed) {flag : FlagBits} (hf : flag ∈ f.flags) :
    f.mask? flag.name = some flag.mask := by
  rw [mask?, find?_key h.distinct hf, Option.map_some]

/-- Encoding is the union of what the entries set. -/
theorem encode_eq_union {f : FlagsType} {obj : Object} {bitsOf : Text × Value → UInt64}
    (h : ∀ e ∈ obj, f.entryBits e.1 e.2 = .ok (bitsOf e)) :
    f.encode obj = .ok (union (obj.map bitsOf)) := by
  have key : ∀ init : UInt64,
      obj.foldlM (fun bits e => do return bits ||| (← f.entryBits e.1 e.2)) init
        = .ok ((obj.map bitsOf).foldl (· ||| ·) init) := by
    induction obj with
    | nil => exact fun _ => rfl
    | cons e rest ih =>
        intro init
        rw [List.foldlM_cons, h e List.mem_cons_self]
        exact ih (fun x hx => h x (List.mem_cons_of_mem _ hx)) (init ||| bitsOf e)
  exact key 0

theorem mem_present {f : FlagsType} {bits : UInt64} {flag : FlagBits} :
    flag ∈ f.present bits ↔ flag ∈ f.flags ∧ bits &&& flag.mask = flag.mask := by
  rw [present, List.mem_filter, beq_iff_eq]

/-- A present flag has only bits of the pattern. -/
theorem bit_of_mem_present {f : FlagsType} {bits : UInt64} {flag : FlagBits}
    (h : flag ∈ f.present bits) {i : Nat} (hi : bit flag.mask i = true) : bit bits i = true := by
  have hmask := (mem_present.1 h).2
  rw [← hmask, bit_and, Bool.and_eq_true] at hi
  exact hi.1

/-- What is left over are the bits of the pattern that no present flag has. -/
theorem bit_residue (f : FlagsType) (bits : UInt64) (i : Nat) :
    bit (f.residue bits) i = true ↔
      bit bits i = true ∧ ∀ flag ∈ f.present bits, bit flag.mask i = false := by
  have key : ∀ (flags : List FlagBits) (rest : UInt64),
      bit (flags.foldl (fun rest flag => rest &&& ~~~flag.mask) rest) i = true ↔
        bit rest i = true ∧ ∀ flag ∈ flags, bit flag.mask i = false := by
    intro flags
    induction flags with
    | nil => simp
    | cons flag flags ih =>
        intro rest
        rw [List.foldl_cons, ih, bit_and_not, Bool.and_eq_true, Bool.not_eq_true',
          List.forall_mem_cons, and_assoc]
  exact key _ _

theorem marks_present (f : FlagsType) (bits : UInt64) : Object.Marks
    ((f.present bits).foldl (fun obj flag => Object.set obj flag.name (.bool true)) [])
    fun k => ∃ flag ∈ f.present bits, flag.name = k := by
  have h := Object.Marks.nil.foldl FlagBits.name (fun _ => True) (f.present bits)
  simp only [if_true, true_and, or_false] at h
  exact h

/-- The present flags are marked, and what is left over has a field of its own. -/
theorem mem_decode {f : FlagsType} (h : f.WellFormed) {bits : UInt64} {k : Text} {v : Value} :
    (k, v) ∈ f.decode bits ↔
      (∃ flag ∈ f.present bits, k = flag.name ∧ v = .bool true) ∨
      (f.residue bits ≠ 0 ∧ k = unknownField ∧ v = .ofInt .uint64 (f.residue bits).toNat) := by
  have hmarks := f.marks_present bits
  have hfree : ∀ flag ∈ f.present bits, flag.name ≠ unknownField := fun flag hflag hname =>
    h.unknown (hname ▸ List.mem_map_of_mem (mem_present.1 hflag).1)
  unfold decode
  by_cases hrest : f.residue bits = 0
  · rw [if_pos hrest, hmarks.mem_iff]
    simp only [hrest, ne_eq, not_true, false_and, or_false, eq_comm, exists_and_right, ← and_assoc]
  · rw [if_neg hrest, Object.mem_set_iff hmarks.ordered, hmarks.mem_iff]
    constructor
    · rintro (⟨hk, hv⟩ | ⟨-, ⟨flag, hflag, hk⟩, hv⟩)
      · exact Or.inr ⟨hrest, hk, hv⟩
      · exact Or.inl ⟨flag, hflag, hk.symm, hv⟩
    · rintro (⟨flag, hflag, rfl, hv⟩ | ⟨-, hk, hv⟩)
      · exact Or.inr ⟨hfree flag hflag, ⟨flag, hflag, rfl⟩, hv⟩
      · exact Or.inl ⟨hk, hv⟩

/-- The bits that an entry of a decoded object sets. -/
def bitsOfEntry (f : FlagsType) (e : Text × Value) : UInt64 :=
  match e.2.toUInt64? with
  | some bits => bits
  | none => (f.mask? e.1).getD 0

theorem toUInt64?_ofInt (x : UInt64) : (Value.ofInt .uint64 x.toNat).toUInt64? = some x := by
  have hmod : (x.toNat : Int) % 2 ^ 64 = x.toNat :=
    Int.emod_eq_of_lt (Int.natCast_nonneg _) (Int.ofNat_lt.2 x.toNat_lt)
  have hval : IntType.reduce .uint64 x.toNat = x.toNat := hmod
  have hpos : (0 : Int) ≤ IntType.reduce .uint64 x.toNat := hval ▸ Int.natCast_nonneg _
  change (if 0 ≤ IntType.reduce .uint64 x.toNat then
    some (UInt64.ofInt (IntType.reduce .uint64 x.toNat)) else none) = some x
  rw [if_pos hpos, hval, UInt64.ofInt, hmod, Int.toNat_natCast, UInt64.ofNat_toNat]

/-- Every entry of a decoded object is accepted. -/
theorem entryBits_of_mem_decode {f : FlagsType} (h : f.WellFormed) {bits : UInt64}
    {e : Text × Value} (he : e ∈ f.decode bits) :
    f.entryBits e.1 e.2 = .ok (f.bitsOfEntry e) := by
  rcases e with ⟨k, v⟩
  rcases (mem_decode h).1 he with ⟨flag, hmem, rfl, rfl⟩ | ⟨-, rfl, rfl⟩
  · have hflag := (mem_present.1 hmem).1
    have hname : flag.name ≠ unknownField := fun hname =>
      h.unknown (hname ▸ List.mem_map_of_mem hflag)
    simp [entryBits, bitsOfEntry, Value.isNull, Value.toUInt64?, hname, mask?_of_mem h hflag]
  · simp only [entryBits, bitsOfEntry, toUInt64?_ofInt, beq_self_eq_true, if_true]
    rfl

/-- Decoding a pattern and encoding the object gives the pattern. -/
theorem encode_decode {f : FlagsType} (h : f.WellFormed) (bits : UInt64) :
    f.encode (f.decode bits) = .ok bits := by
  rw [encode_eq_union fun e he => entryBits_of_mem_decode h he]
  congr 1
  refine eq_of_bit_eq fun i => Bool.eq_iff_iff.2 ?_
  rw [bit_union]
  constructor
  · rintro ⟨⟨k, v⟩, he, hi⟩
    rcases (mem_decode h).1 he with ⟨flag, hmem, rfl, rfl⟩ | ⟨-, rfl, rfl⟩
    · simp only [bitsOfEntry, Value.toUInt64?, mask?_of_mem h (mem_present.1 hmem).1] at hi
      exact bit_of_mem_present hmem hi
    · simp only [bitsOfEntry, toUInt64?_ofInt] at hi
      exact ((f.bit_residue bits i).1 hi).1
  · intro hi
    -- A bit of the pattern belongs to a present flag, or it is left over.
    by_cases hflag : ∃ flag ∈ f.present bits, bit flag.mask i = true
    · rcases hflag with ⟨flag, hmem, hbit⟩
      refine ⟨(flag.name, .bool true), (mem_decode h).2 (Or.inl ⟨flag, hmem, rfl, rfl⟩), ?_⟩
      simpa [bitsOfEntry, Value.toUInt64?, mask?_of_mem h (mem_present.1 hmem).1] using hbit
    · have hrest : bit (f.residue bits) i = true := (f.bit_residue bits i).2
        ⟨hi, fun flag hmem => Bool.eq_false_iff.2 fun hbit => hflag ⟨flag, hmem, hbit⟩⟩
      refine ⟨(unknownField, .ofInt .uint64 (f.residue bits).toNat),
        (mem_decode h).2 (Or.inr ⟨ne_zero_iff.2 ⟨i, hrest⟩, rfl, rfl⟩), ?_⟩
      simpa only [bitsOfEntry, toUInt64?_ofInt] using hrest

/-- The bits of a flag leave nothing over. -/
theorem residue_mask {f : FlagsType} {flag : FlagBits} (hf : flag ∈ f.flags) :
    f.residue flag.mask = 0 := by
  by_contra hrest
  rcases ne_zero_iff.1 hrest with ⟨i, hi⟩
  rcases (f.bit_residue _ i).1 hi with ⟨hmask, hfree⟩
  have hclear := hfree flag (mem_present.2 ⟨hf, UInt64.and_self⟩)
  rw [hmask] at hclear
  cases hclear

/-- What is encoded has only entries that are accepted. -/
theorem entryBits_of_encode {f : FlagsType} {obj : Object} {bits : UInt64}
    (h : f.encode obj = .ok bits) : ∀ e ∈ obj, ∃ b, f.entryBits e.1 e.2 = .ok b := by
  refine foldlM_invariant (fun passed _ => ∀ e ∈ passed, ∃ b, f.entryBits e.1 e.2 = .ok b)
    (by simp) ?_ h
  intro passed e old new _ hpassed hstep x hx
  rcases bind_eq_ok_iff.1 hstep with ⟨b, hb, -⟩
  rcases List.mem_append.1 hx with hx | hx
  · exact hpassed x hx
  · rw [List.mem_singleton.1 hx]
    exact ⟨b, hb⟩

/-- Flags keep every bit exactly if none of them has the name of the field for the rest. -/
theorem encode_decode_iff {f : FlagsType} (hdistinct : (f.flags.map FlagBits.name).Nodup) :
    (∀ bits, f.encode (f.decode bits) = .ok bits) ↔ unknownField ∉ f.flags.map FlagBits.name := by
  constructor
  · intro h hmem
    rcases List.mem_map.1 hmem with ⟨flag, hflag, hname⟩
    -- At the bits of that flag nothing is left over, so its own mark stands in the field.
    have hmark : (unknownField, Value.bool true) ∈ f.decode flag.mask := by
      rw [decode, if_pos (residue_mask hflag), (f.marks_present _).mem_iff]
      exact ⟨⟨flag, mem_present.2 ⟨hflag, UInt64.and_self⟩, hname⟩, rfl⟩
    rcases entryBits_of_encode (h flag.mask) _ hmark with ⟨b, hb⟩
    cases hb
  · exact fun hunknown => encode_decode ⟨hdistinct, hunknown⟩

end FlagsType

end NetlinkSchema
