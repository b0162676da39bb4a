import NetlinkSchema.Proofs.DerivedForms

/-!
# Bits fit their integer

Whether an integer is wide enough for the bits that it stands for is checked when a schema is
compiled, one value at a time: each value of a flags type, and the bit of each number of an enum,
must fit the width. A union of words that fit is a word that fits, so no combination of names is
ever out of range, however the values overlap. That the numbers of an enum are bits at all is
checked elsewhere, with the enum.

An integer is decoded through its number. The number of any bytes has the bits of these bytes, be
it negative or not, so the conversion back to bits does not fail.

## Main definitions

* `Payload.ElementOf`: A payload within arrays and maps.
* `Bundle.HasInteger`: Some attribute or member has an integer with a meaning.
* `Schema.BitForm`: The names, the encoding and the decoding of an integer that stands for bits.
* `Object.Switches`: The entries of an object turn declared names on and off.
* `Schema.NamedBits`: The bits that a name stands for by its declaration.

## Theorems

* `FlagsType.encode_of_switches`, `EnumType.encodeBitmask_of_switches`: Names combine to the union
  of their bits, which fits where each of them does.
* `Schema.namedBits_flags_iff`, `Schema.namedBits_bitmask_iff`: What a name stands for is looked up.
* `Schema.resolves_of_hasInteger`: Integers of compiled types went through the check.
* `Schema.combined_bits_fit`: Every combination of names is encoded as a union of bits, and all bits
  are decoded.
-/

namespace NetlinkSchema

/-- A payload is that of the elements of arrays and maps, however nested. -/
inductive Payload.ElementOf (part : Payload) : Payload → Prop
  | refl : ElementOf part part
  | array {zero : Bool} {elem : Payload} (h : ElementOf part elem) :
      ElementOf part (.array zero elem)
  | map {elem : Payload} (h : ElementOf part elem) : ElementOf part (.map elem)

/-- Some compiled type has such an integer: an attribute, be it within arrays and maps, or a member
    of a struct, be it within arrays and other structs. -/
inductive Bundle.HasInteger (b : Bundle) (num : Number) (l : Lowering) : Prop
  | field {name : Text} {f : Field} (hf : f ∈ b.attrSets.fields name)
      (helem : (Payload.number num l).ElementOf f.payload)
  | member {name : Text} {layout : Layout} {m : Text × MemberType}
      (hcodec : b.codec? name = some (.struct layout)) (hm : m ∈ layout.members)
      (hpart : (MemberType.number num l).PartOf m.2)

/-- Entries that are set turn declared names on and off. -/
def Object.Switches (names : List Text) (obj : Object) : Prop :=
  ∀ e ∈ obj, e.2.isNull = true ∨ e.1 ≠ unknownField ∧ e.1 ∈ names ∧ ∃ set, e.2 = .bool set

/-- A union of words that fit a width fits it. -/
theorem or_lt_two_pow {x y : UInt64} {k : Nat} (hx : x.toNat < 2 ^ k) (hy : y.toNat < 2 ^ k) :
    (x ||| y).toNat < 2 ^ k := by
  rw [UInt64.toNat_or]
  exact Nat.or_lt_two_pow hx hy

theorem union_lt_two_pow {xs : List UInt64} {k : Nat} (h : ∀ x ∈ xs, x.toNat < 2 ^ k) :
    (union xs).toNat < 2 ^ k :=
  List.foldlRecOn (motive := fun bits : UInt64 => bits.toNat < 2 ^ k) xs _ (Nat.two_pow_pos k)
    fun _ hbits x hx => or_lt_two_pow hbits (h x hx)

namespace FlagsType

variable {f : FlagsType} {names : List Text} {k : Nat}

-- A switch sets the bits of its flag if it is turned on.
theorem entryBits_of_switch (hnames : ∀ n ∈ names, n ∈ f.flags.map FlagBits.name)
    (hfit : ∀ flag ∈ f.flags, flag.mask.toNat < 2 ^ k) {e : Text × Value}
    (he : e.2.isNull = true ∨ e.1 ≠ unknownField ∧ e.1 ∈ names ∧ ∃ set, e.2 = .bool set) :
    ∃ x, f.entryBits e.1 e.2 = .ok x ∧ x.toNat < 2 ^ k ∧ ∀ i, bit x i = true ↔
      e.2 = .bool true ∧ ∃ mask, f.mask? e.1 = some mask ∧ bit mask i = true := by
  have hzero : (0 : UInt64).toNat < 2 ^ k := Nat.two_pow_pos k
  rcases e with ⟨key, v⟩
  rcases he with hnull | ⟨hkey, hmem, set, rfl⟩
  · refine ⟨0, if_pos hnull, hzero, fun i => ?_⟩
    have hoff : v ≠ .bool true := by
      rintro rfl
      cases hnull
    simp [hoff]
  rcases List.mem_map.1 (hnames key hmem) with ⟨flag, hflag, rfl⟩
  cases hfind : f.flags.find? (·.name == flag.name) with
  | none => exact absurd (List.find?_eq_none.1 hfind flag hflag) (by simp)
  | some found =>
      have hmask : f.mask? flag.name = some found.mask := by rw [mask?, hfind, Option.map_some]
      refine ⟨if set then found.mask else 0, ?_, ?_, fun i => ?_⟩
      · simp [entryBits, Value.isNull, hkey, hmask]
      · split
        · exact hfit found (List.mem_of_find?_eq_some hfind)
        · exact hzero
      · cases set with
        | true => simp [hmask]
        | false => simp

/-- Flags combine to the union of their bits, which fits where each of them does. -/
theorem encode_of_switches (hnames : ∀ n ∈ names, n ∈ f.flags.map FlagBits.name)
    (hfit : ∀ flag ∈ f.flags, flag.mask.toNat < 2 ^ k) {obj : Object} (hobj : obj.Switches names) :
    ∃ bits, f.encode obj = .ok bits ∧ bits.toNat < 2 ^ k ∧ ∀ i, bit bits i = true ↔
      ∃ key mask, (key, .bool true) ∈ obj ∧ f.mask? key = some mask ∧ bit mask i = true := by
  have hentry := fun e he => entryBits_of_switch hnames hfit (hobj e he)
  choose! bitsOf hencode hlt hbit using hentry
  refine ⟨_, encode_eq_union hencode, ?_, fun i => ?_⟩
  · exact union_lt_two_pow (List.forall_mem_map.2 hlt)
  · rw [bit_union]
    constructor
    · rintro ⟨⟨key, v⟩, he, hi⟩
      rcases (hbit _ he i).1 hi with ⟨rfl, mask, hmask, hi⟩
      exact ⟨key, mask, he, hmask, hi⟩
    · rintro ⟨key, mask, he, hmask, hi⟩
      exact ⟨_, he, (hbit _ he i).2 ⟨rfl, mask, hmask, hi⟩⟩

end FlagsType

namespace EnumType

variable {e : EnumType} {names : List Text} {k : Nat}

theorem selected_of_switches (hnames : ∀ n ∈ names, n ∈ e.values.map EnumValue.field)
    {obj : Object} (hobj : obj.Switches names) : ∃ picked, e.selected obj = .ok picked := by
  refine foldlM_succeeds [] fun x hx picked => ?_
  rcases x with ⟨key, v⟩
  rcases hobj _ hx with hnull | ⟨-, hmem, set, rfl⟩
  · exact ⟨picked, if_pos hnull⟩
  · rcases List.mem_map.1 (hnames key hmem) with ⟨v, hv, rfl⟩
    rcases exists_valueOfField? hv with ⟨w, -, hw⟩
    exact ⟨if set then w.value :: picked else picked, by simp [Value.isNull, hw]⟩

/-- Numbers combine to the union of their bits, which fits where each of them does. -/
theorem encodeBitmask_of_switches (hnames : ∀ n ∈ names, n ∈ e.values.map EnumValue.field)
    (hfit : ∀ v ∈ e.values, (bitOf v.value).toNat < 2 ^ k) {obj : Object}
    (hobj : obj.Switches names) :
    ∃ bits, e.encodeBitmask obj = .ok bits ∧ bits.toNat < 2 ^ k ∧ ∀ i, bit bits i = true ↔
      ∃ key x, (key, .bool true) ∈ obj ∧ e.valueOfField? key = some x ∧
        bit (bitOf x) i = true := by
  rcases selected_of_switches hnames hobj with ⟨picked, hpicked⟩
  have hencode : e.encodeBitmask obj = .ok (union (picked.map bitOf)) := by
    rw [encodeBitmask, hpicked, ok_bind, pure_eq_ok, union, List.foldl_map]
  refine ⟨_, hencode, union_lt_two_pow fun y hy => ?_, fun i => ?_⟩
  · rcases List.mem_map.1 hy with ⟨x, hx, rfl⟩
    rcases (mem_selected hpicked x).1 hx with ⟨key, -, hkey⟩
    rcases exists_of_valueOfField? hkey with ⟨v, hv, -, rfl⟩
    exact hfit v hv
  · rw [bit_union]
    constructor
    · rintro ⟨x, hx, hi⟩
      rcases (mem_selected hpicked x).1 hx with ⟨key, hon, hkey⟩
      exact ⟨key, x, hon, hkey, hi⟩
    · rintro ⟨key, x, hon, hkey, hi⟩
      exact ⟨x, (mem_selected hpicked x).2 ⟨key, hon, hkey⟩, hi⟩

/-- The number of a field is that of the last value which has the field. -/
theorem valueOfField?_eq_some_iff {key : Text} {x : Int64} : e.valueOfField? key = some x ↔
    ∃ before v after, e.values = before ++ v :: after ∧ v.field = key ∧ v.value = x ∧
      ∀ w ∈ after, w.field ≠ key := by
  rw [valueOfField?, Option.map_eq_some_iff]
  simp only [List.find?_eq_some_iff_append, beq_iff_eq, Bool.not_eq_true', beq_eq_false_iff_ne]
  constructor
  · rintro ⟨v, ⟨hkey, after, before, hvalues, hlast⟩, hx⟩
    refine ⟨before.reverse, v, after.reverse, ?_, hkey, hx, fun w hw => ?_⟩
    · rw [← List.reverse_reverse e.values, hvalues]
      simp
    · exact hlast w (List.mem_reverse.1 hw)
  · rintro ⟨before, v, after, hvalues, hkey, hx, hlast⟩
    refine ⟨v, ⟨hkey, after.reverse, before.reverse, ?_, fun w hw => ?_⟩, hx⟩
    · rw [hvalues]
      simp
    · exact hlast w (List.mem_reverse.1 hw)

end EnumType

namespace Schema

variable {s : Schema} {num : Number} {l : Lowering}

/-- An integer that stands for bits: the names of the bits, and how they are encoded and decoded.
    Bits are named by a flags type, or by the fields of an enum. -/
inductive BitForm (s : Schema) : Lowering → List Text → (Object → Except WireError UInt64) →
    (UInt64 → Object) → Prop
  | flags {name : Text} {d : TypeDef} (ht : (name, d) ∈ s.types)
      (hkind : d.effectiveKind = .flags) :
      BitForm s (.flags (FlagsType.ofDef name d)) (d.values.map ValueDef.name)
        (FlagsType.ofDef name d).encode (FlagsType.ofDef name d).decode
  | bitmask {name : Text} {d : TypeDef} (ht : (name, d) ∈ s.types)
      (hkind : d.effectiveKind = .enum) :
      BitForm s (.bitmask (EnumType.ofDef name d)) (d.values.map fun v => camelCase v.name)
        (EnumType.ofDef name d).encodeBitmask (EnumType.ofDef name d).decodeBitmask

/-- The bits that a name stands for by its declaration: those of the flag of this name, or the bit
    of the last number whose field has this name. -/
inductive NamedBits (s : Schema) : Lowering → Text → UInt64 → Prop
  | flags {name : Text} {d : TypeDef} (ht : (name, d) ∈ s.types)
      (hkind : d.effectiveKind = .flags) {v : ValueDef} (hv : v ∈ d.values) :
      NamedBits s (.flags (FlagsType.ofDef name d)) v.name v.value.toUInt64
  | bitmask {name : Text} {d : TypeDef} (ht : (name, d) ∈ s.types)
      (hkind : d.effectiveKind = .enum) {before after : List ValueDef} {v : ValueDef}
      (hvalues : d.values = before ++ v :: after)
      (hlast : ∀ w ∈ after, camelCase w.name ≠ camelCase v.name) :
      NamedBits s (.bitmask (EnumType.ofDef name d)) (camelCase v.name) (EnumType.bitOf v.value)

section Named

variable {name key : Text} {d : TypeDef} {mask : UInt64}

-- A type of a schema has one declaration, so the name of the compiled type leads back to it.
theorem namedBits_flags_iff (ht : (name, d) ∈ s.types) (hkind : d.effectiveKind = .flags) :
    s.NamedBits (.flags (FlagsType.ofDef name d)) key mask ↔
      ∃ v ∈ d.values, v.name = key ∧ v.value.toUInt64 = mask := by
  constructor
  · intro h
    generalize hl : Lowering.flags (FlagsType.ofDef name d) = l at h
    cases h with
    | flags ht' hkind' hv =>
        have hname := congrArg FlagsType.name (Lowering.flags.inj hl)
        change name = _ at hname
        subst hname
        cases (mem_types_iff.1 ht).symm.trans (mem_types_iff.1 ht')
        exact ⟨_, hv, rfl, rfl⟩
    | bitmask => cases hl
  · rintro ⟨v, hv, rfl, rfl⟩
    exact .flags ht hkind hv

theorem namedBits_bitmask_iff (ht : (name, d) ∈ s.types) (hkind : d.effectiveKind = .enum) :
    s.NamedBits (.bitmask (EnumType.ofDef name d)) key mask ↔
      ∃ x, (EnumType.ofDef name d).valueOfField? key = some x ∧ EnumType.bitOf x = mask := by
  simp only [EnumType.valueOfField?_eq_some_iff]
  constructor
  · intro h
    generalize hl : Lowering.bitmask (EnumType.ofDef name d) = l at h
    cases h with
    | flags => cases hl
    | @bitmask name' d' ht' hkind' before after v hvalues hlast =>
        have hname := congrArg EnumType.name (Lowering.bitmask.inj hl)
        change name = _ at hname
        subst hname
        cases (mem_types_iff.1 ht).symm.trans (mem_types_iff.1 ht')
        have hsplit : (EnumType.ofDef name d).values = _ := congrArg (List.map _) hvalues
        rw [List.map_append, List.map_cons] at hsplit
        refine ⟨v.value, ⟨_, _, _, hsplit, rfl, rfl, fun w hw => ?_⟩, rfl⟩
        rcases List.mem_map.1 hw with ⟨w', hw', rfl⟩
        exact hlast w' hw'
  · rintro ⟨x, ⟨before, v, after, hvalues, rfl, rfl, hlast⟩, rfl⟩
    rcases List.map_eq_append_iff.1 hvalues with ⟨before', rest, hsplit, rfl, hrest⟩
    rcases List.map_eq_cons_iff.1 hrest with ⟨w, after', rfl, rfl, rfl⟩
    exact .bitmask ht hkind hsplit fun w hw => hlast _ (List.mem_map_of_mem hw)

end Named

section Resolves

/-- A meaning is what the lower type of some field is resolved to, and the enum forms that it needs
    are among those that the schema needs. -/
def Resolves (s : Schema) (num : Number) (l : Lowering) : Prop :=
  ∃ lower, (s.lowering num lower).result? = some l ∧ ∀ n ∈ l.needs, n ∈ s.needs

theorem resolves_of_payload {o : AttributeOptions} {e : TypeExpr} {p : Payload}
    (hp : (s.payload o e).result? = some p) (hneeds : ∀ n ∈ p.needs, n ∈ s.needs)
    (helem : (Payload.number num l).ElementOf p) : s.Resolves num l := by
  induction e generalizing p with
  | name n =>
      rcases namedPayload_cases hp with
        ⟨num', l', -, hl, rfl⟩ | ⟨-, ⟨-, rfl⟩ | ⟨-, rfl⟩ | ⟨-, rfl⟩ | ⟨-, rfl⟩⟩ |
          ⟨-, d, -, ⟨-, rfl⟩ | ⟨-, rfl⟩⟩
      · cases helem
        rw [Payload.needs_number] at hneeds
        exact ⟨_, hl, hneeds⟩
      all_goals cases helem
  | array elem zero ih =>
      rcases Check.result?_bind.1 hp with ⟨q, hq, hp⟩
      cases (Check.result?_pure _ _).1 hp
      cases helem with
      | array helem => exact ih hq hneeds helem
  | map elem ih =>
      rcases Check.result?_bind.1 hp with ⟨q, hq, hp⟩
      cases (Check.result?_pure _ _).1 hp
      cases helem with
      | map helem => exact ih hq hneeds helem
  | flags elem _ =>
      rcases flagListPayload_iff.1 hp with ⟨-, n, d, -, -, -, rfl⟩
      cases helem
  | _ =>
      rw [payload, namedPayload_empty] at hp
      cases hp

/-- The integers of a member are resolved, if so are those of the structs within it. -/
theorem resolves_of_memberType {parts : Text → Members}
    (hparts : ∀ name d, (name, d) ∈ s.types → d.effectiveKind = .struct →
      ∀ m ∈ parts name, (MemberType.number num l).PartOf m.2 → s.Resolves num l)
    {a : AttributeDef} {t : MemberType} (ht : (s.memberType parts a).result? = some t)
    (hneeds : ∀ n ∈ t.needs, n ∈ s.needs) (hpart : (MemberType.number num l).PartOf t) :
    s.Resolves num l := by
  rcases memberType_cases ht with ⟨n, -, ⟨-, -, rfl⟩ | ⟨elem, helem, rfl⟩⟩
  · cases hpart
  have hcounted := congrFun (needs_counted a.options.count) elem
  rw [Function.comp_apply] at hcounted
  rw [hcounted] at hneeds
  -- A positive count makes an array of the element.
  have hpart : (MemberType.number num l).PartOf elem := by
    split at hpart
    · cases hpart with
      | element hpart => exact hpart
    · exact hpart
  rcases elementType_cases helem with
    ⟨-, -, rfl⟩ | ⟨num', l', -, hl, rfl⟩ | ⟨d, hd, hkind, -, -, rfl⟩
  · cases hpart
  · cases hpart
    rw [MemberType.needs_number] at hneeds
    exact ⟨_, hl, hneeds⟩
  · cases hpart with
    | member hm hpart => exact hparts n d hd hkind _ hm hpart

-- The induction is on the depth to which structs are followed.
theorem resolves_of_membersTo (depth : Nat) {name : Text} {d : TypeDef} (ht : (name, d) ∈ s.types)
    (hkind : d.effectiveKind = .struct) {m : Text × MemberType} (hm : m ∈ s.membersTo depth name)
    (hpart : (MemberType.number num l).PartOf m.2) : s.Resolves num l := by
  induction depth generalizing name d m with
  | zero => cases hm
  | succ depth ih =>
      rcases (mem_membersTo_succ ht).1 hm with ⟨a, ha, t, hresult, rfl⟩
      exact resolves_of_memberType (fun _ _ ht hkind _ hm hpart => ih ht hkind hm hpart) hresult
        (needs_of_known ht hkind ha hresult) hpart

/-- The integers of compiled types are resolved. -/
theorem resolves_of_hasInteger (h : s.bundle.HasInteger num l) : s.Resolves num l := by
  cases h with
  | @field name f hf helem =>
      rcases s.fields_attrSets name with ⟨d, ht, hkind, hfields⟩ | ⟨-, hfields⟩
      · rw [hfields] at hf
        rcases mem_attrSet_fields hf with ⟨x, -, hresult, -⟩
        rcases Check.result?_bind.1 hresult with ⟨-, -, hresult⟩
        exact resolves_of_payload hresult (needs_of_field ht hkind hf) helem
      · rw [hfields] at hf
        cases hf
  | member hcodec hm hpart =>
      rcases codec_cases hcodec with ⟨d, ht, ⟨-, hcodec⟩ | ⟨hkind, hcodec⟩⟩
      · cases hcodec
      · cases hcodec
        exact resolves_of_membersTo s.size ht hkind hm hpart

end Resolves

section Fit

/-- The flags that an integer stands for fit it. -/
theorem mask_lt_of_resolves {f : FlagsType} (h : s.Resolves num (.flags f)) :
    ∀ flag ∈ f.flags, flag.mask.toNat < 2 ^ (8 * num.size) := by
  rcases h with ⟨lower, hresult, -⟩
  rcases lowering_cases hresult with ⟨-, hl⟩ | ⟨r, d, -, -, -, ⟨-, -, hl⟩ | ⟨-, -, -, hl⟩ |
    ⟨-, -, hfits, hl⟩⟩
  · cases hl
  · cases hl
  · cases hl
  · cases hl
    intro flag hflag
    rcases List.mem_map.1 hflag with ⟨v, hv, rfl⟩
    exact Number.fits_iff.1 (hfits v (List.mem_filter.1 hv).1)

/-- The bits of an enum that an integer stands for fit it. -/
theorem bitOf_lt_of_resolves (haccepted : s.Accepted) {e : EnumType}
    (h : s.Resolves num (.bitmask e)) :
    ∀ v ∈ e.values, (EnumType.bitOf v.value).toNat < 2 ^ (8 * num.size) := by
  rcases h with ⟨lower, hresult, hneeds⟩
  rcases lowering_cases hresult with ⟨-, hl⟩ | ⟨r, d, -, -, ht, ⟨-, -, hl⟩ | ⟨hkind, -, hfits, hl⟩ |
    ⟨-, -, -, hl⟩⟩
  · cases hl
  · cases hl
  · cases hl
    have hprovides := provides_of_needs haccepted ht hkind (hneeds _ List.mem_cons_self)
    intro v hv
    rcases List.mem_map.1 hv with ⟨w, hw, rfl⟩
    -- Only numbers that are bits were compared with the width; but all of them are.
    rcases hprovides w hw with ⟨hpos, hle⟩
    exact Number.fits_iff.1
      (hfits w hw (Int64.le_iff_toInt_le.2 hpos) (Int64.le_iff_toInt_le.2 hle))
  · cases hl

theorem exists_bitForm (h : s.Resolves num l) (hbits : (∃ f, l = .flags f) ∨ ∃ e, l = .bitmask e) :
    ∃ names encode decode, s.BitForm l names encode decode := by
  rcases h with ⟨lower, hresult, -⟩
  rcases lowering_cases hresult with ⟨-, rfl⟩ | ⟨r, d, -, -, ht, ⟨-, -, rfl⟩ | ⟨hkind, -, -, rfl⟩ |
    ⟨hkind, -, -, rfl⟩⟩
  · rcases hbits with ⟨f, hf⟩ | ⟨e, he⟩
    · cases hf
    · cases he
  · rcases hbits with ⟨f, hf⟩ | ⟨e, he⟩
    · cases hf
    · cases he
  · exact ⟨_, _, _, .bitmask ht hkind⟩
  · exact ⟨_, _, _, .flags ht hkind⟩

variable {names : List Text} {encode : Object → Except WireError UInt64} {decode : UInt64 → Object}

/-- The flags of an accepted type are its values: one without bits would be declared and yet be no
    flag. -/
theorem flags_ofDef (haccepted : s.Accepted) {name : Text} {d : TypeDef} (ht : (name, d) ∈ s.types)
    (hkind : d.effectiveKind = .flags) :
    (FlagsType.ofDef name d).flags = d.values.map fun v => ⟨v.name, v.value.toUInt64⟩ := by
  have hfound := haccepted.typed _ ht
  simp only [typeFindings, hkind] at hfound
  rw [FlagsType.ofDef, List.filter_eq_self.2]
  exact fun v hv => by simpa using errors_flagsFindings.1 hfound v hv

theorem mask?_eq_some_iff (haccepted : s.Accepted) {name key : Text} {d : TypeDef} {mask : UInt64}
    (ht : (name, d) ∈ s.types) (hkind : d.effectiveKind = .flags) :
    (FlagsType.ofDef name d).mask? key = some mask ↔
      ∃ v ∈ d.values, v.name = key ∧ v.value.toUInt64 = mask := by
  have hflags := flags_ofDef haccepted ht hkind
  constructor
  · intro h
    rcases Option.map_eq_some_iff.1 h with ⟨flag, hfind, rfl⟩
    have hkey : flag.name = key := by simpa using List.find?_some hfind
    have hmem := List.mem_of_find?_eq_some hfind
    rw [hflags] at hmem
    rcases List.mem_map.1 hmem with ⟨v, hv, rfl⟩
    exact ⟨v, hv, hkey, rfl⟩
  · rintro ⟨v, hv, rfl, rfl⟩
    have hmem : ⟨v.name, v.value.toUInt64⟩ ∈ (FlagsType.ofDef name d).flags := by
      rw [hflags]
      exact List.mem_map_of_mem hv
    rw [FlagsType.mask?, find?_key (flagsType_distinct haccepted ht hkind name) hmem]
    rfl

/-- Names combine to the union of the bits that they stand for, and it fits the integer. -/
theorem BitForm.encode_switches (hform : s.BitForm l names encode decode) (haccepted : s.Accepted)
    (h : s.Resolves num l) {obj : Object} (hobj : obj.Switches names) :
    ∃ bits, encode obj = .ok bits ∧ bits.toNat < 2 ^ (8 * num.size) ∧ ∀ i, bit bits i = true ↔
      ∃ key mask, (key, .bool true) ∈ obj ∧ s.NamedBits l key mask ∧ bit mask i = true := by
  cases hform with
  | flags ht hkind =>
      simp only [namedBits_flags_iff ht hkind, ← mask?_eq_some_iff haccepted ht hkind]
      refine FlagsType.encode_of_switches (fun n hn => ?_) (mask_lt_of_resolves h) hobj
      rw [flags_ofDef haccepted ht hkind, List.map_map]
      exact hn
  | @bitmask name d ht hkind =>
      simp only [namedBits_bitmask_iff ht hkind]
      have hfields : (EnumType.ofDef name d).values.map EnumValue.field
          = d.values.map fun v => camelCase v.name := List.map_map
      rcases EnumType.encodeBitmask_of_switches (fun n hn => hfields ▸ hn)
        (bitOf_lt_of_resolves haccepted h) hobj with ⟨bits, hencode, hlt, hbits⟩
      refine ⟨bits, hencode, hlt, fun i => (hbits i).trans ?_⟩
      constructor
      · rintro ⟨key, x, hon, hkey, hi⟩
        exact ⟨key, _, hon, ⟨x, hkey, rfl⟩, hi⟩
      · rintro ⟨key, _, hon, ⟨x, hkey, rfl⟩, hi⟩
        exact ⟨key, x, hon, hkey, hi⟩

theorem BitForm.toBytes (hform : s.BitForm l names encode decode) {obj : Object} {bits : UInt64}
    (hencode : encode obj = .ok bits) (hlt : bits.toNat < 2 ^ (8 * num.size)) :
    l.toBytes num (.object obj) = .ok (num.bitsToBytes bits) := by
  cases hform with
  | flags =>
      rw [Lowering.toBytes]
      exact Lowering.objectBytes_of_encode hencode hlt
  | bitmask =>
      rw [Lowering.toBytes]
      exact Lowering.objectBytes_of_encode hencode hlt

theorem BitForm.read (hform : s.BitForm l names encode decode) (buf : Bytes) :
    l.read num buf = .object (decode (num.readBits buf)) := by
  cases hform with
  | flags => exact Lowering.read_flags _ _ _
  | bitmask => exact Lowering.read_bitmask _ _ _

/-- Every integer of a compiled schema that stands for bits is wide enough for them. Its bits are
    named by a type of the schema. Whatever names are turned on, the object is encoded as the union
    of the bits that these names stand for, and the bytes have these bits. The number that is read
    from any bytes has the bits of the bytes, and these are what is decoded. -/
theorem combined_bits_fit {s : Schema} {o : CompileOptions} {compiled : Compiled}
    (hcompile : (s.compile o).output = some compiled) {num : Number} {l : Lowering}
    (hinteger : compiled.bundle.HasInteger num l) :
    ((∃ f, l = .flags f) ∨ (∃ e, l = .bitmask e) →
      ∃ names encode decode, s.BitForm l names encode decode) ∧
    ∀ names encode decode, s.BitForm l names encode decode →
      (∀ obj : Object, obj.Switches names → ∃ bits b, encode obj = .ok bits ∧
        (∀ i, bit bits i = true ↔ ∃ key mask, (key, .bool true) ∈ obj ∧
          s.NamedBits l key mask ∧ bit mask i = true) ∧
        bits.toNat < 2 ^ (8 * num.size) ∧ b.length = num.size ∧ num.readBits b = bits ∧
        (∀ sets, (Payload.number num l).encode sets (.object obj) = .ok b) ∧
        ∀ buf : Bytes, buf.length = num.size →
          (MemberType.number num l).write (.object obj) buf = (b, none)) ∧
      ∀ buf, num.toBits (num.read buf) = .ok (num.readBits buf) ∧
        l.read num buf = .object (decode (num.readBits buf)) := by
  rcases accepted_of_compile hcompile with ⟨haccepted, hbundle⟩
  rw [hbundle] at hinteger
  have hresolves := resolves_of_hasInteger hinteger
  refine ⟨exists_bitForm hresolves, fun names encode decode hform => ⟨fun obj hobj => ?_,
    fun buf => ⟨num.toBits_read buf, hform.read buf⟩⟩⟩
  rcases hform.encode_switches haccepted hresolves hobj with ⟨bits, hencode, hlt, hbits⟩
  have hbytes := hform.toBytes hencode hlt
  have hlength := num.length_bitsToBytes bits
  refine ⟨bits, _, hencode, hbits, hlt, hlength, num.readBits_bitsToBytes hlt, fun sets => ?_,
    fun buf hbuf => ?_⟩
  · rw [Payload.encode, hbytes]
  · rw [MemberType.write, hbytes]
    simp only
    rw [Bytes.overwrite_of_length_eq (hlength.trans hbuf.symm)]

/-- The alarms of a sensor: the sign bit, and all bits. -/
def alarm : TypeDef := declare (some .flags) []
  [⟨"high", Int64.minValue, none, .empty⟩, ⟨"any", -1, none, .empty⟩]

/-- The events of a port, up to the sign bit of a byte. -/
def portEvent : TypeDef := declare (some .enum) []
  [⟨"opened", 0, none, .empty⟩, ⟨"closed", 7, none, .empty⟩]

def eventPort : TypeDef := declare (some .struct)
  [⟨"events", .name "s8", { AttributeOptions.empty with type := some ⟨"event", true⟩ }⟩] []

/-- A schema with signed integers that stand for bits. -/
def sensor : Schema where
  types := [
    ("alarm", alarm),
    ("event", portEvent),
    ("port", eventPort),
    ("sensor", declare none
      [⟨"alarms", .array (.map (.name "s64be")) false,
        { AttributeOptions.empty with type := some ⟨"alarm", false⟩ }⟩,
      ⟨"port", .name "port", .empty⟩] [])]
  distinct := by
    change (["alarm", "event", "port", "sensor"].map Text.ofString).Nodup
    decide +kernel
  named := by
    change ∀ name ∈ ["alarm", "event", "port", "sensor"].map Text.ofString, isTypeName name = true
    decide +kernel

/-- Overlapping alarms and the events of a port, among them the sign bits, are encoded. -/
theorem sensor_bits_fit :
    (∃ b, b.length = 8 ∧ ∀ sets, (Payload.number ⟨.signed .w64, .big⟩
      (.flags (FlagsType.ofDef "alarm" alarm))).encode sets
        (.object [("any", .bool true), ("high", .bool true)]) = .ok b) ∧
    ∃ b, ∀ buf : Bytes, buf.length = 1 → (MemberType.number ⟨.signed .w8, .native⟩
      (.bitmask (EnumType.ofDef "event" portEvent))).write
        (.object [("closed", .bool true), ("opened", .null)]) buf = (b, none) := by
  have hcompile : (sensor.compile .default).output
      = some ⟨sensor.bundle, sensor.describe.sign⟩ := output_of_errors (by decide +kernel)
  have hevents : sensor.bundle.HasInteger ⟨.signed .w8, .native⟩
      (.bitmask (EnumType.ofDef "event" portEvent)) := by
    have hport : (("port" : Text), eventPort) ∈ sensor.types := by simp [sensor]
    exact .member (codec?_struct hport rfl) List.mem_cons_self (.refl _)
  have hfield : (sensor.bundle.attrSets.fields "sensor").head? = some ⟨"alarms", 1, false,
      .array false (.map (.number ⟨.signed .w64, .big⟩
        (.flags (FlagsType.ofDef "alarm" alarm))))⟩ := rfl
  have halarms : sensor.bundle.HasInteger ⟨.signed .w64, .big⟩
      (.flags (FlagsType.ofDef "alarm" alarm)) :=
    .field (List.mem_of_mem_head? hfield) (.array (.map .refl))
  constructor
  · have halarm : (("alarm" : Text), alarm) ∈ sensor.types := by simp [sensor]
    rcases ((combined_bits_fit hcompile halarms).2 _ _ _ (.flags halarm rfl)).1
      [("any", .bool true), ("high", .bool true)]
      (List.forall_mem_cons.2 ⟨Or.inr ⟨by decide +kernel, by decide +kernel, _, rfl⟩,
        List.forall_mem_cons.2 ⟨Or.inr ⟨by decide +kernel, by decide +kernel, _, rfl⟩, by simp⟩⟩)
      with ⟨-, b, -, -, -, hb, -, hencode, -⟩
    exact ⟨b, hb, hencode⟩
  · have hevent : (("event" : Text), portEvent) ∈ sensor.types := by simp [sensor]
    rcases ((combined_bits_fit hcompile hevents).2 _ _ _ (.bitmask hevent rfl)).1
      [("closed", .bool true), ("opened", .null)]
      (List.forall_mem_cons.2 ⟨Or.inr ⟨by decide +kernel, by decide +kernel, _, rfl⟩,
        List.forall_mem_cons.2 ⟨Or.inl rfl, by simp⟩⟩)
      with ⟨-, b, -, -, -, -, -, -, hwrite⟩
    exact ⟨b, hwrite⟩

end Fit

end Schema

end NetlinkSchema
