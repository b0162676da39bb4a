import NetlinkSchema.Proofs.Resolution

/-!
# Sets of names

A flags type and the derived forms of an enum turn bits into an object of names and back. The names
come from the schema, and nothing on the way to a codec asks whether two of them stand in each
other's way. So the way to the object and back loses nothing as long as the names allow it, and
exactly then.

For a flags type the name of the field for unknown bits is the only one that does harm. For an enum
it is a field that two numbers share: the later one is what the field is read as.

## Main definitions

* `Schema.permissions`: Flags of one bit and of several, some of them with bits in common.
* `Schema.reserved`: A flag with the name of the field for unknown bits.
* `Schema.palette`: An enum with names that differ only in case, and with an alias.
* `Schema.twins`: An enum with two numbers for one field.

## Theorems

* `Schema.flags_lossless_iff`: When all bits of a flags type come back.
* `Schema.enum_forms_lossless_iff`: When the numbers of an enum come back from its derived forms.
-/

namespace NetlinkSchema

namespace EnumCodec

variable {e : EnumCodec}

theorem decodeBitmask_compiled (h : e.bitmask = true) (bits : UInt64) :
    e.decodeBitmask bits = .ok (e.type.decodeBitmask bits) := by
  simp [decodeBitmask, require, h]

theorem encodeBitmask_compiled (h : e.bitmask = true) (obj : Object) :
    e.encodeBitmask obj = e.type.encodeBitmask obj := by
  simp [encodeBitmask, require, h]

theorem decodeFlagList_compiled (h : e.flagList = true) (buf : Bytes) :
    e.decodeFlagList buf = e.type.decodeFlagList buf := by
  simp [decodeFlagList, require, h]

theorem encodeFlagList_compiled (h : e.flagList = true) (obj : Object) :
    e.encodeFlagList obj = e.type.encodeFlagList obj := by
  simp [encodeFlagList, require, h]

end EnumCodec

namespace Schema

section Flags

/-- All bits come back from the object of a flags type, whatever the flags have in common, unless
    one of them has the name of the field for unknown bits. -/
theorem flags_lossless_iff {s : Schema} {o : CompileOptions} {c : Compiled}
    (hcompile : (s.compile o).output = some c) {name : Text} {f : FlagsType}
    (hflags : c.bundle.flags? name = some f) :
    (∀ bits, f.encode (f.decode bits) = .ok bits) ↔
      unknownField ∉ f.flags.map FlagBits.name := by
  rcases accepted_of_compile hcompile with ⟨haccepted, hbundle⟩
  rw [hbundle] at hflags
  rcases flags_cases hflags with ⟨d, ht, hkind, rfl⟩
  exact FlagsType.encode_decode_iff (flagsType_distinct haccepted ht hkind name)

/-- Flags of one bit, of several bits, with bits in common, and one that is the sign. -/
def permissions : Schema where
  types := [("permissions", declare (some .flags) []
    [⟨"read", 1, none, .empty⟩, ⟨"read_write", 3, none, .empty⟩, ⟨"modify", 6, none, .empty⟩,
      ⟨"owner", -0x8000000000000000, none, .empty⟩, ⟨"high", -4, none, .empty⟩])]
  distinct := by decide +kernel
  named := by decide +kernel

theorem permissions_lossless : ∃ f, permissions.bundle.flags? "permissions" = some f ∧
    ∀ bits, f.encode (f.decode bits) = .ok bits := by
  have hcompile : (permissions.compile .default).output
      = some ⟨permissions.bundle, permissions.describe.sign⟩ :=
    output_of_errors (by decide +kernel)
  have hflags := flags?_bundle (s := permissions) List.mem_cons_self rfl
  exact ⟨_, hflags, (flags_lossless_iff hcompile hflags).2 (by decide +kernel)⟩

/-- A flag with the name of the field for unknown bits. -/
def reserved : Schema where
  types := [("mode", declare (some .flags) [] [⟨"__unknown", 1, none, .empty⟩])]
  distinct := by decide +kernel
  named := by decide +kernel

/-- The flag is lost if there are unknown bits as well, and cannot be encoded if there are none. -/
theorem reserved_loses : (reserved.compile .default).output.isSome = true ∧
    ∃ f, reserved.bundle.flags? "mode" = some f ∧ f.encode (f.decode 5) = .ok 4 ∧
      f.encode (f.decode 1) = .error (.field "mode" unknownField .wrongType) := by
  have hcompile : (reserved.compile .default).output
      = some ⟨reserved.bundle, reserved.describe.sign⟩ := output_of_errors (by decide +kernel)
  exact ⟨by rw [hcompile]; rfl, _, flags?_bundle List.mem_cons_self rfl, by decide +kernel,
    by decide +kernel⟩

end Flags

section Enums

/-- The derived forms of an enum that a schema needs keep the set of its numbers, if the field under
    which a number is decoded is read as that number, and only then. Of a bitmask the bits that
    stand for a number come back. Of a flag list the numbers come back that occur in it, each once
    and in the order in which they are first declared. -/
theorem enum_forms_lossless_iff {s : Schema} {o : CompileOptions} {c : Compiled}
    (hcompile : (s.compile o).output = some c) {name : Text} {e : EnumCodec}
    (henum : c.bundle.enum? name = some e) :
    (e.bitmask = true →
      ((∀ bits, e.decodeBitmask bits >>= e.encodeBitmask = .ok (bits &&& e.type.mask)) ↔
        e.type.ReadsBack)) ∧
    (e.flagList = true →
      ((∀ buf obj, e.decodeFlagList buf = .ok obj → e.encodeFlagList obj
          = .ok (((e.type.values.map EnumValue.value).eraseDups.filter
              (EnumType.occurs (Attribute.walk buf).1)).flatMap fun x =>
            Attribute.header (EnumType.typeOf x) Attribute.headerSize)) ↔
        e.type.ReadsBack)) := by
  rcases accepted_of_compile hcompile with ⟨haccepted, hbundle⟩
  rw [hbundle] at henum
  rcases enum_cases henum with ⟨d, ht, hkind, rfl⟩
  have hdistinct := enumType_distinct haccepted ht hkind name
  constructor
  · -- A form is there because some field needs it, so the numbers were checked for it.
    intro hbitmask
    have hprovides := provides_of_needs haccepted ht hkind (List.contains_iff_mem.1 hbitmask)
    simp only [EnumCodec.decodeBitmask_compiled hbitmask, EnumCodec.encodeBitmask_compiled hbitmask,
      ok_bind]
    exact ⟨EnumType.readsBack_of_bitmask (bitIndices_of_provides hprovides name),
      EnumType.encodeBitmask_decodeBitmask⟩
  · intro hflagList
    have htypes := attributeTypes_of_provides
      (provides_of_needs haccepted ht hkind (List.contains_iff_mem.1 hflagList)) name
    simp only [EnumCodec.decodeFlagList_compiled hflagList,
      EnumCodec.encodeFlagList_compiled hflagList, ← EnumType.flagStream_eq]
    refine ⟨EnumType.readsBack_of_flagList hdistinct htypes, fun hreads buf obj hdecode => ?_⟩
    exact EnumType.encodeFlagList_of_represents hreads htypes
      (EnumType.represents_decodeFlagList hdistinct htypes hdecode)

/-- An attribute set that needs both derived forms of an enum. -/
def formsOf (enum : Text) : TypeDef := declare none
  [⟨"mask", .name "u8", { AttributeOptions.empty with type := some ⟨enum, true⟩ }⟩,
    ⟨"list", .flags (.name enum), .empty⟩] []

/-- An enum with an alias, and with names that differ only in case or in underscores. -/
def palette : Schema where
  types := [
    ("color", declare (some .enum) [] [⟨"DARK_RED", 3, none, .empty⟩, ⟨"CRIMSON", 3, none, .empty⟩,
      ⟨"dark__red", 3, none, .empty⟩, ⟨"_dark_red", 0, none, .empty⟩,
      ⟨"darkred", 7, none, .empty⟩]),
    ("forms", formsOf "color")]
  distinct := by decide +kernel
  named := by decide +kernel

theorem palette_lossless : ∃ e, palette.bundle.enum? "color" = some e ∧
    (e.bitmask = true ∧
      ∀ bits, e.decodeBitmask bits >>= e.encodeBitmask = .ok (bits &&& e.type.mask)) ∧
    e.flagList = true ∧ ∀ buf obj, e.decodeFlagList buf = .ok obj → e.encodeFlagList obj
      = .ok (((e.type.values.map EnumValue.value).eraseDups.filter
          (EnumType.occurs (Attribute.walk buf).1)).flatMap fun x =>
        Attribute.header (EnumType.typeOf x) Attribute.headerSize) := by
  have hcompile : (palette.compile .default).output
      = some ⟨palette.bundle, palette.describe.sign⟩ := output_of_errors (by decide +kernel)
  have henum := enum?_bundle (s := palette) List.mem_cons_self rfl
  rcases enum_forms_lossless_iff hcompile henum with ⟨hbitmask, hflagList⟩
  have hneeds : ∀ variant, palette.needs.contains ("color", variant) = true := by
    intro variant
    cases variant with
    | bitmask => decide +kernel
    | flagList => decide +kernel
  have hreads : (EnumType.ofDef "color" (palette.types.head (by decide)).2).ReadsBack := by
    unfold EnumType.ReadsBack
    decide +kernel
  exact ⟨_, henum, ⟨hneeds .bitmask, (hbitmask (hneeds .bitmask)).2 hreads⟩, hneeds .flagList,
    (hflagList (hneeds .flagList)).2 hreads⟩

/-- An enum with two numbers for one field. -/
def twins : Schema where
  types := [
    ("twin", declare (some .enum) [] [⟨"A_B", 0, none, .empty⟩, ⟨"a_b", 1, none, .empty⟩]),
    ("forms", formsOf "twin")]
  distinct := by decide +kernel
  named := by decide +kernel

/-- The first number comes back as the second one, in both forms. -/
theorem twins_swapped : (twins.compile .default).output.isSome = true ∧
    ∃ e, twins.bundle.enum? "twin" = some e ∧
      (e.decodeBitmask 1 >>= e.encodeBitmask) = .ok 2 ∧ 1 &&& e.type.mask = 1 ∧
      (e.decodeFlagList (Attribute.header 0 Attribute.headerSize) >>= e.encodeFlagList)
        = .ok (Attribute.header 1 Attribute.headerSize) := by
  have hcompile : (twins.compile .default).output
      = some ⟨twins.bundle, twins.describe.sign⟩ := output_of_errors (by decide +kernel)
  exact ⟨by rw [hcompile]; rfl, _, enum?_bundle List.mem_cons_self rfl, by decide +kernel,
    by decide +kernel, by decide +kernel⟩

end Enums

end Schema

end NetlinkSchema
