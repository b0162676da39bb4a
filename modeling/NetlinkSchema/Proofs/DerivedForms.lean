import NetlinkSchema.Proofs.Cause
import NetlinkSchema.Proofs.Guard
import NetlinkSchema.Proofs.Termination
import NetlinkSchema.Proofs.Validity

/-!
# Derived forms of enums

The bitmask and the flag list of an enum are compiled only if some field asks for them. What a field
asks for is seen in its declaration: an integer asks for the bitmask of the enum that is its lower
type, an expression for the flag list of the enum whose flags are in it. The needs of an accepted
schema are what its fields ask for, neither more nor less. Not less, so the guard in front of the
derived forms never stops a codec; and as the numbers of an enum are checked against its needs, they
are bits and attribute types wherever they are used as such.

## Main definitions

* `TypeExpr.PartOf`: An expression within an expression.
* `Schema.AsksBitmask`, `Schema.AsksFlagList`: Some field of a schema asks for a form of an enum.
* `WireError.FormMissing`: The cause of an error is a form that was not compiled.

## Theorems

* `Schema.mem_needs_payload`, `Schema.mem_needs_member`: What one field needs is what it asks for.
* `Schema.bitmask_mem_needs_iff`, `Schema.flagList_mem_needs_iff`: So is what an accepted schema
  needs.
* `Schema.bundle_ready`: The forms that codecs use are compiled.
* `Schema.derived_forms_exact`: Derived forms are compiled exactly where they are used.
-/

namespace NetlinkSchema

/-- An expression is a part of an expression. -/
inductive TypeExpr.PartOf (e : TypeExpr) : TypeExpr → Prop
  | self : PartOf e e
  | array {elem : TypeExpr} {zero : Bool} (h : PartOf e elem) : PartOf e (.array elem zero)
  | map {elem : TypeExpr} (h : PartOf e elem) : PartOf e (.map elem)
  | flags {elem : TypeExpr} (h : PartOf e elem) : PartOf e (.flags elem)

/-- The cause is a derived form of an enum that was not compiled. -/
def WireError.FormMissing (e : WireError) : Prop :=
  ∃ variant enum, e.cause = .notCompiled variant enum

section Resolved

variable {b : Bundle}

theorem Lowering.Resolved.ready {l : Lowering} (h : l.Resolved b) : l.Ready b := by
  cases l with
  | bitmask e =>
      rcases h with ⟨c, hc, htype, hform⟩
      exact ⟨c, hc, htype, if_pos hform⟩
  | none => trivial
  | enum e => trivial
  | flags f => trivial

-- What a payload refers to is in the bundle, and so are the forms that it uses.
theorem Payload.Resolved.ready {p : Payload} (h : p.Resolved b)
    (hmembers : ∀ name l, b.codec? name = some (.struct l) → ∀ m ∈ l.members, m.2.Ready b) :
    p.Ready b := by
  induction p with
  | number num lower => exact Lowering.Resolved.ready h
  | array zero elem ih => exact ih h
  | map elem ih => exact ih h
  | flagList e =>
      rcases h with ⟨c, hc, htype, hform⟩
      exact ⟨c, hc, htype, if_pos hform⟩
  | struct l => exact hmembers l.name l h
  | _ => trivial

end Resolved

namespace Schema

section Asks

/-- An integer with the bits of an enum as its meaning. -/
def BitsOf (enum : Text) (o : AttributeOptions) (type : TypeExpr) : Prop :=
  ∃ name num, type = .name name ∧ Number.ofName? name = some num ∧ num.isFloat = false ∧
    o.type = some ⟨enum, true⟩

/-- Some field of a schema asks for the bitmask of an enum: an attribute, be it within arrays and
    maps, or a known member of a struct. -/
inductive AsksBitmask (s : Schema) (enum : Text) : Prop
  | field {name : Text} {d : TypeDef} {a : AttributeDef} (ht : (name, d) ∈ s.types)
      (hkind : d.effectiveKind = .attrs) (ha : a ∈ d.attrs)
      (hbits : BitsOf enum a.options a.type.core)
  | member {name : Text} {d : TypeDef} {a : AttributeDef} (ht : (name, d) ∈ s.types)
      (hkind : d.effectiveKind = .struct) (ha : a ∈ knownMembers d.attrs)
      (hbits : BitsOf enum a.options a.type)

/-- Some attribute of a schema asks for the flag list of an enum. -/
def AsksFlagList (s : Schema) (enum : Text) : Prop :=
  ∃ name d, (name, d) ∈ s.types ∧ d.effectiveKind = .attrs ∧
    ∃ a ∈ d.attrs, (TypeExpr.flags (.name enum)).PartOf a.type

end Asks

section Needs

variable {s : Schema} {name : Text} {d : TypeDef} {o : AttributeOptions} {enum : Text}

-- The meaning of an integer needs nothing but the bitmask of its lower type.
theorem mem_needs_lowering {num : Number} {lower : Option LowerType} {l : Lowering}
    (hl : (s.lowering num lower).result? = some l) {variant : Variant} :
    (enum, variant) ∈ l.needs ↔
      variant = .bitmask ∧ num.isFloat = false ∧ lower = some ⟨enum, true⟩ := by
  rcases lowering_cases hl with ⟨rfl, rfl⟩ | ⟨⟨r, asFlags⟩, d, rfl, hinteger, -, hcases⟩
  · simp [Lowering.needs]
  rcases hcases with ⟨-, rfl, rfl⟩ | ⟨-, rfl, -, rfl⟩ | ⟨-, rfl, -, rfl⟩
  · simp [Lowering.needs]
  · simp only [Lowering.needs, EnumType.ofDef, List.mem_singleton, Prod.mk.injEq, hinteger,
      Option.some.injEq, LowerType.mk.injEq, and_true, true_and]
    exact ⟨fun h => ⟨h.2, h.1.symm⟩, fun h => ⟨h.2.symm, h.1⟩⟩
  · simp [Lowering.needs]

theorem bitsOf_iff {num : Number} (hnum : Number.ofName? name = some num) :
    BitsOf enum o (.name name) ↔ num.isFloat = false ∧ o.type = some ⟨enum, true⟩ := by
  refine ⟨?_, fun h => ⟨name, num, rfl, hnum, h⟩⟩
  rintro ⟨n, num', hname, hnum', h⟩
  cases hname
  rw [hnum] at hnum'
  cases hnum'
  exact h

theorem not_bitsOf (hlower : o.type = none) (e : TypeExpr) : ¬ BitsOf enum o e := by
  rintro ⟨-, -, -, -, -, hsome⟩
  rw [hlower] at hsome
  cases hsome

-- So does an integer, and nothing else that has a name needs anything.
theorem mem_needs_named {p : Payload} (hp : (s.namedPayload o name).result? = some p)
    {variant : Variant} :
    (enum, variant) ∈ p.needs ↔ variant = .bitmask ∧ BitsOf enum o (.name name) := by
  rcases namedPayload_cases hp with
    ⟨num, l, hnum, hl, rfl⟩ | ⟨hnone, ⟨-, rfl⟩ | ⟨-, rfl⟩ | ⟨-, rfl⟩ | ⟨-, rfl⟩⟩ |
      ⟨hnone, d, -, ⟨-, rfl⟩ | ⟨-, rfl⟩⟩
  · rw [Payload.needs_number, mem_needs_lowering hl, bitsOf_iff hnum]
  all_goals simp [Payload.needs, not_bitsOf hnone]

/-- What an attribute needs is what it asks for. -/
theorem mem_needs_payload {e : TypeExpr} {p : Payload} (hp : (s.payload o e).result? = some p) :
    ((enum, .bitmask) ∈ p.needs ↔ BitsOf enum o e.core) ∧
      ((enum, .flagList) ∈ p.needs ↔ (TypeExpr.flags (.name enum)).PartOf e) := by
  induction e generalizing p with
  | name n =>
      have hneeds : ∀ variant, (enum, variant) ∈ p.needs ↔ _ := fun variant => mem_needs_named hp
      rw [hneeds, hneeds]
      refine ⟨and_iff_right rfl, ⟨fun h => (by cases h.1), fun h => (by cases h)⟩⟩
  | array elem zero ih =>
      rcases Check.result?_bind.1 hp with ⟨q, hq, hp⟩
      cases (Check.result?_pure _ _).1 hp
      refine ⟨(ih hq).1, (ih hq).2.trans ⟨.array, fun h => ?_⟩⟩
      cases h with
      | array h => exact h
  | map elem ih =>
      rcases Check.result?_bind.1 hp with ⟨q, hq, hp⟩
      cases (Check.result?_pure _ _).1 hp
      refine ⟨(ih hq).1, (ih hq).2.trans ⟨.map, fun h => ?_⟩⟩
      cases h with
      | map h => exact h
  | flags elem _ =>
      -- The element of flags is a name, so no other flags are within them.
      rcases flagListPayload_iff.1 hp with ⟨-, n, d, rfl, -, -, rfl⟩
      constructor
      · constructor
        · intro h
          cases List.mem_singleton.1 h
        · rintro ⟨n', -, hname, -⟩
          cases hname
      · constructor
        · intro h
          cases List.mem_singleton.1 h
          exact .self
        · intro h
          cases h with
          | self => exact List.mem_singleton.2 rfl
          | flags h => cases h
  | _ =>
      -- What has no name is looked up under the empty one, which no type has.
      rw [payload, namedPayload_empty] at hp
      cases hp

theorem mem_needs_element {parts : Text → Members} {t : MemberType}
    (ht : (s.elementType parts name o).result? = some t) {variant : Variant} :
    (enum, variant) ∈ t.needs ↔ variant = .bitmask ∧ BitsOf enum o (.name name) := by
  rcases elementType_cases ht with
    ⟨-, hnone, rfl⟩ | ⟨num, l, hnum, hl, rfl⟩ | ⟨d, -, -, -, hnone, rfl⟩
  · simp [MemberType.needs, not_bitsOf hnone]
  · rw [MemberType.needs_number, mem_needs_lowering hl, bitsOf_iff hnum]
  · simp [MemberType.needs, not_bitsOf hnone]

/-- What a struct member needs is what it asks for. -/
theorem mem_needs_member {parts : Text → Members} {a : AttributeDef} {t : MemberType}
    (ht : (s.memberType parts a).result? = some t) {variant : Variant} :
    (enum, variant) ∈ t.needs ↔ variant = .bitmask ∧ BitsOf enum a.options a.type := by
  rcases memberType_cases ht with ⟨n, htype, ⟨hname, -, rfl⟩ | ⟨elem, helem, rfl⟩⟩
  · -- A byte string has no needs, whatever its lower type.
    refine ⟨fun h => absurd h List.not_mem_nil, ?_⟩
    rintro ⟨-, n', num, hn', hnum, -⟩
    rw [htype] at hn'
    cases hn'
    rw [ofName?_eq_none (by tauto)] at hnum
    cases hnum
  · have hcounted := congrFun (needs_counted a.options.count) elem
    rw [Function.comp_apply] at hcounted
    rw [hcounted, htype]
    exact mem_needs_element helem

end Needs

section Fields

variable {s : Schema} {name : Text} {d : TypeDef}

theorem mem_membersTo_succ (ht : (name, d) ∈ s.types) {depth : Nat} {m : Text × MemberType} :
    m ∈ s.membersTo (depth + 1) name ↔ ∃ a ∈ knownMembers d.attrs, ∃ t,
      (s.memberType (s.membersTo depth) a).result? = some t ∧ (a.name, t) = m := by
  rw [membersTo, mem_types_iff.1 ht]
  simp only [List.mem_filterMap, Option.map_eq_some_iff]

-- There is a type, so structs are followed at least to the first step.
theorem mem_members_iff (ht : (name, d) ∈ s.types) {m : Text × MemberType} :
    m ∈ s.members name ↔ ∃ a ∈ knownMembers d.attrs, ∃ t,
      (s.memberType (s.membersTo (s.size - 1)) a).result? = some t ∧ (a.name, t) = m := by
  have hsize : s.size = s.size - 1 + 1 := (Nat.sub_add_cancel (List.length_pos_of_mem ht)).symm
  rw [← mem_membersTo_succ ht, ← hsize, members]

/-- What a known member needs is among the needs of the schema, however far the structs within it
    were followed. -/
theorem needs_of_known (ht : (name, d) ∈ s.types) (hkind : d.effectiveKind = .struct)
    {a : AttributeDef} (ha : a ∈ knownMembers d.attrs) {parts : Text → Members} {t : MemberType}
    (hresult : (s.memberType parts a).result? = some t) : ∀ n ∈ t.needs, n ∈ s.needs := by
  -- The layout of the struct has the same field, followed to another depth, with the same needs.
  have hsame : (s.memberType (s.membersTo (s.size - 1)) a).result?.map MemberType.needs
      = (s.memberType parts a).result?.map MemberType.needs := needs_memberType a
  rw [hresult, Option.map_some] at hsame
  rcases Option.map_eq_some_iff.1 hsame with ⟨t', hresult', hneeds⟩
  rw [← hneeds]
  exact needs_of_member ht hkind ((mem_members_iff ht).2 ⟨a, ha, t', hresult', rfl⟩)

/-- The attributes of an accepted schema are resolved, and their needs are among those of the
    schema. -/
theorem Accepted.attribute_resolved (h : s.Accepted) (ht : (name, d) ∈ s.types)
    (hkind : d.effectiveKind = .attrs) {a : AttributeDef} (ha : a ∈ d.attrs) :
    ∃ p, (s.payload a.options a.type).result? = some p ∧ ∀ n ∈ p.needs, n ∈ s.needs := by
  have hfound := h.typed _ ht
  simp only [typeFindings, hkind] at hfound
  rcases errors_attrsFindings.1 hfound with ⟨hresolved, hroom⟩
  rw [← map_snd_numbered d] at ha
  rcases List.mem_map.1 ha with ⟨x, hx, rfl⟩
  rw [← usable_eq_numbered hroom] at hx
  rcases hresolved x hx with ⟨p, hp⟩
  refine ⟨p, hp, needs_of_field (f := ⟨x.2.name, UInt16.ofNat x.1, x.2.options.repeated, p⟩) ht
    hkind ?_⟩
  exact List.mem_filterMap.2 ⟨x, hx, Option.map_eq_some_iff.2 ⟨p, hp, rfl⟩⟩

/-- What a schema needs, one of its fields needs. -/
theorem field_of_needs {n : Text × Variant} (hn : n ∈ s.needs) : ∃ name d, (name, d) ∈ s.types ∧
    ((d.effectiveKind = .attrs ∧ ∃ a ∈ d.attrs, ∃ p,
        (s.payload a.options a.type).result? = some p ∧ n ∈ p.needs) ∨
      d.effectiveKind = .struct ∧ ∃ a ∈ knownMembers d.attrs, ∃ parts t,
        (s.memberType parts a).result? = some t ∧ n ∈ t.needs) := by
  rcases List.mem_flatMap.1 hn with ⟨⟨name, d⟩, ht, hn⟩
  refine ⟨name, d, ht, ?_⟩
  rw [needsOf] at hn
  cases hkind : d.effectiveKind with
  | attrs =>
      simp only [hkind] at hn
      rcases List.mem_flatMap.1 hn with ⟨f, hf, hn⟩
      rcases mem_attrSet_fields hf with ⟨x, hx, hp, -⟩
      exact Or.inl ⟨rfl, x.2, mem_attrs_of_usable hx, f.payload, hp, hn⟩
  | struct =>
      simp only [hkind] at hn
      rcases List.mem_flatMap.1 hn with ⟨m, hm, hn⟩
      rcases (mem_members_iff ht).1 hm with ⟨a, ha, t, hresult, rfl⟩
      exact Or.inr ⟨rfl, a, ha, _, t, hresult, hn⟩
  | _ =>
      simp only [hkind] at hn
      cases hn

/-- The bitmask of an enum is among the needs of an accepted schema if some field asks for it. -/
theorem bitmask_mem_needs_iff (h : s.Accepted) {enum : Text} :
    (enum, .bitmask) ∈ s.needs ↔ s.AsksBitmask enum := by
  constructor
  · intro hn
    rcases field_of_needs hn with
      ⟨name, d, ht, ⟨hkind, a, ha, p, hp, hneeds⟩ | ⟨hkind, a, ha, parts, t, hresult, hneeds⟩⟩
    · exact .field ht hkind ha ((mem_needs_payload hp).1.1 hneeds)
    · exact .member ht hkind ha ((mem_needs_member hresult).1 hneeds).2
  · intro hasks
    cases hasks with
    | field ht hkind ha hbits =>
        rcases h.attribute_resolved ht hkind ha with ⟨p, hp, hneeds⟩
        exact hneeds _ ((mem_needs_payload hp).1.2 hbits)
    | member ht hkind ha hbits =>
        rcases h.member_resolved ht hkind ha with ⟨t, hresult⟩
        exact needs_of_known ht hkind ha hresult _ ((mem_needs_member hresult).2 ⟨rfl, hbits⟩)

/-- So is the flag list. No member of a struct asks for one. -/
theorem flagList_mem_needs_iff (h : s.Accepted) {enum : Text} :
    (enum, .flagList) ∈ s.needs ↔ s.AsksFlagList enum := by
  constructor
  · intro hn
    rcases field_of_needs hn with
      ⟨name, d, ht, ⟨hkind, a, ha, p, hp, hneeds⟩ | ⟨-, a, -, parts, t, hresult, hneeds⟩⟩
    · exact ⟨name, d, ht, hkind, a, ha, (mem_needs_payload hp).2.1 hneeds⟩
    · cases ((mem_needs_member hresult).1 hneeds).1
  · rintro ⟨name, d, ht, hkind, a, ha, hpart⟩
    rcases h.attribute_resolved ht hkind ha with ⟨p, hp, hneeds⟩
    exact hneeds _ ((mem_needs_payload hp).2.2 hpart)

end Fields

section Ready

variable {s : Schema} {name : Text} {d : TypeDef}

theorem lowering_ready {num : Number} {lower : Option LowerType} {l : Lowering}
    (hl : (s.lowering num lower).result? = some l) (hneeds : ∀ n ∈ l.needs, n ∈ s.needs) :
    l.Ready s.bundle := by
  refine Lowering.Resolved.ready (lowering_found hl fun e he => hneeds _ ?_)
  rw [he]
  exact List.mem_cons_self

/-- The forms that a member uses are compiled, if so are those of the structs within it. -/
theorem member_ready {parts : Text → Members}
    (hparts : ∀ name d, (name, d) ∈ s.types → d.effectiveKind = .struct →
      ∀ m ∈ parts name, m.2.Ready s.bundle)
    {a : AttributeDef} {t : MemberType} (ht : (s.memberType parts a).result? = some t)
    (hneeds : ∀ n ∈ t.needs, n ∈ s.needs) : t.Ready s.bundle := by
  rcases memberType_cases ht with ⟨n, -, ⟨-, -, rfl⟩ | ⟨elem, helem, rfl⟩⟩
  · exact .bytes _
  have hcounted := congrFun (needs_counted a.options.count) elem
  rw [Function.comp_apply] at hcounted
  rw [hcounted] at hneeds
  have hready : elem.Ready s.bundle := by
    rcases elementType_cases helem with
      ⟨-, -, rfl⟩ | ⟨num, l, -, hl, rfl⟩ | ⟨d, hd, hkind, -, -, rfl⟩
    · exact .bool
    · rw [MemberType.needs_number] at hneeds
      exact .number num (lowering_ready hl hneeds)
    · exact .struct n (hparts n d hd hkind)
  -- A positive count makes an array of the element.
  split
  · exact .array _ hready
  · exact hready

-- The induction is on the depth to which structs are followed.
theorem membersTo_ready (depth : Nat) (ht : (name, d) ∈ s.types)
    (hkind : d.effectiveKind = .struct) : ∀ m ∈ s.membersTo depth name, m.2.Ready s.bundle := by
  induction depth generalizing name d with
  | zero => exact fun m hm => absurd hm List.not_mem_nil
  | succ depth ih =>
      intro m hm
      rcases (mem_membersTo_succ ht).1 hm with ⟨a, ha, t, hresult, rfl⟩
      exact member_ready (fun _ _ ht hkind => ih ht hkind) hresult
        (needs_of_known ht hkind ha hresult)

/-- The forms that codecs use are compiled. -/
theorem bundle_ready (s : Schema) : s.bundle.Ready := by
  have hmembers : ∀ name l, s.bundle.codec? name = some (.struct l) →
      ∀ m ∈ l.members, m.2.Ready s.bundle := by
    intro name l hcodec
    rcases codec_cases hcodec with ⟨d, ht, ⟨-, hcodec⟩ | ⟨hkind, hcodec⟩⟩
    · cases hcodec
    · cases hcodec
      exact membersTo_ready s.size ht hkind
  refine ⟨fun name f hf => ?_, hmembers⟩
  rcases s.fields_attrSets name with ⟨d, ht, hkind, hfields⟩ | ⟨-, hfields⟩
  · rw [hfields] at hf
    rcases mem_attrSet_fields hf with ⟨x, -, hp, -⟩
    exact (payload_found hp (needs_of_field ht hkind hf)).ready hmembers
  · rw [hfields] at hf
    cases hf

end Ready

section Exact

-- A kind of causes to which no missing form belongs.
theorem not_formMissing {P : WireError → Prop}
    (hP : ∀ variant enum, ¬ P (.notCompiled variant enum)) {e : WireError} (h : P e.cause) :
    ¬ e.FormMissing := by
  rintro ⟨variant, enum, hcause⟩
  rw [hcause] at h
  exact hP variant enum h

/-- Derived forms of enums are compiled exactly where they are used. An enum has a bitmask or a flag
    list if and only if some field asks for it, and then its numbers are bits or attribute types.
    The forms that codecs use are compiled, so the guard in front of them never stops a codec, and
    no error has a form that was not compiled as its cause. -/
theorem derived_forms_exact {s : Schema} {o : CompileOptions} {compiled : Compiled}
    (hcompile : (s.compile o).output = some compiled) :
    (∀ enum d, (enum, d) ∈ s.types → d.effectiveKind = .enum →
      ∃ e, compiled.bundle.enum? enum = some e ∧ e.type = EnumType.ofDef enum d ∧
        (e.bitmask = true ↔ s.AsksBitmask enum) ∧ (e.flagList = true ↔ s.AsksFlagList enum) ∧
        (e.bitmask = true → ∀ v ∈ d.values, 0 ≤ v.value.toInt ∧ v.value.toInt ≤ 63 ∧
          (EnumType.bitOf v.value).toNat = 2 ^ v.value.toInt.toNat) ∧
        (e.flagList = true → ∀ v ∈ d.values, 0 ≤ v.value.toInt ∧ v.value.toInt ≤ 16383 ∧
          (v.value.toUInt64.toUInt16.toNat : Int) = v.value.toInt)) ∧
    compiled.bundle.Ready ∧
    ∀ name c, compiled.bundle.codec? name = some c →
      (∀ buf, c.decodeGuarded compiled.bundle buf = c.decode buf ∧
        ∀ e, c.decode buf = .error e → ¬ e.FormMissing) ∧
      (∀ obj, c.encodeGuarded compiled.bundle obj = c.encode obj ∧
        ∀ e, c.encode obj = .error e → ¬ e.FormMissing) ∧
      ∀ obj buf, c.encodeIntoGuarded compiled.bundle obj buf = c.encodeInto obj buf ∧
        ∀ e, (c.encodeInto obj buf).2 = some e → ¬ e.FormMissing := by
  rcases accepted_of_compile hcompile with ⟨haccepted, hbundle⟩
  rw [hbundle]
  refine ⟨fun enum d ht hkind => ?_, s.bundle_ready, fun name c hcodec => ⟨fun buf => ?_,
    fun obj => ?_, fun obj buf => ?_⟩⟩
  · refine ⟨_, enum?_bundle ht hkind, rfl, ?_, ?_, ?_, ?_⟩
    · exact List.contains_iff_mem.trans (bitmask_mem_needs_iff haccepted)
    · exact List.contains_iff_mem.trans (flagList_mem_needs_iff haccepted)
    · intro hform v hv
      rcases provides_of_needs haccepted ht hkind (List.contains_iff_mem.1 hform) v hv with
        ⟨hpos, hle⟩
      exact ⟨hpos, hle, EnumType.toNat_bitOf hpos hle⟩
    · intro hform v hv
      have hprovides := provides_of_needs haccepted ht hkind (List.contains_iff_mem.1 hform)
      refine ⟨(hprovides v hv).1, (hprovides v hv).2, ?_⟩
      exact EnumType.toNat_typeOf (attributeTypes_of_provides hprovides enum)
        (List.mem_map_of_mem hv)
  · refine ⟨s.bundle_ready.decodeGuarded_eq hcodec buf, fun e he => ?_⟩
    exact not_formMissing (fun _ _ => id) (c.decode_failsBy buf e he)
  · refine ⟨s.bundle_ready.encodeGuarded_eq hcodec obj, fun e he => ?_⟩
    exact not_formMissing (fun _ _ => id) (c.encode_failsBy obj e he)
  · refine ⟨s.bundle_ready.encodeIntoGuarded_eq hcodec obj buf, fun e he => ?_⟩
    rcases c.encodeInto_failsBy obj buf e he with hvalue | hstruct
    · exact not_formMissing (fun _ _ => id) hvalue
    · rintro ⟨variant, enum, hcause⟩
      rw [hstruct] at hcause
      cases hcause

/-- The events of a catalog have both forms, the bits being asked for by a member of a struct. The
    flag list of an entry passes the guard. -/
theorem catalog_forms_compiled :
    (catalog 7).AsksBitmask "event" ∧ (catalog 7).AsksFlagList "event" ∧
      (∃ e, (catalog 7).bundle.enum? "event" = some e ∧ e.bitmask = true ∧ e.flagList = true) ∧
      ∃ c, (catalog 7).bundle.codec? "entry" = some c ∧
        ∀ buf, c.decodeGuarded (catalog 7).bundle buf = c.decode buf := by
  have hcompile : ((catalog 7).compile .default).output
      = some ⟨(catalog 7).bundle, (catalog 7).describe.sign⟩ :=
    output_of_errors (by decide +kernel)
  have hbits : (catalog 7).AsksBitmask "event" := by
    have hbanner : (("banner" : Text), banner) ∈ (catalog 7).types := by simp [catalog]
    refine .member hbanner rfl List.mem_cons_self ?_
    exact ⟨"u16", ⟨.unsigned .w16, .native⟩, rfl, by decide +kernel, rfl, rfl⟩
  have hlist : (catalog 7).AsksFlagList "event" :=
    ⟨"entry", entry, by simp [catalog], rfl, _, List.mem_cons_of_mem _ List.mem_cons_self, .self⟩
  rcases derived_forms_exact hcompile with ⟨henums, -, hcodecs⟩
  rcases henums "event" _ List.mem_cons_self rfl with ⟨e, he, -, hbitmask, hflagList, -⟩
  have hcodec : (catalog 7).bundle.codec? "entry"
      = some (.attrs (catalog 7).bundle.attrSets "entry") :=
    codec?_attrs (d := entry) (by simp [catalog]) rfl
  exact ⟨hbits, hlist, ⟨e, he, hbitmask.2 hbits, hflagList.2 hlist⟩, _, hcodec,
    fun buf => ((hcodecs _ _ hcodec).1 buf).1⟩

end Exact

end Schema

end NetlinkSchema
