import NetlinkSchema.Proofs.Description

/-!
# Alike schemas

A field that refers to a type sees little of its declaration: the kind, the values of an enum or of
a flags type, and whether a struct may be extended. Two schemas whose declarations are alike in this
resolve every field in the same way, once the members of structs are the same; the warnings and the
errors are the same as well.

## Main definitions

* `TypeDef.Alike`: Two declarations look the same to the fields that refer to them.
* `Schema.Alike`: Two schemas declare the same names, each alike.
* `Schema.SameMembers`: Structs have the same members.

## Theorems

* `Schema.Alike.lowering`, `Schema.Alike.memberType`, `Schema.Alike.payload`: One for each step of
  the resolution.
-/

namespace NetlinkSchema

namespace TypeDef

/-- Two declarations look the same to the fields that refer to them. -/
structure Alike (d e : TypeDef) : Prop where
  kind : d.effectiveKind = e.effectiveKind
  values : d.effectiveKind = .enum ∨ d.effectiveKind = .flags → d.entries = e.entries
  expandable : d.effectiveKind = .struct → Schema.isExpandable d = Schema.isExpandable e

theorem Alike.refl (d : TypeDef) : d.Alike d := ⟨rfl, fun _ => rfl, fun _ => rfl⟩

variable {d e : TypeDef}

theorem enumType_congr (h : d.entries = e.entries) (name : Text) :
    EnumType.ofDef name d = EnumType.ofDef name e := by
  have hmap := congrArg (List.map fun x => EnumValue.mk x.1 (camelCase x.1) x.2) h
  simp only [entries, List.map_map] at hmap
  exact congrArg (EnumType.mk name) hmap

theorem flagsType_congr (h : d.entries = e.entries) (name : Text) :
    FlagsType.ofDef name d = FlagsType.ofDef name e := by
  have hmap := congrArg
    (fun xs => (xs.filter (·.2 != 0)).map fun x => FlagBits.mk x.1 x.2.toUInt64) h
  simp only [entries, List.filter_map, List.map_map] at hmap
  exact congrArg (FlagsType.mk name) hmap

-- The first value of some number is found under the same name in both, or in neither.
theorem find?_cases (h : d.entries = e.entries) (p : Int64 → Bool) :
    (d.values.find? fun v => p v.value) = none ∧ (e.values.find? fun v => p v.value) = none ∨
      ∃ v w, (d.values.find? fun v => p v.value) = some v ∧
        (e.values.find? fun v => p v.value) = some w ∧ v.name = w.name ∧ v.value = w.value := by
  have hfind := congrArg (List.find? fun x => p x.2) h
  rw [entries, entries, List.find?_map, List.find?_map] at hfind
  change (d.values.find? fun v => p v.value).map ValueDef.entry
    = (e.values.find? fun v => p v.value).map ValueDef.entry at hfind
  cases hv : d.values.find? fun v => p v.value with
  | none =>
      rw [hv, Option.map_none] at hfind
      exact Or.inl ⟨rfl, Option.map_eq_none_iff.1 hfind.symm⟩
  | some v =>
      rw [hv, Option.map_some] at hfind
      rcases Option.map_eq_some_iff.1 hfind.symm with ⟨w, hw, hentry⟩
      rcases Prod.mk.inj hentry with ⟨hname, hvalue⟩
      exact Or.inr ⟨v, w, rfl, hw, hname.symm, hvalue.symm⟩

end TypeDef

namespace Schema

section Lowering

variable {d e : TypeDef}

theorem bitmaskLowering_congr (h : d.entries = e.entries) (num : Number) (lower : LowerType) :
    bitmaskLowering num lower d = bitmaskLowering num lower e := by
  rw [bitmaskLowering, bitmaskLowering, TypeDef.enumType_congr h]
  rcases TypeDef.find?_cases h fun n => 0 ≤ n && n ≤ 63 && !num.fits (EnumType.bitOf n) with
    ⟨hv, hw⟩ | ⟨v, w, hv, hw, hname, hvalue⟩
  · simp only [hv, hw]
  · simp only [hv, hw, hname, hvalue]

theorem flagsLowering_congr (h : d.entries = e.entries) (num : Number) (lower : LowerType) :
    flagsLowering num lower d = flagsLowering num lower e := by
  rw [flagsLowering, flagsLowering, TypeDef.flagsType_congr h]
  rcases TypeDef.find?_cases h fun n => !num.fits n.toUInt64 with
    ⟨hv, hw⟩ | ⟨v, w, hv, hw, hname, hvalue⟩
  · simp only [hv, hw]
  · simp only [hv, hw, hname, hvalue]

theorem lowerTo_congr (h : d.Alike e) (num : Number) (lower : LowerType) :
    lowerTo num lower d = lowerTo num lower e := by
  rcases h with ⟨hkind, hvalues, -⟩
  rw [lowerTo, lowerTo, ← hkind]
  cases hk : d.effectiveKind with
  | enum =>
      have hentries := hvalues (Or.inl hk)
      cases lower.asFlags with
      | true => exact bitmaskLowering_congr hentries num lower
      | false =>
          simp only [TypeDef.enumType_congr hentries]
  | flags =>
      cases lower.asFlags with
      | true => rfl
      | false => exact flagsLowering_congr (hvalues (Or.inr hk)) num lower
  | attrs => rfl
  | struct => rfl
  | other name unknown => rfl

end Lowering

/-- Two schemas declare the same names, each alike. -/
def Alike (s t : Schema) : Prop := ∀ name, Option.Rel TypeDef.Alike (s.get? name) (t.get? name)

/-- Each struct has the same members. What is no struct is not asked for its members. -/
def SameMembers (s : Schema) (members members' : Text → Members) : Prop :=
  ∀ name d, s.get? name = some d → d.effectiveKind = .struct → members name = members' name

theorem SameMembers.of_eq {s : Schema} {members members' : Text → Members}
    (h : members = members') : s.SameMembers members members' := fun name _ _ _ => congrFun h name

namespace Alike

variable {s t : Schema}

/-- A name is declared in both or in neither. -/
theorem cases (h : s.Alike t) (name : Text) :
    s.get? name = none ∧ t.get? name = none ∨
      ∃ d e, s.get? name = some d ∧ t.get? name = some e ∧ d.Alike e := by
  have hrel := h name
  cases hs : s.get? name with
  | none =>
      cases ht : t.get? name with
      | none => exact Or.inl ⟨rfl, rfl⟩
      | some e =>
          rw [hs, ht] at hrel
          cases hrel
  | some d =>
      cases ht : t.get? name with
      | none =>
          rw [hs, ht] at hrel
          cases hrel
      | some e =>
          rw [hs, ht] at hrel
          cases hrel with
          | some hde => exact Or.inr ⟨d, e, rfl, rfl, hde⟩

theorem lowering (h : s.Alike t) (num : Number) (lower : Option LowerType) :
    s.lowering num lower = t.lowering num lower := by
  cases lower with
  | none => rfl
  | some lower =>
      rw [Schema.lowering, Schema.lowering]
      rcases h.cases lower.name with ⟨hs, ht⟩ | ⟨d, e, hs, ht, hde⟩
      · simp only [hs, ht]
      · simp only [hs, ht, lowerTo_congr hde]

section Member

variable (h : s.Alike t) {members members' : Text → Members}
  (hmembers : s.SameMembers members members')
include h hmembers

theorem nestedStruct (name : Text) (o : AttributeOptions) :
    s.nestedStruct members name o = t.nestedStruct members' name o := by
  rw [Schema.nestedStruct, Schema.nestedStruct]
  rcases h.cases name with ⟨hs, ht⟩ | ⟨d, e, hs, ht, hde⟩
  · simp only [hs, ht]
  · simp only [hs, ht]
    by_cases hkind : d.effectiveKind = .struct
    · have hexpandable := hde.expandable hkind
      have hsame := hmembers name d hs hkind
      simp only [hde.kind, hexpandable, hsame]
    · have hkind' : e.effectiveKind ≠ .struct := fun he => hkind (hde.kind.trans he)
      rw [if_pos hkind, if_pos hkind', hde.kind]

theorem elementType (name : Text) (o : AttributeOptions) :
    s.elementType members name o = t.elementType members' name o := by
  rw [Schema.elementType, Schema.elementType]
  simp only [h.lowering, h.nestedStruct hmembers]

theorem namedMember (name : Text) (o : AttributeOptions) :
    s.namedMember members name o = t.namedMember members' name o := by
  rw [Schema.namedMember, Schema.namedMember, h.elementType hmembers]

/-- A struct member is resolved in the same way, given the members of other structs. -/
theorem memberType (a : AttributeDef) : s.memberType members a = t.memberType members' a := by
  rw [Schema.memberType, Schema.memberType]
  simp only [h.namedMember hmembers]

end Member

section Payload

variable (h : s.Alike t) (hmembers : s.SameMembers s.members t.members)
include h hmembers

theorem namedPayload (o : AttributeOptions) (name : Text) :
    s.namedPayload o name = t.namedPayload o name := by
  rw [Schema.namedPayload, Schema.namedPayload]
  cases Number.ofName? name with
  | some num => simp only [h.lowering]
  | none =>
      cases o.type with
      | some lower => rfl
      | none =>
          refine ite_congr rfl (fun _ => rfl) fun _ => ite_congr rfl (fun _ => rfl) fun _ =>
            ite_congr rfl (fun _ => rfl) fun _ => ite_congr rfl (fun _ => rfl) fun _ => ?_
          rcases h.cases name with ⟨hs, ht⟩ | ⟨d, e, hs, ht, hde⟩
          · rw [hs, ht]
          · simp only [hs, ht, ← hde.kind]
            cases hkind : d.effectiveKind with
            | struct => simp only [layout, hmembers name d hs hkind, hde.expandable hkind]
            | attrs => rfl
            | enum => rfl
            | flags => rfl
            | other kind unknown => rfl

omit hmembers in
theorem flagListPayload (o : AttributeOptions) (elem : TypeExpr) :
    s.flagListPayload o elem = t.flagListPayload o elem := by
  unfold Schema.flagListPayload
  cases o.type with
  | some lower => rfl
  | none =>
      cases elem with
      | name n =>
          rcases h.cases n with ⟨hs, ht⟩ | ⟨d, e, hs, ht, hde⟩
          · simp only [hs, ht]
          · simp only [hs, ht, ← hde.kind]
            by_cases hkind : d.effectiveKind = .enum
            · rw [if_pos hkind, if_pos hkind, TypeDef.enumType_congr (hde.values (Or.inl hkind))]
            · rw [if_neg hkind, if_neg hkind]
      | array elem zero => rfl
      | map elem => rfl
      | flags elem => rfl
      | other kind => rfl
      | missing => rfl

theorem payload (o : AttributeOptions) (expr : TypeExpr) :
    s.payload o expr = t.payload o expr := by
  induction expr with
  | name n => exact h.namedPayload hmembers o n
  | array elem zero ih => rw [Schema.payload, Schema.payload, ih]
  | map elem ih => rw [Schema.payload, Schema.payload, ih]
  | flags elem _ => exact h.flagListPayload o elem
  | other kind => exact h.namedPayload hmembers o .empty
  | missing => exact h.namedPayload hmembers o .empty

/-- The payload of an attribute is resolved in the same way. -/
theorem attributePayload (a : AttributeDef) : s.attributePayload a = t.attributePayload a := by
  rw [Schema.attributePayload, Schema.attributePayload, h.payload hmembers]

end Payload

end Alike

end Schema

end NetlinkSchema
