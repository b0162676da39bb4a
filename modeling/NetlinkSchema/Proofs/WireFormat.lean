import NetlinkSchema.Proofs.Agreement
import NetlinkSchema.Proofs.Alike
import NetlinkSchema.Proofs.Expression

/-!
# Manifests determine codecs

A manifest is made for people and for generators of source code, and its fingerprint stands for the
wire format of a schema. So nothing that a codec depends on may be missing from it. The descriptions
of two accepted schemas are compared in three steps:

* Declarations look alike to the fields that refer to them, since kinds, values and the mark of
  expandable structs are all described.
* The members of a struct are resolved to the same types. A manifest holds the types of members as
  text, from which they are read back.
* The same goes for the fields of attribute sets, and then everything is compiled to the same.

## Main definitions

* `Schema.PlainReferences`: Fields refer to plain names only.
* `Schema.SameEntries`: Two schemas describe each name in the same way.

## Theorems

* `Schema.SameEntries.alike`: Declarations with the same description are alike.
* `Schema.SameEntries.sameMembers_membersTo`: Structs have the same members.
* `Schema.SameEntries.bundle_get?`: Each name is compiled to the same.
* `Schema.manifest_determines_codecs`: Schemas with the same manifest have codecs that agree.
-/

namespace NetlinkSchema

theorem Check.result?_bind_pure {α β : Type} (x : Check α) (g : α → β) :
    (x >>= fun a => (pure (g a) : Check β)).result? = x.result?.map g := by
  refine Option.ext fun b => ?_
  rw [Check.result?_bind, Option.map_eq_some_iff]
  simp only [Check.result?_pure]

namespace AttributeDef

/-- A field refers to plain names only. -/
def Plain (a : AttributeDef) : Prop :=
  (∀ n ∈ a.type.names, n.Plain) ∧ ∀ l ∈ a.options.type, l.name.Plain

instance (a : AttributeDef) : Decidable a.Plain :=
  inferInstanceAs (Decidable ((∀ n ∈ a.type.names, n.Plain) ∧ ∀ l ∈ a.options.type, l.name.Plain))

end AttributeDef

namespace Schema

section Lower

/-- A lower type that means something here: it is declared, and its name is plain. -/
def LowerFits (s : Schema) (lower : Option LowerType) : Prop :=
  ∀ l ∈ lower, (s.get? l.name).isSome = true ∧ l.name.Plain

variable {s : Schema}

theorem get?_empty (s : Schema) : s.get? .empty = none := by
  cases hget : s.get? .empty with
  | none => rfl
  | some d =>
      have hnamed := s.named _ (List.mem_map_of_mem (mem_types_iff.2 hget))
      cases hnamed

/-- A declared lower type has a text, so that it is not taken for none. -/
theorem text_ne_empty {l : LowerType} (h : (s.get? l.name).isSome = true) : l.text ≠ .empty := by
  intro htext
  rw [LowerType.text] at htext
  cases hflags : l.asFlags with
  | true =>
      rw [hflags] at htext
      cases congrArg Text.utf8 htext
  | false =>
      rw [hflags] at htext
      have hname : l.name = .empty := htext
      rw [hname, get?_empty] at h
      cases h

theorem isSome_get?_of_lowering {num : Number} {l : LowerType} {lower : Lowering}
    (h : (s.lowering num (some l)).result? = some lower) : (s.get? l.name).isSome = true := by
  rcases lowering_cases h with ⟨hnone, -⟩ | ⟨r, d, hr, -, hd, -⟩
  · cases hnone
  · cases hr
    rw [mem_types_iff.1 hd]
    rfl

theorem lowerText_injective {lower lower' : Option LowerType} (h : s.LowerFits lower)
    (h' : s.LowerFits lower') (htext : lowerText lower = lowerText lower') : lower = lower' := by
  cases lower with
  | none =>
      cases lower' with
      | none => rfl
      | some l => exact absurd htext.symm (text_ne_empty (h' l rfl).1)
  | some l =>
      cases lower' with
      | none => exact absurd htext (text_ne_empty (h l rfl).1)
      | some l' => rw [LowerType.text_injective (h l rfl).2 (h' l' rfl).2 htext]

end Lower

section Member

variable {s : Schema} {members members' : Text → Members}

theorem needs_nestedStruct (name : Text) (o : AttributeOptions) :
    (s.nestedStruct members name o).result?.map MemberType.needs
      = (s.nestedStruct members' name o).result?.map MemberType.needs := by
  rw [nestedStruct, nestedStruct]
  cases s.get? name with
  | none => rfl
  | some d =>
      by_cases hkind : d.effectiveKind = .struct
      · simp only [hkind, ne_eq, not_true_eq_false, if_false]
        cases o.type with
        | some lower => rfl
        | none =>
            by_cases hexp : isExpandable d = true
            · simp only [if_pos hexp]
            · simp only [if_neg hexp]
              rfl
      · simp only [if_pos hkind]

theorem needs_elementType (name : Text) (o : AttributeOptions) :
    (s.elementType members name o).result?.map MemberType.needs
      = (s.elementType members' name o).result?.map MemberType.needs := by
  rw [elementType, elementType]
  by_cases hbool : name = "bool"
  · rw [if_pos hbool, if_pos hbool]
  · rw [if_neg hbool, if_neg hbool]
    by_cases hflag : name = "flag"
    · rw [if_pos hflag, if_pos hflag]
    · rw [if_neg hflag, if_neg hflag]
      cases Number.ofName? name with
      | some num => rfl
      | none => exact needs_nestedStruct name o

theorem result?_namedMember (name : Text) (o : AttributeOptions) :
    (s.namedMember members name o).result?
      = if name = "data" ∨ name = "string" then (bytesType name o).result?
        else (s.elementType members name o).result?.map
          fun elem => if 0 < o.count then .array o.count elem else elem := by
  rw [namedMember]
  split
  · rfl
  · exact Check.result?_bind_pure _ _

theorem result?_memberType {a : AttributeDef} {name : Text} (h : a.type = .name name) :
    (s.memberType members a).result? = (s.namedMember members name a.options).result? := by
  rw [memberType, h]
  rfl

-- A number of elements needs what an element needs.
theorem needs_counted (count : Int64) :
    MemberType.needs ∘ (fun elem => if 0 < count then .array count elem else elem)
      = MemberType.needs := by
  funext elem
  rw [Function.comp_apply]
  split
  · rfl
  · rfl

/-- What a struct member needs does not depend on the members of other structs. -/
theorem needs_memberType (a : AttributeDef) :
    (s.memberType members a).result?.map MemberType.needs
      = (s.memberType members' a).result?.map MemberType.needs := by
  cases htype : a.type with
  | name n =>
      rw [result?_memberType htype, result?_memberType htype, result?_namedMember,
        result?_namedMember]
      split
      · rfl
      · rw [Option.map_map, Option.map_map, needs_counted, needs_elementType]
  | array elem zero => rw [memberType, memberType, htype]
  | map elem => rw [memberType, memberType, htype]
  | flags elem => rw [memberType, memberType, htype]
  | other kind => rw [memberType, memberType, htype]
  | missing => rw [memberType, memberType, htype]

/-- Nor does it depend on them whether the member is resolved. -/
theorem isSome_memberType (a : AttributeDef) : (s.memberType members a).result?.isSome
    = (s.memberType members' a).result?.isSome := by
  rw [← Option.isSome_map (f := MemberType.needs), needs_memberType, Option.isSome_map]

/-- The lower type of a resolved member is declared. -/
theorem isSome_get?_of_elementType {name : Text} {o : AttributeOptions}
    (h : (s.elementType members name o).result?.isSome = true) :
    ∀ l ∈ o.type, (s.get? l.name).isSome = true := by
  intro l hl
  have htype : o.type = some l := hl
  rw [elementType] at h
  split at h
  · rw [htype] at h
    cases h
  split at h
  · cases h
  split at h
  · rcases Option.isSome_iff_exists.1 h with ⟨t, ht⟩
    rcases Check.result?_bind.1 ht with ⟨lower, hlower, -⟩
    rw [htype] at hlower
    exact isSome_get?_of_lowering hlower
  · rw [nestedStruct, htype] at h
    split at h
    · cases h
    split at h
    · cases h
    · cases h

/-- Members with the same outline are resolved to the same type. -/
theorem memberType_of_outline {a b : AttributeDef} (h : a.outline = b.outline)
    (ha : (s.memberType members a).result?.isSome = true)
    (hb : (s.memberType members b).result?.isSome = true)
    (hplain : ∀ l ∈ a.options.type, l.name.Plain) (hplain' : ∀ l ∈ b.options.type, l.name.Plain) :
    (s.memberType members a).result? = (s.memberType members b).result? := by
  rcases Option.isSome_iff_exists.1 ha with ⟨x, hx⟩
  rcases Option.isSome_iff_exists.1 hb with ⟨y, hy⟩
  rcases memberType_cases hx with ⟨n, hn, -⟩
  rcases memberType_cases hy with ⟨n', hn', -⟩
  simp only [AttributeDef.outline, Prod.mk.injEq, hn, hn'] at h
  rcases h with ⟨-, htext, hcount, hlower⟩
  obtain rfl : n = n' := htext
  rw [result?_memberType hn, result?_namedMember] at ha ⊢
  rw [result?_memberType hn', result?_namedMember] at hb ⊢
  by_cases hbytes : n = "data" ∨ n = "string"
  · -- The lower type of a byte string is ignored.
    rw [if_pos hbytes, if_pos hbytes, bytesType, bytesType, hcount]
    split
    · rfl
    · rfl
  · rw [if_neg hbytes, Option.isSome_map] at ha hb
    have hfits : s.LowerFits a.options.type := fun l hl =>
      ⟨isSome_get?_of_elementType ha l hl, hplain l hl⟩
    have hfits' : s.LowerFits b.options.type := fun l hl =>
      ⟨isSome_get?_of_elementType hb l hl, hplain' l hl⟩
    have htype := lowerText_injective hfits hfits' hlower
    rw [if_neg hbytes, if_neg hbytes, elementType, elementType, nestedStruct, nestedStruct, htype,
      hcount]

end Member

section Payload

variable {s : Schema} {o : AttributeOptions}

theorem namedPayload_empty (s : Schema) (o : AttributeOptions) :
    (s.namedPayload o .empty).result? = none := by
  have hnumber : Number.ofName? .empty = none := by decide +kernel
  rw [namedPayload, hnumber]
  cases o.type with
  | some lower => rfl
  | none =>
      simp only [get?_empty]
      rw [if_neg (by decide), if_neg (by decide), if_neg (by decide), if_neg (by decide)]
      rfl

/-- A resolved expression means something. -/
theorem plain_of_payload {e : TypeExpr} {p : Payload} (h : (s.payload o e).result? = some p)
    (hnames : ∀ n ∈ e.names, n.Plain) : e.Plain := by
  induction e generalizing p with
  | name n => exact hnames n List.mem_cons_self
  | array elem zero ih =>
      rcases Check.result?_bind.1 h with ⟨q, hq, -⟩
      exact ih hq hnames
  | map elem ih =>
      rcases Check.result?_bind.1 h with ⟨q, hq, -⟩
      exact ih hq hnames
  | flags elem _ =>
      rcases flagListPayload_iff.1 h with ⟨-, n, d, rfl, -⟩
      exact hnames n List.mem_cons_self
  | other kind =>
      rw [payload, namedPayload_empty] at h
      cases h
  | missing =>
      rw [payload, namedPayload_empty] at h
      cases h

/-- The lower type of a resolved field is declared. -/
theorem isSome_get?_of_payload {e : TypeExpr} {p : Payload} (h : (s.payload o e).result? = some p) :
    ∀ l ∈ o.type, (s.get? l.name).isSome = true := by
  intro l hl
  have htype : o.type = some l := hl
  induction e generalizing p with
  | name n =>
      rcases namedPayload_cases h with ⟨num, lower, -, hlower, -⟩ | ⟨hnone, -⟩ | ⟨hnone, -⟩
      · rw [htype] at hlower
        exact isSome_get?_of_lowering hlower
      · rw [htype] at hnone
        cases hnone
      · rw [htype] at hnone
        cases hnone
  | array elem zero ih =>
      rcases Check.result?_bind.1 h with ⟨q, hq, -⟩
      exact ih hq
  | map elem ih =>
      rcases Check.result?_bind.1 h with ⟨q, hq, -⟩
      exact ih hq
  | flags elem _ =>
      rw [(flagListPayload_iff.1 h).1] at htype
      cases htype
  | other kind =>
      rw [payload, namedPayload_empty] at h
      cases h
  | missing =>
      rw [payload, namedPayload_empty] at h
      cases h

-- A payload depends on two of the options only.
theorem payload_congr {o' : AttributeOptions} (htype : o.type = o'.type)
    (hmax : o.maxLength = o'.maxLength) (e : TypeExpr) : s.payload o e = s.payload o' e := by
  have hname : s.namedPayload o = s.namedPayload o' := by
    funext name
    rw [namedPayload, namedPayload, htype, hmax]
  induction e with
  | name n => rw [payload, payload, hname]
  | array elem zero ih => rw [payload, payload, ih]
  | map elem ih => rw [payload, payload, ih]
  | flags elem _ =>
      rw [payload, payload]
      unfold flagListPayload
      rw [htype]
  | other kind => rw [payload, payload, hname]
  | missing => rw [payload, payload, hname]

/-- Fields that are described in the same way are resolved to the same payload. -/
theorem attributePayload_of_text {a b : AttributeDef} {p q : Payload}
    (hp : (s.attributePayload a).result? = some p) (hq : (s.attributePayload b).result? = some q)
    (ha : a.Plain) (hb : b.Plain) (htext : a.type.text = b.type.text)
    (hlower : lowerText a.options.type = lowerText b.options.type)
    (hmax : a.options.maxLength = b.options.maxLength) : p = q := by
  rcases Check.result?_bind.1 hp with ⟨-, -, hp⟩
  rcases Check.result?_bind.1 hq with ⟨-, -, hq⟩
  have hexpr := TypeExpr.text_injective (plain_of_payload hp ha.1) (plain_of_payload hq hb.1) htext
  have htype : a.options.type = b.options.type :=
    lowerText_injective (fun l hl => ⟨isSome_get?_of_payload hp l hl, ha.2 l hl⟩)
      (fun l hl => ⟨isSome_get?_of_payload hq l hl, hb.2 l hl⟩) hlower
  rw [hexpr, payload_congr htype hmax, hq] at hp
  exact (Option.some.inj hp).symm

end Payload

section Fields

variable (s : Schema) (d : TypeDef)

/-- The resolved fields of an attribute set. -/
def resolvedFields : List ((Nat × AttributeDef) × Payload) :=
  (usable d).filterMap fun x => (s.attributePayload x.2).result?.map (x, ·)

theorem describeAttrs_eq_map : s.describeAttrs d = (s.resolvedFields d).map fun x =>
    { name := x.1.2.name, index := UInt16.ofNat x.1.1, type := x.1.2.type.text,
      lower := lowerText x.1.2.options.type, repeated := x.1.2.options.repeated,
      maxLength := x.1.2.options.maxLength, orig := x.1.2.options.orig,
      docs := x.1.2.options.docs } := by
  rw [describeAttrs, resolvedFields, List.map_filterMap]
  simp only [Option.map_map]
  rfl

theorem attrSet_fields_eq_map (name : Text) : (s.attrSet name d).fields
    = (s.resolvedFields d).map fun x =>
      ⟨x.1.2.name, UInt16.ofNat x.1.1, x.1.2.options.repeated, x.2⟩ := by
  rw [attrSet, resolvedFields, List.map_filterMap]
  simp only [Option.map_map]
  rfl

variable {s d}

theorem mem_resolvedFields {x : (Nat × AttributeDef) × Payload} (h : x ∈ s.resolvedFields d) :
    x.1.2 ∈ d.attrs ∧ (s.attributePayload x.1.2).result? = some x.2 := by
  rcases List.mem_filterMap.1 h with ⟨y, hy, hresult⟩
  rcases Option.map_eq_some_iff.1 hresult with ⟨p, hp, rfl⟩
  exact ⟨mem_attrs_of_usable hy, hp⟩

end Fields

/-- Fields refer to plain names only. -/
def PlainReferences (s : Schema) : Prop := ∀ t ∈ s.types, ∀ a ∈ t.2.attrs, a.Plain

instance (s : Schema) : Decidable s.PlainReferences :=
  inferInstanceAs (Decidable (∀ t ∈ s.types, ∀ a ∈ t.2.attrs, a.Plain))

/-- Two schemas describe each name in the same way. -/
structure SameEntries (s t : Schema) : Prop where
  size : s.size = t.size
  type? : ∀ name, s.describe.sign.type? name = t.describe.sign.type? name

namespace SameEntries

variable {s t : Schema}

theorem of_types (h : s.describe.sign.types = t.describe.sign.types) : s.SameEntries t := by
  have hlist : s.describe.sign.typeList = t.describe.sign.typeList := by
    rw [Manifest.typeList, Manifest.typeList, h]
  constructor
  · have hlength := congrArg List.length hlist
    rwa [typeList_describe, typeList_describe, List.length_map, List.length_map] at hlength
  · intro name
    rw [Manifest.type?, Manifest.type?, hlist]

/-- A name is declared in both or in neither, and declarations have the same description. -/
theorem cases (h : s.SameEntries t) (name : Text) :
    s.get? name = none ∧ t.get? name = none ∨
      ∃ d e, s.get? name = some d ∧ t.get? name = some e ∧
        s.describeType s.needs s.settledStructs name d
          = t.describeType t.needs t.settledStructs name e := by
  have heq := h.type? name
  rw [type?_describe, type?_describe] at heq
  cases hs : s.get? name with
  | none =>
      rw [hs, Option.map_none] at heq
      exact Or.inl ⟨rfl, Option.map_eq_none_iff.1 heq.symm⟩
  | some d =>
      rw [hs, Option.map_some] at heq
      rcases Option.map_eq_some_iff.1 heq.symm with ⟨e, ht, he⟩
      exact Or.inr ⟨d, e, rfl, ht, he.symm⟩

section Described

variable {needs needs' : List (Text × Variant)} {settled settled' : List Text} {name : Text}
  {d e : TypeDef}
  (h : s.describeType needs settled name d = t.describeType needs' settled' name e)
include h

theorem effectiveKind_eq : d.effectiveKind = e.effectiveKind := by
  refine Kind.name_injective ?_
  rw [← describeType_kind s needs settled name d, h, describeType_kind]

theorem entries_eq (hkind : d.effectiveKind = .enum ∨ d.effectiveKind = .flags) :
    d.entries = e.entries := by
  have hkind' : e.effectiveKind = .enum ∨ e.effectiveKind = .flags := by
    rwa [← effectiveKind_eq h]
  rw [← describeType_entries s needs settled name d hkind, h, describeType_entries _ _ _ _ _ hkind']

theorem describeStruct_eq (hkind : d.effectiveKind = .struct) :
    s.describeStruct settled name d = t.describeStruct settled' name e := by
  have hkind' : e.effectiveKind = .struct := by rwa [← effectiveKind_eq h]
  have hstruct := congrArg ManifestType.struct h
  simp only [describeType, hkind, hkind'] at hstruct
  exact Option.some.inj hstruct

theorem describeAttrs_eq (hkind : d.effectiveKind = .attrs) :
    s.describeAttrs d = t.describeAttrs e := by
  have hkind' : e.effectiveKind = .attrs := by rwa [← effectiveKind_eq h]
  have hattrs := congrArg ManifestType.attrs h
  simp only [describeType, hkind, hkind'] at hattrs
  exact hattrs

theorem variants_eq (hkind : d.effectiveKind = .enum) :
    needs.contains (name, .bitmask) = needs'.contains (name, .bitmask) ∧
      needs.contains (name, .flagList) = needs'.contains (name, .flagList) := by
  have hkind' : e.effectiveKind = .enum := by rwa [← effectiveKind_eq h]
  simp only [describeType, hkind, hkind'] at h
  exact ⟨congrArg ManifestType.bitmask h, congrArg ManifestType.flagList h⟩

/-- Declarations with the same description are alike. -/
theorem alike_of_described : d.Alike e :=
  ⟨effectiveKind_eq h, entries_eq h, fun hkind =>
    congrArg ManifestStruct.expandable (describeStruct_eq h hkind)⟩

end Described

theorem alike (h : s.SameEntries t) : s.Alike t := by
  intro name
  rcases h.cases name with ⟨hs, ht⟩ | ⟨d, e, hs, ht, hdesc⟩
  · rw [hs, ht]
    exact .none
  · rw [hs, ht]
    exact .some (alike_of_described hdesc)

end SameEntries

section Resolved

variable {s : Schema} (h : s.Accepted) {name : Text} {d : TypeDef} (hd : (name, d) ∈ s.types)
  (hkind : d.effectiveKind = .struct)
include h hd hkind

/-- The known members of a struct are resolved, whatever the members of other structs are. -/
theorem isSome_of_knownMembers (members : Text → Members) {a : AttributeDef}
    (ha : a ∈ knownMembers d.attrs) : (s.memberType members a).result?.isSome = true := by
  rcases h.member_resolved hd hkind ha with ⟨t, ht⟩
  have hsame : (s.memberType members a).result?.isSome
      = (s.memberType s.members a).result?.isSome := isSome_memberType a
  rw [hsame, ht]
  rfl

-- So they are all described.
theorem map_fst_declaredMembers : (s.declaredMembers d).map Prod.fst = knownMembers d.attrs := by
  rw [declaredMembers, List.map_filterMap]
  have hall : ∀ a ∈ knownMembers d.attrs,
      ((s.memberType (s.membersTo (s.size - 1)) a).result?.map (a, ·)).map Prod.fst = some a := by
    intro a ha
    rcases Option.isSome_iff_exists.1 (isSome_of_knownMembers h hd hkind _ ha) with ⟨t, ht⟩
    rw [ht]
    rfl
  rw [List.filterMap_congr hall, List.filterMap_some]

end Resolved

namespace SameEntries

variable {s t : Schema}

/-- The known members of a struct have the same outlines. -/
theorem map_outline (hs : s.Accepted) (ht : t.Accepted) {name : Text} {d e : TypeDef}
    (hd : s.get? name = some d) (he : t.get? name = some e) (hkind : d.effectiveKind = .struct)
    (hdesc : s.describeType s.needs s.settledStructs name d
      = t.describeType t.needs t.settledStructs name e) :
    (knownMembers d.attrs).map AttributeDef.outline
      = (knownMembers e.attrs).map AttributeDef.outline := by
  have hkind' : e.effectiveKind = .struct := by rwa [← effectiveKind_eq hdesc]
  have hfields := congrArg ManifestStruct.fields (describeStruct_eq hdesc hkind)
  simp only [describeStruct] at hfields
  have hlist := congrArg (fun fields => fields.getD []) hfields
  simp only [getD_presentList] at hlist
  have houtline := congrArg (List.map fun f => (f.name, f.type, f.count, f.lower)) hlist
  rw [describeFields_outline, describeFields_outline] at houtline
  rw [← map_fst_declaredMembers hs (mem_types_iff.2 hd) hkind,
    ← map_fst_declaredMembers ht (mem_types_iff.2 he) hkind', List.map_map, List.map_map]
  exact houtline

variable (h : s.SameEntries t) (hs : s.Accepted) (ht : t.Accepted) (hplain : s.PlainReferences)
  (hplain' : t.PlainReferences)
include h hs ht hplain hplain'

/-- Structs have the same members, however deep they are followed. -/
theorem sameMembers_membersTo (depth : Nat) :
    s.SameMembers (s.membersTo depth) (t.membersTo depth) := by
  induction depth with
  | zero => exact fun name d _ _ => rfl
  | succ depth ih =>
      intro name d hd hkind
      rcases h.cases name with ⟨hno, -⟩ | ⟨d', e, hd', he, hdesc⟩
      · rw [hd] at hno
        cases hno
      obtain rfl : d = d' := Option.some.inj (hd.symm.trans hd')
      have hkind' : e.effectiveKind = .struct := by rwa [← effectiveKind_eq hdesc]
      have hmem := mem_types_iff.2 hd
      have hmem' := mem_types_iff.2 he
      have hresults : (knownMembers d.attrs).map (fun a =>
            (s.memberType (s.membersTo depth) a).result?.map (a.name, ·))
          = (knownMembers e.attrs).map fun a =>
            (t.memberType (t.membersTo depth) a).result?.map (a.name, ·) := by
        refine map_eq_map_of_imp (map_outline hs ht hd he hkind hdesc) fun a ha b hb hab => ?_
        have hname : a.name = b.name := congrArg Prod.fst hab
        have hsome := isSome_of_knownMembers hs hmem hkind (s.membersTo depth) ha
        have hsome' := isSome_of_knownMembers ht hmem' hkind' (t.membersTo depth) hb
        have ha' := (hplain _ hmem a ((knownMembers_sublist _).subset ha)).2
        have hb' := (hplain' _ hmem' b ((knownMembers_sublist _).subset hb)).2
        rw [← h.alike.memberType ih] at hsome' ⊢
        rw [hname, memberType_of_outline hab hsome hsome' ha' hb']
      have hmembers := congrArg (List.filterMap id) hresults
      rw [List.filterMap_map, List.filterMap_map] at hmembers
      rw [Schema.membersTo, Schema.membersTo, hd, he]
      exact hmembers

theorem sameMembers : s.SameMembers s.members t.members := by
  have hsame := h.sameMembers_membersTo hs ht hplain hplain' s.size
  intro name d hd hkind
  rw [members, members, ← h.size]
  exact hsame name d hd hkind

/-- Attribute sets have the same fields. -/
theorem attrSet_eq {name : Text} {d e : TypeDef} (hd : s.get? name = some d)
    (he : t.get? name = some e) (hattrs : s.describeAttrs d = t.describeAttrs e) :
    s.attrSet name d = t.attrSet name e := by
  have hfields : (s.attrSet name d).fields = (t.attrSet name e).fields := by
    rw [describeAttrs_eq_map, describeAttrs_eq_map] at hattrs
    rw [attrSet_fields_eq_map, attrSet_fields_eq_map]
    refine map_eq_map_of_imp hattrs fun x hx y hy hxy => ?_
    simp only [ManifestAttr.mk.injEq] at hxy
    rcases hxy with ⟨hname, hindex, htext, hlower, hrepeated, hmax, -, -⟩
    rcases mem_resolvedFields hx with ⟨hattr, hresult⟩
    rcases mem_resolvedFields hy with ⟨hattr', hresult'⟩
    have hpayload := h.alike.attributePayload (h.sameMembers hs ht hplain hplain') y.1.2
    rw [← hpayload] at hresult'
    have hxplain := hplain _ (mem_types_iff.2 hd) _ hattr
    have hyplain := hplain' _ (mem_types_iff.2 he) _ hattr'
    rw [hname, hindex, hrepeated,
      attributePayload_of_text hresult hresult' hxplain hyplain htext hlower hmax]
  rw [attrSet] at hfields ⊢
  exact congrArg (AttrSet.mk name) hfields

/-- Each name is compiled to the same. -/
theorem bundle_get? (name : Text) : s.bundle.get? name = t.bundle.get? name := by
  rw [Schema.bundle_get?, Schema.bundle_get?]
  rcases h.cases name with ⟨hno, hno'⟩ | ⟨d, e, hd, he, hdesc⟩
  · rw [hno, hno', Option.map_none, Option.map_none]
  · have hkinds := effectiveKind_eq hdesc
    rw [hd, he, Option.map_some, Option.map_some]
    cases hkind : d.effectiveKind with
    | attrs =>
        have hset := h.attrSet_eq hs ht hplain hplain' hd he (describeAttrs_eq hdesc hkind)
        rw [hkind] at hkinds
        simp only [compileType, hkind, ← hkinds, hset]
    | struct =>
        have hmembers := h.sameMembers hs ht hplain hplain' name d hd hkind
        have hexpandable := (alike_of_described hdesc).expandable hkind
        rw [hkind] at hkinds
        simp only [compileType, hkind, ← hkinds, layout, hmembers, hexpandable]
    | enum =>
        rcases variants_eq hdesc hkind with ⟨hbitmask, hflagList⟩
        have hentries := entries_eq hdesc (Or.inl hkind)
        rw [hkind] at hkinds
        simp only [compileType, hkind, ← hkinds, TypeDef.enumType_congr hentries, hbitmask,
          hflagList]
    | flags =>
        have hentries := entries_eq hdesc (Or.inr hkind)
        rw [hkind] at hkinds
        simp only [compileType, hkind, ← hkinds, TypeDef.flagsType_congr hentries]
    | other kind unknown =>
        rw [hkind] at hkinds
        simp only [compileType, hkind, ← hkinds]

end SameEntries

/-- Places that contain each other, each at a point. The struct of a point ends with a version, and
    what comes in later versions is no part of the format. -/
def places (later : AttributeDef) : Schema where
  types := [
    ("place", declare none [⟨"at", .name "point", .empty⟩,
      ⟨"within", .array (.name "place") true, .empty⟩] []),
    ("point", declare (some .struct)
      [⟨"x", .name "u8", { AttributeOptions.empty with abi := "1.0.0" }⟩,
        { later with options.abi := "2.0.0" }] [])]
  distinct := by
    change [Text.ofString "place", Text.ofString "point"].Nodup
    decide +kernel
  named := by
    change ∀ name ∈ [Text.ofString "place", Text.ofString "point"], isTypeName name = true
    decide +kernel

/-- What the manifest says about places and points. -/
def placesTypes : List ManifestType := [
  ⟨"place", "attrs", .empty, false, none, [
    { ManifestAttr.empty with name := "at", index := 1, type := "point" },
    { ManifestAttr.empty with name := "within", index := 2, type := "array(place, zero)" }],
    none, [], false, false⟩,
  ⟨"point", "struct", .empty, false, none, [], some ⟨1, true, false, some [
    { ManifestField.empty with name := "x", size := 1, type := "u8", abi := "1.0.0" }]⟩,
    [], false, false⟩]

theorem types_describe_places (later : AttributeDef) :
    (places later).describe.sign.types = some placesTypes := rfl

end Schema

end NetlinkSchema
