import NetlinkSchema.Proofs.Acceptance
import NetlinkSchema.Proofs.AttrSet

/-!
# Resolved types are well formed

The codecs of an accepted schema are made of types that the compiler has resolved. Most of what the
round trips rely on has been checked on the way: names are distinct, indices are attribute types,
the numbers of a flag list are attribute types as well. What is left to the author of the schema is
collected in `Schema.Unambiguous`.

## Main definitions

* `Schema.Unambiguous`: Names and sizes that no phase looks at are as they should be.
* `Schema.CountsNonneg`: The part of it that the sizes of structs depend on.
* `TypeDef.Provides`: A derived form has room for the numbers of an enum.
* `MemberType.Checked`: What is left of a part of a struct once it has been resolved.

## Theorems

* `Schema.lowering_wellFormed`, `Schema.memberType_checked`, `Schema.payload_wellFormed`: One for
  each step of the resolution.
* `Schema.partsChecked_membersTo`: All parts of structs are checked.
* `Schema.layout_wellFormed`, `Schema.attrSets_wellFormed`: Structs and attribute sets.
* `Schema.layout_sized`: What holds of structs in every accepted schema without negative counts.
* `Schema.errors_enumFindings`: When the numbers of an enum are without fault.
* `Schema.codec_cases`, `Schema.enum_cases`, `Schema.flags_cases`: What a codec of the bundle was
  compiled from.
-/

namespace NetlinkSchema

theorem Bundle.codec?_eq_some {b : Bundle} {name : Text} {c : Codec} (h : b.codec? name = some c) :
    (∃ set, b.get? name = some (.attrs set) ∧ c = .attrs b.attrSets name) ∨
      ∃ l, b.get? name = some (.struct l) ∧ c = .struct l := by
  unfold codec? at h
  cases hget : b.get? name with
  | none =>
      rw [hget] at h
      cases h
  | some t =>
      rw [hget] at h
      cases t with
      | attrs set => exact Or.inl ⟨set, rfl, (Option.some.inj h).symm⟩
      | struct l => exact Or.inr ⟨l, rfl, (Option.some.inj h).symm⟩
      | enum e => cases h
      | flags f => cases h
      | other kind => cases h

/-- The greatest number that a derived form of an enum has room for. -/
def Variant.greatest : Variant → Int
  | bitmask => 63
  | flagList => 0x3FFF

/-- A derived form has room for the numbers of an enum. -/
def TypeDef.Provides (d : TypeDef) (variant : Variant) : Prop :=
  ∀ v ∈ d.values, 0 ≤ v.value.toInt ∧ v.value.toInt ≤ variant.greatest

/-- The names of a lowered integer are distinct. -/
def Lowering.Distinct : Lowering → Prop
  | none | bitmask _ => True
  | enum e => (e.values.map EnumValue.name).Nodup
  | flags f => (f.flags.map FlagBits.name).Nodup

namespace MemberType

/-- What the compiler sees to in a part of a struct, if no count is negative: sizes are as they are
    counted, names are distinct, and lowered integers are as `L` says. -/
def Checked (L : Lowering → Prop) : MemberType → Prop
  | bytes count => 0 ≤ count.toInt
  | bool => True
  | number _ lower => L lower
  | struct _ members => (members.map Prod.fst).Nodup
  | array count _ => 0 < count.toInt

theorem sized_of_checked {L : Lowering → Prop} {t : MemberType}
    (h : ∀ part : MemberType, part.PartOf t → part.Checked L) : t.Sized := by
  intro part hpart
  have hchecked := h part hpart
  cases part with
  | bytes count => exact hchecked
  | bool => trivial
  | number num lower => trivial
  | struct name members => trivial
  | array count elem => exact hchecked

theorem wellFormed_of_checked {t : MemberType}
    (h : ∀ part : MemberType, part.PartOf t → part.Checked Lowering.WellFormed) :
    t.WellFormed := by
  induction t using inductionOn with
  | bytes count => exact h _ (.refl _)
  | bool => trivial
  | number num lower => exact h _ (.refl _)
  | struct name members ih =>
      refine ⟨h _ (.refl _), membersWellFormed_iff.2 fun m hm => ?_⟩
      exact ih m hm fun part hpart => h part (.member hm hpart)
  | array count elem ih => exact ⟨h _ (.refl _), ih fun part hpart => h part (.element hpart)⟩

end MemberType

namespace Schema

/-- What no phase of the compilation looks at: no flag has the name of the unknown bits, fields of
    the same name in the bitmask or flag list of an enum stand for the same number, and the sizes
    of structs are neither negative nor too great. -/
structure Unambiguous (s : Schema) : Prop where
  flags : ∀ t ∈ s.types, t.2.effectiveKind = .flags → ∀ v ∈ t.2.values, v.name ≠ unknownField
  fields : ∀ t ∈ s.types, t.2.effectiveKind = .enum → ∀ v ∈ t.2.values, ∀ w ∈ t.2.values,
    camelCase v.name = camelCase w.name → v.value = w.value
  counts : ∀ t ∈ s.types, t.2.effectiveKind = .struct → ∀ a ∈ t.2.attrs,
    0 ≤ a.options.count.toInt
  sizes : ∀ t ∈ s.types, t.2.effectiveKind = .struct →
    MemberType.exactMembersSize (s.members t.1) < 2 ^ 63

/-- No member of a struct has a negative count. -/
def CountsNonneg (s : Schema) : Prop :=
  ∀ t ∈ s.types, t.2.effectiveKind = .struct → ∀ a ∈ t.2.attrs, 0 ≤ a.options.count.toInt

instance (s : Schema) : Decidable s.CountsNonneg :=
  inferInstanceAs (Decidable
    (∀ t ∈ s.types, t.2.effectiveKind = .struct → ∀ a ∈ t.2.attrs, 0 ≤ a.options.count.toInt))

variable {s : Schema} {name : Text} {d : TypeDef}

-- What the compiler checks of the names of values.
theorem enumType_distinct (h : s.Accepted) (ht : (name, d) ∈ s.types)
    (hkind : d.effectiveKind = .enum) (n : Text) :
    ((EnumType.ofDef n d).values.map EnumValue.name).Nodup := by
  have hnames := h.value_names ht (Or.inl hkind)
  rw [EnumType.ofDef, List.map_map]
  exact hnames

theorem flagsType_names (n : Text) (d : TypeDef) : (FlagsType.ofDef n d).flags.map FlagBits.name
    = (d.values.filter (·.value != 0)).map ValueDef.name := by
  rw [FlagsType.ofDef, List.map_map]
  rfl

theorem flagsType_distinct (h : s.Accepted) (ht : (name, d) ∈ s.types)
    (hkind : d.effectiveKind = .flags) (n : Text) :
    ((FlagsType.ofDef n d).flags.map FlagBits.name).Nodup := by
  rw [flagsType_names]
  exact (h.value_names ht (Or.inr hkind)).sublist (List.filter_sublist.map _)

theorem enumType_wellFormed (h : s.Accepted) (hu : s.Unambiguous) (ht : (name, d) ∈ s.types)
    (hkind : d.effectiveKind = .enum) (n : Text) : (EnumType.ofDef n d).WellFormed := by
  refine ⟨enumType_distinct h ht hkind n, ?_⟩
  intro v hv w hw hfield
  rcases List.mem_map.1 hv with ⟨v', hv', rfl⟩
  rcases List.mem_map.1 hw with ⟨w', hw', rfl⟩
  exact hu.fields _ ht hkind v' hv' w' hw' hfield

theorem flagsType_wellFormed (h : s.Accepted) (hu : s.Unambiguous) (ht : (name, d) ∈ s.types)
    (hkind : d.effectiveKind = .flags) (n : Text) : (FlagsType.ofDef n d).WellFormed := by
  refine ⟨flagsType_distinct h ht hkind n, ?_⟩
  rw [flagsType_names]
  intro hmem
  rcases List.mem_map.1 hmem with ⟨v, hv, hname⟩
  exact hu.flags _ ht hkind v (List.mem_filter.1 hv).1 hname

/-- The meaning of an integer field is well formed. -/
theorem lowering_wellFormed (h : s.Accepted) (hu : s.Unambiguous) {num : Number}
    {lower : Option LowerType} {l : Lowering} (hl : (s.lowering num lower).result? = some l) :
    l.WellFormed := by
  rcases lowering_cases hl with ⟨-, rfl⟩ | ⟨r, d, -, -, ht, hcases⟩
  · trivial
  rcases hcases with ⟨hkind, -, rfl⟩ | ⟨hkind, -, -, rfl⟩ | ⟨hkind, -, -, rfl⟩
  · exact enumType_wellFormed h hu ht hkind r.name
  · exact enumType_wellFormed h hu ht hkind r.name
  · exact flagsType_wellFormed h hu ht hkind r.name

/-- The names of an integer field are distinct. -/
theorem lowering_distinct (h : s.Accepted) {num : Number} {lower : Option LowerType} {l : Lowering}
    (hl : (s.lowering num lower).result? = some l) : l.Distinct := by
  rcases lowering_cases hl with ⟨-, rfl⟩ | ⟨r, d, -, -, ht, hcases⟩
  · trivial
  rcases hcases with ⟨hkind, -, rfl⟩ | ⟨hkind, -, -, rfl⟩ | ⟨hkind, -, -, rfl⟩
  · exact enumType_distinct h ht hkind r.name
  · trivial
  · exact flagsType_distinct h ht hkind r.name

section Members

variable {L : Lowering → Prop}

/-- The members of every struct have distinct names, and all their parts are checked. -/
def PartsChecked (s : Schema) (L : Lowering → Prop) (members : Text → Members) : Prop :=
  ∀ name d, (name, d) ∈ s.types → d.effectiveKind = .struct →
    ((members name).map Prod.fst).Nodup ∧
      ∀ m ∈ members name, ∀ part : MemberType, part.PartOf m.2 → part.Checked L

theorem elementType_checked
    (hL : ∀ num lower l, (s.lowering num lower).result? = some l → L l)
    {members : Text → Members} (hmembers : s.PartsChecked L members) {o : AttributeOptions}
    {t : MemberType} (ht : (s.elementType members name o).result? = some t) {part : MemberType}
    (hpart : part.PartOf t) : part.Checked L := by
  rcases elementType_cases ht with
    ⟨-, -, rfl⟩ | ⟨num, l, -, hl, rfl⟩ | ⟨d, hd, hkind, -, -, rfl⟩
  · cases hpart
    trivial
  · cases hpart
    exact hL _ _ _ hl
  · rcases hmembers name d hd hkind with ⟨hnodup, hparts⟩
    cases hpart with
    | refl => exact hnodup
    | member hm hpart => exact hparts _ hm part hpart

/-- The parts of a struct member are checked, if those of other structs are. -/
theorem memberType_checked
    (hL : ∀ num lower l, (s.lowering num lower).result? = some l → L l)
    {members : Text → Members} (hmembers : s.PartsChecked L members) {a : AttributeDef}
    (hcount : 0 ≤ a.options.count.toInt) {t : MemberType}
    (ht : (s.memberType members a).result? = some t) {part : MemberType}
    (hpart : part.PartOf t) : part.Checked L := by
  rcases memberType_cases ht with ⟨name, -, ⟨-, -, rfl⟩ | ⟨elem, helem, rfl⟩⟩
  · cases hpart
    exact hcount
  · split at hpart
    · rename_i hpos
      cases hpart with
      | refl => exact Int64.lt_iff_toInt_lt.1 hpos
      | element hpart => exact elementType_checked hL hmembers helem hpart
    · exact elementType_checked hL hmembers helem hpart

-- Members keep the names of the fields they come from.
theorem map_fst_filterMap_sublist {α : Type} (as : List AttributeDef)
    (f : AttributeDef → Option α) :
    ((as.filterMap fun a => (f a).map (a.name, ·)).map Prod.fst).Sublist
      (as.map AttributeDef.name) := by
  induction as with
  | nil => exact List.Sublist.refl _
  | cons a rest ih =>
      cases hf : f a with
      | none =>
          rw [List.filterMap_cons_none (by rw [hf]; rfl)]
          exact ih.cons a.name
      | some x =>
          rw [List.filterMap_cons_some (b := (a.name, x)) (by rw [hf]; rfl)]
          exact ih.cons_cons a.name

theorem membersTo_names (ht : (name, d) ∈ s.types) (depth : Nat) :
    ((s.membersTo depth name).map Prod.fst).Sublist (d.attrs.map AttributeDef.name) := by
  cases depth with
  | zero => exact List.nil_sublist _
  | succ depth =>
      rw [membersTo, mem_types_iff.1 ht]
      exact (map_fst_filterMap_sublist _ _).trans ((knownMembers_sublist d.attrs).map _)

/-- The parts of structs are checked, however deep structs are followed. -/
theorem partsChecked_membersTo (h : s.Accepted) (hcounts : s.CountsNonneg)
    (hL : ∀ num lower l, (s.lowering num lower).result? = some l → L l) (depth : Nat) :
    s.PartsChecked L (s.membersTo depth) := by
  induction depth with
  | zero => exact fun name d _ _ => ⟨List.nodup_nil, fun m hm => absurd hm List.not_mem_nil⟩
  | succ depth ih =>
      intro name d ht hkind
      refine ⟨(h.field_names ht (Or.inr hkind)).1.sublist (membersTo_names ht _), ?_⟩
      intro m hm part hpart
      rw [membersTo, mem_types_iff.1 ht] at hm
      rcases List.mem_filterMap.1 hm with ⟨a, ha, hresult⟩
      rcases Option.map_eq_some_iff.1 hresult with ⟨t, ht', rfl⟩
      have hcount := hcounts _ ht hkind a ((knownMembers_sublist d.attrs).subset ha)
      exact memberType_checked hL ih hcount ht' hpart

/-- No member has the name of the field for the bytes beyond the members. -/
theorem unparsedField_notMem (h : s.Accepted) (ht : (name, d) ∈ s.types)
    (hkind : d.effectiveKind = .struct) :
    unparsedField ∉ (s.layout name d).members.map Prod.fst := by
  intro hmem
  rcases List.mem_map.1 ((membersTo_names ht s.size).subset hmem) with ⟨a, ha, hname⟩
  have hfree := (h.field_names ht (Or.inr hkind)).2 a ha
  rw [hname] at hfree
  cases hfree

/-- The layout of a struct is well formed. -/
theorem layout_wellFormed (h : s.Accepted) (hu : s.Unambiguous) (ht : (name, d) ∈ s.types)
    (hkind : d.effectiveKind = .struct) : (s.layout name d).WellFormed := by
  have hparts := partsChecked_membersTo h hu.counts (fun _ _ _ => lowering_wellFormed h hu) s.size
  rcases hparts name d ht hkind with ⟨hnodup, hmembers⟩
  refine ⟨hnodup, MemberType.membersWellFormed_iff.2 fun m hm => ?_, hu.sizes _ ht hkind,
    unparsedField_notMem h ht hkind⟩
  exact MemberType.wellFormed_of_checked (hmembers m hm)

/-- The parts of a struct of an accepted schema have distinct names. -/
theorem layout_checked (h : s.Accepted) (hcounts : s.CountsNonneg) (ht : (name, d) ∈ s.types)
    (hkind : d.effectiveKind = .struct) :
    ((s.layout name d).members.map Prod.fst).Nodup ∧ ∀ m ∈ (s.layout name d).members,
      ∀ part : MemberType, part.PartOf m.2 → part.Checked Lowering.Distinct :=
  partsChecked_membersTo h hcounts (fun _ _ _ => lowering_distinct h) s.size name d ht hkind

/-- The layout of a struct of an accepted schema is as it is counted. -/
theorem layout_sized (h : s.Accepted) (hcounts : s.CountsNonneg) (ht : (name, d) ∈ s.types)
    (hkind : d.effectiveKind = .struct)
    (hsize : MemberType.exactMembersSize (s.layout name d).members < 2 ^ 63) :
    (s.layout name d).Sized := by
  rcases layout_checked h hcounts ht hkind with ⟨hnodup, hparts⟩
  exact ⟨hnodup, fun m hm => MemberType.sized_of_checked (hparts m hm), hsize,
    unparsedField_notMem h ht hkind⟩

end Members

section Payloads

-- One form of an enum is faulted exactly if it is needed and has no room for the number.
theorem form_eq_nil_iff {needs : List (Text × Variant)} {variant : Variant} {x greatest : Int64}
    {e : CompileError} (hgreatest : greatest.toInt = variant.greatest) :
    (if needs.contains (name, variant) && !(decide (0 ≤ x) && decide (x ≤ greatest))
      then [e] else []) = [] ↔
      ((name, variant) ∈ needs → 0 ≤ x.toInt ∧ x.toInt ≤ variant.greatest) := by
  have hrange : (decide (0 ≤ x) && decide (x ≤ greatest)) = true ↔
      0 ≤ x.toInt ∧ x.toInt ≤ variant.greatest := by
    rw [Bool.and_eq_true, decide_eq_true_eq, decide_eq_true_eq, Int64.le_iff_toInt_le,
      Int64.le_iff_toInt_le, hgreatest]
    rfl
  rw [ite_eq_right_iff, Bool.and_eq_true, List.contains_iff_mem, Bool.not_eq_true',
    ← Bool.not_eq_true, hrange, and_imp]
  simp only [List.cons_ne_nil, imp_false, not_not]

/-- An enum is found without fault if its numbers have room in the forms that are needed. -/
theorem errors_enumFindings {needs : List (Text × Variant)} :
    (enumFindings needs name d).errors = [] ↔
      ∀ variant, (name, variant) ∈ needs → d.Provides variant := by
  have h63 : (63 : Int64).toInt = Variant.bitmask.greatest := rfl
  have hmask : (0x3FFF : Int64).toInt = Variant.flagList.greatest := rfl
  simp only [enumFindings, List.flatMap_eq_nil_iff, List.append_eq_nil_iff, form_eq_nil_iff h63,
    form_eq_nil_iff hmask]
  constructor
  · intro h variant hneeds v hv
    cases variant with
    | bitmask => exact (h v hv).1 hneeds
    | flagList => exact (h v hv).2 hneeds
  · intro h v hv
    exact ⟨fun hneeds => h .bitmask hneeds v hv, fun hneeds => h .flagList hneeds v hv⟩

/-- A form that some field needs has room for the numbers of the enum. -/
theorem provides_of_needs (h : s.Accepted) (ht : (name, d) ∈ s.types)
    (hkind : d.effectiveKind = .enum) {variant : Variant} (hneeds : (name, variant) ∈ s.needs) :
    d.Provides variant :=
  errors_enumFindings.1 (h.enums _ (List.mem_filter.2 ⟨ht, by simpa using hkind⟩)) variant hneeds

theorem attributeTypes_of_provides (h : d.Provides .flagList) (n : Text) :
    (EnumType.ofDef n d).AttributeTypes := by
  intro v hv
  rcases List.mem_map.1 hv with ⟨v', hv', rfl⟩
  exact h v' hv'

theorem bitIndices_of_provides (h : d.Provides .bitmask) (n : Text) :
    (EnumType.ofDef n d).BitIndices := by
  intro v hv
  rcases List.mem_map.1 hv with ⟨v', hv', rfl⟩
  exact h v' hv'

theorem namedPayload_wellFormed (h : s.Accepted) (hu : s.Unambiguous) {o : AttributeOptions}
    {p : Payload} (hp : (s.namedPayload o name).result? = some p) : p.WellFormed := by
  rcases namedPayload_cases hp with
    ⟨num, l, -, hl, rfl⟩ | ⟨-, ⟨-, rfl⟩ | ⟨-, rfl⟩ | ⟨-, rfl⟩ | ⟨-, rfl⟩⟩ |
      ⟨-, d, ht, ⟨hkind, rfl⟩ | ⟨-, rfl⟩⟩
  · exact lowering_wellFormed h hu hl
  · trivial
  · trivial
  · trivial
  · trivial
  · exact layout_wellFormed h hu ht hkind
  · trivial

/-- The payload of an expression is well formed, if what it needs is provided for. -/
theorem payload_wellFormed (h : s.Accepted) (hu : s.Unambiguous) {o : AttributeOptions}
    {e : TypeExpr} {p : Payload} (hp : (s.payload o e).result? = some p)
    (hneeds : ∀ n ∈ p.needs, n ∈ s.needs) : p.WellFormed := by
  induction e generalizing p with
  | name n => exact namedPayload_wellFormed h hu hp
  | array elem zero ih =>
      rcases Check.result?_bind.1 hp with ⟨q, hq, hp⟩
      cases (Check.result?_pure _ _).1 hp
      have helem : q.WellFormed := ih hq hneeds
      exact helem
  | map elem ih =>
      rcases Check.result?_bind.1 hp with ⟨q, hq, hp⟩
      cases (Check.result?_pure _ _).1 hp
      have helem : q.WellFormed := ih hq hneeds
      exact helem
  | flags elem _ =>
      rcases flagListPayload_iff.1 hp with ⟨-, n, d, -, ht, hkind, rfl⟩
      exact ⟨enumType_wellFormed h hu ht hkind n,
        attributeTypes_of_provides (provides_of_needs h ht hkind (hneeds _ List.mem_cons_self)) n⟩
  | other kind => exact namedPayload_wellFormed h hu hp
  | missing => exact namedPayload_wellFormed h hu hp

end Payloads

section AttrSets

/-- A field of an attribute set comes from a declaration and is resolved. -/
theorem mem_attrSet_fields {f : Field} (hf : f ∈ (s.attrSet name d).fields) :
    ∃ x ∈ usable d, (s.attributePayload x.2).result? = some f.payload ∧ f.name = x.2.name ∧
      f.index = UInt16.ofNat x.1 ∧ f.repeated = x.2.options.repeated := by
  rcases List.mem_filterMap.1 hf with ⟨x, hx, hresult⟩
  rcases Option.map_eq_some_iff.1 hresult with ⟨p, hp, rfl⟩
  exact ⟨x, hx, hp, rfl, rfl, rfl⟩

theorem index_le_of_usable {x : Nat × AttributeDef} (hx : x ∈ usable d) : x.1 ≤ 0x3FFF := by
  have h := List.all_eq_true.1 (List.all_takeWhile (l := numbered d)) x hx
  exact of_decide_eq_true h

-- A field keeps its place: what is left out changes neither names nor indices of the others.
theorem map_attrSet_sublist (s : Schema) (name : Text) (d : TypeDef) {α : Type} (g : Field → α)
    (g' : Nat × AttributeDef → α) (hg : ∀ x : Nat × AttributeDef, ∀ p,
      g ⟨x.2.name, UInt16.ofNat x.1, x.2.options.repeated, p⟩ = g' x) :
    ((s.attrSet name d).fields.map g).Sublist ((usable d).map g') := by
  rw [attrSet]
  induction usable d with
  | nil => exact List.Sublist.refl _
  | cons x rest ih =>
      cases hp : (s.attributePayload x.2).result? with
      | none =>
          rw [List.filterMap_cons_none (by simp only [hp, Option.map_none])]
          exact ih.cons _
      | some p =>
          rw [List.filterMap_cons_some (b := ⟨x.2.name, UInt16.ofNat x.1, x.2.options.repeated, p⟩)
            (by simp only [hp, Option.map_some]), List.map_cons, List.map_cons, hg]
          exact ih.cons_cons _

theorem map_snd_numbered (d : TypeDef) : (numbered d).map Prod.snd = d.attrs := by
  rw [numbered, List.map_snd_zip (by simp)]

theorem mem_attrs_of_usable {x : Nat × AttributeDef} (hx : x ∈ usable d) : x.2 ∈ d.attrs := by
  rw [← map_snd_numbered d]
  exact List.mem_map_of_mem ((List.takeWhile_sublist _).subset hx)

theorem map_fst_numbered_nodup (d : TypeDef) : ((numbered d).map Prod.fst).Nodup := by
  rw [numbered, List.map_fst_zip (by simp)]
  exact List.nodup_range'

theorem attrSet_names (h : s.Accepted) (ht : (name, d) ∈ s.types)
    (hkind : d.effectiveKind = .attrs) : ((s.attrSet name d).fields.map Field.name).Nodup := by
  have hsub := map_attrSet_sublist s name d Field.name
    (fun x => x.2.name) fun _ _ => rfl
  have hall : ((numbered d).map fun x => x.2.name) = d.attrs.map AttributeDef.name := by
    rw [← map_snd_numbered d, List.map_map]
    rfl
  have husable : ((usable d).map fun x => x.2.name).Sublist ((numbered d).map fun x => x.2.name) :=
    (List.takeWhile_sublist _).map _
  rw [hall] at husable
  exact (h.field_names ht (Or.inl hkind)).1.sublist (hsub.trans husable)

theorem attrSet_indices (s : Schema) (name : Text) (d : TypeDef) :
    ((s.attrSet name d).fields.map Field.index).Nodup := by
  have hsub := map_attrSet_sublist s name d Field.index
    (fun x => UInt16.ofNat x.1) fun _ _ => rfl
  refine List.Nodup.sublist hsub ?_
  have hnodup : ((usable d).map Prod.fst).Nodup :=
    (map_fst_numbered_nodup d).sublist ((List.takeWhile_sublist _).map _)
  rw [show (fun x : Nat × AttributeDef => UInt16.ofNat x.1) = UInt16.ofNat ∘ Prod.fst from rfl,
    ← List.map_map]
  -- Attribute types are small enough that the numbers stay different.
  refine List.Nodup.map_on (fun i hi j hj hij => ?_) hnodup
  rcases List.mem_map.1 hi with ⟨x, hx, rfl⟩
  rcases List.mem_map.1 hj with ⟨y, hy, rfl⟩
  have hxle := index_le_of_usable hx
  have hyle := index_le_of_usable hy
  have hnat := congrArg UInt16.toNat hij
  rw [UInt16.toNat_ofNat', UInt16.toNat_ofNat'] at hnat
  omega

theorem mem_attrSets {set : AttrSet} : set ∈ s.bundle.attrSets ↔
    ∃ name d, (name, d) ∈ s.types ∧ d.effectiveKind = .attrs ∧ set = s.attrSet name d := by
  rw [Bundle.attrSets, bundle, List.mem_filterMap]
  constructor
  · rintro ⟨t, ht, hset⟩
    rcases List.mem_map.1 ht with ⟨⟨n, d⟩, hmem, rfl⟩
    refine ⟨n, d, hmem, ?_⟩
    simp only [compileType] at hset
    split at hset
    · rename_i hkind
      exact ⟨hkind, (Option.some.inj hset).symm⟩
    · cases hset
    · cases hset
    · cases hset
    · cases hset
  · rintro ⟨n, d, hmem, hkind, rfl⟩
    refine ⟨_, List.mem_map_of_mem hmem, ?_⟩
    simp only [compileType, hkind]
    rfl

/-- The fields of a name are those of the attribute set of that name, and there are none if it is
    no attribute set. -/
theorem fields_attrSets (s : Schema) (name : Text) :
    (∃ d, (name, d) ∈ s.types ∧ d.effectiveKind = .attrs ∧
      s.bundle.attrSets.fields name = (s.attrSet name d).fields) ∨
    (s.kind? name ≠ some .attrs ∧ s.bundle.attrSets.fields name = []) := by
  rw [AttrSets.fields]
  cases hfind : s.bundle.attrSets.find? (·.name == name) with
  | some set =>
      left
      have hname : set.name = name := by simpa using List.find?_some hfind
      rcases mem_attrSets.1 (List.mem_of_find?_eq_some hfind) with ⟨n, d, ht, hkind, rfl⟩
      cases hname
      exact ⟨d, ht, hkind, rfl⟩
  | none =>
      right
      refine ⟨fun hk => ?_, rfl⟩
      rcases Option.map_eq_some_iff.1 hk with ⟨d, hget, hkind⟩
      have hmem := mem_attrSets.2 ⟨name, d, mem_types_iff.2 hget, hkind, rfl⟩
      have := List.find?_eq_none.1 hfind _ hmem
      simp [attrSet] at this

/-- What a field of an attribute set needs, the schema needs. -/
theorem needs_of_field (ht : (name, d) ∈ s.types) (hkind : d.effectiveKind = .attrs) {f : Field}
    (hf : f ∈ (s.attrSet name d).fields) : ∀ n ∈ f.payload.needs, n ∈ s.needs := by
  intro n hn
  refine List.mem_flatMap.2 ⟨(name, d), ht, ?_⟩
  rw [needsOf]
  simp only [hkind]
  exact List.mem_flatMap.2 ⟨f, hf, hn⟩

theorem attrSets_names (h : s.Accepted) (name : Text) :
    ((s.bundle.attrSets.fields name).map Field.name).Nodup := by
  rcases s.fields_attrSets name with ⟨d, ht, hkind, heq⟩ | ⟨-, heq⟩
  · rw [heq]
    exact attrSet_names h ht hkind
  · rw [heq]
    exact List.nodup_nil

theorem attrSets_indices (s : Schema) (name : Text) :
    ((s.bundle.attrSets.fields name).map Field.index).Nodup := by
  rcases s.fields_attrSets name with ⟨d, -, -, heq⟩ | ⟨-, heq⟩
  · rw [heq]
    exact attrSet_indices s name d
  · rw [heq]
    exact List.nodup_nil

/-- The attribute sets of a schema are well formed. -/
theorem attrSets_wellFormed (h : s.Accepted) (hu : s.Unambiguous) :
    s.bundle.attrSets.WellFormed := by
  refine ⟨attrSets_names h, attrSets_indices s, ?_, ?_⟩
  · intro name f hf
    rcases s.fields_attrSets name with ⟨d, -, -, heq⟩ | ⟨-, heq⟩
    · rw [heq] at hf
      rcases mem_attrSet_fields hf with ⟨x, hx, -, -, hindex, -⟩
      have hle := index_le_of_usable hx
      rw [hindex, UInt16.toNat_ofNat']
      omega
    · rw [heq] at hf
      cases hf
  · intro name f hf
    rcases s.fields_attrSets name with ⟨d, ht, hkind, heq⟩ | ⟨-, heq⟩
    · rw [heq] at hf
      rcases mem_attrSet_fields hf with ⟨x, -, hresult, -⟩
      rcases Check.result?_bind.1 hresult with ⟨-, -, hresult⟩
      exact payload_wellFormed h hu hresult (needs_of_field ht hkind hf)
    · rw [heq] at hf
      cases hf

end AttrSets

section Lookup

theorem bundle_get? (s : Schema) (name : Text) :
    s.bundle.get? name = (s.get? name).map (s.compileType s.needs name) := by
  rw [Bundle.get?, bundle, get?, List.find?_map]
  change ((s.types.find? (·.1 == name)).map _).map _ = ((s.types.find? (·.1 == name)).map _).map _
  cases hfind : s.types.find? (·.1 == name) with
  | none => rfl
  | some t =>
      have hname : t.1 = name := by simpa using List.find?_some hfind
      simp only [Option.map_some, hname]

theorem codec?_attrs (ht : (name, d) ∈ s.types) (hkind : d.effectiveKind = .attrs) :
    s.bundle.codec? name = some (.attrs s.bundle.attrSets name) := by
  rw [Bundle.codec?, bundle_get?, mem_types_iff.1 ht, Option.map_some, compileType]
  simp only [hkind]

theorem codec?_struct (ht : (name, d) ∈ s.types) (hkind : d.effectiveKind = .struct) :
    s.bundle.codec? name = some (.struct (s.layout name d)) := by
  rw [Bundle.codec?, bundle_get?, mem_types_iff.1 ht, Option.map_some, compileType]
  simp only [hkind]

theorem enum?_bundle (ht : (name, d) ∈ s.types) (hkind : d.effectiveKind = .enum) :
    s.bundle.enum? name = some ⟨EnumType.ofDef name d, s.needs.contains (name, .bitmask),
      s.needs.contains (name, .flagList)⟩ := by
  rw [Bundle.enum?, bundle_get?, mem_types_iff.1 ht, Option.map_some, compileType]
  simp only [hkind]

theorem flags?_bundle (ht : (name, d) ∈ s.types) (hkind : d.effectiveKind = .flags) :
    s.bundle.flags? name = some (FlagsType.ofDef name d) := by
  rw [Bundle.flags?, bundle_get?, mem_types_iff.1 ht, Option.map_some, compileType]
  simp only [hkind]

-- A compiled type tells what its declaration was, since kinds are compiled to different things.
theorem get?_eq_attrs {set : AttrSet} (h : s.bundle.get? name = some (.attrs set)) :
    ∃ d, (name, d) ∈ s.types ∧ d.effectiveKind = .attrs ∧ set = s.attrSet name d := by
  rw [bundle_get?] at h
  rcases Option.map_eq_some_iff.1 h with ⟨d, hget, hd⟩
  refine ⟨d, mem_types_iff.2 hget, ?_⟩
  unfold compileType at hd
  split at hd
  · rename_i hkind
    cases hd
    exact ⟨hkind, rfl⟩
  all_goals cases hd

theorem get?_eq_struct {l : Layout} (h : s.bundle.get? name = some (.struct l)) :
    ∃ d, (name, d) ∈ s.types ∧ d.effectiveKind = .struct ∧ l = s.layout name d := by
  rw [bundle_get?] at h
  rcases Option.map_eq_some_iff.1 h with ⟨d, hget, hd⟩
  refine ⟨d, mem_types_iff.2 hget, ?_⟩
  unfold compileType at hd
  split at hd
  · cases hd
  · rename_i hkind
    cases hd
    exact ⟨hkind, rfl⟩
  all_goals cases hd

theorem enum_cases {e : EnumCodec} (h : s.bundle.enum? name = some e) :
    ∃ d, (name, d) ∈ s.types ∧ d.effectiveKind = .enum ∧ e = ⟨EnumType.ofDef name d,
      s.needs.contains (name, .bitmask), s.needs.contains (name, .flagList)⟩ := by
  rw [Bundle.enum?, bundle_get?] at h
  cases hget : s.get? name with
  | none =>
      rw [hget] at h
      cases h
  | some d =>
      rw [hget, Option.map_some, compileType] at h
      cases hkind : d.effectiveKind with
      | enum =>
          simp only [hkind] at h
          exact ⟨d, mem_types_iff.2 hget, hkind, (Option.some.inj h).symm⟩
      | _ =>
          simp only [hkind] at h
          cases h

theorem flags_cases {f : FlagsType} (h : s.bundle.flags? name = some f) :
    ∃ d, (name, d) ∈ s.types ∧ d.effectiveKind = .flags ∧ f = FlagsType.ofDef name d := by
  rw [Bundle.flags?, bundle_get?] at h
  cases hget : s.get? name with
  | none =>
      rw [hget] at h
      cases h
  | some d =>
      rw [hget, Option.map_some, compileType] at h
      cases hkind : d.effectiveKind with
      | flags =>
          simp only [hkind] at h
          exact ⟨d, mem_types_iff.2 hget, hkind, (Option.some.inj h).symm⟩
      | _ =>
          simp only [hkind] at h
          cases h

/-- A codec is that of an attribute set or of a struct of the schema. -/
theorem codec_cases {c : Codec} (h : s.bundle.codec? name = some c) :
    ∃ d, (name, d) ∈ s.types ∧
      (d.effectiveKind = .attrs ∧ c = .attrs s.bundle.attrSets name ∨
        d.effectiveKind = .struct ∧ c = .struct (s.layout name d)) := by
  rcases Bundle.codec?_eq_some h with ⟨set, hget, rfl⟩ | ⟨l, hget, rfl⟩
  · rcases get?_eq_attrs hget with ⟨d, ht, hkind, -⟩
    exact ⟨d, ht, Or.inl ⟨hkind, rfl⟩⟩
  · rcases get?_eq_struct hget with ⟨d, ht, hkind, rfl⟩
    exact ⟨d, ht, Or.inr ⟨hkind, rfl⟩⟩

/-- The struct of a codec is as it is counted. -/
theorem struct_sized (h : s.Accepted)
    (hcounts : s.CountsNonneg)
    {l : Layout} (hcodec : s.bundle.codec? name = some (.struct l))
    (hsize : MemberType.exactMembersSize l.members < 2 ^ 63) : l.Sized := by
  rcases codec_cases hcodec with ⟨d, ht, ⟨-, hattrs⟩ | ⟨hkind, hstruct⟩⟩
  · cases hattrs
  · cases hstruct
    exact layout_sized h hcounts ht hkind hsize

end Lookup

end Schema

end NetlinkSchema
