import NetlinkSchema.Proofs.Conformance

/-!
# Occurrences of fields

Which attributes of a message a field of an attribute set is decoded from. The attributes are taken
apart by their types: a field sees those that have its number and no others, in the order in which
they come. Each of them must be readable, also one whose value is replaced later. What remains of
them is the last value, or the list of all values if the field is repeated.

So the result depends on nothing but these subsequences, one for each field. An attribute that no
field has the number of may be put anywhere, and two attributes of different types may change
places.

## Main definitions

* `Field.Holds`: The value of a field by the attributes that have its number.
* `Schema.Declares`: A field is as it is declared.

## Theorems

* `Payload.exists_decode_attrs_iff`: A set is decoded if each field can be read from its attributes.
* `Payload.mem_of_decode_attrs`: The entries of the object, field by field.
* `Payload.decode_attrs_of_same`: Only the attributes of each field matter.
* `Schema.attrs_decoded_by_type`: All this of the attribute sets of an accepted schema.
-/

namespace NetlinkSchema

namespace Attribute

/-- What a field reads of an attribute. -/
def content (a : Attribute) : Bool × Bytes := (a.netByteOrder, a.payload)

end Attribute

namespace Field

variable {sets : AttrSets} {f : Field}

/-- The value of a field that has the given attributes: the list of what all of them are decoded to
    if the field is repeated, and what the last one is decoded to if not. -/
def Holds (sets : AttrSets) (f : Field) (as : List Attribute) (v : Value) : Prop :=
  if f.repeated then ∃ vs, v = .list vs ∧ List.Forall₂ (f.Reads sets) as vs
  else ∃ a, as.getLast? = some a ∧ f.Reads sets a v

theorem Reads.of_content {a b : Attribute} {v : Value} (h : f.Reads sets a v)
    (hab : a.content = b.content) : f.Reads sets b v := by
  rcases Prod.mk.inj hab with ⟨hflag, hpayload⟩
  rw [Reads, ← hflag, ← hpayload]
  exact h

/-- Attributes with the same content are read to the same values. -/
theorem values_unique {as bs : List Attribute} {vs ws : List Value}
    (hvs : List.Forall₂ (f.Reads sets) as vs) (hws : List.Forall₂ (f.Reads sets) bs ws)
    (h : as.map Attribute.content = bs.map Attribute.content) : vs = ws := by
  induction hvs generalizing bs ws with
  | nil =>
      cases hws with
      | nil => rfl
      | cons _ _ => cases h
  | cons hv _ ih =>
      cases hws with
      | nil => cases h
      | cons hw hws =>
          rcases List.cons.inj h with ⟨hcontent, hrest⟩
          rw [ih hws hrest, Except.ok.inj ((hv.of_content hcontent).2.symm.trans hw.2)]

/-- What is collected of values is held by the attributes that they were read from. -/
theorem holds_of_collected {as : List Attribute} {vs : List Value} {v : Value}
    (h : List.Forall₂ (f.Reads sets) as vs) (hv : f.collected vs = some v) :
    f.Holds sets as v := by
  unfold Holds
  by_cases hrep : f.repeated = true
  · rw [if_pos hrep]
    have hne : vs ≠ [] := by
      rintro rfl
      rw [collected_nil] at hv
      cases hv
    rw [collected_repeated hrep hne] at hv
    exact ⟨vs, (Option.some.inj hv).symm, h⟩
  · rw [if_neg hrep]
    rw [collected, if_neg hrep] at hv
    -- The last value belongs to the last attribute.
    rcases List.getLast?_eq_some_iff.1 hv with ⟨init, rfl⟩
    have hlast := List.forall₂_reverse_iff.2 h
    rw [List.reverse_concat] at hlast
    rcases List.forall₂_cons_right_iff.1 hlast with ⟨a, before, ha, -, has⟩
    exact ⟨a, by rw [List.getLast?_eq_head?_reverse, has, List.head?_cons], ha⟩

theorem collected_eq_none_iff {vs : List Value} : f.collected vs = none ↔ vs = [] := by
  constructor
  · intro h
    by_contra hne
    by_cases hrep : f.repeated = true
    · rw [collected_repeated hrep hne] at h
      cases h
    · rw [collected, if_neg hrep] at h
      exact hne (List.getLast?_eq_none_iff.1 h)
  · rintro rfl
    exact collected_nil f

end Field

namespace Payload

variable {sets : AttrSets} {name : Text}

theorem fieldOf?_eq_some_iff (hindices : ((sets.fields name).map Field.index).Nodup)
    {type : UInt16} {f : Field} :
    fieldOf? sets name type = some f ↔ f ∈ sets.fields name ∧ f.index = type := by
  constructor
  · exact fun h => ⟨List.mem_of_find?_eq_some h, by simpa using List.find?_some h⟩
  · rintro ⟨hf, rfl⟩
    exact find?_key hindices hf

/-- An attribute can be read if the field with its number takes a value from it, or if there is no
    such field. -/
theorem exists_readField_iff (hindices : ((sets.fields name).map Field.index).Nodup)
    {a : Attribute} : (∃ x, readField sets name a = .ok x) ↔
      ∀ f ∈ sets.fields name, a.type = f.index → ∃ v, f.Reads sets a v := by
  constructor
  · rintro ⟨x, hx⟩ f hf htype
    have hfield := (fieldOf?_eq_some_iff hindices).2 ⟨hf, htype.symm⟩
    cases x with
    | none =>
        rw [fieldOf?_of_readField hx] at hfield
        cases hfield
    | some p =>
        rcases readField_eq_some_iff.1 hx with ⟨hfield', hreads⟩
        obtain rfl : p.1 = f := Option.some.inj (hfield'.symm.trans hfield)
        exact ⟨p.2, hreads⟩
  · intro h
    cases hfield : fieldOf? sets name a.type with
    | none => exact ⟨none, by rw [readField, hfield]⟩
    | some f =>
        rcases (fieldOf?_eq_some_iff hindices).1 hfield with ⟨hf, hindex⟩
        rcases h f hf hindex.symm with ⟨v, hreads⟩
        exact ⟨some (f, v), readField_eq_some_iff.2 ⟨hfield, hreads⟩⟩

section Decoding

variable (hnames : ((sets.fields name).map Field.name).Nodup)
  (hindices : ((sets.fields name).map Field.index).Nodup)
  {buf : Bytes} {as : List Attribute} (hwalk : Attribute.walk buf = (as, none))

include hindices hwalk in
/-- A set is decoded if each field can be read from all attributes with its number. -/
theorem exists_decode_attrs_iff : (∃ obj, (attrs name).decode sets buf = .ok (.object obj)) ↔
    ∀ f ∈ sets.fields name, ∀ a ∈ Attribute.ofType as f.index, ∃ v, f.Reads sets a v := by
  have hall : (∃ os, as.mapM (readField sets name) = .ok os) ↔
      ∀ a ∈ as, ∃ x, readField sets name a = .ok x := by
    constructor
    · rintro ⟨os, hos⟩ a ha
      rcases forall₂_left (mapM_eq_ok_iff.1 hos) ha with ⟨x, -, hx⟩
      exact ⟨x, hx⟩
    · intro h
      rcases exists_forall₂ h with ⟨os, hos⟩
      exact ⟨os, mapM_eq_ok_iff.2 hos⟩
  calc (∃ obj, (attrs name).decode sets buf = .ok (.object obj))
      ↔ ∃ os, as.mapM (readField sets name) = .ok os := by
        simp only [decode_attrs, hwalk, true_and, Value.object.injEq]
        exact ⟨fun ⟨_, os, hos, _⟩ => ⟨os, hos⟩, fun ⟨os, hos⟩ => ⟨_, os, hos, rfl⟩⟩
    _ ↔ ∀ a ∈ as, ∀ f ∈ sets.fields name, a.type = f.index → ∃ v, f.Reads sets a v := by
        simp only [hall, exists_readField_iff hindices]
    _ ↔ _ := by
        simp only [Attribute.mem_ofType]
        exact ⟨fun h f hf a ha => h a ha.1 f hf ha.2, fun h a ha f hf htype => h f hf a ⟨ha, htype⟩⟩

include hnames hindices hwalk in
/-- The object has its keys in order, they are names of fields, and the value of each field is
    collected from the values of the attributes with its number. -/
theorem collected_of_decode_attrs {obj : Object}
    (hdec : (attrs name).decode sets buf = .ok (.object obj)) :
    obj.Ordered ∧ (∀ e ∈ obj, ∃ f ∈ sets.fields name, f.name = e.1) ∧
      ∀ f ∈ sets.fields name, ∃ vs,
        List.Forall₂ (f.Reads sets) (Attribute.ofType as f.index) vs ∧
          Object.value? obj f.name = f.collected vs := by
  rcases (decode_attrs sets).1 hdec with ⟨-, os, hos, heq⟩
  obtain rfl : obj = Field.storeAll (os.filterMap id) := Value.object.inj heq
  rw [hwalk] at hos
  have hread := mapM_eq_ok_iff.1 hos
  refine ⟨Field.ordered_storeAll _, fun e he => ?_, fun f hf => ?_⟩
  · rcases Field.name_of_mem_storeAll he with ⟨o, ho, hname⟩
    exact ⟨o.1, (Schema.occurrence_of_mem hread ho).1, hname⟩
  · exact ⟨_, Field.reads_valuesOf hnames hindices hf hread,
      Field.value?_storeAll hnames (fun o ho => (Schema.occurrence_of_mem hread ho).1) hf⟩

include hnames hindices hwalk in
/-- The keys of the object are the names of the fields that occur, and the values are held by the
    attributes of the fields. -/
theorem mem_of_decode_attrs {obj : Object}
    (hdec : (attrs name).decode sets buf = .ok (.object obj)) :
    (obj.map Prod.fst).Nodup ∧
      (∀ key, key ∈ obj.map Prod.fst ↔
        ∃ f ∈ sets.fields name, f.name = key ∧ Attribute.ofType as f.index ≠ []) ∧
      ∀ f ∈ sets.fields name, ∀ v, (f.name, v) ∈ obj →
        f.Holds sets (Attribute.ofType as f.index) v := by
  rcases collected_of_decode_attrs hnames hindices hwalk hdec with ⟨hordered, hdeclared, hvalue⟩
  refine ⟨hordered.keys_nodup, fun key => ⟨fun hkey => ?_, ?_⟩, fun f hf v hmem => ?_⟩
  · rcases List.mem_map.1 hkey with ⟨e, he, rfl⟩
    rcases hdeclared e he with ⟨f, hf, hname⟩
    rcases hvalue f hf with ⟨vs, hreads, hvs⟩
    rw [hname, (Object.mem_iff_value? hordered _ _).1 he] at hvs
    refine ⟨f, hf, hname, fun hnone => ?_⟩
    rw [hnone, List.forall₂_nil_left_iff] at hreads
    rw [hreads, Field.collected_nil] at hvs
    cases hvs
  · rintro ⟨f, hf, rfl, hoccurs⟩
    rcases hvalue f hf with ⟨vs, hreads, hvs⟩
    cases hcollected : f.collected vs with
    | none =>
        rw [Field.collected_eq_none_iff.1 hcollected, List.forall₂_nil_right_iff] at hreads
        exact absurd hreads hoccurs
    | some v =>
        rw [hcollected] at hvs
        exact List.mem_map_of_mem ((Object.mem_iff_value? hordered _ _).2 hvs)
  · rcases hvalue f hf with ⟨vs, hreads, hvs⟩
    rw [(Object.mem_iff_value? hordered _ _).1 hmem] at hvs
    exact Field.holds_of_collected hreads hvs.symm

include hnames hindices hwalk in
/-- A message in which each field has attributes with the same content, in the same order, is
    decoded to the same object. -/
theorem decode_attrs_of_same {buf' : Bytes} {as' : List Attribute}
    (hwalk' : Attribute.walk buf' = (as', none))
    (hsame : ∀ f ∈ sets.fields name, (Attribute.ofType as f.index).map Attribute.content
      = (Attribute.ofType as' f.index).map Attribute.content)
    {obj : Object} (hdec : (attrs name).decode sets buf = .ok (.object obj)) :
    (attrs name).decode sets buf' = .ok (.object obj) := by
  have hreadable : ∀ f ∈ sets.fields name, ∀ a ∈ Attribute.ofType as' f.index,
      ∃ v, f.Reads sets a v := by
    intro f hf a ha
    have hmem : a.content ∈ (Attribute.ofType as f.index).map Attribute.content := by
      rw [hsame f hf]
      exact List.mem_map_of_mem ha
    rcases List.mem_map.1 hmem with ⟨b, hb, hcontent⟩
    rcases (exists_decode_attrs_iff hindices hwalk).1 ⟨obj, hdec⟩ f hf b hb with ⟨v, hv⟩
    exact ⟨v, hv.of_content hcontent⟩
  rcases (exists_decode_attrs_iff hindices hwalk').2 hreadable with ⟨obj', hdec'⟩
  rcases collected_of_decode_attrs hnames hindices hwalk hdec with ⟨hordered, hdeclared, hvalue⟩
  rcases collected_of_decode_attrs hnames hindices hwalk' hdec' with
    ⟨hordered', hdeclared', hvalue'⟩
  have hfield : ∀ f ∈ sets.fields name,
      Object.value? obj f.name = Object.value? obj' f.name := by
    intro f hf
    rcases hvalue f hf with ⟨vs, hreads, hvs⟩
    rcases hvalue' f hf with ⟨vs', hreads', hvs'⟩
    rw [hvs, hvs', Field.values_unique hreads hreads' (hsame f hf)]
  have heq : obj = obj' := by
    refine Object.eq_of_value?_eq hordered hordered' fun key => ?_
    by_cases hkey : ∃ f ∈ sets.fields name, f.name = key
    · rcases hkey with ⟨f, hf, rfl⟩
      exact hfield f hf
    · -- A key that no field is named is in neither object.
      have habsent : ∀ {x : Object}, x.Ordered →
          (∀ e ∈ x, ∃ f ∈ sets.fields name, f.name = e.1) → Object.value? x key = none := by
        intro x hx hnamed
        cases hv : Object.value? x key with
        | none => rfl
        | some v => exact absurd (hnamed _ ((Object.mem_iff_value? hx key v).2 hv)) hkey
      rw [habsent hordered hdeclared, habsent hordered' hdeclared']
  rw [heq]
  exact hdec'

end Decoding

end Payload

namespace Schema

variable {s : Schema} {name : Text} {d : TypeDef}

/-- A field of an attribute set is as it is declared, given with its number. -/
structure Declares (s : Schema) (x : Nat × AttributeDef) (f : Field) : Prop where
  index : f.index.toNat = x.1
  name : f.name = x.2.name
  repeated : f.repeated = x.2.options.repeated
  payload : (s.payload x.2.options x.2.type).result? = some f.payload

theorem forall₂_filterMap {α β : Type} {R : α → β → Prop} {g : α → Option β} {xs : List α}
    (h : ∀ x ∈ xs, ∃ y, g x = some y ∧ R x y) : List.Forall₂ R xs (xs.filterMap g) := by
  induction xs with
  | nil => exact .nil
  | cons x xs ih =>
      rcases h x List.mem_cons_self with ⟨y, hy, hxy⟩
      rw [List.filterMap_cons_some hy]
      exact .cons hxy (ih fun z hz => h z (List.mem_cons_of_mem _ hz))

/-- An attribute set of an accepted schema has all fields that are declared, and no others. -/
theorem Accepted.declares_fields (h : s.Accepted) (ht : (name, d) ∈ s.types)
    (hkind : d.effectiveKind = .attrs) :
    List.Forall₂ s.Declares (numbered d) (s.bundle.attrSets.fields name) := by
  have hfound := h.typed _ ht
  simp only [typeFindings, hkind] at hfound
  rcases errors_attrsFindings.1 hfound with ⟨hresolved, hroom⟩
  rw [usable_eq_numbered hroom] at hresolved
  rw [attrSets_fields ht hkind, attrSet, usable_eq_numbered hroom]
  refine forall₂_filterMap fun x hx => ?_
  rcases hresolved x hx with ⟨p, hp⟩
  have hle := hroom x hx
  unfold Attribute.typeMask at hle
  refine ⟨_, Option.map_eq_some_iff.2 ⟨p, hp, rfl⟩, ?_, rfl, rfl, hp⟩
  rw [UInt16.toNat_ofNat', Nat.mod_eq_of_lt (by omega)]

/-- An attribute set of an accepted schema is decoded by the types of the attributes. The fields
    are the declared ones. Decoding succeeds if each field can be read from each attribute with its
    number. The object then has the names of the fields that occur as its keys, with the value of
    the last attribute, or the list of the values of all attributes if the field is repeated. A
    message in which each field has the same attributes, in the same order, is decoded to the
    same. -/
theorem attrs_decoded_by_type {o : CompileOptions} {compiled : Compiled}
    (hcompile : (s.compile o).output = some compiled) {sets : AttrSets}
    (hcodec : compiled.bundle.codec? name = some (.attrs sets name)) {buf : Bytes}
    {as : List Attribute} (hwalk : Attribute.walk buf = (as, none)) :
    (∃ d, (name, d) ∈ s.types ∧ List.Forall₂ s.Declares (numbered d) (sets.fields name)) ∧
    ((∃ obj, (Codec.attrs sets name).decode buf = .ok obj) ↔
      ∀ f ∈ sets.fields name, ∀ a ∈ Attribute.ofType as f.index, ∃ v, f.Reads sets a v) ∧
    (∀ obj, (Codec.attrs sets name).decode buf = .ok obj →
      (obj.map Prod.fst).Nodup ∧
      (∀ key, key ∈ obj.map Prod.fst ↔
        ∃ f ∈ sets.fields name, f.name = key ∧ Attribute.ofType as f.index ≠ []) ∧
      ∀ f ∈ sets.fields name, ∀ v, (f.name, v) ∈ obj →
        f.Holds sets (Attribute.ofType as f.index) v) ∧
    ∀ buf' as', Attribute.walk buf' = (as', none) →
      (∀ f ∈ sets.fields name, (Attribute.ofType as f.index).map Attribute.content
        = (Attribute.ofType as' f.index).map Attribute.content) →
      ∀ obj, (Codec.attrs sets name).decode buf = .ok obj ↔
        (Codec.attrs sets name).decode buf' = .ok obj := by
  rcases accepted_of_compile hcompile with ⟨h, hbundle⟩
  rw [hbundle] at hcodec
  rcases codec_cases hcodec with ⟨d, ht, ⟨hkind, hc⟩ | ⟨-, hc⟩⟩
  swap
  · cases hc
  obtain rfl : sets = s.bundle.attrSets := by
    injection hc
  have hnames := attrSets_names h name
  have hindices := attrSets_indices s name
  simp only [Codec.decode_attrs_eq_ok_iff]
  refine ⟨⟨d, ht, h.declares_fields ht hkind⟩, Payload.exists_decode_attrs_iff hindices hwalk,
    fun obj hdec => Payload.mem_of_decode_attrs hnames hindices hwalk hdec,
    fun buf' as' hwalk' hsame obj => ⟨?_, ?_⟩⟩
  · exact Payload.decode_attrs_of_same hnames hindices hwalk hwalk' hsame
  · exact Payload.decode_attrs_of_same hnames hindices hwalk' hwalk fun f hf => (hsame f hf).symm

/-- A node with two labels and two repeated nodes, between which there is an attribute of an
    undeclared type in network byte order. -/
def twig : Bytes :=
  [6, 0, 1, 0, 98, 0, 0, 0, 4, 0, 7, 0, 4, 0, 99, 64, 6, 0, 1, 0, 97, 0, 0, 0,
    12, 0, 7, 0, 6, 0, 1, 0, 99, 0, 0, 0]

/-- The same labels and the same nodes, with the nodes first. -/
def graft : Bytes :=
  [4, 0, 7, 0, 12, 0, 7, 128, 6, 0, 1, 0, 99, 0, 0, 0, 6, 0, 1, 0, 98, 0, 0, 0,
    6, 0, 1, 0, 97, 0, 0, 0]

theorem twig_decoded_by_type : ∃ obj,
    (Codec.attrs tree.bundle.attrSets "node").decode twig = .ok obj ∧
      (Codec.attrs tree.bundle.attrSets "node").decode graft = .ok obj ∧
      (obj.map Prod.fst).Nodup := by
  have hsome : ((Codec.attrs tree.bundle.attrSets "node").decode twig).toOption.isSome = true := by
    decide +kernel
  have hwalk : Attribute.walk twig = ((Attribute.walk twig).1, none) :=
    Prod.ext rfl (by decide +kernel)
  have hwalk' : Attribute.walk graft = ((Attribute.walk graft).1, none) :=
    Prod.ext rfl (by decide +kernel)
  rcases attrs_decoded_by_type tree_compile tree_codec hwalk with ⟨-, -, hentries, hsame⟩
  rcases exists_ok_of_isSome hsome with ⟨obj, hobj⟩
  exact ⟨obj, hobj, (hsame graft _ hwalk' (by decide +kernel) obj).1 hobj, (hentries obj hobj).1⟩

end Schema

end NetlinkSchema
