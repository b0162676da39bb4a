import NetlinkSchema.Proofs.Payload
import Mathlib.Data.List.Induction

/-!
# Round trips of attribute sets

Decoding stores the occurrences of fields in whatever order they come; encoding goes through the
fields in the order of the declarations. What both have in common is, for each field, the list of
values that occur: all of them if the field is repeated, one or none if not. A `Row` lists these
values for one field, with the payloads they stand for.

A stream that is laid out by rows is decoded to the object of the rows, in which each field has
exactly the values of its row, because names and indices are distinct. Both round trips come down to
finding the rows: from the payloads that were written, or from the values that were read.

## Main definitions

* `AttrSets.WellFormed`: Names and indices of the fields of each set are distinct.
* `Field.collected`, `Field.valuesOf`: The value of a field by its occurrences.
* `Attribute.ofType`: The attributes of one type.
* `Field.Reads`: A field takes a value from an attribute.
* `Row`: A field with its values and their payloads.
* `Row.Read`, `Row.Written`: The values of a row are read from, and written to, their payloads.

## Theorems

* `Field.value?_storeAll`: Each field of an object has the values that occurred.
* `Field.reads_valuesOf`: The values of a field are those of the attributes with its number.
* `Payload.decode_rows`: A stream laid out by rows is decoded to the object of the rows.
* `Payload.matches_of_encode_attrs`, `Payload.survives_attrs`: The two round trips.
-/

namespace NetlinkSchema

namespace AttrSets

/-- The fields of each set have distinct names and indices, their indices are attribute types, and
    their payloads are well formed. -/
structure WellFormed (sets : AttrSets) : Prop where
  names : ∀ name, ((sets.fields name).map Field.name).Nodup
  indices : ∀ name, ((sets.fields name).map Field.index).Nodup
  index_le : ∀ name, ∀ f ∈ sets.fields name, f.index.toNat ≤ 0x3FFF
  payload : ∀ name, ∀ f ∈ sets.fields name, f.payload.WellFormed

end AttrSets

namespace Field

/-- The value of a field that occurred with the given values. -/
def collected (f : Field) (vs : List Value) : Option Value :=
  if f.repeated then if vs.isEmpty then none else some (.list vs)
  else vs.getLast?

@[simp] theorem collected_nil (f : Field) : f.collected [] = none := by
  unfold collected
  split <;> rfl

theorem collected_repeated {f : Field} (hrep : f.repeated = true) {vs : List Value} (h : vs ≠ []) :
    f.collected vs = some (.list vs) := by
  rw [collected, if_pos hrep, if_neg (by simpa using h)]

theorem collected_concat {f : Field} (hrep : f.repeated ≠ true) (vs : List Value) (v : Value) :
    f.collected (vs ++ [v]) = some v := by
  rw [collected, if_neg hrep, List.getLast?_concat]

/-- The values with which a field occurred. -/
def valuesOf (f : Field) (os : List (Field × Value)) : List Value :=
  (os.filter fun o => o.1.name == f.name).map Prod.snd

theorem storeAll_concat (os : List (Field × Value)) (o : Field × Value) :
    storeAll (os ++ [o]) = o.1.store (storeAll os) o.2 := by
  rw [storeAll, List.foldl_append]
  rfl

theorem value?_store_of_ne {f g : Field} (h : g.name ≠ f.name) (obj : Object) (v : Value) :
    Object.value? (g.store obj v) f.name = Object.value? obj f.name := by
  unfold store
  split
  · rw [Object.value?_set, if_neg h]
  · rw [Object.value?_set, if_neg h]

/-- One more occurrence is appended to a repeated field, and replaces the value of another. -/
theorem value?_store_self {f : Field} {obj : Object} {vs : List Value}
    (h : Object.value? obj f.name = f.collected vs) (v : Value) :
    Object.value? (f.store obj v) f.name = f.collected (vs ++ [v]) := by
  unfold store
  by_cases hrep : f.repeated = true
  · rw [if_pos hrep, Object.value?_set, if_pos rfl, collected_repeated hrep (by simp),
      Object.get_eq_value?, h]
    cases vs with
    | nil => rw [collected_nil]; rfl
    | cons x rest => rw [collected_repeated hrep (List.cons_ne_nil x rest)]; rfl
  · rw [if_neg hrep, Object.value?_set, if_pos rfl, collected_concat hrep]

/-- Each field of an object has the values that occurred. -/
theorem value?_storeAll {fields : List Field} (hnames : (fields.map Field.name).Nodup)
    {os : List (Field × Value)} (hos : ∀ o ∈ os, o.1 ∈ fields) {f : Field} (hf : f ∈ fields) :
    Object.value? (storeAll os) f.name = f.collected (f.valuesOf os) := by
  induction os using List.reverseRecOn with
  | nil => exact (collected_nil f).symm
  | append_singleton os o ih =>
      have hprev := ih fun x hx => hos x (List.mem_append_left _ hx)
      have ho : o.1 ∈ fields := hos o (List.mem_append_right _ List.mem_cons_self)
      rw [storeAll_concat, valuesOf, List.filter_append, List.map_append]
      by_cases hname : o.1.name = f.name
      · -- Names are distinct, so the occurrence is one of this field.
        have hfield : o.1 = f := List.inj_on_of_nodup_map hnames ho hf hname
        rw [hfield, value?_store_self hprev, List.filter_cons_of_pos (by simp [hfield]),
          List.filter_nil]
        rfl
      · rw [value?_store_of_ne hname, hprev, List.filter_cons_of_neg (by simpa using hname),
          List.filter_nil, List.map_nil, List.append_nil]
        rfl

theorem ordered_storeAll (os : List (Field × Value)) : Object.Ordered (storeAll os) := by
  induction os using List.reverseRecOn with
  | nil => exact Object.ordered_nil
  | append_singleton os o ih =>
      rw [storeAll_concat, store]
      split
      · exact Object.ordered_set ih _ _
      · exact Object.ordered_set ih _ _

theorem name_of_mem_storeAll {os : List (Field × Value)} {e : Text × Value}
    (h : e ∈ storeAll os) : ∃ o ∈ os, o.1.name = e.1 := by
  induction os using List.reverseRecOn with
  | nil => cases h
  | append_singleton os o ih =>
      have hlast : o ∈ os ++ [o] := List.mem_append_right _ List.mem_cons_self
      have hstep : e.1 = o.1.name ∨ e ∈ storeAll os := by
        rw [storeAll_concat, store] at h
        split at h
        · exact (Object.mem_set h).imp_left fun heq => by rw [heq]
        · exact (Object.mem_set h).imp_left fun heq => by rw [heq]
      rcases hstep with heq | hmem
      · exact ⟨o, hlast, heq.symm⟩
      · rcases ih hmem with ⟨x, hx, hname⟩
        exact ⟨x, List.mem_append_left _ hx, hname⟩

end Field

/-- A field with the values it occurs with, and the payloads they stand for. -/
structure Row where
  field : Field
  content : List (Value × Bytes)

namespace Row

/-- The attributes of a row. -/
def attributes (r : Row) : List (UInt16 × Bytes) := r.content.map fun p => (r.field.index, p.2)

/-- The occurrences of a row. -/
def occurrences (r : Row) : List (Field × Value) := r.content.map fun p => (r.field, p.1)

/-- Each value is what its payload is decoded to, and each payload fits an attribute. -/
def Read (sets : AttrSets) (r : Row) : Prop :=
  ∀ p ∈ r.content, r.field.payload.decode sets p.2 = .ok p.1 ∧
    Writer.accept r.field.index p.2 = .ok (r.field.index, p.2)

/-- Each value is also what its payload is the encoding of, and a field that is not repeated has
    one value at most. -/
structure Written (sets : AttrSets) (r : Row) : Prop where
  pair : ∀ p ∈ r.content, r.field.payload.Matches sets p.1 p.2
  fits : ∀ p ∈ r.content, Writer.accept r.field.index p.2 = .ok (r.field.index, p.2)
  single : r.field.repeated = false → r.content.length ≤ 1

theorem Written.read {sets : AttrSets} {r : Row} (h : r.Written sets) : r.Read sets :=
  fun p hp => ⟨(h.pair p hp).read, h.fits p hp⟩

end Row

namespace Field

theorem valuesOf_append (f : Field) (os os' : List (Field × Value)) :
    f.valuesOf (os ++ os') = f.valuesOf os ++ f.valuesOf os' := by
  rw [valuesOf, List.filter_append, List.map_append]
  rfl

theorem field_of_mem_occurrences {r : Row} {o : Field × Value} (h : o ∈ r.occurrences) :
    o.1 = r.field := by
  rcases List.mem_map.1 h with ⟨p, -, rfl⟩
  rfl

theorem valuesOf_self (r : Row) : r.field.valuesOf r.occurrences = r.content.map Prod.fst := by
  have hall : ∀ o ∈ r.occurrences, (o.1.name == r.field.name) = true := by
    intro o ho
    rw [field_of_mem_occurrences ho, beq_self_eq_true]
  rw [valuesOf, List.filter_eq_self.2 hall, Row.occurrences, List.map_map]
  rfl

theorem valuesOf_eq_nil {f : Field} {os : List (Field × Value)} (h : ∀ o ∈ os, o.1.name ≠ f.name) :
    f.valuesOf os = [] := by
  rw [valuesOf, List.filter_eq_nil_iff.2 (by simpa using h), List.map_nil]

/-- The values of a field are those of its row. -/
theorem valuesOf_rows {rows : List Row} (hnames : (rows.map fun r => r.field.name).Nodup) {r : Row}
    (hr : r ∈ rows) : r.field.valuesOf (rows.flatMap Row.occurrences) = r.content.map Prod.fst := by
  induction rows with
  | nil => cases hr
  | cons first rest ih =>
      rw [List.map_cons, List.nodup_cons] at hnames
      rw [List.flatMap_cons, valuesOf_append]
      rcases List.mem_cons.1 hr with rfl | hr
      · have hrest : r.field.valuesOf (rest.flatMap Row.occurrences) = [] := by
          refine valuesOf_eq_nil fun o ho heq => hnames.1 ?_
          rcases List.mem_flatMap.1 ho with ⟨r', hr', ho'⟩
          exact List.mem_map.2 ⟨r', hr', by rw [← field_of_mem_occurrences ho', heq]⟩
        rw [valuesOf_self, hrest, List.append_nil]
      · have hfirst : r.field.valuesOf first.occurrences = [] := by
          refine valuesOf_eq_nil fun o ho heq => hnames.1 ?_
          exact List.mem_map.2 ⟨r, hr, by rw [← field_of_mem_occurrences ho, heq]⟩
        rw [hfirst, List.nil_append, ih hnames.2 hr]

theorem firstUndeclared?_storeAll {os : List (Field × Value)} {names : List Text}
    (h : ∀ o ∈ os, o.1.name ∈ names) : Nested.firstUndeclared? (storeAll os) names = none := by
  rw [Nested.firstUndeclared?, Option.map_eq_none_iff, List.find?_eq_none]
  intro e he
  rcases name_of_mem_storeAll (mem_sortBy.1 he) with ⟨o, ho, hname⟩
  have hdeclared : e.1 ∈ names := hname ▸ h o ho
  simp [hdeclared]

end Field

namespace Payload

variable {sets : AttrSets} {name : Text}

theorem readField_eq_some_iff {a : Attribute} {f : Field} {v : Value} :
    readField sets name a = .ok (some (f, v)) ↔ fieldOf? sets name a.type = some f ∧
      a.netByteOrder = false ∧ f.payload.decode sets a.payload = .ok v := by
  unfold readField
  cases fieldOf? sets name a.type with
  | none => simp
  | some g =>
      cases a.netByteOrder with
      | true => simp
      | false =>
          simp only [Bool.false_eq_true, if_false, map_eq_ok_iff, mapError_eq_ok_iff,
            Option.some.injEq, Prod.mk.injEq, true_and]
          constructor
          · rintro ⟨x, hdec, rfl, rfl⟩
            exact ⟨rfl, hdec⟩
          · rintro ⟨rfl, hdec⟩
            exact ⟨v, hdec, rfl, rfl⟩

theorem fieldOf?_of_readField {a : Attribute} (h : readField sets name a = .ok none) :
    fieldOf? sets name a.type = none := by
  unfold readField at h
  cases hfield : fieldOf? sets name a.type with
  | none => rfl
  | some f =>
      rw [hfield] at h
      simp only at h
      split at h
      · cases h
      · rcases map_eq_ok_iff.1 h with ⟨v, -, hv⟩
        cases hv

end Payload

namespace Attribute

/-- The attributes of one type, in their order. -/
def ofType (as : List Attribute) (type : UInt16) : List Attribute := as.filter (·.type == type)

theorem mem_ofType {as : List Attribute} {type : UInt16} {a : Attribute} :
    a ∈ ofType as type ↔ a ∈ as ∧ a.type = type := by
  rw [ofType, List.mem_filter, beq_iff_eq]

end Attribute

namespace Field

variable {sets : AttrSets} {f : Field}

/-- A field takes a value from an attribute: the byte order is the usual one, and the payload is
    decoded to the value. -/
def Reads (sets : AttrSets) (f : Field) (a : Attribute) (v : Value) : Prop :=
  a.netByteOrder = false ∧ f.payload.decode sets a.payload = .ok v

/-- The values of a field are those of the attributes with its number, in their order. -/
theorem reads_valuesOf {name : Text} (hnames : ((sets.fields name).map Field.name).Nodup)
    (hindices : ((sets.fields name).map Field.index).Nodup) (hf : f ∈ sets.fields name)
    {as : List Attribute} {os : List (Option (Field × Value))}
    (hread : List.Forall₂ (fun a x => Payload.readField sets name a = .ok x) as os) :
    List.Forall₂ (f.Reads sets) (Attribute.ofType as f.index) (f.valuesOf (os.filterMap id)) := by
  induction hread with
  | nil => exact .nil
  | @cons a x as os ha _ ih =>
      cases x with
      | none =>
          have hnone := List.find?_eq_none.1 (Payload.fieldOf?_of_readField ha) f hf
          have hne : a.type ≠ f.index := fun heq => hnone (by rw [heq, beq_self_eq_true])
          rw [Attribute.ofType, List.filter_cons_of_neg (by simpa using hne)]
          exact ih
      | some p =>
          rcases p with ⟨g, v⟩
          rcases Payload.readField_eq_some_iff.1 ha with ⟨hfield, hreads⟩
          have hg := List.mem_of_find?_eq_some hfield
          have hindex : g.index = a.type := by simpa using List.find?_some hfield
          -- Names and numbers are distinct, so either both single out the field or neither does.
          have hsame : g.name = f.name ↔ a.type = f.index := by
            rw [← hindex]
            constructor
            · exact fun h => by rw [List.inj_on_of_nodup_map hnames hg hf h]
            · exact fun h => by rw [List.inj_on_of_nodup_map hindices hg hf h]
          rw [List.filterMap_cons, Attribute.ofType]
          simp only [id_eq, valuesOf]
          by_cases hname : g.name = f.name
          · obtain rfl := List.inj_on_of_nodup_map hnames hg hf hname
            rw [List.filter_cons_of_pos (by simp [hindex]), List.filter_cons_of_pos (by simp)]
            exact .cons hreads ih
          · rw [List.filter_cons_of_neg (by simpa using fun h => hname (hsame.2 h)),
              List.filter_cons_of_neg (by simpa using hname)]
            exact ih

end Field

namespace Payload

variable {sets : AttrSets} {name : Text}

-- Indices are distinct, so the attribute of a field is read as that field.
theorem readField_plain (hsets : sets.WellFormed) {f : Field} (hf : f ∈ sets.fields name)
    {b : Bytes} {v : Value} (h : f.payload.decode sets b = .ok v) :
    readField sets name (Attribute.plain (f.index, b)) = .ok (some (f, v)) :=
  readField_eq_some_iff.2 ⟨find?_key (hsets.indices name) hf, rfl, h⟩

/-- A stream that is laid out by rows is decoded to the object of the rows. -/
theorem decode_rows (hsets : sets.WellFormed) {rows : List Row}
    (hfields : rows.map Row.field = sets.fields name) (hread : ∀ r ∈ rows, r.Read sets) :
    (attrs name).decode sets (Writer.stream (rows.flatMap Row.attributes))
      = .ok (.object (Field.storeAll (rows.flatMap Row.occurrences))) := by
  -- Attributes and occurrences side by side.
  have hpairs : List.Forall₂ (fun a o => Writer.accept a.1 a.2 = .ok a ∧
      readField sets name (Attribute.plain a) = .ok (some o))
      (rows.flatMap Row.attributes) (rows.flatMap Row.occurrences) := by
    have hmem : ∀ r ∈ rows, r.field ∈ sets.fields name := fun r hr =>
      hfields ▸ List.mem_map_of_mem hr
    clear hfields
    induction rows with
    | nil => exact List.Forall₂.nil
    | cons r rest ih =>
        rw [List.flatMap_cons, List.flatMap_cons]
        refine List.rel_append ?_ (ih (fun x hx => hread x (List.mem_cons_of_mem _ hx))
          fun x hx => hmem x (List.mem_cons_of_mem _ hx))
        rw [Row.attributes, Row.occurrences, List.forall₂_map_left_iff, List.forall₂_map_right_iff,
          List.forall₂_same]
        intro p hp
        rcases hread r List.mem_cons_self p hp with ⟨hdec, haccept⟩
        exact ⟨haccept, readField_plain hsets (hmem r List.mem_cons_self) hdec⟩
  have haccept : ∀ a ∈ rows.flatMap Row.attributes, Writer.accept a.1 a.2 = .ok a := by
    intro a ha
    rcases forall₂_left hpairs ha with ⟨o, -, h, -⟩
    exact h
  rw [decode_attrs, Attribute.walk_stream haccept]
  refine ⟨rfl, (rows.flatMap Row.occurrences).map some, ?_, ?_⟩
  · rw [mapM_eq_ok_iff, List.forall₂_map_left_iff, List.forall₂_map_right_iff]
    exact hpairs.imp fun _ _ h => h.2
  · rw [List.filterMap_map, Function.id_comp, List.filterMap_some]

theorem occurrence_of_matches {f : Field} {x : Value} {b : Bytes}
    (h : f.payload.Matches sets x b)
    (haccept : Writer.accept f.index b = .ok (f.index, b)) :
    f.occurrence sets name x = .ok [(f.index, b)] := by
  rw [Field.occurrence, h.kept, if_neg Bool.false_ne_true, h.written, ok_bind, haccept]
  rfl

/-- A field with the values of a row is written as the attributes of the row. -/
theorem attributes_of_row {r : Row} (h : r.Written sets) {obj : Object}
    (hobj : Object.value? obj r.field.name = r.field.collected (r.content.map Prod.fst)) :
    r.field.attributes sets name obj = .ok r.attributes := by
  have hocc : ∀ p ∈ r.content, r.field.occurrence sets name p.1 = .ok [(r.field.index, p.2)] :=
    fun p hp => occurrence_of_matches (h.pair p hp) (h.fits p hp)
  rw [Field.attributes, Object.get_eq_value?, hobj]
  by_cases hempty : r.content = []
  · rw [Row.attributes, hempty, List.map_nil, Field.collected_nil]
    rfl
  by_cases hrep : r.field.repeated = true
  · have hall : (r.content.map Prod.fst).mapM (r.field.occurrence sets name)
        = .ok (r.content.map fun p => [(r.field.index, p.2)]) := by
      rw [mapM_eq_ok_iff, List.forall₂_map_left_iff, List.forall₂_map_right_iff, List.forall₂_same]
      exact hocc
    rw [Field.collected_repeated hrep (by simpa using hempty)]
    change r.field.valueAttributes sets name (.list (r.content.map Prod.fst)) = _
    rw [Field.valueAttributes, if_pos hrep]
    change ((r.content.map Prod.fst).mapM (r.field.occurrence sets name)).map List.flatten = _
    rw [hall, map_ok, ← List.flatMap_def, ← List.map_eq_flatMap, Row.attributes]
  · rcases List.length_eq_one_iff.1 (Nat.le_antisymm (h.single (Bool.eq_false_iff.2 hrep))
      (List.length_pos_iff.2 hempty)) with ⟨p, hcontent⟩
    have hp : p ∈ r.content := hcontent ▸ List.mem_cons_self
    have hlast : r.field.collected [p.1] = some p.1 := Field.collected_concat hrep [] p.1
    rw [Row.attributes, hcontent, List.map_singleton, List.map_singleton, hlast, Option.getD_some,
      (h.pair p hp).present, if_neg Bool.false_ne_true, Field.valueAttributes, if_neg hrep,
      hocc p hp]

theorem names_of_rows (hsets : sets.WellFormed) {rows : List Row}
    (hfields : rows.map Row.field = sets.fields name) :
    (rows.map fun r => r.field.name).Nodup := by
  have h := hsets.names name
  rw [← hfields, List.map_map] at h
  exact h

theorem mem_fields_of_rows {rows : List Row} (hfields : rows.map Row.field = sets.fields name)
    {o : Field × Value} (ho : o ∈ rows.flatMap Row.occurrences) : o.1 ∈ sets.fields name := by
  rcases List.mem_flatMap.1 ho with ⟨r, hr, hor⟩
  rw [Field.field_of_mem_occurrences hor, ← hfields]
  exact List.mem_map_of_mem hr

/-- Encoding the object of rows that were written gives the attributes of the rows again. -/
theorem encode_rows (hsets : sets.WellFormed) {rows : List Row}
    (hfields : rows.map Row.field = sets.fields name) (hwritten : ∀ r ∈ rows, r.Written sets) :
    (attrs name).encode sets (.object (Field.storeAll (rows.flatMap Row.occurrences)))
      = .ok (Writer.stream (rows.flatMap Row.attributes)) := by
  have hmem : ∀ o ∈ rows.flatMap Row.occurrences, o.1 ∈ sets.fields name := fun o ho =>
    mem_fields_of_rows hfields ho
  have hall : (sets.fields name).mapM
      (Field.attributes sets name (Field.storeAll (rows.flatMap Row.occurrences)))
      = .ok (rows.map Row.attributes) := by
    rw [← hfields, mapM_eq_ok_iff, List.forall₂_map_left_iff, List.forall₂_map_right_iff,
      List.forall₂_same]
    intro r hr
    refine attributes_of_row (hwritten r hr) ?_
    rw [Field.value?_storeAll (hsets.names name) hmem (hfields ▸ List.mem_map_of_mem hr),
      Field.valuesOf_rows (names_of_rows hsets hfields) hr]
  rw [encode_attrs, Field.firstUndeclared?_storeAll fun o ho => List.mem_map_of_mem (hmem o ho)]
  change ((sets.fields name).mapM (Field.attributes sets name _)).map _ = _
  rw [hall, map_ok, List.flatMap_def (l := rows)]

-- Rows found for the attributes of each field, put together.
theorem exists_rows {P : Row → Prop} {fields : List Field} {ass : List (List (UInt16 × Bytes))}
    (h : List.Forall₂ (fun f as => ∃ r : Row, r.field = f ∧ r.attributes = as ∧ P r) fields ass) :
    ∃ rows : List Row, rows.map Row.field = fields ∧ rows.map Row.attributes = ass ∧
      ∀ r ∈ rows, P r := by
  induction h with
  | nil => exact ⟨[], rfl, rfl, fun r hr => absurd hr List.not_mem_nil⟩
  | cons hr _ ih =>
      rcases hr with ⟨r, rfl, rfl, hP⟩
      rcases ih with ⟨rows, rfl, rfl, hall⟩
      exact ⟨r :: rows, rfl, rfl, List.forall_mem_cons.2 ⟨hP, hall⟩⟩

section Encoded

variable {f : Field}

theorem occurrence_eq_ok {x : Value} {as : List (UInt16 × Bytes)}
    (h : f.occurrence sets name x = .ok as) :
    as = [] ∨ ∃ b, f.payload.encode sets x = .ok b ∧
      Writer.accept f.index b = .ok (f.index, b) ∧ as = [(f.index, b)] := by
  unfold Field.occurrence at h
  split at h
  · cases h
    exact Or.inl rfl
  · right
    rcases map_eq_ok_iff.1 h with ⟨a, ha, rfl⟩
    rcases bind_eq_ok_iff.1 (mapError_eq_ok_iff.1 ha) with ⟨b, henc, haccept⟩
    rcases Writer.accept_eq_ok_iff.1 haccept with ⟨-, -, rfl⟩
    exact ⟨b, henc, haccept, rfl⟩

/-- The attributes of a value are those of a row with one value at most. -/
theorem exists_row_of_occurrence {x : Value} {as : List (UInt16 × Bytes)}
    (helem : ∀ d, f.payload.encode sets x = .ok d → ∃ x', f.payload.Matches sets x' d)
    (h : f.occurrence sets name x = .ok as) :
    ∃ r : Row, r.field = f ∧ r.attributes = as ∧ r.Written sets ∧ r.content.length ≤ 1 := by
  rcases occurrence_eq_ok h with rfl | ⟨b, henc, haccept, rfl⟩
  · exact ⟨⟨f, []⟩, rfl, rfl, ⟨nofun, nofun, fun _ => Nat.zero_le 1⟩, Nat.zero_le 1⟩
  · rcases helem b henc with ⟨x', hx'⟩
    refine ⟨⟨f, [(x', b)]⟩, rfl, rfl, ⟨?_, ?_, fun _ => Nat.le_refl 1⟩, Nat.le_refl 1⟩
    · exact List.forall_mem_singleton.2 hx'
    · exact List.forall_mem_singleton.2 haccept

/-- The attributes of the values of a repeated field are those of a row. -/
theorem exists_row_of_occurrences (hrep : f.repeated = true) {items : List Value}
    {ass : List (List (UInt16 × Bytes))}
    (helem : ∀ x ∈ items, ∀ d, f.payload.encode sets x = .ok d → ∃ x', f.payload.Matches sets x' d)
    (h : List.Forall₂ (fun x as => f.occurrence sets name x = .ok as) items ass) :
    ∃ r : Row, r.field = f ∧ r.attributes = ass.flatten ∧ r.Written sets := by
  induction h with
  | nil => exact ⟨⟨f, []⟩, rfl, rfl, ⟨nofun, nofun, fun _ => Nat.zero_le 1⟩⟩
  | cons hx _ ih =>
      rcases exists_row_of_occurrence (helem _ List.mem_cons_self) hx with
        ⟨⟨_, first⟩, rfl, hfirst, hw, -⟩
      rcases ih fun y hy => helem y (List.mem_cons_of_mem _ hy) with
        ⟨⟨_, others⟩, rfl, hothers, hws⟩
      refine ⟨⟨_, first ++ others⟩, rfl, ?_, ⟨?_, ?_, fun hf => ?_⟩⟩
      · rw [List.flatten_cons, ← hfirst, ← hothers, Row.attributes, List.map_append]
        rfl
      · exact List.forall_mem_append.2 ⟨hw.pair, hws.pair⟩
      · exact List.forall_mem_append.2 ⟨hw.fits, hws.fits⟩
      · rw [hrep] at hf
        cases hf

/-- The attributes of a field that was encoded are those of a row. -/
theorem exists_row_of_attributes {obj : Object} {as : List (UInt16 × Bytes)}
    (hobj : (Value.object obj).KeysDistinct)
    (helem : ∀ x : Value, x.depth < (Value.object obj).depth → x.KeysDistinct →
      ∀ d, f.payload.encode sets x = .ok d → ∃ x', f.payload.Matches sets x' d)
    (h : f.attributes sets name obj = .ok as) :
    ∃ r : Row, r.field = f ∧ r.attributes = as ∧ r.Written sets := by
  have hdepth := Object.depth_get_lt obj f.name
  have hkeys := hobj.get f.name
  unfold Field.attributes Field.valueAttributes at h
  split at h
  · cases h
    exact ⟨⟨f, []⟩, rfl, rfl, ⟨nofun, nofun, fun _ => Nat.zero_le 1⟩⟩
  split at h
  · rename_i hrep
    split at h
    · cases h
    · rename_i items hitems
      rcases map_eq_ok_iff.1 h with ⟨ass, hass, rfl⟩
      refine exists_row_of_occurrences hrep (fun x hx => ?_) (mapM_eq_ok_iff.1 hass)
      exact helem x (Nat.lt_trans (Value.depth_lt_of_mem_items hitems hx) hdepth)
        (hkeys.of_mem_items hitems hx)
  · rcases exists_row_of_occurrence (helem _ hdepth hkeys) h with ⟨r, hf, has, hw, -⟩
    exact ⟨r, hf, has, hw⟩

/-- An object that was encoded stands for some object, if its values stand for some values. -/
theorem matches_of_encode_attrs (hsets : sets.WellFormed) {obj : Object} {b : Bytes}
    (hobj : (Value.object obj).KeysDistinct)
    (helem : ∀ g ∈ sets.fields name, ∀ x : Value, x.depth < (Value.object obj).depth →
      x.KeysDistinct → ∀ d, g.payload.encode sets x = .ok d → ∃ x', g.payload.Matches sets x' d)
    (h : (attrs name).encode sets (.object obj) = .ok b) :
    ∃ v', (attrs name).Matches sets v' b := by
  rw [encode_attrs] at h
  split at h
  · cases h
  rcases map_eq_ok_iff.1 h with ⟨ass, hass, rfl⟩
  have hrow : List.Forall₂ (fun f as => ∃ r : Row, r.field = f ∧ r.attributes = as ∧ r.Written sets)
      (sets.fields name) ass := by
    refine ((List.forall₂_and_left _ _).2 ⟨fun g hg => hg, mapM_eq_ok_iff.1 hass⟩).imp ?_
    rintro f as ⟨hf, has⟩
    exact exists_row_of_attributes hobj (helem f hf) has
  rcases exists_rows hrow with ⟨rows, hfields, rfl, hwritten⟩
  rw [← List.flatMap_def]
  exact ⟨_, Matches.of_read_written (decode_rows hsets hfields fun r hr => (hwritten r hr).read)
    (encode_rows hsets hfields hwritten)⟩

end Encoded

section Decoded

variable {f : Field}

theorem unlessTooLong_occurrence (hindex : f.index.toNat ≤ 0x3FFF) {x : Value}
    (hx : f.payload.Survives sets x) (hkept : f.payload.omits x = false) :
    UnlessTooLong (f.occurrence sets name x) fun as => ∃ b, as = [(f.index, b)] ∧
      f.payload.decode sets b = .ok x ∧ Writer.accept f.index b = .ok (f.index, b) := by
  rw [Field.occurrence, hkept, if_neg Bool.false_ne_true]
  refine UnlessTooLong.map (UnlessTooLong.mapError (UnlessTooLong.bind hx fun b hb => ?_)
    fun e he => he.field name f.name)
  refine (Writer.unlessTooLong_accept hindex b).imp fun a ha => ?_
  rcases Writer.accept_eq_ok_iff.1 ha with ⟨-, -, rfl⟩
  exact ⟨b, rfl, hb, ha⟩

-- The payloads that were written for the values of a field make up its row.
theorem exists_row_of_payloads {vs : List Value} {ass : List (List (UInt16 × Bytes))}
    (h : List.Forall₂ (fun x as => ∃ b, as = [(f.index, b)] ∧ f.payload.decode sets b = .ok x ∧
      Writer.accept f.index b = .ok (f.index, b)) vs ass) :
    ∃ r : Row, r.field = f ∧ r.attributes = ass.flatten ∧ r.Read sets ∧
      r.content.map Prod.fst = vs := by
  induction h with
  | nil => exact ⟨⟨f, []⟩, rfl, rfl, nofun, rfl⟩
  | cons hx _ ih =>
      rcases hx with ⟨b, rfl, hdec, haccept⟩
      rcases ih with ⟨⟨_, content⟩, rfl, hattrs, hread, rfl⟩
      refine ⟨⟨_, (_, b) :: content⟩, rfl, ?_, List.forall_mem_cons.2 ⟨⟨hdec, haccept⟩, hread⟩, rfl⟩
      rw [List.flatten_cons, ← hattrs]
      rfl

/-- A field of an object that was decoded is written as a row that collects to the same value. -/
theorem unlessTooLong_attributes (hindex : f.index.toNat ≤ 0x3FFF) {obj : Object} {vs : List Value}
    (hobj : Object.value? obj f.name = f.collected vs)
    (hvs : ∀ x ∈ vs, f.payload.Survives sets x ∧ x.isNull = false ∧ f.payload.omits x = false) :
    UnlessTooLong (f.attributes sets name obj) fun as => ∃ r : Row, r.field = f ∧
      r.attributes = as ∧ r.Read sets ∧ f.collected (r.content.map Prod.fst) = f.collected vs := by
  rw [Field.attributes, Object.get_eq_value?, hobj]
  rcases List.eq_nil_or_concat vs with rfl | ⟨init, x, hconcat⟩
  · rw [Field.collected_nil]
    exact ⟨⟨f, []⟩, rfl, rfl, nofun, Field.collected_nil f⟩
  by_cases hrep : f.repeated = true
  · rw [Field.collected_repeated hrep (by simp [hconcat])]
    change UnlessTooLong (f.valueAttributes sets name (.list vs)) _
    rw [Field.valueAttributes, if_pos hrep]
    change UnlessTooLong ((vs.mapM (f.occurrence sets name)).map List.flatten) _
    refine UnlessTooLong.map ((UnlessTooLong.mapM fun x hx =>
      unlessTooLong_occurrence hindex (hvs x hx).1 (hvs x hx).2.2).imp fun ass hass => ?_)
    rcases exists_row_of_payloads hass with ⟨r, hf, hattrs, hread, hcontent⟩
    refine ⟨r, hf, hattrs, hread, ?_⟩
    rw [hcontent, Field.collected_repeated hrep (by simp [hconcat])]
  · -- Only the last occurrence was kept, and it is all that is written.
    rw [List.concat_eq_append] at hconcat
    subst hconcat
    rcases hvs x (List.mem_append_right _ List.mem_cons_self) with ⟨hx, hnull, hkept⟩
    rw [Field.collected_concat hrep, Option.getD_some, hnull, if_neg Bool.false_ne_true,
      Field.valueAttributes, if_neg hrep]
    refine (unlessTooLong_occurrence hindex hx hkept).imp ?_
    rintro as ⟨b, rfl, hdec, haccept⟩
    exact ⟨⟨f, [(x, b)]⟩, rfl, rfl, List.forall_mem_singleton.2 ⟨hdec, haccept⟩,
      Field.collected_concat hrep [] x⟩

/-- Objects with the same values of all fields are equal. -/
theorem storeAll_rows (hsets : sets.WellFormed) {os : List (Field × Value)}
    (hos : ∀ o ∈ os, o.1 ∈ sets.fields name) {rows : List Row}
    (hfields : rows.map Row.field = sets.fields name)
    (hrows : ∀ r ∈ rows, r.field.collected (r.content.map Prod.fst)
      = r.field.collected (r.field.valuesOf os)) :
    Field.storeAll (rows.flatMap Row.occurrences) = Field.storeAll os := by
  have hmem : ∀ o ∈ rows.flatMap Row.occurrences, o.1 ∈ sets.fields name := fun o ho =>
    mem_fields_of_rows hfields ho
  refine Object.eq_of_value?_eq (Field.ordered_storeAll _) (Field.ordered_storeAll _) fun k => ?_
  by_cases hk : ∃ r ∈ rows, r.field.name = k
  · rcases hk with ⟨r, hr, rfl⟩
    have hfield : r.field ∈ sets.fields name := hfields ▸ List.mem_map_of_mem hr
    rw [Field.value?_storeAll (hsets.names name) hmem hfield,
      Field.value?_storeAll (hsets.names name) hos hfield,
      Field.valuesOf_rows (names_of_rows hsets hfields) hr, hrows r hr]
  · -- No field has this name, so neither object has the key.
    have habsent : ∀ os' : List (Field × Value), (∀ o ∈ os', o.1 ∈ sets.fields name) →
        Object.value? (Field.storeAll os') k = none := by
      intro os' hos'
      rw [Option.eq_none_iff_forall_ne_some]
      intro v hv
      have hentry := (Object.mem_iff_value? (Field.ordered_storeAll os') k v).2 hv
      rcases Field.name_of_mem_storeAll hentry with ⟨o, ho, hname⟩
      have hfield := hos' o ho
      rw [← hfields] at hfield
      rcases List.mem_map.1 hfield with ⟨r, hr, hro⟩
      exact hk ⟨r, hr, by rw [hro, hname]⟩
    rw [habsent _ hmem, habsent _ hos]

/-- An object that was decoded can be encoded, if its values can. -/
theorem survives_attrs (hsets : sets.WellFormed) {d : Bytes} {v : Value}
    (helem : ∀ g ∈ sets.fields name, ∀ a ∈ (Attribute.walk d).1, ∀ x,
      g.payload.decode sets a.payload = .ok x → g.payload.Survives sets x)
    (h : (attrs name).decode sets d = .ok v) : (attrs name).Survives sets v := by
  rcases (decode_attrs sets).1 h with ⟨-, found, hfound, rfl⟩
  -- Every occurrence is of a field of the set, and was decoded from an attribute.
  have hocc : ∀ o ∈ found.filterMap id, o.1 ∈ sets.fields name ∧ o.1.payload.Survives sets o.2 ∧
      o.2.isNull = false ∧ o.1.payload.omits o.2 = false := by
    intro o ho
    rcases List.mem_filterMap.1 ho with ⟨x, hx, rfl⟩
    rcases forall₂_right (mapM_eq_ok_iff.1 hfound) hx with ⟨a, ha, hread⟩
    rcases readField_eq_some_iff.1 hread with ⟨hfield, -, hdec⟩
    have hmem : o.1 ∈ sets.fields name := List.mem_of_find?_eq_some hfield
    exact ⟨hmem, helem o.1 hmem a ha o.2 hdec, present_of_decode hdec⟩
  have hmem : ∀ o ∈ found.filterMap id, o.1 ∈ sets.fields name := fun o ho => (hocc o ho).1
  have hwrite : ∀ f ∈ sets.fields name, UnlessTooLong
      (f.attributes sets name (Field.storeAll (found.filterMap id))) fun as => ∃ r : Row,
        r.field = f ∧ r.attributes = as ∧ r.Read sets ∧ r.field.collected (r.content.map Prod.fst)
          = r.field.collected (r.field.valuesOf (found.filterMap id)) := by
    intro f hf
    refine (unlessTooLong_attributes (hsets.index_le name f hf)
      (Field.value?_storeAll (hsets.names name) hmem hf) fun x hx => ?_).imp ?_
    · rcases List.mem_map.1 hx with ⟨o, ho, rfl⟩
      rcases List.mem_filter.1 ho with ⟨ho, hname⟩
      have hfield : o.1 = f :=
        List.inj_on_of_nodup_map (hsets.names name) (hmem o ho) hf (by simpa using hname)
      exact hfield ▸ (hocc o ho).2
    · rintro as ⟨r, rfl, hattrs, hread, hcollected⟩
      exact ⟨r, rfl, hattrs, hread, hcollected⟩
  rw [Survives, encode_attrs,
    Field.firstUndeclared?_storeAll fun o ho => List.mem_map_of_mem (hmem o ho)]
  refine UnlessTooLong.map ((UnlessTooLong.mapM hwrite).imp fun ass hass => ?_)
  rcases exists_rows hass with ⟨rows, hfields, rfl, hrows⟩
  rw [← List.flatMap_def, decode_rows hsets hfields fun r hr => (hrows r hr).1,
    storeAll_rows hsets hmem hfields fun r hr => (hrows r hr).2]

end Decoded

end Payload

end NetlinkSchema
