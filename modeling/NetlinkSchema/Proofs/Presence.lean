import NetlinkSchema.Proofs.Occurrence
import NetlinkSchema.Proofs.Width

/-!
# Flags after a round trip

A flag has no payload: it is true by being there. An attribute set leaves out the attribute of a
flag that is false, be it the value of a field or one of the values of a repeated field. The
elements of arrays and maps cannot be left out, since others are numbered after them, and there a
flag that is false is written like one that is true.

To say where a flag is, a value is taken apart step by step. Each part that is decoded was encoded
from a part of the original at the same place, and each part of the original is decoded again,
unless it was left out. Following the steps to the flags shows what becomes of them: the true ones
come back, and so do the false ones that are elements, as true.

## Main definitions

* `Value.Step`: From a value to a part of it.
* `Field.written`: The values of a field that are not left out.
* `Payload.PartAt`: A part of a value, with its payload.
* `Payload.FlagAt`: A flag somewhere in a value.
* `Payload.Restored`: A value is decoded from what another one is encoded to.

## Theorems

* `Payload.Restored.array`, `Payload.Restored.map`, `Payload.Restored.attrs`: What is restored, part
  by part.
* `Payload.PartAt.origin`, `Payload.PartAt.restored`: One step, in both directions.
* `Payload.flagAt_restored_iff`: Where flags are true after a round trip.
* `Schema.flags_restored_iff`: When they are true only where they were.
-/

namespace NetlinkSchema

theorem forall₂_trans {α β γ : Type} {R : α → β → Prop} {S : β → γ → Prop} {T : α → γ → Prop}
    (hT : ∀ a b c, R a b → S b c → T a c) {xs : List α} {ys : List β} {zs : List γ}
    (h : List.Forall₂ R xs ys) (h' : List.Forall₂ S ys zs) : List.Forall₂ T xs zs := by
  induction h generalizing zs with
  | nil =>
      cases h'
      exact .nil
  | cons hr _ ih =>
      cases h' with
      | cons hs h' => exact .cons (hT _ _ _ hr hs) (ih h')

theorem forall₂_getElem? {α β : Type} {R : α → β → Prop} {xs : List α} {ys : List β}
    (h : List.Forall₂ R xs ys) {i : Nat} {x : α} (hx : xs[i]? = some x) :
    ∃ y, ys[i]? = some y ∧ R x y := by
  induction h generalizing i with
  | nil => cases hx
  | cons hr _ ih =>
      cases i with
      | zero =>
          cases hx
          exact ⟨_, rfl, hr⟩
      | succ i => exact ih hx

namespace Value

/-- One step from a value to a part of it: to the value of a field, to one of the values of a
    repeated field, to an element of an array or a map. -/
inductive Step
  | field (name : Text)
  | occurrence (name : Text) (i : Nat)
  | item (i : Nat)
  | entry (key : UInt16)

namespace Step

/-- Whether a step goes to an element of an array or a map. -/
def isElement : Step → Bool
  | field _ | occurrence _ _ => false
  | item _ | entry _ => true

/-- The last of some steps, if there are any, goes to an element. -/
def EndsInElement (place : List Step) : Prop := ∀ s, place.getLast? = some s → s.isElement = true

theorem endsInElement_nil : EndsInElement [] := by
  intro s hs
  cases hs

theorem endsInElement_cons {s : Step} {place : List Step} :
    EndsInElement (s :: place) ↔ EndsInElement place ∧ (place = [] → s.isElement = true) := by
  cases place with
  | nil => simp [EndsInElement]
  | cons t rest => simp [EndsInElement, List.getLast?_cons_cons]

end Step

end Value

open Value (Step)

/-- Some attribute has an array or a map of flags, however nested. -/
def AttrSets.HasFlagElements (sets : AttrSets) : Prop :=
  ∃ name, ∃ f ∈ sets.fields name, f.payload ≠ .flag ∧ Payload.flag.ElementOf f.payload

namespace Field

/-- The values of a field that are written, given its value: not absent and not left out. -/
def written (f : Field) (v : Value) : List Value :=
  (if v.isNull then [] else if f.repeated then v.items?.getD [] else [v]).filter
    fun x => !f.payload.omits x

/-- The attribute of a value of a field. -/
structure Writes (sets : AttrSets) (f : Field) (x : Value) (a : UInt16 × Bytes) : Prop where
  type : a.1 = f.index
  payload : f.payload.encode sets x = .ok a.2
  accepted : Writer.accept a.1 a.2 = .ok a

variable {sets : AttrSets} {f : Field} {name : Text}

theorem index_of_writes {xs : List Value} {as : List (UInt16 × Bytes)}
    (h : List.Forall₂ (f.Writes sets) xs as) : ∀ a ∈ as, a.1 = f.index := by
  intro a ha
  rcases forall₂_right h ha with ⟨x, -, hx⟩
  exact hx.type

theorem writes_of_occurrence {x : Value} {as : List (UInt16 × Bytes)}
    (h : f.occurrence sets name x = .ok as) :
    List.Forall₂ (f.Writes sets) ([x].filter fun x => !f.payload.omits x) as := by
  unfold occurrence at h
  split at h
  · rename_i homits
    cases h
    rw [List.filter_cons_of_neg (by simp [homits]), List.filter_nil]
    exact .nil
  · rename_i hkept
    rcases map_eq_ok_iff.1 h with ⟨a, ha, rfl⟩
    rcases bind_eq_ok_iff.1 (mapError_eq_ok_iff.1 ha) with ⟨b, henc, haccept⟩
    rcases Writer.accept_eq_ok_iff.1 haccept with ⟨-, -, rfl⟩
    rw [List.filter_cons_of_pos (by simpa using hkept), List.filter_nil]
    exact .cons ⟨rfl, henc, haccept⟩ .nil

theorem writes_of_occurrences {items : List Value} {ass : List (List (UInt16 × Bytes))}
    (h : List.Forall₂ (fun x as => f.occurrence sets name x = .ok as) items ass) :
    List.Forall₂ (f.Writes sets) (items.filter fun x => !f.payload.omits x) ass.flatten := by
  induction h with
  | nil => exact .nil
  | @cons x as items ass hx _ ih =>
      rw [List.flatten_cons, ← List.singleton_append, List.filter_append]
      exact List.rel_append (writes_of_occurrence hx) ih

/-- The attributes of a field are those of its written values. -/
theorem writes_of_attributes {obj : Object} {as : List (UInt16 × Bytes)}
    (h : f.attributes sets name obj = .ok as) :
    List.Forall₂ (f.Writes sets) (f.written (Object.get obj f.name)) as := by
  unfold attributes valueAttributes at h
  unfold written
  split at h
  · rename_i hnull
    cases h
    rw [if_pos hnull]
    exact .nil
  rename_i hnull
  rw [if_neg hnull]
  split at h
  · rename_i hrep
    rw [if_pos hrep]
    split at h
    · cases h
    · rename_i items hitems
      rcases map_eq_ok_iff.1 h with ⟨ass, hass, rfl⟩
      rw [hitems, Option.getD_some]
      exact writes_of_occurrences (mapM_eq_ok_iff.1 hass)
  · rename_i hrep
    rw [if_neg hrep]
    exact writes_of_occurrence h

theorem not_omits_of_mem_written {v x : Value} (h : x ∈ f.written v) :
    f.payload.omits x = false := by
  simpa using (List.mem_filter.1 h).2

theorem written_repeated (hrep : f.repeated = true) {vs : List Value}
    (h : ∀ x ∈ vs, f.payload.omits x = false) : f.written ((f.collected vs).getD .null) = vs := by
  have hkept : vs.filter (fun x => !f.payload.omits x) = vs :=
    List.filter_eq_self.2 fun x hx => by simp [h x hx]
  by_cases hvs : vs = []
  · rw [hvs, collected_nil]
    rfl
  · rw [collected_repeated hrep hvs, Option.getD_some, written, if_pos hrep]
    exact hkept

/-- A field that is not repeated has one written value at most, which is its value. -/
theorem written_single (hrep : f.repeated = false) (v : Value) :
    f.written v = [] ∧ (v.isNull = true ∨ f.payload.omits v = true) ∨
      f.written v = [v] ∧ v.isNull = false ∧ f.payload.omits v = false := by
  unfold written
  rw [hrep]
  cases hnull : v.isNull with
  | true => exact Or.inl ⟨rfl, Or.inl rfl⟩
  | false =>
      cases homits : f.payload.omits v with
      | true => exact Or.inl ⟨by simp [homits], Or.inr rfl⟩
      | false => exact Or.inr ⟨by simp [homits], rfl, rfl⟩

end Field

namespace Attribute

theorem ofType_eq_self {as : List (UInt16 × Bytes)} {type : UInt16} (h : ∀ a ∈ as, a.1 = type) :
    ofType (as.map plain) type = as.map plain := by
  refine List.filter_eq_self.2 fun a ha => ?_
  rcases List.mem_map.1 ha with ⟨x, hx, rfl⟩
  simp [plain, h x hx]

theorem ofType_eq_nil {as : List (UInt16 × Bytes)} {type : UInt16} (h : ∀ a ∈ as, a.1 ≠ type) :
    ofType (as.map plain) type = [] := by
  refine List.filter_eq_nil_iff.2 fun a ha => ?_
  rcases List.mem_map.1 ha with ⟨x, hx, rfl⟩
  simp [plain, h x hx]

/-- Among the attributes of several fields, those of one field have its number. -/
theorem ofType_flatten {P : Field → List (UInt16 × Bytes) → Prop} {fields : List Field}
    {ass : List (List (UInt16 × Bytes))} (h : List.Forall₂ P fields ass)
    (hP : ∀ f as, P f as → ∀ a ∈ as, a.1 = f.index) (hindices : (fields.map Field.index).Nodup)
    {f : Field} (hf : f ∈ fields) :
    ∃ as, P f as ∧ ofType (ass.flatten.map plain) f.index = as.map plain := by
  induction h with
  | nil => cases hf
  | @cons g as fields ass hg hrest ih =>
      rw [List.map_cons, List.nodup_cons] at hindices
      rw [List.flatten_cons, List.map_append, ofType, List.filter_append]
      rcases List.mem_cons.1 hf with rfl | hf
      · refine ⟨as, hg, ?_⟩
        -- The other fields have other numbers.
        have hothers : ∀ a ∈ ass.flatten, a.1 ≠ f.index := by
          intro a ha heq
          rcases List.mem_flatten.1 ha with ⟨bs, hbs, ha⟩
          rcases forall₂_right hrest hbs with ⟨g, hg, hgbs⟩
          exact hindices.1 (List.mem_map.2 ⟨g, hg, by rw [← hP g bs hgbs a ha, heq]⟩)
        exact (congrArg₂ _ (ofType_eq_self (hP f as hg)) (ofType_eq_nil hothers)).trans
          (List.append_nil _)
      · rcases ih hindices.2 hf with ⟨bs, hf', hbs⟩
        refine ⟨bs, hf', ?_⟩
        have hfirst : ∀ a ∈ as, a.1 ≠ f.index := by
          intro a ha heq
          exact hindices.1 (List.mem_map.2 ⟨f, hf, by rw [← heq, hP g as hg a ha]⟩)
        exact (congrArg₂ _ (ofType_eq_nil hfirst) hbs).trans (List.nil_append _)

end Attribute

namespace Payload

variable {sets : AttrSets}

/-- A value is decoded from what another one is encoded to. -/
def Restored (sets : AttrSets) (p : Payload) (v v' : Value) : Prop :=
  ∃ b, p.encode sets v = .ok b ∧ p.decode sets b = .ok v'

/-- What is known of the entries of a map whose keys are distinct, as pairs. -/
theorem of_pairs {v : Value} {es : List (UInt16 × Value)} (h : pairs v = .ok es)
    (hv : v.KeysDistinct) : (es.map Prod.fst).Nodup ∧ ∀ e ∈ es, e.2.KeysDistinct := by
  rcases map_eq_ok_iff.1 h with ⟨entries, hentries, rfl⟩
  rcases of_entries hentries hv with ⟨hnodup, hvalues⟩
  rw [List.map_map]
  exact ⟨hnodup, List.forall_mem_map.2 hvalues⟩

namespace Restored

theorem flag {v v' : Value} (h : Payload.flag.Restored sets v v') : v' = .bool true := by
  rcases h with ⟨b, -, hdec⟩
  rw [decode] at hdec
  cases b with
  | nil =>
      cases hdec
      rfl
  | cons x rest => cases hdec

theorem present {p : Payload} {v v' : Value} (h : p.Restored sets v v') :
    v'.isNull = false ∧ p.omits v' = false := by
  rcases h with ⟨b, -, hdec⟩
  exact present_of_decode hdec

theorem not_omits {p : Payload} {xs vs : List Value} (h : List.Forall₂ (p.Restored sets) xs vs) :
    ∀ y ∈ vs, p.omits y = false := by
  intro y hy
  rcases forall₂_right h hy with ⟨_, _, hy⟩
  exact hy.present.2

/-- What becomes of the value of a field that is not repeated. -/
theorem single {f : Field} (hrep : f.repeated = false) {v : Value} {vs : List Value}
    (h : List.Forall₂ (f.payload.Restored sets) (f.written v) vs) :
    (v.isNull = true ∨ f.payload.omits v = true) ∧ (f.collected vs).getD .null = .null ∨
      v.isNull = false ∧ f.payload.omits v = false ∧
        f.payload.Restored sets v ((f.collected vs).getD .null) := by
  rcases Field.written_single hrep v with ⟨hnone, habsent⟩ | ⟨hone, hnull, hkept⟩
  · rw [hnone, List.forall₂_nil_left_iff] at h
    rw [h, Field.collected_nil]
    exact Or.inl ⟨habsent, rfl⟩
  · rw [hone] at h
    rcases List.forall₂_cons_left_iff.1 h with ⟨v', _, hv, hnil, rfl⟩
    rw [List.forall₂_nil_left_iff] at hnil
    subst hnil
    have hlast : f.collected [v'] = some v' :=
      Field.collected_concat (ne_true_of_eq_false hrep) [] v'
    rw [hlast]
    exact Or.inr ⟨hnull, hkept, hv⟩

/-- The elements of an array are restored one by one. -/
theorem array {zero : Bool} {elem : Payload} {v v' : Value}
    (h : (array zero elem).Restored sets v v') : ∃ items vs, v.items? = some items ∧
      v' = .list vs ∧ List.Forall₂ (elem.Restored sets) items vs := by
  rcases h with ⟨b, henc, hdec⟩
  rcases items?_of_encode_array sets henc with ⟨items, hitems⟩
  rw [encode_array sets hitems, map_eq_ok_iff] at henc
  rcases henc with ⟨as, has, rfl⟩
  rcases forall₂_of_mapM_element has with ⟨bs, rfl, hbs, hfits⟩
  have hwalk : Attribute.walk (Writer.stream (bs.zipIdx.map (numbered zero)))
      = ((bs.zipIdx.map (numbered zero)).map Attribute.plain, none) := by
    refine Attribute.walk_stream fun a ha => ?_
    rcases List.mem_map.1 ha with ⟨x, hx, rfl⟩
    exact accept_numbered (hfits x hx)
  rcases (decode_array sets).1 hdec with ⟨-, vs, hvs, rfl⟩
  rw [hwalk] at hvs
  refine ⟨items, vs, hitems, rfl, ?_⟩
  -- The places in the list are forgotten again.
  have hread : List.Forall₂ (fun a v => elem.decode sets a.payload = .ok v)
      ((bs.zipIdx.map (numbered zero)).map Attribute.plain) vs := by
    rw [← List.zipIdx_map_fst 0 ((bs.zipIdx.map (numbered zero)).map Attribute.plain),
      List.forall₂_map_left_iff]
    exact (mapM_eq_ok_iff.1 hvs).imp fun a v hv => (readElement_eq_ok_iff.1 hv).2.2
  rw [List.forall₂_map_left_iff, List.forall₂_map_left_iff] at hread
  have hdecoded : List.Forall₂ (fun b v => elem.decode sets b = .ok v) bs vs := by
    rw [← List.zipIdx_map_fst 0 bs, List.forall₂_map_left_iff]
    exact hread
  exact forall₂_trans (fun x b x' hx hx' => ⟨b, hx, hx'⟩) hbs hdecoded

/-- The entries of a map are restored one by one, in the order of their keys. -/
theorem map {elem : Payload} {v v' : Value} (hv : v.KeysDistinct)
    (h : (map elem).Restored sets v v') : ∃ es es', pairs v = .ok es ∧ v' = .map es' ∧
      List.Forall₂ (fun e e' => e.1 = e'.1 ∧ elem.Restored sets e.2 e'.2)
        (sortBy (fun a b => decide (a.1 ≤ b.1)) es) es' := by
  rcases h with ⟨b, henc, hdec⟩
  rw [encode_map] at henc
  rcases bind_eq_ok_iff.1 henc with ⟨es, hes, hrest⟩
  rcases map_eq_ok_iff.1 hrest with ⟨as, has, rfl⟩
  have hall := (mapM_eq_ok_iff.1 has).imp fun e a hea => entry_eq_ok_iff.1 hea
  have hwalk : Attribute.walk (Writer.stream as) = (as.map Attribute.plain, none) := by
    refine Attribute.walk_stream fun a ha => ?_
    rcases forall₂_right hall ha with ⟨e, -, -, -, haccept⟩
    exact haccept
  rcases (decode_map sets).1 hdec with ⟨-, found, hfound, rfl⟩
  rw [hwalk] at hfound
  have hread := (List.forall₂_map_left_iff.1 (mapM_eq_ok_iff.1 hfound)).imp
    fun a e hae => readEntry_eq_ok hae
  have hpairs := forall₂_trans (T := fun e e' => e.1 = e'.1 ∧ elem.Restored sets e.2 e'.2)
    (fun e a e' he he' => ⟨he.1.trans he'.1.symm, a.2, he.2.1, he'.2⟩) hall hread
  -- Keys are distinct, so no entry replaces another one.
  have hasc : Nested.Ascending found := by
    have hsorted := ascending_iff.1 (ascending_sortBy (of_pairs hes hv).1)
    rw [map_eq_map_of_forall₂ (hpairs.imp fun e e' he => he.1)] at hsorted
    exact ascending_iff.2 hsorted
  exact ⟨es, found, hes, by rw [Nested.foldl_setEntry_of_ascending hasc], hpairs⟩

-- What is written for an object: the attributes of one field after those of another.
theorem writes_of_encode_attrs {name : Text} {v : Value} {b : Bytes}
    (h : (Payload.attrs name).encode sets v = .ok b) : ∃ obj ass, v = .object obj ∧
      b = Writer.stream ass.flatten ∧
      List.Forall₂ (fun f as => List.Forall₂ (f.Writes sets) (f.written (Object.get obj f.name)) as)
        (sets.fields name) ass := by
  cases v with
  | object obj =>
      rw [encode_attrs] at h
      split at h
      · cases h
      · rcases map_eq_ok_iff.1 h with ⟨ass, hass, rfl⟩
        exact ⟨obj, ass, rfl, rfl,
          (mapM_eq_ok_iff.1 hass).imp fun f as has => Field.writes_of_attributes has⟩
  | _ =>
      rw [encode] at h
      · cases h
      · intro obj hobj
        cases hobj

/-- The written values of each field are restored one by one. -/
theorem attrs {name : Text} (hnames : ((sets.fields name).map Field.name).Nodup)
    (hindices : ((sets.fields name).map Field.index).Nodup) {v v' : Value}
    (h : (attrs name).Restored sets v v') : ∃ obj obj', v = .object obj ∧ v' = .object obj' ∧
      ∀ f ∈ sets.fields name, ∃ vs,
        List.Forall₂ (f.payload.Restored sets) (f.written (Object.get obj f.name)) vs ∧
          Object.get obj' f.name = (f.collected vs).getD .null := by
  rcases h with ⟨b, henc, hdec⟩
  rcases writes_of_encode_attrs henc with ⟨obj, ass, rfl, rfl, hwrites⟩
  have hwalk : Attribute.walk (Writer.stream ass.flatten)
      = (ass.flatten.map Attribute.plain, none) := by
    refine Attribute.walk_stream fun a ha => ?_
    rcases List.mem_flatten.1 ha with ⟨as, has, ha⟩
    rcases forall₂_right hwrites has with ⟨f, -, hf⟩
    rcases forall₂_right hf ha with ⟨x, -, hx⟩
    exact hx.accepted
  rcases (decode_attrs sets).1 hdec with ⟨-, os, -, rfl⟩
  refine ⟨obj, _, rfl, rfl, fun f hf => ?_⟩
  -- A field is decoded from the attributes with its number, and these are the ones written for it.
  rcases collected_of_decode_attrs hnames hindices hwalk hdec with ⟨-, -, hvalue⟩
  rcases hvalue f hf with ⟨vs, hreads, hvs⟩
  rcases Attribute.ofType_flatten hwrites (fun _ _ has => Field.index_of_writes has) hindices hf
    with ⟨as, has, htype⟩
  rw [htype, List.forall₂_map_left_iff] at hreads
  refine ⟨vs, ?_, by rw [Object.get_eq_value?, hvs]⟩
  exact forall₂_trans (fun x a x' hx hx' => ⟨a.2, hx.payload, hx'.2⟩) has hreads

end Restored

/-- A part of a value, with its payload, one step away. The values of a repeated field are counted
    without those that are left out, since the others move up. -/
inductive PartAt (sets : AttrSets) : Payload → Value → Step → Payload → Value → Prop
  | field {name key : Text} {obj : Object} {f : Field} (hf : f ∈ sets.fields name)
      (hkey : f.name = key) (hrep : f.repeated = false)
      (hset : (Object.get obj key).isNull = false) :
      PartAt sets (.attrs name) (.object obj) (.field key) f.payload (Object.get obj key)
  | occurrence {name key : Text} {obj : Object} {f : Field} {i : Nat} {x : Value}
      (hf : f ∈ sets.fields name) (hkey : f.name = key) (hrep : f.repeated = true)
      (hx : (f.written (Object.get obj key))[i]? = some x) :
      PartAt sets (.attrs name) (.object obj) (.occurrence key i) f.payload x
  | item {zero : Bool} {elem : Payload} {v : Value} {items : List Value} {i : Nat} {x : Value}
      (hitems : v.items? = some items) (hx : items[i]? = some x) :
      PartAt sets (.array zero elem) v (.item i) elem x
  | entry {elem : Payload} {v : Value} {es : List (UInt16 × Value)} {key : UInt16} {x : Value}
      (hes : pairs v = .ok es) (hx : (key, x) ∈ es) : PartAt sets (.map elem) v (.entry key) elem x

/-- A flag with the given value is at a place of a value. -/
def FlagAt (sets : AttrSets) (b : Bool) : Payload → Value → List Step → Prop
  | p, v, [] => p = .flag ∧ v = .bool b
  | p, v, s :: rest => ∃ q x, PartAt sets p v s q x ∧ FlagAt sets b q x rest

theorem omits_eq_true_iff {p : Payload} {v : Value} :
    p.omits v = true ↔ p = .flag ∧ v = .bool false := by
  constructor
  · intro h
    unfold omits at h
    split at h
    · exact ⟨rfl, rfl⟩
    · cases h
  · rintro ⟨rfl, rfl⟩
    rfl

-- A flag that is left out is nowhere but where it stands itself.
theorem flagAt_of_omits {b : Bool} {p : Payload} {v : Value} {place : List Step}
    (h : p.omits v = true) (hflag : FlagAt sets b p v place) : b = false ∧ place = [] := by
  rcases omits_eq_true_iff.1 h with ⟨rfl, rfl⟩
  cases place with
  | nil => exact ⟨(Value.bool.inj hflag.2).symm, rfl⟩
  | cons s rest =>
      rcases hflag with ⟨q, x, hpart, -⟩
      cases hpart

section Places

variable (hnames : ∀ name, ((sets.fields name).map Field.name).Nodup)
  (hindices : ∀ name, ((sets.fields name).map Field.index).Nodup)

theorem PartAt.keysDistinct {p q : Payload} {v x : Value} {s : Step} (h : PartAt sets p v s q x)
    (hv : v.KeysDistinct) : x.KeysDistinct := by
  cases h with
  | @field _ key obj => exact hv.get key
  | @occurrence _ key obj f i x hf _ hrep hx =>
      have hmem := (List.mem_filter.1 (List.mem_of_getElem? hx)).1
      rw [hrep] at hmem
      cases hitems : (Object.get obj key).items? with
      | none => simp [hitems] at hmem
      | some items =>
          rw [hitems] at hmem
          split at hmem
          · cases hmem
          · exact (hv.get key).of_mem_items hitems hmem
  | item hitems hx => exact hv.of_mem_items hitems (List.mem_of_getElem? hx)
  | entry hes hx => exact (of_pairs hes hv).2 _ hx

include hnames hindices in
/-- A part that is restored was written from a part at the same place, and was not left out if it is
    that of a field. -/
theorem PartAt.origin {p q : Payload} {v v' x' : Value} {s : Step} (h : PartAt sets p v' s q x')
    (hv : v.KeysDistinct) (hrestored : p.Restored sets v v') :
    ∃ x, PartAt sets p v s q x ∧ q.Restored sets x x' ∧
      (s.isElement = true ∨ q.omits x = false) := by
  cases h with
  | @field name key obj' f hf hkey hrep hset =>
      subst hkey
      rcases hrestored.attrs (hnames name) (hindices name) with ⟨obj, _, rfl, hobj, hfields⟩
      cases hobj
      rcases hfields f hf with ⟨vs, hvs, hget⟩
      rw [hget] at hset ⊢
      rcases Restored.single hrep hvs with ⟨-, hnone⟩ | ⟨hnull, hkept, hx⟩
      · rw [hnone] at hset
        cases hset
      · exact ⟨_, .field hf rfl hrep hnull, hx, Or.inr hkept⟩
  | @occurrence name key obj' f i x' hf hkey hrep hx =>
      subst hkey
      rcases hrestored.attrs (hnames name) (hindices name) with ⟨obj, _, rfl, hobj, hfields⟩
      cases hobj
      rcases hfields f hf with ⟨vs, hvs, hget⟩
      rw [hget, Field.written_repeated hrep (Restored.not_omits hvs)] at hx
      rcases forall₂_getElem? hvs.flip hx with ⟨x, hx, hxx'⟩
      exact ⟨x, .occurrence hf rfl hrep hx, hxx',
        Or.inr (Field.not_omits_of_mem_written (List.mem_of_getElem? hx))⟩
  | item hitems hx =>
      rcases hrestored.array with ⟨items, vs, horigin, rfl, hvs⟩
      cases hitems
      rcases forall₂_getElem? hvs.flip hx with ⟨x, hx, hxx'⟩
      exact ⟨x, .item horigin hx, hxx', Or.inl rfl⟩
  | @entry _ _ es' key x' hes hx =>
      rcases hrestored.map hv with ⟨es, found, horigin, rfl, hfound⟩
      rw [pairs_map, Except.ok.injEq] at hes
      subst hes
      rcases forall₂_right hfound hx with ⟨e, he, hkey, hee'⟩
      cases hkey
      exact ⟨e.2, .entry horigin (mem_sortBy.1 he), hee', Or.inl rfl⟩

include hnames hindices in
/-- A part is restored at its place, unless it is the value of a field and is left out. -/
theorem PartAt.restored {p q : Payload} {v v' x : Value} {s : Step} (h : PartAt sets p v s q x)
    (hv : v.KeysDistinct) (hrestored : p.Restored sets v v') :
    s.isElement = false ∧ q.omits x = true ∨
      ∃ x', PartAt sets p v' s q x' ∧ q.Restored sets x x' := by
  cases h with
  | @field name key obj f hf hkey hrep hset =>
      subst hkey
      rcases hrestored.attrs (hnames name) (hindices name) with ⟨_, obj', hobj, rfl, hfields⟩
      cases hobj
      rcases hfields f hf with ⟨vs, hvs, hget⟩
      rcases Restored.single hrep hvs with ⟨hnull | homits, -⟩ | ⟨-, -, hx⟩
      · rw [hset] at hnull
        cases hnull
      · exact Or.inl ⟨rfl, homits⟩
      · rw [← hget] at hx
        exact Or.inr ⟨_, .field hf rfl hrep hx.present.1, hx⟩
  | @occurrence name key obj f i x hf hkey hrep hx =>
      subst hkey
      rcases hrestored.attrs (hnames name) (hindices name) with ⟨_, obj', hobj, rfl, hfields⟩
      cases hobj
      rcases hfields f hf with ⟨vs, hvs, hget⟩
      rcases forall₂_getElem? hvs hx with ⟨x', hx', hxx'⟩
      rw [← Field.written_repeated hrep (Restored.not_omits hvs), ← hget] at hx'
      exact Or.inr ⟨x', .occurrence hf rfl hrep hx', hxx'⟩
  | item hitems hx =>
      rcases hrestored.array with ⟨items, vs, horigin, rfl, hvs⟩
      rw [hitems] at horigin
      cases horigin
      rcases forall₂_getElem? hvs hx with ⟨x', hx', hxx'⟩
      exact Or.inr ⟨x', .item rfl hx', hxx'⟩
  | @entry _ _ es key x hes hx =>
      rcases hrestored.map hv with ⟨_, found, horigin, rfl, hfound⟩
      rw [hes] at horigin
      cases horigin
      rcases forall₂_left hfound (mem_sortBy.2 hx) with ⟨e, he, hkey, hee'⟩
      cases hkey
      exact Or.inr ⟨e.2, .entry (pairs_map _) he, hee'⟩

include hnames hindices in
/-- The flags there are after a round trip: all are true, where they were true and where an element
    of an array or a map was false. -/
theorem flagAt_restored_iff {b : Bool} {p : Payload} {v v' : Value} (hv : v.KeysDistinct)
    (hrestored : p.Restored sets v v') (place : List Step) :
    FlagAt sets b p v' place ↔ b = true ∧ (FlagAt sets true p v place ∨
      FlagAt sets false p v place ∧ Step.EndsInElement place) := by
  -- By induction on the place, for all values with that part: one step leads from parts that are
  -- restored to parts that are restored.
  induction place generalizing p v v' with
  | nil =>
      constructor
      · rintro ⟨rfl, rfl⟩
        refine ⟨Value.bool.inj hrestored.flag, ?_⟩
        rcases hrestored with ⟨c, henc, -⟩
        rw [encode] at henc
        cases v with
        | bool set =>
            cases set with
            | true => exact Or.inl ⟨rfl, rfl⟩
            | false => exact Or.inr ⟨⟨rfl, rfl⟩, Step.endsInElement_nil⟩
        | _ => cases henc
      · rintro ⟨rfl, ⟨rfl, -⟩ | ⟨⟨rfl, -⟩, -⟩⟩
        · exact ⟨rfl, hrestored.flag⟩
        · exact ⟨rfl, hrestored.flag⟩
  | cons s rest ih =>
      rw [Step.endsInElement_cons]
      constructor
      · rintro ⟨q, x', hpart, hflag⟩
        rcases hpart.origin hnames hindices hv hrestored with ⟨x, horigin, hx, hkept⟩
        rcases (ih (horigin.keysDistinct hv) hx).1 hflag with ⟨rfl, htrue | ⟨hfalse, hends⟩⟩
        · exact ⟨rfl, Or.inl ⟨q, x, horigin, htrue⟩⟩
        · refine ⟨rfl, Or.inr ⟨⟨q, x, horigin, hfalse⟩, hends, fun hnil => ?_⟩⟩
          subst hnil
          -- A flag that is false and was not left out is an element.
          rcases hkept with helement | hkept
          · exact helement
          · rw [omits_eq_true_iff.2 hfalse] at hkept
            cases hkept
      · rintro ⟨rfl, ⟨q, x, hpart, htrue⟩ | ⟨⟨q, x, hpart, hfalse⟩, hends, helement⟩⟩
        · -- What is left out has no true flag.
          rcases hpart.restored hnames hindices hv hrestored with ⟨-, homits⟩ | ⟨x', hx', hxx'⟩
          · cases (flagAt_of_omits homits htrue).1
          · exact ⟨q, x', hx', (ih (hpart.keysDistinct hv) hxx').2 ⟨rfl, Or.inl htrue⟩⟩
        · rcases hpart.restored hnames hindices hv hrestored with ⟨hfield, homits⟩ | ⟨x', hx', hxx'⟩
          · rw [helement (flagAt_of_omits homits hfalse).2] at hfield
            cases hfield
          · exact ⟨q, x', hx', (ih (hpart.keysDistinct hv) hxx').2 ⟨rfl, Or.inr ⟨hfalse, hends⟩⟩⟩

include hnames in
theorem PartAt.unique {p q q' : Payload} {v x x' : Value} {s : Step} (hv : v.KeysDistinct)
    (h : PartAt sets p v s q x) (h' : PartAt sets p v s q' x') : q = q' ∧ x = x' := by
  cases h with
  | @field name key obj f hf hkey hrep hset =>
      cases h' with
      | field hf' hkey' =>
          rw [List.inj_on_of_nodup_map (hnames name) hf hf' (hkey.trans hkey'.symm)]
          exact ⟨rfl, rfl⟩
  | @occurrence name key obj f i x hf hkey hrep hx =>
      cases h' with
      | occurrence hf' hkey' _ hx' =>
          obtain rfl := List.inj_on_of_nodup_map (hnames name) hf hf' (hkey.trans hkey'.symm)
          exact ⟨rfl, Option.some.inj (hx.symm.trans hx')⟩
  | item hitems hx =>
      cases h' with
      | item hitems' hx' =>
          cases hitems.symm.trans hitems'
          exact ⟨rfl, Option.some.inj (hx.symm.trans hx')⟩
  | entry hes hx =>
      cases h' with
      | entry hes' hx' =>
          cases hes.symm.trans hes'
          exact ⟨rfl, congrArg Prod.snd (List.inj_on_of_nodup_map (of_pairs hes hv).1 hx hx' rfl)⟩

include hnames in
/-- A flag is not both true and false. -/
theorem flagAt_unique {b b' : Bool} {p : Payload} {v : Value} {place : List Step}
    (hv : v.KeysDistinct) (h : FlagAt sets b p v place) (h' : FlagAt sets b' p v place) :
    b = b' := by
  induction place generalizing p v with
  | nil => exact Value.bool.inj (h.2.symm.trans h'.2)
  | cons s rest ih =>
      rcases h with ⟨q, x, hpart, h⟩
      rcases h' with ⟨q', x', hpart', h'⟩
      rcases hpart.unique hnames hv hpart' with ⟨rfl, rfl⟩
      exact ih (hpart.keysDistinct hv) h h'

end Places

/-- Flags are elements only of arrays and maps of flags. -/
theorem elementOf_of_flagAt {b : Bool} {p : Payload} {v : Value} {place : List Step}
    (h : FlagAt sets b p v place) (hends : Step.EndsInElement place) :
    flag.ElementOf p ∨ sets.HasFlagElements := by
  induction place generalizing p v with
  | nil =>
      rw [h.1]
      exact Or.inl .refl
  | cons s rest ih =>
      rcases h with ⟨q, x, hpart, h⟩
      rcases Step.endsInElement_cons.1 hends with ⟨hends, hlast⟩
      rcases ih h hends with helem | hhas
      · -- A field whose flag is no element is the last step.
        have hfield : q = .flag → s.isElement = true := by
          rintro rfl
          cases rest with
          | nil => exact hlast rfl
          | cons t rest =>
              rcases h with ⟨_, _, hpart, -⟩
              cases hpart
        cases hpart with
        | field hf =>
            exact Or.inr ⟨_, _, hf, fun hflag => Bool.false_ne_true (hfield hflag), helem⟩
        | occurrence hf =>
            exact Or.inr ⟨_, _, hf, fun hflag => Bool.false_ne_true (hfield hflag), helem⟩
        | item => exact Or.inl helem.array
        | entry => exact Or.inl helem.map
      · exact Or.inr hhas

end Payload

namespace Schema

open Payload

/-- For every accepted schema and every object that is encoded as attributes: all flags that are
    decoded are true, and they are where a flag of the object was true or where an element of an
    array or a map was false. So a flag is true only where it was if no such element is false, as in
    every object if the schema has no arrays and maps of flags. -/
theorem flags_restored_iff {s : Schema} {o : CompileOptions} {compiled : Compiled}
    (hcompile : (s.compile o).output = some compiled) {name : Text} {sets : AttrSets}
    (hcodec : compiled.bundle.codec? name = some (.attrs sets name)) {obj : Object}
    (hkeys : (Value.object obj).KeysDistinct) {b : Bytes}
    (henc : (Codec.attrs sets name).encode obj = .ok b) :
    (s.Unambiguous → ∃ obj', (Codec.attrs sets name).decode b = .ok obj') ∧
    ∀ obj', (Codec.attrs sets name).decode b = .ok obj' →
      (∀ set place, FlagAt sets set (.attrs name) (.object obj') place ↔ set = true ∧
        (FlagAt sets true (.attrs name) (.object obj) place ∨
          FlagAt sets false (.attrs name) (.object obj) place ∧ Step.EndsInElement place)) ∧
      ((∀ place, FlagAt sets true (.attrs name) (.object obj') place →
          FlagAt sets true (.attrs name) (.object obj) place) ↔
        ∀ place, FlagAt sets false (.attrs name) (.object obj) place →
          ¬ Step.EndsInElement place) ∧
      (¬ sets.HasFlagElements → ∀ place, FlagAt sets true (.attrs name) (.object obj') place →
        FlagAt sets true (.attrs name) (.object obj) place) := by
  rcases accepted_of_compile hcompile with ⟨haccepted, hbundle⟩
  rw [hbundle] at hcodec
  obtain rfl : sets = s.bundle.attrSets := by
    rcases codec_cases hcodec with ⟨_, _, ⟨-, hattrs⟩ | ⟨-, hstruct⟩⟩
    · exact (Codec.attrs.inj hattrs).1
    · cases hstruct
  have hnames := attrSets_names haccepted
  refine ⟨fun hu => ?_, fun obj' hdec => ?_⟩
  · rcases Codec.encoded (codec_wellFormed haccepted hu hcodec) hkeys henc with ⟨obj', hdec, -⟩
    exact ⟨obj', hdec⟩
  have hflags := fun set place => flagAt_restored_iff (b := set) hnames (attrSets_indices s) hkeys
    ⟨b, henc, Codec.decode_attrs_eq_ok_iff.1 hdec⟩ place
  refine ⟨hflags, ⟨fun honly place hfalse hends => ?_, fun hno place htrue => ?_⟩,
    fun hno place htrue => ?_⟩
  · have htrue := honly place ((hflags true place).2 ⟨rfl, Or.inr ⟨hfalse, hends⟩⟩)
    cases flagAt_unique hnames hkeys htrue hfalse
  · rcases ((hflags true place).1 htrue).2 with h | ⟨hfalse, hends⟩
    · exact h
    · exact absurd hends (hno place hfalse)
  · rcases ((hflags true place).1 htrue).2 with h | ⟨hfalse, hends⟩
    · exact h
    · rcases elementOf_of_flagAt hfalse hends with helem | hhas
      · cases helem
      · exact absurd hhas hno

section Lighting

/-- A lamp with bulbs, which may be a lamp of many. -/
def lamp : TypeDef := declare none
  [⟨"bulbs", .array (.name "flag") false, .empty⟩,
    ⟨"blinks", .name "flag", { AttributeOptions.empty with repeated := true }⟩,
    ⟨"lit", .name "flag", .empty⟩,
    ⟨"parts", .map (.name "lamp"), .empty⟩] []

/-- A schema with flags in all places where flags can be. -/
def lighting : Schema where
  types := [("lamp", lamp)]
  distinct := by
    change (["lamp"].map Text.ofString).Nodup
    decide +kernel
  named := by
    change ∀ name ∈ ["lamp"].map Text.ofString, isTypeName name = true
    decide +kernel

/-- The attributes of a lamp. -/
def lampFields : List Field :=
  [⟨"bulbs", 1, false, .array false .flag⟩, ⟨"blinks", 2, true, .flag⟩, ⟨"lit", 3, false, .flag⟩,
    ⟨"parts", 4, false, .map (.attrs "lamp")⟩]

theorem lighting_field (i : Nat) {f : Field} (h : lampFields[i]? = some f) :
    f ∈ lighting.bundle.attrSets.fields "lamp" := by
  have hfields : lighting.bundle.attrSets.fields "lamp" = lampFields := rfl
  rw [hfields]
  exact List.mem_of_getElem? h

theorem lighting_compile : (lighting.compile .default).output
    = some ⟨lighting.bundle, lighting.describe.sign⟩ :=
  output_of_errors (by decide +kernel)

theorem lighting_codec :
    lighting.bundle.codec? "lamp" = some (.attrs lighting.bundle.attrSets "lamp") := by
  have hmem : (Text.ofString "lamp", lamp) ∈ lighting.types := by simp [lighting]
  exact codec?_attrs hmem rfl

/-- A lamp with flags that are true and flags that are false. -/
def lantern : Object :=
  [("blinks", .list [.bool false, .bool true]),
    ("bulbs", .list [.bool true, .bool false]),
    ("parts", .map [(7, .object [("lit", .bool false)])])]

/-- The flag of a part is not restored, the flag of a bulb is restored as true. -/
theorem lantern_flags_restored : ∃ b obj',
    (Codec.attrs lighting.bundle.attrSets "lamp").encode lantern = .ok b ∧
    (Codec.attrs lighting.bundle.attrSets "lamp").decode b = .ok obj' ∧
    FlagAt lighting.bundle.attrSets true (.attrs "lamp") (.object obj') [.occurrence "blinks" 0] ∧
    FlagAt lighting.bundle.attrSets true (.attrs "lamp") (.object obj') [.field "bulbs", .item 1] ∧
    ∀ set, ¬ FlagAt lighting.bundle.attrSets set (.attrs "lamp") (.object obj')
      [.field "parts", .entry 7, .field "lit"] := by
  have hsome : ((Codec.attrs lighting.bundle.attrSets "lamp").encode
      lantern).toOption.isSome = true := by decide +kernel
  have hkeys : (Value.object lantern).KeysDistinct := by
    simp only [lantern, Value.KeysDistinct, Value.FieldsDistinct, Value.ItemsDistinct,
      Value.EntriesDistinct]
    decide +kernel
  have hunambiguous : lighting.Unambiguous := by constructor <;> decide +kernel
  rcases exists_ok_of_isSome hsome with ⟨b, henc⟩
  rcases flags_restored_iff lighting_compile lighting_codec hkeys henc with ⟨hdec, hflags⟩
  rcases hdec hunambiguous with ⟨obj', hdec⟩
  rcases hflags obj' hdec with ⟨hflags, -, -⟩
  refine ⟨b, obj', henc, hdec, (hflags _ _).2 ⟨rfl, Or.inl ?_⟩,
    (hflags _ _).2 ⟨rfl, Or.inr ⟨?_, ?_⟩⟩, fun set h => ?_⟩
  · exact ⟨_, _, .occurrence (lighting_field 1 rfl) rfl rfl rfl, rfl, rfl⟩
  · exact ⟨_, _, .field (lighting_field 0 rfl) rfl rfl rfl, _, _, .item rfl rfl, rfl, rfl⟩
  · intro s hs
    cases hs
    rfl
  · have hfalse : FlagAt lighting.bundle.attrSets false (.attrs "lamp") (.object lantern)
        [.field "parts", .entry 7, .field "lit"] :=
      ⟨_, _, .field (lighting_field 3 rfl) rfl rfl rfl, _, _, .entry rfl List.mem_cons_self, _, _,
        .field (lighting_field 2 rfl) rfl rfl rfl, rfl, rfl⟩
    have haccepted := (accepted_of_compile lighting_compile).1
    rcases ((hflags _ _).1 h).2 with htrue | ⟨-, hends⟩
    · cases flagAt_unique (attrSets_names haccepted) hkeys htrue hfalse
    · cases hends _ rfl

/-- The flag of a bulb is false, and is decoded as true. -/
theorem dark_bulb_lit :
    (lighting.compile .default).output = some ⟨lighting.bundle, lighting.describe.sign⟩ ∧
    lighting.bundle.codec? "lamp" = some (.attrs lighting.bundle.attrSets "lamp") ∧
    (Codec.attrs lighting.bundle.attrSets "lamp").encode [("bulbs", .list [.bool false])]
      = .ok [8, 0, 1, 0, 4, 0, 1, 0] ∧
    (Codec.attrs lighting.bundle.attrSets "lamp").decode [8, 0, 1, 0, 4, 0, 1, 0]
      = .ok [("bulbs", .list [.bool true])] ∧
    FlagAt lighting.bundle.attrSets false (.attrs "lamp") (.object [("bulbs", .list [.bool false])])
      [.field "bulbs", .item 0] ∧
    FlagAt lighting.bundle.attrSets true (.attrs "lamp") (.object [("bulbs", .list [.bool true])])
      [.field "bulbs", .item 0] := by
  refine ⟨lighting_compile, lighting_codec, by decide +kernel, by with_unfolding_all rfl, ?_, ?_⟩
  · exact ⟨_, _, .field (lighting_field 0 rfl) rfl rfl rfl, _, _, .item rfl rfl, rfl, rfl⟩
  · exact ⟨_, _, .field (lighting_field 0 rfl) rfl rfl rfl, _, _, .item rfl rfl, rfl, rfl⟩

end Lighting

end Schema

end NetlinkSchema
