import NetlinkSchema.Proofs.Absent

/-!
# The order of entries

The entries of an object come in no particular order. Encoding goes through them all the same: flags
and enums take them one by one, and a struct looks for a key that is not declared. It may come upon
different errors in different orders. What it makes of the object, bytes or a failure, is the same
in all orders.

This is shown for whole values, in which the entries of all objects and maps may come in another
order. A value that has been reordered anywhere is still a list, an object or a map, so whoever
expects something else refuses it in all orders.

## Main definitions

* `Value.Reorders`: One object or map inside a value has its entries in another order.
* `Value.Interchangeable`: No encoder can tell the values apart.

## Theorems

* `Object.corresponds_of_perm`: Entries with distinct keys may come in any order.
* `MemberType.refuses`, `Payload.refuses`: Lists, objects and maps in the wrong place.
* `Value.Reorders.interchangeable`: A step cannot be told from any encoding.
* `entry_order_ignored`: Neither can any number of steps.
-/

namespace NetlinkSchema

namespace Object

theorem value?_eq_some_iff {obj : Object} (h : (obj.map Prod.fst).Nodup) {name : Text} {v : Value} :
    value? obj name = some v ↔ (name, v) ∈ obj := by
  unfold value?
  constructor
  · intro hfound
    rcases Option.map_eq_some_iff.1 hfound with ⟨e, he, rfl⟩
    have hname : e.1 = name := by simpa using List.find?_some he
    rw [← hname]
    exact List.mem_of_find?_eq_some he
  · intro hmem
    rw [find?_key h hmem, Option.map_some]

/-- Objects with the same entries in another order correspond, as keys are distinct. -/
theorem corresponds_of_perm {R : Text → Value → Value → Prop} (hR : ∀ k v, R k v v) {a b : Object}
    (h : a.Perm b) (hdistinct : (a.map Prod.fst).Nodup) : Corresponds R a b := by
  have hdistinct' : (b.map Prod.fst).Nodup := (h.map Prod.fst).nodup_iff.1 hdistinct
  refine .of_same hR (fun e _ => h.mem_iff) fun name => ?_
  have hvalue : value? a name = value? b name := by
    refine Option.ext fun v => ?_
    rw [value?_eq_some_iff hdistinct, value?_eq_some_iff hdistinct', h.mem_iff]
  rw [get_eq_value?, get_eq_value?, hvalue]

end Object

section Refusal

variable {v w : Value}

theorem Number.put_of_isComposite (num : Number) (h : v.isComposite = true) :
    ∃ e, num.put v = .error e := by
  rcases num with ⟨kind, order⟩
  rcases Value.composite_cases h with ⟨_, rfl⟩ | ⟨_, rfl⟩ | ⟨_, rfl⟩ | ⟨_, rfl⟩ | ⟨_, rfl⟩ <;>
    cases kind <;> exact ⟨_, rfl⟩

theorem EnumType.encodeName_of_isComposite (e : EnumType) (h : v.isComposite = true) :
    e.encodeName v = .ok v := by
  rcases Value.composite_cases h with ⟨_, rfl⟩ | ⟨_, rfl⟩ | ⟨_, rfl⟩ | ⟨_, rfl⟩ | ⟨_, rfl⟩ <;> rfl

/-- An integer field takes an object or nothing of the kind. -/
theorem Lowering.refuses {l : Lowering} (num : Number) (hv : v.isComposite = true)
    (h : l.takesObject = true → ∀ obj, v ≠ .object obj) : ∃ e, l.toBytes num v = .error e := by
  have hobject : ∀ want encode, (∀ obj, v ≠ .object obj) →
      ∃ e, objectBytes num want v encode = .error e := by
    intro want encode hne
    cases henc : objectBytes num want v encode with
    | error e => exact ⟨e, rfl⟩
    | ok b =>
        rcases objectBytes_eq_ok henc with ⟨obj, bits, hobj, -⟩
        exact absurd hobj (hne obj)
  cases l with
  | none => exact num.put_of_isComposite hv
  | enum e =>
      rw [toBytes, e.encodeName_of_isComposite hv, ok_bind]
      exact num.put_of_isComposite hv
  | bitmask e => exact hobject _ _ (h rfl)
  | flags f => exact hobject _ _ (h rfl)

namespace MemberType

/-- Which lists, objects and maps a struct member takes. -/
def takes : MemberType → Value → Bool
  | number _ lower, .object _ => lower.takesObject
  | struct _ _, .object _ => true
  | array _ _, .list _ => true
  | _, _ => false

theorem refuses {t : MemberType} (hv : v.isComposite = true) (h : t.takes v = false)
    (buf : Bytes) : ∃ e, outcome (t.write v buf) = .error e := by
  cases t with
  | number num lower =>
      have hbytes : ∃ e, lower.toBytes num v = .error e := by
        refine Lowering.refuses num hv fun htakes obj hobj => ?_
        subst hobj
        have hno : lower.takesObject = false := h
        rw [htakes] at hno
        cases hno
      rcases hbytes with ⟨e, he⟩
      rw [write, he]
      exact ⟨e, rfl⟩
  | bytes _ | bool =>
      rcases Value.composite_cases hv with ⟨_, rfl⟩ | ⟨_, rfl⟩ | ⟨_, rfl⟩ | ⟨_, rfl⟩ | ⟨_, rfl⟩ <;>
        exact ⟨_, rfl⟩
  | struct name members =>
      rcases Value.composite_cases hv with ⟨_, rfl⟩ | ⟨_, rfl⟩ | ⟨_, rfl⟩ | ⟨_, rfl⟩ | ⟨_, rfl⟩
      · cases h
      all_goals exact ⟨_, rfl⟩
  | array count elem =>
      rcases Value.composite_cases hv with ⟨_, rfl⟩ | ⟨_, rfl⟩ | ⟨_, rfl⟩ | ⟨_, rfl⟩ | ⟨_, rfl⟩
      · exact ⟨_, rfl⟩
      · cases h
      all_goals exact ⟨_, rfl⟩

/-- Values that are refused alike are the same to a member. -/
theorem same_of_takes {t : MemberType} (hv : v.isComposite = true) (hw : w.isComposite = true)
    (htakes : t.takes v = t.takes w) (h : t.takes v = true → t.Same v w) : t.Same v w := by
  by_cases hyes : t.takes v = true
  · exact h hyes
  · intro buf
    have hno := Bool.eq_false_iff.2 hyes
    exact .of_errors (refuses hv hno buf) (refuses hw (htakes ▸ hno) buf)

end MemberType

namespace Payload

variable (sets : AttrSets)

/-- Which lists, objects and maps a payload takes. An empty object is an empty map as well. -/
def takes : Payload → Value → Bool
  | array _ _, .list _ => true
  | map _, .map _ => true
  | map _, .intMap _ => true
  | map _, .object fields => fields.isEmpty
  | map _, .textMap entries => entries.isEmpty
  | p, .object _ => p.takesObject
  | _, _ => false

theorem pairs_refuses {elem : Payload} (hv : v.isComposite = true)
    (h : (map elem).takes v = false) : ∃ e, pairs v = .error e := by
  rcases Value.composite_cases hv with
    ⟨fields, rfl⟩ | ⟨items, rfl⟩ | ⟨es, rfl⟩ | ⟨es, rfl⟩ | ⟨es, rfl⟩
  · cases fields with
    | nil => cases h
    | cons e rest => exact ⟨_, rfl⟩
  · exact ⟨_, rfl⟩
  · cases h
  · cases h
  · cases es with
    | nil => cases h
    | cons e rest => exact ⟨_, rfl⟩

theorem refuses {p : Payload} (hv : v.isComposite = true) (h : p.takes v = false) :
    ∃ e, p.encode sets v = .error e := by
  cases p with
  | number num lower =>
      rw [encode]
      refine Lowering.refuses num hv fun htakes obj hobj => ?_
      subst hobj
      have hno : lower.takesObject = false := h
      rw [htakes] at hno
      cases hno
  | array zero elem =>
      cases henc : (array zero elem).encode sets v with
      | error e => exact ⟨e, rfl⟩
      | ok b =>
          rcases items?_of_encode_array sets henc with ⟨items, hitems⟩
          rcases Value.composite_cases hv with
            ⟨_, rfl⟩ | ⟨_, rfl⟩ | ⟨_, rfl⟩ | ⟨_, rfl⟩ | ⟨_, rfl⟩
          · cases hitems
          · cases h
          all_goals cases hitems
  | map elem =>
      rcases pairs_refuses hv h with ⟨e, he⟩
      rw [encode_map, he]
      exact ⟨e, rfl⟩
  | string _ | data | bool | flag =>
      rw [encode]
      rcases Value.composite_cases hv with ⟨_, rfl⟩ | ⟨_, rfl⟩ | ⟨_, rfl⟩ | ⟨_, rfl⟩ | ⟨_, rfl⟩ <;>
        exact ⟨_, rfl⟩
  | flagList _ | struct _ | attrs _ =>
      -- An object is taken. A list or a map is refused.
      unfold encode
      rcases Value.composite_cases hv with ⟨_, rfl⟩ | ⟨_, rfl⟩ | ⟨_, rfl⟩ | ⟨_, rfl⟩ | ⟨_, rfl⟩
      · cases h
      all_goals exact ⟨_, rfl⟩

/-- Values that are refused alike are the same to a payload. -/
theorem same_of_takes {sets : AttrSets} {p : Payload} (hv : v.isComposite = true)
    (hw : w.isComposite = true) (htakes : p.takes v = p.takes w)
    (h : p.takes v = true → p.Same sets v w) : p.Same sets v w := by
  by_cases hyes : p.takes v = true
  · exact h hyes
  · have hno := Bool.eq_false_iff.2 hyes
    exact .of_composite hv hw (.of_errors (refuses sets hv hno) (refuses sets hw (htakes ▸ hno)))

end Payload

end Refusal

namespace Value

/-- No encoder can tell the values apart. -/
structure Interchangeable (v w : Value) : Prop where
  left : v.isComposite = true
  right : w.isComposite = true
  member : ∀ t : MemberType, t.Same v w
  payload : ∀ (sets : AttrSets) (p : Payload), p.Same sets v w
  field : ∀ (sets : AttrSets) (f : Field), f.Same sets v w

/-- The value is a map of any kind. -/
def isMapping : Value → Bool
  | map _ | intMap _ | textMap _ => true
  | _ => false

/-- A map is no sequence, and nothing but a payload that is a map takes it. -/
theorem shape_of_isMapping {v : Value} (h : v.isMapping = true) :
    v.isComposite = true ∧ v.items? = none ∧ (∀ t : MemberType, t.takes v = false) ∧
      ∀ p : Payload, (∀ elem, p ≠ .map elem) → p.takes v = false := by
  have hcases : (∃ es, v = map es) ∨ (∃ es, v = intMap es) ∨ ∃ es, v = textMap es := by
    cases v with
    | map es => exact Or.inl ⟨es, rfl⟩
    | intMap es => exact Or.inr (Or.inl ⟨es, rfl⟩)
    | textMap es => exact Or.inr (Or.inr ⟨es, rfl⟩)
    | _ => cases h
  rcases hcases with ⟨es, rfl⟩ | ⟨es, rfl⟩ | ⟨es, rfl⟩ <;>
    refine ⟨rfl, rfl, fun t => by cases t <;> rfl, fun p hp => ?_⟩ <;>
    cases p with
    | map elem => exact absurd rfl (hp elem)
    | _ => rfl

/-- Values are equal, or no encoder can tell them apart. -/
def Alike (v w : Value) : Prop := v = w ∨ v.Interchangeable w

theorem Alike.refl (v : Value) : v.Alike v := Or.inl rfl

variable {v w : Value}

namespace Alike

theorem sameMark (h : v.Alike w) : v.SameMark w :=
  h.imp_right fun hboth => ⟨hboth.left, hboth.right⟩

theorem member (h : v.Alike w) (t : MemberType) : t.Same v w := by
  rcases h with rfl | hboth
  · exact MemberType.Same.refl t v
  · exact hboth.member t

theorem field (h : v.Alike w) (sets : AttrSets) (f : Field) : f.Same sets v w := by
  rcases h with rfl | hboth
  · exact Field.Same.refl f v
  · exact hboth.field sets f

theorem layout (h : v.Alike w) (l : Layout) (key : Text) : l.SameUnder key v w :=
  ⟨fun t _ => h.member t, h.sameMark⟩

end Alike

namespace Interchangeable

/-- A repeated field refuses what is no sequence, and another field hands the value on. -/
theorem of_no_items (hv : v.isComposite = true) (hw : w.isComposite = true)
    (hvitems : v.items? = none) (hwitems : w.items? = none) (hmember : ∀ t : MemberType, t.Same v w)
    (hpayload : ∀ (sets : AttrSets) (p : Payload), p.Same sets v w) : v.Interchangeable w := by
  refine ⟨hv, hw, hmember, hpayload, fun sets f => ?_⟩
  cases hrep : f.repeated with
  | false => exact Field.same_single hrep (hpayload sets f.payload)
  | true =>
      intro type
      unfold Field.valueAttributes
      rw [hrep, hvitems, hwitems]
      exact .error _ _

/-- A map is taken by a payload that is a map, and by nothing else. -/
theorem of_isMapping (hv : v.isMapping = true) (hw : w.isMapping = true)
    (hmap : ∀ (sets : AttrSets) (elem : Payload), (Payload.map elem).Same sets v w) :
    v.Interchangeable w := by
  rcases shape_of_isMapping hv with ⟨hvc, hvitems, hvmember, hvpayload⟩
  rcases shape_of_isMapping hw with ⟨hwc, hwitems, hwmember, hwpayload⟩
  refine of_no_items hvc hwc hvitems hwitems (fun t => ?_) fun sets p => ?_
  · refine MemberType.same_of_takes hvc hwc ((hvmember t).trans (hwmember t).symm) fun ht => ?_
    rw [hvmember t] at ht
    cases ht
  · by_cases hp : ∃ elem, p = .map elem
    · rcases hp with ⟨elem, rfl⟩
      exact hmap sets elem
    · have hno := hvpayload p fun elem heq => hp ⟨elem, heq⟩
      have hno' := hwpayload p fun elem heq => hp ⟨elem, heq⟩
      refine Payload.same_of_takes hvc hwc (hno.trans hno'.symm) fun hyes => ?_
      rw [hno] at hyes
      cases hyes

/-- Objects whose values are alike under the same keys. -/
theorem object {a b : Object} (hempty : a.isEmpty = b.isEmpty)
    (h : Object.Corresponds (fun _ => Alike) a b) :
    (Value.object a).Interchangeable (.object b) := by
  have hmark : Object.Corresponds (fun _ => SameMark) a b := h.mono fun _ _ _ hvw => hvw.sameMark
  refine of_no_items rfl rfl rfl rfl (fun t => ?_) fun sets p => ?_
  · refine MemberType.same_of_takes rfl rfl (by cases t <;> rfl) fun ht => ?_
    cases t with
    | number num lower =>
        exact MemberType.same_number (Lowering.sameResult_toBytes ht num hmark)
    | struct name members =>
        exact MemberType.same_struct (h.mono fun _ _ _ hvw t _ => hvw.member t)
    | _ => cases ht
  · have htakes : p.takes (.object a) = p.takes (.object b) := by
      cases p with
      | map elem => exact hempty
      | _ => rfl
    refine Payload.same_of_takes rfl rfl htakes fun hp => ?_
    cases p with
    | attrs name =>
        exact Payload.same_object rfl (h.mono fun _ _ _ hvw f _ _ => hvw.field sets f)
    | struct l => exact Payload.same_object rfl (h.mono fun key _ _ hvw => hvw.layout l key)
    | flagList e => exact Payload.same_object rfl hmark
    | number num lower => exact Payload.same_object hp hmark
    | map elem =>
        -- An object that is taken for a map is empty.
        have ha : a = [] := List.isEmpty_iff.1 hp
        have hb : b = [] := List.isEmpty_iff.1 (hempty ▸ hp)
        rw [ha, hb]
        exact Payload.Same.refl _ _
    | _ => cases hp

/-- Objects that differ in the value of one entry. -/
theorem corresponds (h : v.Interchangeable w) {key : Text} (before after : Object) :
    Object.Corresponds (fun _ => Alike) (before ++ (key, v) :: after)
      (before ++ (key, w) :: after) :=
  .replace (fun _ => Alike.refl) (isNull_of_isComposite h.left) (isNull_of_isComposite h.right)
    (Or.inr h) before after

/-- Lists that differ in one element. -/
theorem item (h : v.Interchangeable w) (before after : List Value) :
    (list (before ++ v :: after)).Interchangeable (.list (before ++ w :: after)) := by
  have helements : ∀ (sets : AttrSets) (p : Payload),
      List.Forall₂ (p.Same sets) (before ++ v :: after) (before ++ w :: after) := fun sets p =>
    forall₂_replace (Payload.Same.refl p) (h.payload sets p) before after
  have hmember : ∀ t : MemberType,
      t.Same (list (before ++ v :: after)) (list (before ++ w :: after)) := by
    intro t
    refine MemberType.same_of_takes rfl rfl (by cases t <;> rfl) fun ht => ?_
    cases t with
    | array count elem =>
        exact MemberType.same_array
          (forall₂_replace (MemberType.Same.refl elem) (h.member elem) before after)
    | _ => cases ht
  have hpayload : ∀ (sets : AttrSets) (p : Payload),
      p.Same sets (list (before ++ v :: after)) (list (before ++ w :: after)) := by
    intro sets p
    refine Payload.same_of_takes rfl rfl (by cases p <;> rfl) fun hp => ?_
    cases p with
    | array zero elem => exact Payload.same_array (helements sets elem)
    | _ => cases hp
  refine ⟨rfl, rfl, hmember, hpayload, fun sets f => ?_⟩
  cases hrep : f.repeated with
  | false => exact Field.same_single hrep (hpayload sets f.payload)
  | true => exact Field.same_repeated hrep (helements sets f.payload)

end Interchangeable

/-- One object or map inside a value has its entries in another order. -/
inductive Reorders : Value → Value → Prop
  | object {a b : Object} : a.Perm b → (a.map Prod.fst).Nodup → Reorders (object a) (object b)
  | map {a b : List (UInt16 × Value)} : a.Perm b → (a.map Prod.fst).Nodup →
      Reorders (map a) (map b)
  | intMap {a b : List (Int64 × Value)} : a.Perm b → (a.map Prod.fst).Nodup →
      Reorders (intMap a) (intMap b)
  | textMap {a b : List (Text × Text)} : a.Perm b → Reorders (textMap a) (textMap b)
  | field {key : Text} {v w : Value} (before after : Object) : Reorders v w →
      Reorders (object (before ++ (key, v) :: after)) (object (before ++ (key, w) :: after))
  | item {v w : Value} (before after : List Value) : Reorders v w →
      Reorders (list (before ++ v :: after)) (list (before ++ w :: after))
  | mapEntry {key : UInt16} {v w : Value} (before after : List (UInt16 × Value)) :
      Reorders v w →
      Reorders (map (before ++ (key, v) :: after)) (map (before ++ (key, w) :: after))
  | intMapEntry {key : Int64} {v w : Value} (before after : List (Int64 × Value)) :
      Reorders v w →
      Reorders (intMap (before ++ (key, v) :: after)) (intMap (before ++ (key, w) :: after))

/-- The keys of a map by number are checked one by one, and they stay distinct. -/
theorem agrees_pairs_intMap {a b : List (Int64 × Value)} (h : a.Perm b)
    (hdistinct : (a.map Prod.fst).Nodup) :
    Agrees (fun es es' => es.Perm es' ∧ (es.map Prod.fst).Nodup) (Payload.pairs (intMap a))
      (Payload.pairs (intMap b)) := by
  rw [Payload.pairs_intMap, Payload.pairs_intMap]
  have hkeys : ∀ es, (a.mapM fun e => (Nested.typeOfKey e.1.toInt).map fun key => (key, e.2))
      = .ok es → (es.map Prod.fst).Nodup := by
    intro es hes
    refine nodup_of_forall₂ (mapM_eq_ok_iff.1 hes) ?_ hdistinct
    intro x y x' y' hxy hxy' hkey
    rcases map_eq_ok_iff.1 hxy with ⟨type, htype, rfl⟩
    rcases map_eq_ok_iff.1 hxy' with ⟨type', htype', rfl⟩
    obtain rfl : type = type' := hkey
    exact Int64.toInt_inj.1 (Payload.typeOfKey_inj htype htype')
  have hperm := Agrees.mapM_of_perm (f := fun e : Int64 × Value =>
    (Nested.typeOfKey e.1.toInt).map fun key => (key, e.2)) h
  generalize (a.mapM fun e => (Nested.typeOfKey e.1.toInt).map fun key => (key, e.2)) = x
    at hkeys hperm ⊢
  generalize (b.mapM fun e => (Nested.typeOfKey e.1.toInt).map fun key => (key, e.2)) = y
    at hperm ⊢
  cases hperm with
  | ok hes => exact .ok ⟨hes, hkeys _ rfl⟩
  | error e e' => exact .error e e'

/-- No encoder can tell in which order the entries come. -/
theorem Reorders.interchangeable (h : Reorders v w) : v.Interchangeable w := by
  induction h with
  | object hperm hdistinct =>
      exact .object hperm.isEmpty_eq
        (Object.corresponds_of_perm (fun _ => Alike.refl) hperm hdistinct)
  | field before after _ ih =>
      refine .object ?_ (ih.corresponds before after)
      cases before with
      | nil => rfl
      | cons e rest => rfl
  | item before after _ ih => exact ih.item before after
  | map hperm hdistinct =>
      refine .of_isMapping rfl rfl fun sets elem => Payload.same_map_of_perm rfl rfl ?_
      rw [Payload.pairs_map, Payload.pairs_map]
      exact .ok ⟨hperm, hdistinct⟩
  | intMap hperm hdistinct =>
      exact .of_isMapping rfl rfl fun sets elem =>
        Payload.same_map_of_perm rfl rfl (agrees_pairs_intMap hperm hdistinct)
  | @textMap a b hperm =>
      refine .of_isMapping rfl rfl fun sets elem => ?_
      refine Payload.same_of_takes rfl rfl hperm.isEmpty_eq fun htakes => ?_
      -- Texts by name are taken for a map if there are none.
      obtain rfl : a = [] := List.isEmpty_iff.1 htakes
      rw [hperm.nil_eq]
      exact Payload.Same.refl _ _
  | mapEntry before after _ ih =>
      exact .of_isMapping rfl rfl fun sets elem =>
        Payload.same_map_replace (ih.payload sets elem) before after
  | intMapEntry before after _ ih =>
      exact .of_isMapping rfl rfl fun sets elem =>
        Payload.same_intMap_replace (ih.payload sets elem) before after

end Value

namespace Object

/-- One object or map, the object itself or one inside it, has its entries in another order. -/
def Reorders (a b : Object) : Prop := Value.Reorders (.object a) (.object b)

theorem Reorders.corresponds {a b : Object} (h : a.Reorders b) :
    Corresponds (fun _ => Value.Alike) a b := by
  cases h with
  | object hperm hdistinct => exact corresponds_of_perm (fun _ => Value.Alike.refl) hperm hdistinct
  | field before after hvw => exact hvw.interchangeable.corresponds before after

end Object

/-- Encoding does not depend on the order of entries. If objects and maps, the object itself and
    those inside it, have their entries in another order, then flags, the derived forms of enums,
    structs and attribute sets are encoded the same, or fail as well. -/
theorem entry_order_ignored {a b : Object} (h : Relation.ReflTransGen Object.Reorders a b) :
    (∀ f : FlagsType, SameResult (f.encode a) (f.encode b)) ∧
    (∀ e : EnumCodec, SameResult (e.encodeBitmask a) (e.encodeBitmask b) ∧
      SameResult (e.encodeFlagList a) (e.encodeFlagList b)) ∧
    ∀ c : Codec, SameResult (c.encode a) (c.encode b) ∧ ∀ buf,
      SameResult (MemberType.outcome (c.encodeInto a buf))
        (MemberType.outcome (c.encodeInto b buf)) := by
  have hmark : ∀ a b : Object, a.Reorders b →
      Object.Corresponds (fun _ => Value.SameMark) a b := fun a b hstep =>
    hstep.corresponds.mono fun _ _ _ hvw => hvw.sameMark
  have hlayout : ∀ (l : Layout) (a b : Object), a.Reorders b →
      Object.Corresponds l.SameUnder a b := fun l a b hstep =>
    hstep.corresponds.mono fun key _ _ hvw => hvw.layout l key
  refine ⟨fun f => ?_, fun e => ⟨?_, ?_⟩, fun c => ⟨?_, fun buf => ?_⟩⟩
  · exact .of_steps f.encode (fun a b hstep => FlagsType.sameResult_encode (hmark a b hstep)) h
  · exact .of_steps e.encodeBitmask (fun a b hstep => SameResult.bind (.refl _) fun _ =>
      EnumType.sameResult_encodeBitmask (hmark a b hstep)) h
  · exact .of_steps e.encodeFlagList (fun a b hstep => SameResult.bind (.refl _) fun _ =>
      EnumType.sameResult_encodeFlagList (hmark a b hstep)) h
  · refine .of_steps c.encode (fun a b hstep => ?_) h
    cases c with
    | attrs sets name => exact (hstep.interchangeable.payload sets (.attrs name)).encode
    | struct l => exact Layout.sameResult_encode (hlayout l a b hstep)
  · refine .of_steps (fun obj => MemberType.outcome (c.encodeInto obj buf)) (fun a b hstep => ?_) h
    cases c with
    | attrs sets name => exact .refl _
    | struct l => exact Layout.sameResult_encodeInto (hlayout l a b hstep) buf

namespace Schema

/-- A panel in two modes. -/
def modesFirst : Object :=
  [("mode", .object [("read", .bool true), ("write", .bool true)]), ("__unparsed", .bytes [5])]

/-- The same panel with all entries the other way round. -/
def modesLast : Object :=
  [("__unparsed", .bytes [5]), ("mode", .object [("write", .bool true), ("read", .bool true)])]

theorem modes_encoded_in_any_order : ∃ b,
    (Codec.struct (panel.layout "panel" lamps)).encode modesFirst = .ok b ∧
      (Codec.struct (panel.layout "panel" lamps)).encode modesLast = .ok b := by
  have hsome : ((Codec.struct (panel.layout "panel" lamps)).encode modesFirst).toOption.isSome
      = true := by decide +kernel
  have houter : modesFirst.Reorders
      [("__unparsed", .bytes [5]),
        ("mode", .object [("read", .bool true), ("write", .bool true)])] :=
    .object (List.Perm.swap _ _ _) (by decide +kernel)
  have hinner : Object.Reorders
      [("__unparsed", .bytes [5]), ("mode", .object [("read", .bool true), ("write", .bool true)])]
      modesLast :=
    .field [_] [] (.object (List.Perm.swap _ _ _) (by decide +kernel))
  have hsame := ((entry_order_ignored ((Relation.ReflTransGen.single houter).tail hinner)).2.2
    (.struct (panel.layout "panel" lamps))).1
  rcases exists_ok_of_isSome hsome with ⟨b, hb⟩
  exact ⟨b, hb, (sameResult_iff.1 hsame b).1 hb⟩

end Schema

end NetlinkSchema
