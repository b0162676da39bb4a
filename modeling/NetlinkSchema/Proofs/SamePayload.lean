import NetlinkSchema.Proofs.Payload
import NetlinkSchema.Proofs.SameResult
import Mathlib.Data.List.Perm.Basic

/-!
# Payloads that are encoded alike

What the payload of an attribute cannot tell apart. A payload that takes an object asks the
questions of its kind: an attribute set hands the values on to its fields, a struct to its members,
flags and enums look at booleans. Arrays and repeated fields go through their elements one by one,
and maps do so in the order of the keys, in whatever order the entries come.

## Main definitions

* `Agrees`: Related results, or an error in both cases.
* `Payload.Same`, `Field.Same`: Values that a payload or a field cannot tell apart.
* `Payload.takesObject`: A payload stands for an object.
* `Payload.SameUnder`: What has to correspond under the keys of such an object.

## Theorems

* `forall₂_sortBy`: Sorting keeps what belongs together.
* `Payload.same_array`, `Payload.same_map`: Arrays and maps.
* `Payload.same_map_replace`, `Payload.same_map_of_perm`: Maps that differ in one value, or in the
  order of the entries.
* `Field.same_single`, `Field.same_repeated`: Fields.
* `Payload.same_object`: Objects.
-/

namespace NetlinkSchema

/-- Both computations have results, which are related, or both fail. -/
inductive Agrees {ε α β : Type} (S : α → β → Prop) : Except ε α → Except ε β → Prop
  | ok {a : α} {b : β} : S a b → Agrees S (.ok a) (.ok b)
  | error (e e' : ε) : Agrees S (.error e) (.error e')

namespace Agrees

variable {ε α β γ δ : Type} {S : γ → δ → Prop}

theorem bind {x : Except ε γ} {y : Except ε δ} (h : Agrees S x y) {f : γ → Except ε α}
    {g : δ → Except ε α} (hfg : ∀ c d, S c d → SameResult (f c) (g d)) :
    SameResult (x >>= f) (y >>= g) := by
  cases h with
  | ok hcd => exact hfg _ _ hcd
  | error e e' => exact .error e e'

/-- Steps that agree on the elements of two lists agree on the lists. -/
theorem mapM {f : α → Except ε γ} {g : β → Except ε δ} {xs : List α} {ys : List β}
    (h : List.Forall₂ (fun x y => Agrees S (f x) (g y)) xs ys) :
    Agrees (List.Forall₂ S) (xs.mapM f) (ys.mapM g) := by
  induction h with
  | nil => exact .ok .nil
  | @cons x y xs ys hxy _ ih =>
      rw [List.mapM_cons, List.mapM_cons]
      generalize f x = x' at hxy
      generalize g y = y' at hxy
      cases hxy with
      | error e e' => exact .error e e'
      | ok hcd =>
          generalize List.mapM f xs = xs' at ih
          generalize List.mapM g ys = ys' at ih
          cases ih with
          | error e e' => exact .error e e'
          | ok hrest => exact .ok (.cons hcd hrest)

/-- A step that is done in another order has its results in another order. -/
theorem mapM_of_perm {f : α → Except ε γ} {xs ys : List α} (h : xs.Perm ys) :
    Agrees List.Perm (xs.mapM f) (ys.mapM f) := by
  have hok : ∀ {as bs : List α} {cs : List γ}, as.Perm bs → as.mapM f = .ok cs →
      ∃ ds, bs.mapM f = .ok ds ∧ cs.Perm ds := by
    intro as bs cs hperm hcs
    rcases List.perm_comp_forall₂ hperm.symm (mapM_eq_ok_iff.1 hcs) with ⟨ds, hds, hperm'⟩
    exact ⟨ds, mapM_eq_ok_iff.2 hds, hperm'.symm⟩
  cases hxs : xs.mapM f with
  | ok cs =>
      rcases hok h hxs with ⟨ds, hds, hperm⟩
      rw [hds]
      exact .ok hperm
  | error e =>
      cases hys : ys.mapM f with
      | error e' => exact .error e e'
      | ok ds =>
          rcases hok h.symm hys with ⟨cs, hcs, -⟩
          rw [hxs] at hcs
          cases hcs

end Agrees

section Lists

theorem map_mapM {ε α β γ : Type} (f : α → Except ε β) (g : β → γ) (xs : List α) :
    (xs.mapM f).map (List.map g) = xs.mapM fun x => (f x).map g := by
  induction xs with
  | nil => rfl
  | cons x xs ih =>
      rw [List.mapM_cons, List.mapM_cons, ← ih]
      cases f x with
      | error e => rfl
      | ok y =>
          cases xs.mapM f with
          | error e => rfl
          | ok ys => rfl

variable {α β : Type} {R : α → β → Prop}

theorem forall₂_insertOrdered {le : α → α → Bool} {le' : β → β → Bool}
    (hle : ∀ x y x' y', R x y → R x' y' → le x x' = le' y y') {x : α} {y : β} (hxy : R x y)
    {xs : List α} {ys : List β} (h : List.Forall₂ R xs ys) :
    List.Forall₂ R (insertOrdered le x xs) (insertOrdered le' y ys) := by
  induction h with
  | nil => exact .cons hxy .nil
  | cons hhead hrest ih =>
      rw [insertOrdered, insertOrdered, hle _ _ _ _ hxy hhead]
      split
      · exact .cons hxy (.cons hhead hrest)
      · exact .cons hhead ih

/-- Sorting keeps what belongs together, if both lists are sorted by the same keys. -/
theorem forall₂_sortBy {le : α → α → Bool} {le' : β → β → Bool}
    (hle : ∀ x y x' y', R x y → R x' y' → le x x' = le' y y') {xs : List α} {ys : List β}
    (h : List.Forall₂ R xs ys) : List.Forall₂ R (sortBy le xs) (sortBy le' ys) := by
  induction h with
  | nil => exact .nil
  | cons hhead _ ih => exact forall₂_insertOrdered hle hhead ih

theorem forall₂_zipIdx {xs : List α} {ys : List β} (h : List.Forall₂ R xs ys) (start : Nat) :
    List.Forall₂ (fun x y => R x.1 y.1 ∧ x.2 = y.2) (xs.zipIdx start) (ys.zipIdx start) := by
  induction h generalizing start with
  | nil => exact .nil
  | cons hxy _ ih => exact .cons ⟨hxy, rfl⟩ (ih (start + 1))

/-- Lists that differ in one element. -/
theorem forall₂_replace {R : α → α → Prop} (hrefl : ∀ x, R x x) {x y : α} (h : R x y)
    (before after : List α) : List.Forall₂ R (before ++ x :: after) (before ++ y :: after) :=
  List.rel_append (List.forall₂_same.2 fun z _ => hrefl z)
    (.cons h (List.forall₂_same.2 fun z _ => hrefl z))

end Lists

variable {sets : AttrSets}

namespace Payload

/-- A payload cannot tell the values apart. -/
structure Same (sets : AttrSets) (p : Payload) (v w : Value) : Prop where
  omits : p.omits v = p.omits w
  encode : SameResult (p.encode sets v) (p.encode sets w)

theorem Same.refl (p : Payload) (v : Value) : p.Same sets v v := ⟨rfl, .refl _⟩

theorem omits_of_isComposite (p : Payload) {v : Value} (h : v.isComposite = true) :
    p.omits v = false := by
  rcases Value.composite_cases h with ⟨_, rfl⟩ | ⟨_, rfl⟩ | ⟨_, rfl⟩ | ⟨_, rfl⟩ | ⟨_, rfl⟩ <;>
    cases p <;> rfl

theorem Same.of_composite {p : Payload} {v w : Value} (hv : v.isComposite = true)
    (hw : w.isComposite = true) (h : SameResult (p.encode sets v) (p.encode sets w)) :
    p.Same sets v w :=
  ⟨by rw [omits_of_isComposite p hv, omits_of_isComposite p hw], h⟩

theorem same_array {zero : Bool} {elem : Payload} {xs ys : List Value}
    (h : List.Forall₂ (elem.Same sets) xs ys) :
    (array zero elem).Same sets (.list xs) (.list ys) := by
  refine .of_composite rfl rfl ?_
  rw [encode_array sets rfl, encode_array sets rfl]
  refine SameResult.map _ (SameResult.mapM ((forall₂_zipIdx h 0).imp fun x y hxy => ?_))
  rcases hxy with ⟨hsame, hplace⟩
  unfold element
  rw [hplace]
  exact (hsame.encode.mapError _).bind fun payload => .refl _

section Map

variable {elem : Payload} {v w : Value}

theorem sameResult_entry {e e' : UInt16 × Value} (hkey : e.1 = e'.1)
    (h : elem.Same sets e.2 e'.2) : SameResult (entry sets elem e) (entry sets elem e') := by
  unfold entry
  rw [hkey]
  exact (h.encode.mapError _).bind fun payload => .refl _

/-- Maps with the same keys and values that are the same to the element. -/
theorem same_map (hv : v.isComposite = true) (hw : w.isComposite = true)
    (h : Agrees (List.Forall₂ fun e e' => e.1 = e'.1 ∧ elem.Same sets e.2 e'.2) (pairs v)
      (pairs w)) :
    (map elem).Same sets v w := by
  refine .of_composite hv hw ?_
  rw [encode_map, encode_map]
  refine h.bind fun es es' hes => SameResult.map _ (SameResult.mapM ?_)
  have hkeys : ∀ x y x' y' : UInt16 × Value, x.1 = y.1 ∧ elem.Same sets x.2 y.2 →
      x'.1 = y'.1 ∧ elem.Same sets x'.2 y'.2 → decide (x.1 ≤ x'.1) = decide (y.1 ≤ y'.1) := by
    intro x y x' y' hxy hxy'
    rw [hxy.1, hxy'.1]
  exact (forall₂_sortBy hkeys hes).imp fun e e' he => sameResult_entry he.1 he.2

/-- Maps with the same entries in another order. -/
theorem same_map_of_perm (hv : v.isComposite = true) (hw : w.isComposite = true)
    (h : Agrees (fun es es' => es.Perm es' ∧ (es.map Prod.fst).Nodup) (pairs v) (pairs w)) :
    (map elem).Same sets v w := by
  refine .of_composite hv hw ?_
  rw [encode_map, encode_map]
  refine h.bind fun es es' hes => ?_
  rcases hes with ⟨hperm, hdistinct⟩
  -- Keys are distinct, so there is only one way to sort the entries.
  have hsorted : sortBy (fun a b => decide (a.1 ≤ b.1)) es
      = sortBy (fun a b => decide (a.1 ≤ b.1)) es' := by
    have hasc := ascending_sortBy hdistinct
    have hasc' := ascending_sortBy ((hperm.map Prod.fst).nodup_iff.1 hdistinct)
    refine List.Perm.eq_of_pairwise (fun a b _ _ hab hba => ?_) hasc hasc' ?_
    · exact absurd hab (UInt16.lt_asymm hba)
    · exact (sortBy_perm _ es).trans (hperm.trans (sortBy_perm _ es').symm)
  rw [hsorted]

theorem pairs_intMap (es : List (Int64 × Value)) : pairs (.intMap es)
    = es.mapM fun e => (Nested.typeOfKey e.1.toInt).map fun key => (key, e.2) := by
  rw [pairs, Nested.entries, map_mapM, ← mapM_attach es]
  congr 1
  funext e
  cases Nested.typeOfKey e.1.1.toInt with
  | error err => rfl
  | ok key => rfl

/-- Maps that differ in the value of one entry. -/
theorem same_map_replace {key : UInt16} (h : elem.Same sets v w)
    (before after : List (UInt16 × Value)) : (map elem).Same sets
      (.map (before ++ (key, v) :: after)) (.map (before ++ (key, w) :: after)) := by
  refine same_map rfl rfl ?_
  rw [pairs_map, pairs_map]
  exact .ok (forall₂_replace (fun e => ⟨rfl, Same.refl elem e.2⟩) ⟨rfl, h⟩ before after)

theorem same_intMap_replace {key : Int64} (h : elem.Same sets v w)
    (before after : List (Int64 × Value)) : (map elem).Same sets
      (.intMap (before ++ (key, v) :: after)) (.intMap (before ++ (key, w) :: after)) := by
  have hentries : List.Forall₂ (fun e e' : Int64 × Value => e.1 = e'.1 ∧ elem.Same sets e.2 e'.2)
      (before ++ (key, v) :: after) (before ++ (key, w) :: after) :=
    forall₂_replace (fun e => ⟨rfl, Same.refl elem e.2⟩) ⟨rfl, h⟩ before after
  refine same_map rfl rfl ?_
  rw [pairs_intMap, pairs_intMap]
  refine Agrees.mapM (hentries.imp fun e e' he => ?_)
  rw [he.1]
  cases Nested.typeOfKey e'.1.toInt with
  | error err => exact .error err err
  | ok type => exact .ok ⟨rfl, he.2⟩

end Map

/-- A payload stands for an object. -/
def takesObject : Payload → Bool
  | attrs _ | struct _ | flagList _ => true
  | number _ lower => lower.takesObject
  | string _ | data | bool | flag | array _ _ | map _ => false

end Payload

namespace Field

/-- A field cannot tell the values apart. -/
def Same (sets : AttrSets) (f : Field) (v w : Value) : Prop :=
  ∀ type, SameResult (f.valueAttributes sets type v) (f.valueAttributes sets type w)

variable {f : Field} {v w : Value}

theorem Same.refl (f : Field) (v : Value) : f.Same sets v v := fun _ => .refl _

theorem sameResult_occurrence (h : f.payload.Same sets v w) (type : Text) :
    SameResult (f.occurrence sets type v) (f.occurrence sets type w) := by
  unfold occurrence
  rw [h.omits]
  split
  · exact .refl _
  · exact ((h.encode.bind fun data => .refl _).mapError _).map _

theorem same_single (hrep : f.repeated = false) (h : f.payload.Same sets v w) :
    f.Same sets v w := by
  intro type
  unfold valueAttributes
  rw [hrep]
  exact sameResult_occurrence h type

theorem same_repeated (hrep : f.repeated = true) {xs ys : List Value}
    (h : List.Forall₂ (f.payload.Same sets) xs ys) : f.Same sets (.list xs) (.list ys) := by
  intro type
  unfold valueAttributes
  rw [hrep]
  exact SameResult.map _ (SameResult.mapM (h.imp fun x y hxy => sameResult_occurrence hxy type))

theorem sameResult_attributes {a b : Object}
    (h : Value.Matched (f.Same sets) (Object.get a f.name) (Object.get b f.name)) (type : Text) :
    SameResult (f.attributes sets type a) (f.attributes sets type b) := by
  unfold attributes
  generalize Object.get a f.name = v at h
  generalize Object.get b f.name = w at h
  cases h with
  | absent => exact .refl _
  | present hv hw hsame =>
      simp only [hv, hw, Bool.false_eq_true, if_false]
      exact hsame type

end Field

namespace Payload

/-- What has to correspond under a key of an object that a payload stands for. -/
def SameUnder (sets : AttrSets) : Payload → Text → Value → Value → Prop
  | attrs name, key, v, w => ∀ f ∈ sets.fields name, f.name = key → f.Same sets v w
  | struct l, key, v, w => l.SameUnder key v w
  | _, _, v, w => Value.SameMark v w

theorem SameUnder.refl (p : Payload) (key : Text) (v : Value) : p.SameUnder sets key v v := by
  cases p with
  | attrs name => exact fun f _ _ => Field.Same.refl f v
  | struct l => exact Layout.SameUnder.refl l key v
  | _ => exact Or.inl rfl

variable {a b : Object}

theorem firstUndeclared?_eq_none_iff {obj : Object} {declared : List Text} :
    Nested.firstUndeclared? obj declared = none ↔
      ∀ e ∈ obj, e.2.isNull = false → e.1 ∈ declared := by
  rw [Nested.firstUndeclared?, Option.map_eq_none_iff, List.find?_eq_none]
  simp [Object.sorted]

theorem sameResult_attrs {name : Text}
    (h : Object.Corresponds ((attrs name).SameUnder sets) a b) :
    SameResult ((attrs name).encode sets (.object a)) ((attrs name).encode sets (.object b)) := by
  have hdeclared : Nested.firstUndeclared? a ((sets.fields name).map Field.name) = none ↔
      Nested.firstUndeclared? b ((sets.fields name).map Field.name) = none := by
    rw [firstUndeclared?_eq_none_iff, firstUndeclared?_eq_none_iff]
    exact h.declared_iff
  have hfields : SameResult ((sets.fields name).mapM (Field.attributes sets name a))
      ((sets.fields name).mapM (Field.attributes sets name b)) := by
    refine SameResult.mapM (List.forall₂_same.2 fun f hf => ?_)
    exact Field.sameResult_attributes ((h.get f.name).mono fun hsame => hsame f hf rfl) name
  rw [encode_attrs, encode_attrs]
  cases hfirst : Nested.firstUndeclared? a ((sets.fields name).map Field.name) with
  | none =>
      rw [hdeclared.1 hfirst]
      exact hfields.map _
  | some key =>
      cases hfirst' : Nested.firstUndeclared? b ((sets.fields name).map Field.name) with
      | none =>
          rw [hdeclared.2 hfirst'] at hfirst
          cases hfirst
      | some key' => exact .error _ _

/-- A payload that stands for an object cannot tell corresponding objects apart. -/
theorem same_object {p : Payload} (hp : p.takesObject = true)
    (h : Object.Corresponds (p.SameUnder sets) a b) : p.Same sets (.object a) (.object b) := by
  refine .of_composite rfl rfl ?_
  cases p with
  | attrs name => exact sameResult_attrs h
  | struct l =>
      rw [encode, encode]
      exact Layout.sameResult_encode h
  | flagList e =>
      rw [encode, encode]
      exact EnumType.sameResult_encodeFlagList h
  | number num lower =>
      rw [encode, encode]
      exact Lowering.sameResult_toBytes hp num h
  | _ => cases hp

end Payload

end NetlinkSchema
