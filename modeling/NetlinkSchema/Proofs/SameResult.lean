import NetlinkSchema.Proofs.Buffer
import Mathlib.Logic.Relation

/-!
# Objects that are encoded alike

An object may be handed in in several forms that mean the same: its entries may come in another
order, and a key may be absent or have no entry at all. This module says what the encoders have in
common that makes them blind to such differences. An encoder asks an object two things: which
entries are set, and what is found under a name. Objects that correspond in both have the same
result, which is the same bytes or a failure. Which of several errors is reported may differ.

What has to correspond under a key depends on the encoder. Flags and enums look at booleans and
numbers, so a list and an object are alike to them: both are refused. A struct hands the value on to
its member.

## Main definitions

* `SameResult`: The same result, or an error in both cases.
* `Value.Matched`: Two values are both absent, or both present and related.
* `Object.Corresponds`: Objects with related entries under the same keys.
* `Value.SameMark`: Values that flags and enums cannot tell apart.
* `MemberType.Same`: Values that a struct member cannot tell apart.

## Theorems

* `SameResult.bind`, `SameResult.mapM`: Steps with the same result, one after another.
* `SameResult.of_steps`: What each change of an object keeps, any number of them keeps.
* `Object.Corresponds.of_same`, `Object.Corresponds.replace`: Two ways to correspond.
* `FlagsType.sameResult_encode`, `EnumType.sameResult_encodeBitmask`,
  `EnumType.sameResult_encodeFlagList`: Flags and enums.
* `MemberType.same_struct`, `MemberType.same_array`: Struct members.
* `Layout.sameResult_encodeInto`, `Layout.sameResult_encode`: Structs.
-/

namespace NetlinkSchema

/-- Two computations have the same result, or both fail. -/
def SameResult {ε α : Type} (x y : Except ε α) : Prop := x.toOption = y.toOption

section SameResult

variable {ε α β γ : Type} {x y : Except ε α}

theorem sameResult_iff : SameResult x y ↔ ∀ a, x = .ok a ↔ y = .ok a := by
  unfold SameResult
  cases x with
  | error e =>
      cases y with
      | error e' => simp [Except.toOption]
      | ok b => simp [Except.toOption]
  | ok a =>
      cases y with
      | error e' => simp [Except.toOption]
      | ok b => simp [Except.toOption]

namespace SameResult

@[refl] theorem refl (x : Except ε α) : SameResult x x := rfl

theorem of_eq (h : x = y) : SameResult x y := by rw [h]

theorem symm (h : SameResult x y) : SameResult y x := Eq.symm h

theorem trans {z : Except ε α} (h : SameResult x y) (h' : SameResult y z) : SameResult x z :=
  Eq.trans h h'

theorem error (e e' : ε) : SameResult (.error e : Except ε α) (.error e') := rfl

theorem of_errors (hx : ∃ e, x = .error e) (hy : ∃ e, y = .error e) : SameResult x y := by
  rcases hx with ⟨e, rfl⟩
  rcases hy with ⟨e', rfl⟩
  exact error e e'

theorem bind {f g : α → Except ε β} (h : SameResult x y) (hf : ∀ a, SameResult (f a) (g a)) :
    SameResult (x >>= f) (y >>= g) := by
  rw [sameResult_iff] at h ⊢
  intro b
  rw [bind_eq_ok_iff, bind_eq_ok_iff]
  constructor
  · rintro ⟨a, hx, hb⟩
    exact ⟨a, (h a).1 hx, (sameResult_iff.1 (hf a) b).1 hb⟩
  · rintro ⟨a, hy, hb⟩
    exact ⟨a, (h a).2 hy, (sameResult_iff.1 (hf a) b).2 hb⟩

theorem map (f : α → β) (h : SameResult x y) : SameResult (x.map f) (y.map f) := by
  rw [sameResult_iff] at h ⊢
  intro b
  rw [map_eq_ok_iff, map_eq_ok_iff]
  simp only [h]

theorem mapError (place : ε → ε) (h : SameResult x y) :
    SameResult (x.mapError place) (y.mapError place) := by
  rw [sameResult_iff] at h ⊢
  intro a
  rw [mapError_eq_ok_iff, mapError_eq_ok_iff]
  exact h a

/-- A step with the same result for the elements of two lists, one by one. -/
theorem mapM {f : α → Except ε γ} {g : β → Except ε γ} {xs : List α} {ys : List β}
    (h : List.Forall₂ (fun a b => SameResult (f a) (g b)) xs ys) :
    SameResult (xs.mapM f) (ys.mapM g) := by
  induction h with
  | nil => exact refl _
  | cons hab _ ih =>
      rw [List.mapM_cons, List.mapM_cons]
      exact hab.bind fun c => ih.bind fun cs => refl _

/-- What each step keeps, a sequence of steps keeps. -/
theorem of_steps {σ : Type} {step : σ → σ → Prop} (f : σ → Except ε α)
    (hstep : ∀ a b, step a b → SameResult (f a) (f b)) {a b : σ}
    (h : Relation.ReflTransGen step a b) : SameResult (f a) (f b) := by
  induction h with
  | refl => exact refl _
  | tail _ hlast ih => exact ih.trans (hstep _ _ hlast)

end SameResult

end SameResult

namespace Value

theorem isNull_iff {v : Value} : v.isNull = true ↔ v = null := by
  cases v with
  | null => simp [isNull]
  | _ => simp [isNull]

/-- The value is an object, a list of any values or a map. -/
def isComposite : Value → Bool
  | object _ | list _ | map _ | intMap _ | textMap _ => true
  | _ => false

theorem composite_cases {v : Value} (h : v.isComposite = true) :
    (∃ fields, v = object fields) ∨ (∃ items, v = list items) ∨ (∃ es, v = map es) ∨
      (∃ es, v = intMap es) ∨ ∃ es, v = textMap es := by
  cases v with
  | object fields => exact Or.inl ⟨fields, rfl⟩
  | list items => exact Or.inr (Or.inl ⟨items, rfl⟩)
  | map es => exact Or.inr (Or.inr (Or.inl ⟨es, rfl⟩))
  | intMap es => exact Or.inr (Or.inr (Or.inr (Or.inl ⟨es, rfl⟩)))
  | textMap es => exact Or.inr (Or.inr (Or.inr (Or.inr ⟨es, rfl⟩)))
  | _ => cases h

theorem isNull_of_isComposite {v : Value} (h : v.isComposite = true) : v.isNull = false := by
  cases v with
  | null => cases h
  | _ => rfl

/-- Flags and enums cannot tell the values apart. -/
def SameMark (v w : Value) : Prop := v = w ∨ v.isComposite = true ∧ w.isComposite = true

theorem SameMark.symm {v w : Value} (h : SameMark v w) : SameMark w v := by
  rcases h with rfl | ⟨hv, hw⟩
  · exact Or.inl rfl
  · exact Or.inr ⟨hw, hv⟩

/-- Both values are absent, or both are present and related. -/
inductive Matched (R : Value → Value → Prop) : Value → Value → Prop
  | absent : Matched R null null
  | present {v w : Value} : v.isNull = false → w.isNull = false → R v w → Matched R v w

theorem Matched.of_eq {R : Value → Value → Prop} (hR : ∀ v, R v v) {v w : Value} (h : v = w) :
    Matched R v w := by
  subst h
  cases v with
  | null => exact .absent
  | _ => exact .present rfl rfl (hR _)

theorem Matched.symm {R : Value → Value → Prop} (hR : ∀ v w, R v w → R w v) {v w : Value}
    (h : Matched R v w) : Matched R w v := by
  cases h with
  | absent => exact .absent
  | present hv hw hvw => exact .present hw hv (hR _ _ hvw)

theorem Matched.mono {R S : Value → Value → Prop} {v w : Value} (h : Matched R v w)
    (hRS : R v w → S v w) : Matched S v w := by
  cases h with
  | absent => exact .absent
  | present hv hw hR => exact .present hv hw (hRS hR)

end Value

namespace Object

/-- Two objects have related entries under the same keys, as far as entries are set, and related
    values are found under each name. -/
structure Corresponds (R : Text → Value → Value → Prop) (a b : Object) : Prop where
  forth : ∀ e ∈ a, e.2.isNull = false → ∃ w, (e.1, w) ∈ b ∧ w.isNull = false ∧ R e.1 e.2 w
  back : ∀ e ∈ b, e.2.isNull = false → ∃ v, (e.1, v) ∈ a ∧ v.isNull = false ∧ R e.1 v e.2
  get : ∀ name, Value.Matched (R name) (Object.get a name) (Object.get b name)

namespace Corresponds

variable {R S : Text → Value → Value → Prop} {a b : Object}

theorem mono (h : Corresponds R a b) (hRS : ∀ k v w, R k v w → S k v w) : Corresponds S a b where
  forth e he hset := by
    rcases h.forth e he hset with ⟨w, hw, hwset, hR⟩
    exact ⟨w, hw, hwset, hRS _ _ _ hR⟩
  back e he hset := by
    rcases h.back e he hset with ⟨v, hv, hvset, hR⟩
    exact ⟨v, hv, hvset, hRS _ _ _ hR⟩
  get name := (h.get name).mono (hRS _ _ _)

theorem symm (hR : ∀ k v w, R k v w → R k w v) (h : Corresponds R a b) : Corresponds R b a where
  forth e he hset := by
    rcases h.back e he hset with ⟨v, hv, hvset, hvw⟩
    exact ⟨v, hv, hvset, hR _ _ _ hvw⟩
  back e he hset := by
    rcases h.forth e he hset with ⟨w, hw, hwset, hvw⟩
    exact ⟨w, hw, hwset, hR _ _ _ hvw⟩
  get name := (h.get name).symm (hR name)

/-- Objects with the same set entries, in which the same is found under each name. -/
theorem of_same (hR : ∀ k v, R k v v) (hmem : ∀ e : Text × Value, e.2.isNull = false →
      (e ∈ a ↔ e ∈ b))
    (hget : ∀ name, Object.get a name = Object.get b name) : Corresponds R a b where
  forth e he hset := ⟨e.2, (hmem e hset).1 he, hset, hR _ _⟩
  back e he hset := ⟨e.2, (hmem e hset).2 he, hset, hR _ _⟩
  get name := Value.Matched.of_eq (hR name) (hget name)

/-- The entries of an object are related to those of one that differs in the value of one entry. -/
theorem exists_of_mem_replace (hR : ∀ k v, R k v v) {key : Text} {v w : Value}
    (hw : w.isNull = false) (h : R key v w) {before after : Object} {e : Text × Value}
    (he : e ∈ before ++ (key, v) :: after) (hset : e.2.isNull = false) :
    ∃ x, (e.1, x) ∈ before ++ (key, w) :: after ∧ x.isNull = false ∧ R e.1 e.2 x := by
  rcases List.mem_append.1 he with he | he
  · exact ⟨e.2, List.mem_append_left _ he, hset, hR _ _⟩
  · rcases List.mem_cons.1 he with heq | he
    · subst heq
      exact ⟨w, List.mem_append_right _ List.mem_cons_self, hw, h⟩
    · exact ⟨e.2, List.mem_append_right _ (List.mem_cons_of_mem _ he), hset, hR _ _⟩

/-- Objects that differ in the value of one entry. -/
theorem replace (hR : ∀ k v, R k v v) {key : Text} {v w : Value} (hv : v.isNull = false)
    (hw : w.isNull = false) (h : R key v w) (before after : Object) :
    Corresponds R (before ++ (key, v) :: after) (before ++ (key, w) :: after) where
  forth _ he hset := exists_of_mem_replace hR hw h he hset
  back _ he hset := exists_of_mem_replace (R := fun k v w => R k w v) hR hv h he hset
  get name := by
    simp only [get_eq_value?]
    induction before with
    | nil =>
        rw [List.nil_append, List.nil_append, value?_cons, value?_cons]
        by_cases hname : key = name
        · subst hname
          rw [if_pos rfl, if_pos rfl]
          exact .present hv hw h
        · rw [if_neg hname, if_neg hname]
          exact Value.Matched.of_eq (hR name) rfl
    | cons e rest ih =>
        -- An entry in front hides both, or neither of them.
        rw [List.cons_append, List.cons_append, value?_cons, value?_cons]
        by_cases hname : e.1 = name
        · rw [if_pos hname, if_pos hname]
          exact Value.Matched.of_eq (hR name) rfl
        · rw [if_neg hname, if_neg hname]
          exact ih

/-- The same keys are set, so they are all declared in both objects or in neither. -/
theorem declared_iff (h : Corresponds R a b) {declared : List Text} :
    (∀ e ∈ a, e.2.isNull = false → e.1 ∈ declared) ↔
      ∀ e ∈ b, e.2.isNull = false → e.1 ∈ declared := by
  constructor
  · intro hall e he hset
    rcases h.back e he hset with ⟨v, hv, hvset, -⟩
    exact hall (e.1, v) hv hvset
  · intro hall e he hset
    rcases h.forth e he hset with ⟨w, hw, hwset, -⟩
    exact hall (e.1, w) hw hwset

end Corresponds

end Object

open Value (SameMark)

namespace FlagsType

variable {f : FlagsType} {a b : Object}

theorem entryBits_of_isNull {v : Value} (h : v.isNull = true) (key : Text) :
    f.entryBits key v = .ok 0 := if_pos h

theorem sameResult_entryBits (f : FlagsType) (key : Text) {v w : Value} (h : SameMark v w) :
    SameResult (f.entryBits key v) (f.entryBits key w) := by
  -- A value that is neither a boolean nor a number is refused.
  have hrefused : ∀ x : Value, x.isComposite = true → ∃ e, f.entryBits key x = .error e := by
    intro x hx
    unfold entryBits
    rw [Value.isNull_of_isComposite hx, if_neg Bool.false_ne_true]
    by_cases hkey : (key == unknownField) = true
    · rw [if_pos hkey]
      rcases Value.composite_cases hx with ⟨_, rfl⟩ | ⟨_, rfl⟩ | ⟨_, rfl⟩ | ⟨_, rfl⟩ | ⟨_, rfl⟩ <;>
        exact ⟨_, rfl⟩
    · rw [if_neg hkey]
      cases f.mask? key with
      | none => exact ⟨_, rfl⟩
      | some mask =>
          rcases Value.composite_cases hx with
            ⟨_, rfl⟩ | ⟨_, rfl⟩ | ⟨_, rfl⟩ | ⟨_, rfl⟩ | ⟨_, rfl⟩ <;>
            exact ⟨_, rfl⟩
  rcases h with rfl | ⟨hv, hw⟩
  · exact .refl _
  · exact .of_errors (hrefused v hv) (hrefused w hw)

/-- If all entries are accepted, the bits are those of the entries that are set. -/
theorem exists_encode_of_accepted {obj : Object}
    (hall : ∀ e ∈ obj, ∃ x, f.entryBits e.1 e.2 = .ok x) : ∃ bits, f.encode obj = .ok bits ∧
      ∀ i, bit bits i = true ↔ ∃ e ∈ obj, e.2.isNull = false ∧
        ∃ x, f.entryBits e.1 e.2 = .ok x ∧ bit x i = true := by
  let bitsOf : Text × Value → UInt64 := fun e => ((f.entryBits e.1 e.2).toOption).getD 0
  have hbitsOf : ∀ {e : Text × Value} {x : UInt64}, f.entryBits e.1 e.2 = .ok x → bitsOf e = x := by
    intro e x hx
    simp only [bitsOf, hx, Except.toOption, Option.getD_some]
  have hencode : f.encode obj = .ok (union (obj.map bitsOf)) := by
    refine encode_eq_union fun e he => ?_
    rcases hall e he with ⟨x, hx⟩
    rw [hbitsOf hx, hx]
  refine ⟨_, hencode, fun i => ?_⟩
  rw [bit_union]
  constructor
  · rintro ⟨e, he, hi⟩
    rcases hall e he with ⟨x, hx⟩
    rw [hbitsOf hx] at hi
    cases hnull : e.2.isNull with
    | true =>
        -- An absent entry sets no bits.
        rw [entryBits_of_isNull hnull, Except.ok.injEq] at hx
        rw [← hx, bit_zero] at hi
        cases hi
    | false => exact ⟨e, he, hnull, x, hx, hi⟩
  · rintro ⟨e, he, -, x, hx, hi⟩
    refine ⟨e, he, ?_⟩
    rw [hbitsOf hx]
    exact hi

/-- Encoding succeeds if every entry that is set is accepted. A bit of the result is set if one of
    these entries sets it. -/
theorem encode_eq_ok_iff {obj : Object} {bits : UInt64} : f.encode obj = .ok bits ↔
    (∀ e ∈ obj, e.2.isNull = false → ∃ x, f.entryBits e.1 e.2 = .ok x) ∧
      ∀ i, bit bits i = true ↔ ∃ e ∈ obj, e.2.isNull = false ∧
        ∃ x, f.entryBits e.1 e.2 = .ok x ∧ bit x i = true := by
  constructor
  · intro henc
    have hall := entryBits_of_encode henc
    rcases exists_encode_of_accepted hall with ⟨all, hencode, hbits⟩
    rw [henc, Except.ok.injEq] at hencode
    subst hencode
    exact ⟨fun e he _ => hall e he, hbits⟩
  · rintro ⟨hset, hbits⟩
    have hall : ∀ e ∈ obj, ∃ x, f.entryBits e.1 e.2 = .ok x := by
      intro e he
      cases hnull : e.2.isNull with
      | true => exact ⟨0, entryBits_of_isNull hnull e.1⟩
      | false => exact hset e he hnull
    rcases exists_encode_of_accepted hall with ⟨all, hencode, hall⟩
    rw [hencode, eq_of_bit_eq fun i => Bool.eq_iff_iff.2 ((hall i).trans (hbits i).symm)]

theorem encode_of_corresponds (h : Object.Corresponds (fun _ => SameMark) a b) {bits : UInt64}
    (henc : f.encode a = .ok bits) : f.encode b = .ok bits := by
  rw [encode_eq_ok_iff] at henc ⊢
  rcases henc with ⟨haccepted, hbits⟩
  have hsame : ∀ {key v w x}, SameMark v w →
      (f.entryBits key v = .ok x ↔ f.entryBits key w = .ok x) := fun hvw =>
    sameResult_iff.1 (f.sameResult_entryBits _ hvw) _
  refine ⟨fun e he hset => ?_, fun i => (hbits i).trans ⟨?_, ?_⟩⟩
  · rcases h.back e he hset with ⟨v, hv, hvset, hvw⟩
    rcases haccepted _ hv hvset with ⟨x, hx⟩
    exact ⟨x, (hsame hvw).1 hx⟩
  · rintro ⟨e, he, hset, x, hx, hi⟩
    rcases h.forth e he hset with ⟨w, hw, hwset, hvw⟩
    exact ⟨_, hw, hwset, x, (hsame hvw).1 hx, hi⟩
  · rintro ⟨e, he, hset, x, hx, hi⟩
    rcases h.back e he hset with ⟨v, hv, hvset, hvw⟩
    exact ⟨_, hv, hvset, x, (hsame hvw).2 hx, hi⟩

theorem sameResult_encode (h : Object.Corresponds (fun _ => SameMark) a b) :
    SameResult (f.encode a) (f.encode b) :=
  sameResult_iff.2 fun _ => ⟨encode_of_corresponds h,
    encode_of_corresponds (h.symm fun _ _ _ hvw => hvw.symm)⟩

end FlagsType

namespace EnumType

variable {e : EnumType} {a b : Object}

/-- The numbers of an object can be told if its entries are fields of the enum and booleans. -/
theorem exists_selected_iff {obj : Object} : (∃ picked, e.selected obj = .ok picked) ↔
    ∀ x ∈ obj, x.2.isNull = false →
      (e.valueOfField? x.1).isSome = true ∧ ∃ set, x.2 = .bool set := by
  constructor
  · rintro ⟨picked, h⟩
    refine foldlM_invariant (fun passed _ => ∀ x ∈ passed, x.2.isNull = false →
      (e.valueOfField? x.1).isSome = true ∧ ∃ set, x.2 = .bool set) (by simp) ?_ h
    intro passed x old new _ hpassed hstep y hy hset
    rcases List.mem_append.1 hy with hy | hy
    · exact hpassed y hy hset
    · have heq := List.mem_singleton.1 hy
      subst heq
      rcases y with ⟨k, v⟩
      simp only at hset hstep
      rw [hset, if_neg Bool.false_ne_true] at hstep
      cases hk : e.valueOfField? k with
      | none =>
          rw [hk] at hstep
          cases hstep
      | some value =>
          rw [hk] at hstep
          cases v with
          | bool set => exact ⟨rfl, set, rfl⟩
          | _ => cases hstep
  · intro hall
    refine foldlM_succeeds [] ?_
    rintro ⟨k, v⟩ hx s
    simp only
    by_cases hnull : v.isNull = true
    · exact ⟨s, if_pos hnull⟩
    · rcases hall _ hx (Bool.eq_false_iff.2 hnull) with ⟨hsome, set, rfl⟩
      rcases Option.isSome_iff_exists.1 hsome with ⟨value, hvalue⟩
      rw [if_neg hnull, hvalue]
      exact ⟨_, rfl⟩

theorem eq_bool_of_sameMark {v w : Value} (h : SameMark v w) {set : Bool} (hv : v = .bool set) :
    w = .bool set := by
  rcases h with rfl | ⟨hcomposite, -⟩
  · exact hv
  · rw [hv] at hcomposite
    cases hcomposite

/-- The numbers that corresponding objects select are the same. -/
theorem selected_of_corresponds (h : Object.Corresponds (fun _ => SameMark) a b) {xs : List Int64}
    (hxs : e.selected a = .ok xs) : ∃ ys, e.selected b = .ok ys ∧ ∀ x, x ∈ xs ↔ x ∈ ys := by
  have hall := exists_selected_iff.1 ⟨xs, hxs⟩
  have hsome : ∃ ys, e.selected b = .ok ys := by
    refine exists_selected_iff.2 fun y hy hset => ?_
    rcases h.back y hy hset with ⟨v, hv, hvset, hvw⟩
    rcases hall _ hv hvset with ⟨hfield, set, hbool⟩
    exact ⟨hfield, set, eq_bool_of_sameMark hvw hbool⟩
  rcases hsome with ⟨ys, hys⟩
  refine ⟨ys, hys, fun x => ?_⟩
  rw [mem_selected hxs, mem_selected hys]
  constructor
  · rintro ⟨k, hk, hvalue⟩
    rcases h.forth _ hk rfl with ⟨w, hw, -, hvw⟩
    rw [eq_bool_of_sameMark hvw rfl] at hw
    exact ⟨k, hw, hvalue⟩
  · rintro ⟨k, hk, hvalue⟩
    rcases h.back _ hk rfl with ⟨v, hv, -, hvw⟩
    rw [eq_bool_of_sameMark hvw.symm rfl] at hv
    exact ⟨k, hv, hvalue⟩

/-- A result that is made from the set of selected numbers is the same. -/
theorem sameResult_selected {α : Type} (h : Object.Corresponds (fun _ => SameMark) a b)
    {use : List Int64 → Except WireError α}
    (huse : ∀ xs ys : List Int64, (∀ x, x ∈ xs ↔ x ∈ ys) → use xs = use ys) :
    SameResult (e.selected a >>= use) (e.selected b >>= use) := by
  cases hxs : e.selected a with
  | ok xs =>
      rcases selected_of_corresponds h hxs with ⟨ys, hys, hmem⟩
      rw [hys, ok_bind, ok_bind, huse xs ys hmem]
  | error err =>
      cases hys : e.selected b with
      | error err' => exact .error err err'
      | ok ys =>
          -- What is selected from one object is selected from the other.
          rcases selected_of_corresponds (h.symm fun _ _ _ hvw => hvw.symm) hys with ⟨xs, hok, -⟩
          rw [hxs] at hok
          cases hok

theorem sameResult_encodeBitmask (h : Object.Corresponds (fun _ => SameMark) a b) :
    SameResult (e.encodeBitmask a) (e.encodeBitmask b) := by
  refine sameResult_selected h fun xs ys hmem => ?_
  have hunion : union (xs.map bitOf) = union (ys.map bitOf) := by
    refine eq_of_bit_eq fun i => Bool.eq_iff_iff.2 ?_
    rw [bit_union, bit_union]
    simp only [hmem]
  rw [union, union, List.foldl_map, List.foldl_map] at hunion
  exact congrArg Except.ok hunion

theorem sameResult_encodeFlagList (h : Object.Corresponds (fun _ => SameMark) a b) :
    SameResult (e.encodeFlagList a) (e.encodeFlagList b) := by
  refine sameResult_selected h fun xs ys hmem => ?_
  have hcontains : xs.contains = ys.contains := by
    funext x
    rw [Bool.eq_iff_iff, List.contains_iff_mem, List.contains_iff_mem]
    exact hmem x
  rw [hcontains]

end EnumType

namespace Lowering

/-- The integer stands for an object. -/
def takesObject : Lowering → Bool
  | bitmask _ | flags _ => true
  | none | enum _ => false

theorem sameResult_toBytes {l : Lowering} (hl : l.takesObject = true) (num : Number) {a b : Object}
    (h : Object.Corresponds (fun _ => SameMark) a b) :
    SameResult (l.toBytes num (.object a)) (l.toBytes num (.object b)) := by
  cases l with
  | none => cases hl
  | enum e => cases hl
  | bitmask e => exact (EnumType.sameResult_encodeBitmask h).bind fun bits => .refl _
  | flags f => exact (FlagsType.sameResult_encode h).bind fun bits => .refl _

end Lowering

namespace MemberType

/-- A struct member cannot tell the values apart. -/
def Same (t : MemberType) (v w : Value) : Prop :=
  ∀ buf, SameResult (outcome (t.write v buf)) (outcome (t.write w buf))

/-- The values under a key are the same to the members of that name. -/
def SameUnder (members : Members) (key : Text) (v w : Value) : Prop :=
  ∀ t, (key, t) ∈ members → t.Same v w

theorem Same.refl (t : MemberType) (v : Value) : t.Same v v := fun _ => .refl _

theorem SameUnder.refl (members : Members) (key : Text) (v : Value) :
    SameUnder members key v v := fun t _ => Same.refl t v

theorem same_number {num : Number} {lower : Lowering} {v w : Value}
    (h : SameResult (lower.toBytes num v) (lower.toBytes num w)) :
    (number num lower).Same v w := by
  have hwrite : ∀ (x : Value) (buf : Bytes), outcome ((number num lower).write x buf)
      = (lower.toBytes num x).map (Bytes.overwrite buf) := by
    intro x buf
    rw [write]
    cases lower.toBytes num x with
    | error e => rfl
    | ok b => rfl
  intro buf
  rw [hwrite, hwrite]
  exact h.map _

theorem same_array {count : Int64} {elem : MemberType} {xs ys : List Value}
    (h : List.Forall₂ elem.Same xs ys) : (array count elem).Same (.list xs) (.list ys) := by
  have hitems : ∀ size buf, SameResult (outcome (writeItems size elem.write xs buf))
      (outcome (writeItems size elem.write ys buf)) := by
    intro size
    induction h with
    | nil => exact fun buf => .refl _
    | cons hxy _ ih =>
        intro buf
        rw [outcome_writeItems_cons, outcome_writeItems_cons]
        exact (hxy _).bind fun piece => (ih _).bind fun tail => .refl _
  intro buf
  rw [outcome_write_array elem rfl, outcome_write_array elem rfl, h.length_eq]
  split
  · exact hitems _ buf
  · exact .refl _

variable {a b : Object}

theorem sameResult_checkKeys {R : Text → Value → Value → Prop} (h : Object.Corresponds R a b)
    (type : Text) (declared : List Text) :
    SameResult (checkKeys type a declared) (checkKeys type b declared) := by
  rw [sameResult_iff]
  intro u
  rw [checkKeys_eq_ok_iff, checkKeys_eq_ok_iff]
  exact h.declared_iff

theorem sameResult_outcomeAt (type : Text) {m : Text × MemberType}
    (h : Value.Matched m.2.Same (Object.get a m.1) (Object.get b m.1)) (buf : Bytes) :
    SameResult (outcomeAt type m a buf) (outcomeAt type m b buf) := by
  unfold outcomeAt
  generalize Object.get a m.1 = v at h
  generalize Object.get b m.1 = w at h
  cases h with
  | absent => exact .refl _
  | present hv hw hsame =>
      simp only [hv, hw, Bool.false_eq_true, if_false]
      exact (hsame buf).mapError _

/-- Members with the same values under their names are written the same. -/
theorem sameResult_writeMembers {type : Text} {members : Members}
    (h : ∀ m ∈ members, Value.Matched m.2.Same (Object.get a m.1) (Object.get b m.1))
    (buf : Bytes) : SameResult (outcome (writeMembers type members a buf))
      (outcome (writeMembers type members b buf)) := by
  induction members generalizing buf with
  | nil => exact .refl _
  | cons m rest ih =>
      rw [outcome_writeMembers_cons, outcome_writeMembers_cons]
      have hhead := sameResult_outcomeAt type (h m List.mem_cons_self) (buf.take m.2.length)
      have hrest := ih (fun x hx => h x (List.mem_cons_of_mem _ hx)) (buf.drop m.2.length)
      exact hhead.bind fun piece => hrest.bind fun tail => .refl _

/-- What is found under the name of a member is the same to it. -/
theorem matched_of_corresponds {members : Members}
    (h : Object.Corresponds (SameUnder members) a b) :
    ∀ m ∈ members, Value.Matched m.2.Same (Object.get a m.1) (Object.get b m.1) := by
  intro m hm
  exact (h.get m.1).mono fun hsame => hsame m.2 hm

theorem same_struct {name : Text} {members : Members}
    (h : Object.Corresponds (SameUnder members) a b) :
    (struct name members).Same (.object a) (.object b) := by
  intro buf
  rw [outcome_write_struct, outcome_write_struct]
  refine SameResult.bind (.refl _) fun _ => ?_
  refine (sameResult_checkKeys h name _).bind fun _ => ?_
  exact sameResult_writeMembers (matched_of_corresponds h) buf

end MemberType

namespace Layout

open MemberType (outcome)

variable {l : Layout} {a b : Object}

/-- The values under a key are the same to the members of that name, and as bytes beyond the known
    members. -/
def SameUnder (l : Layout) (key : Text) (v w : Value) : Prop :=
  MemberType.SameUnder l.members key v w ∧ SameMark v w

theorem SameUnder.refl (l : Layout) (key : Text) (v : Value) : l.SameUnder key v v :=
  ⟨MemberType.SameUnder.refl _ _ _, Or.inl rfl⟩

theorem sameResult_tail (h : Object.Corresponds l.SameUnder a b) :
    SameResult (l.tail a) (l.tail b) := by
  by_cases hexp : l.expandable = true
  · -- What is neither absent nor a byte string is refused.
    have hrefused : ∀ obj, (Object.get obj unparsedField).isComposite = true →
        ∃ e, l.tail obj = .error e := by
      intro obj hcomposite
      refine tail_eq_error hexp (Value.isNull_of_isComposite hcomposite) fun bytes hbytes => ?_
      rw [hbytes] at hcomposite
      cases hcomposite
    have hsame : SameMark (Object.get a unparsedField) (Object.get b unparsedField) := by
      have hget := h.get unparsedField
      generalize Object.get a unparsedField = v at hget
      generalize Object.get b unparsedField = w at hget
      cases hget with
      | absent => exact Or.inl rfl
      | present _ _ hsame => exact hsame.2
    rcases hsame with heq | ⟨ha, hb⟩
    · refine .of_eq ?_
      rw [tail, tail, heq]
    · exact .of_errors (hrefused a ha) (hrefused b hb)
  · refine .of_eq ?_
    rw [tail, tail, if_neg hexp, if_neg hexp]

theorem sameResult_encodeInto (h : Object.Corresponds l.SameUnder a b) (buf : Bytes) :
    SameResult (outcome (l.encodeInto a buf)) (outcome (l.encodeInto b buf)) := by
  have hinto : ∀ obj, outcome (l.encodeInto obj buf) = (do
      let tail ← l.tail obj
      if buf.length = l.size.toInt + tail.length then outcome (l.writeChecked obj tail buf)
      else throw (.within l.name (.bound .length (l.size.toInt + tail.length) buf.length))) := by
    intro obj
    rw [encodeInto]
    cases l.tail obj with
    | error e => rfl
    | ok tail =>
        simp only [ok_bind]
        split
        · rfl
        · rfl
  rw [hinto, hinto]
  refine (sameResult_tail h).bind fun tail => ?_
  split
  · rw [outcome_writeChecked, outcome_writeChecked]
    refine (MemberType.sameResult_checkKeys h l.name _).bind fun _ => ?_
    have hmembers := MemberType.matched_of_corresponds (h.mono fun _ _ _ hsame => hsame.1)
    exact (MemberType.sameResult_writeMembers hmembers _).bind fun known => .refl _
  · exact .refl _

theorem sameResult_encode (h : Object.Corresponds l.SameUnder a b) :
    SameResult (l.encode a) (l.encode b) := by
  rw [encode_eq_outcome, encode_eq_outcome]
  exact (sameResult_tail h).bind fun tail => sameResult_encodeInto h _

end Layout

end NetlinkSchema
