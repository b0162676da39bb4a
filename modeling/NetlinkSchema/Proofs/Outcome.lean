import NetlinkSchema.Wire.Error
import Mathlib.Data.List.Forall2

/-!
# Outcomes of codecs

What can be said of a computation that ends in a result or in an error: when a sequence of steps
succeeds, what a fold over a list keeps, and when the only possible error is that an attribute is
too long for its header.

## Main definitions

* `WireError.TooLong`: The cause is an attribute that does not fit its length field.
* `UnlessTooLong`: A result with a property, or the error that an attribute is too long.

## Theorems

* `bind_eq_ok_iff`: When two steps in a row succeed.
* `mapM_eq_ok_iff`: When a step succeeds for each element of a list.
* `foldlM_invariant`: What each step of a fold preserves holds at its end.
* `foldlM_succeeds`: A fold whose steps always succeed succeeds.
* `UnlessTooLong.mapM`: The same step by step for the elements of a list.
-/

namespace NetlinkSchema

section Except

variable {ε α β σ : Type}

theorem bind_eq_ok_iff {x : Except ε α} {f : α → Except ε β} {b : β} :
    (x >>= f) = .ok b ↔ ∃ a, x = .ok a ∧ f a = .ok b := by
  cases x with
  | error e =>
      constructor
      · intro h
        cases h
      · rintro ⟨a, h, -⟩
        cases h
  | ok a =>
      constructor
      · exact fun h => ⟨a, rfl, h⟩
      · rintro ⟨a', h, hf⟩
        cases h
        exact hf

/-- A step after which the result is only put into its place. -/
theorem bind_pure_eq_ok_iff {x : Except ε α} {f : α → β} {b : β} :
    (x >>= fun a => pure (f a)) = .ok b ↔ ∃ a, x = .ok a ∧ b = f a := by
  rw [bind_eq_ok_iff]
  refine exists_congr fun a => and_congr_right fun _ => ?_
  exact ⟨fun h => (Except.ok.inj h).symm, fun h => congrArg Except.ok h.symm⟩

theorem exists_ok_of_isSome {x : Except ε α} (h : x.toOption.isSome = true) :
    ∃ a, x = .ok a := by
  cases x with
  | error e => cases h
  | ok a => exact ⟨a, rfl⟩

@[simp] theorem ok_bind (a : α) (f : α → Except ε β) : (Except.ok a >>= f) = f a := rfl

@[simp] theorem error_bind (e : ε) (f : α → Except ε β) : (Except.error e >>= f) = .error e := rfl

@[simp] theorem pure_eq_ok (a : α) : (pure a : Except ε α) = .ok a := rfl

@[simp] theorem map_ok (f : α → β) (a : α) : Except.map f (Except.ok a : Except ε α) = .ok (f a) :=
  rfl

@[simp] theorem map_error (f : α → β) (e : ε) :
    Except.map f (Except.error e : Except ε α) = .error e := rfl

theorem map_eq_ok_iff {x : Except ε α} {f : α → β} {b : β} :
    x.map f = .ok b ↔ ∃ a, x = .ok a ∧ f a = b := by
  cases x with
  | error e => simp
  | ok a => simp

theorem mapError_eq_ok_iff {ε' : Type} {x : Except ε α} {place : ε → ε'} {a : α} :
    x.mapError place = .ok a ↔ x = .ok a := by
  cases x with
  | error e => exact ⟨nofun, nofun⟩
  | ok b => exact ⟨fun h => by cases h; rfl, fun h => by cases h; rfl⟩

/-- A step succeeds for each element of a list, with the results side by side. -/
theorem mapM_eq_ok_iff {f : α → Except ε β} {xs : List α} {ys : List β} :
    xs.mapM f = .ok ys ↔ List.Forall₂ (fun x y => f x = .ok y) xs ys := by
  induction xs generalizing ys with
  | nil =>
      rw [List.mapM_nil, pure_eq_ok, List.forall₂_nil_left_iff, Except.ok.injEq]
      exact eq_comm
  | cons x xs ih =>
      rw [List.mapM_cons, bind_eq_ok_iff, List.forall₂_cons_left_iff]
      constructor
      · rintro ⟨y, hy, h⟩
        rcases bind_eq_ok_iff.1 h with ⟨ys', hys, hcons⟩
        cases hcons
        exact ⟨y, ys', hy, ih.1 hys, rfl⟩
      · rintro ⟨y, ys', hy, hys, rfl⟩
        exact ⟨y, hy, by rw [ih.2 hys, ok_bind, pure_eq_ok]⟩

theorem mapM_of_forall {f : α → Except ε β} {g : α → β} {xs : List α}
    (h : ∀ x ∈ xs, f x = .ok (g x)) : xs.mapM f = .ok (xs.map g) := by
  induction xs with
  | nil => rfl
  | cons x xs ih =>
      rw [List.mapM_cons, h x List.mem_cons_self, ok_bind,
        ih fun y hy => h y (List.mem_cons_of_mem _ hy), ok_bind, pure_eq_ok, List.map_cons]

theorem exists_forall₂ {R : α → β → Prop} {xs : List α} (h : ∀ x ∈ xs, ∃ y, R x y) :
    ∃ ys, List.Forall₂ R xs ys := by
  induction xs with
  | nil => exact ⟨[], List.Forall₂.nil⟩
  | cons x xs ih =>
      rcases h x List.mem_cons_self with ⟨y, hy⟩
      rcases ih fun z hz => h z (List.mem_cons_of_mem _ hz) with ⟨ys, hys⟩
      exact ⟨y :: ys, hys.cons hy⟩

theorem forall₂_left {R : α → β → Prop} {xs : List α} {ys : List β} (h : List.Forall₂ R xs ys)
    {x : α} (hx : x ∈ xs) : ∃ y ∈ ys, R x y := by
  induction h with
  | nil => cases hx
  | cons hr _ ih =>
      rcases List.mem_cons.1 hx with rfl | hx
      · exact ⟨_, List.mem_cons_self, hr⟩
      · rcases ih hx with ⟨y, hy, hxy⟩
        exact ⟨y, List.mem_cons_of_mem _ hy, hxy⟩

theorem forall₂_right {R : α → β → Prop} {xs : List α} {ys : List β} (h : List.Forall₂ R xs ys)
    {y : β} (hy : y ∈ ys) : ∃ x ∈ xs, R x y := forall₂_left h.flip hy

theorem map_eq_map_of_forall₂ {γ : Type} {f : α → γ} {g : β → γ} {xs : List α} {ys : List β}
    (h : List.Forall₂ (fun x y => f x = g y) xs ys) : xs.map f = ys.map g := by
  induction h with
  | nil => rfl
  | cons hxy _ ih => rw [List.map_cons, List.map_cons, hxy, ih]

theorem nodup_of_forall₂ {γ δ : Type} {R : α → β → Prop} {f : α → γ} {g : β → δ} {xs : List α}
    {ys : List β} (h : List.Forall₂ R xs ys)
    (hinj : ∀ x y x' y', R x y → R x' y' → g y = g y' → f x = f x') (hxs : (xs.map f).Nodup) :
    (ys.map g).Nodup := by
  induction h with
  | nil => exact List.nodup_nil
  | cons hr hrest ih =>
      rw [List.map_cons, List.nodup_cons] at hxs ⊢
      refine ⟨fun hmem => hxs.1 ?_, ih hxs.2⟩
      rcases List.mem_map.1 hmem with ⟨y, hy, hyg⟩
      rcases forall₂_right hrest hy with ⟨x, hx, hxy⟩
      exact List.mem_map.2 ⟨x, hx, hinj _ _ _ _ hxy hr hyg⟩

/-- What each step of a fold preserves holds at its end. The property speaks of the part of the
    list that the fold has passed. -/
theorem foldlM_invariant {step : σ → α → Except ε σ} (inv : List α → σ → Prop) {init s : σ}
    {xs : List α} (hinit : inv [] init)
    (hstep : ∀ passed x s s', x ∈ xs → inv passed s → step s x = .ok s' → inv (passed ++ [x]) s')
    (h : xs.foldlM step init = .ok s) : inv xs s := by
  have key : ∀ (later passed : List α) (s₀ : σ), (∀ x ∈ later, x ∈ xs) → inv passed s₀ →
      later.foldlM step s₀ = .ok s → inv (passed ++ later) s := by
    intro later
    induction later with
    | nil =>
        intro passed s₀ _ hinv hfold
        cases hfold
        rwa [List.append_nil]
    | cons x rest ih =>
        intro passed s₀ hmem hinv hfold
        rw [List.foldlM_cons] at hfold
        rcases bind_eq_ok_iff.1 hfold with ⟨s₁, hs₁, hrest⟩
        have hnext := hstep passed x s₀ s₁ (hmem x List.mem_cons_self) hinv hs₁
        have := ih (passed ++ [x]) s₁ (fun y hy => hmem y (List.mem_cons_of_mem _ hy)) hnext hrest
        rwa [List.append_assoc, List.singleton_append] at this
  exact key xs [] init (fun _ hx => hx) hinit h

theorem foldlM_succeeds {step : σ → α → Except ε σ} {xs : List α} (init : σ)
    (h : ∀ x ∈ xs, ∀ s, ∃ s', step s x = .ok s') : ∃ s, xs.foldlM step init = .ok s := by
  induction xs generalizing init with
  | nil => exact ⟨init, rfl⟩
  | cons x xs ih =>
      rcases h x List.mem_cons_self init with ⟨s', hs'⟩
      rcases ih s' fun y hy => h y (List.mem_cons_of_mem _ hy) with ⟨s, hs⟩
      exact ⟨s, by rw [List.foldlM_cons, hs', ok_bind, hs]⟩

end Except

namespace WireError

/-- The cause is an attribute that does not fit its length field. -/
def TooLong (e : WireError) : Prop := ∃ want got, e.cause = .bound .attributeLength want got

theorem TooLong.field {e : WireError} (h : e.TooLong) (type name : Text) :
    (WireError.field type name e).TooLong := h

theorem TooLong.element {e : WireError} (h : e.TooLong) (index : Int) :
    (WireError.element index e).TooLong := h

end WireError

/-- A result with a property, or the error that an attribute is too long. -/
def UnlessTooLong {α : Type} (x : Except WireError α) (P : α → Prop) : Prop :=
  match x with
  | .ok a => P a
  | .error e => e.TooLong

namespace UnlessTooLong

variable {α β : Type} {x : Except WireError α}

theorem imp {P Q : α → Prop} (h : UnlessTooLong x P) (hpq : ∀ a, P a → Q a) :
    UnlessTooLong x Q := by
  cases x with
  | error e => exact h
  | ok a => exact hpq a h

theorem bind {P : α → Prop} {Q : β → Prop} {f : α → Except WireError β} (h : UnlessTooLong x P)
    (hf : ∀ a, P a → UnlessTooLong (f a) Q) : UnlessTooLong (x >>= f) Q := by
  cases x with
  | error e => exact h
  | ok a => exact hf a h

theorem map {P : β → Prop} {f : α → β} (h : UnlessTooLong x fun a => P (f a)) :
    UnlessTooLong (x.map f) P := by
  cases x with
  | error e => exact h
  | ok a => exact h

theorem mapError {P : α → Prop} {place : WireError → WireError} (h : UnlessTooLong x P)
    (hplace : ∀ e : WireError, e.TooLong → (place e).TooLong) :
    UnlessTooLong (x.mapError place) P := by
  cases x with
  | error e => exact hplace e h
  | ok a => exact h

theorem mapM {P : α → β → Prop} {f : α → Except WireError β} {xs : List α}
    (h : ∀ x ∈ xs, UnlessTooLong (f x) (P x)) :
    UnlessTooLong (xs.mapM f) (List.Forall₂ P xs) := by
  induction xs with
  | nil => exact List.Forall₂.nil
  | cons x xs ih =>
      rw [List.mapM_cons]
      refine (h x List.mem_cons_self).bind fun y hy => ?_
      refine (ih fun z hz => h z (List.mem_cons_of_mem _ hz)).bind fun ys hys => ?_
      exact List.Forall₂.cons hy hys

end UnlessTooLong

end NetlinkSchema
