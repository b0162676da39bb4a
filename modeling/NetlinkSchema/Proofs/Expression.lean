import NetlinkSchema.Schema.Types

/-!
# The text of type expressions

A manifest holds type expressions as text only. The text of an expression begins with a word that
says what is wrapped and ends with a parenthesis, unless it is a name. Names may hold anything, so a
name may look like an expression, and then two expressions have the same text. This is the only way
to confuse them: under the same wrappers, one of them has a name where the other has what the name
looks like. As long as no name ends like an expression, an expression can be read off its text, and
so it can if no name uses the characters that the text puts around names. The same goes for lower
types.

Expressions that mean nothing are left out. Their text could be a name, but no field of an accepted
schema has one.

## Main definitions

* `Text.Plain`: A text without parentheses and commas.
* `TypeExpr.names`: The names in an expression.
* `TypeExpr.Plain`: An expression that means something, with plain names.
* `TypeExpr.Meaningful`: An expression that means something, whatever its names.
* `TypeExpr.Mimics`, `LowerType.Mimics`: A name in one expression looks like a part of another.
* `Text.EndsWrapped`: A text that ends like an expression.

## Theorems

* `TypeExpr.text_eq_iff`, `LowerType.text_eq_iff`: Which expressions have the same text.
* `TypeExpr.Mimics.exists_name`: A name that looks like an expression ends like one.
* `TypeExpr.text_injective`: Plain expressions with the same text are the same.
* `LowerType.text_injective`: Lower types of plain names with the same text are the same.
-/

namespace NetlinkSchema

namespace Text

/-- A text without parentheses and commas. -/
def Plain (t : Text) : Prop := 40 ∉ t.utf8 ∧ 41 ∉ t.utf8 ∧ 44 ∉ t.utf8

instance (t : Text) : Decidable t.Plain :=
  inferInstanceAs (Decidable (40 ∉ t.utf8 ∧ 41 ∉ t.utf8 ∧ 44 ∉ t.utf8))

/-- A text that ends like an expression, or like what stands in front of the parenthesis of an array
    that is numbered from zero. -/
def EndsWrapped (t : Text) : Prop :=
  (ofString ")").utf8 <:+ t.utf8 ∨ (ofString ", zero").utf8 <:+ t.utf8

instance (t : Text) : Decidable t.EndsWrapped :=
  inferInstanceAs (Decidable (_ <:+ _ ∨ _ <:+ _))

theorem EndsWrapped.not_plain {t : Text} (h : t.EndsWrapped) : ¬ t.Plain := by
  rintro ⟨-, hclose, hcomma⟩
  rcases h with h | h
  · exact hclose (h.subset (by decide))
  · exact hcomma (h.subset (by decide))

theorem ext_utf8 {t u : Text} (h : t.utf8 = u.utf8) : t = u := by
  cases t
  cases u
  exact congrArg Text.mk h

end Text

namespace TypeExpr

/-- The names in an expression. -/
def names : TypeExpr → List Text
  | name n => [n]
  | array elem _ => elem.names
  | map elem => elem.names
  | flags elem => elem.names
  | other _ => []
  | missing => []

/-- An expression that means something, with names that its text does not confuse. -/
def Plain : TypeExpr → Prop
  | name n => n.Plain
  | array elem _ => elem.Plain
  | map elem => elem.Plain
  | flags elem => elem.Plain
  | other _ => False
  | missing => False

section Bytes

variable (elem : TypeExpr)

theorem utf8_array_zero : (array elem true).text.utf8
    = [97, 114, 114, 97, 121, 40] ++ elem.text.utf8 ++ [44, 32, 122, 101, 114, 111, 41] := rfl

theorem utf8_array_one : (array elem false).text.utf8
    = [97, 114, 114, 97, 121, 40] ++ elem.text.utf8 ++ [41] := rfl

theorem utf8_map : (map elem).text.utf8 = [109, 97, 112, 40] ++ elem.text.utf8 ++ [41] := rfl

theorem utf8_flags : (flags elem).text.utf8
    = [97, 115, 102, 108, 97, 103, 115, 40] ++ elem.text.utf8 ++ [41] := rfl

end Bytes

/-- An expression that means something. -/
def Meaningful : TypeExpr → Prop
  | name _ => True
  | array elem _ => elem.Meaningful
  | map elem => elem.Meaningful
  | flags elem => elem.Meaningful
  | other _ => False
  | missing => False

/-- An expression in which an element is wrapped. -/
def IsWrapped : TypeExpr → Prop
  | name _ => False
  | array _ _ => True
  | map _ => True
  | flags _ => True
  | other _ => False
  | missing => False

/-- The first expression has the text of the second because its name looks like a part of it: like
    a wrapped expression, or like the element of an array that is numbered from zero together with
    the words behind it. -/
inductive Mimics : TypeExpr → TypeExpr → Prop
  | name {f : TypeExpr} (h : f.IsWrapped) : Mimics (name f.text) f
  | zero (f : TypeExpr) : Mimics (array (TypeExpr.name (f.text ++ ", zero")) false) (array f true)
  | array {e f : TypeExpr} (zero : Bool) (h : Mimics e f) : Mimics (array e zero) (array f zero)
  | map {e f : TypeExpr} (h : Mimics e f) : Mimics (map e) (map f)
  | flags {e f : TypeExpr} (h : Mimics e f) : Mimics (flags e) (flags f)

section Same

variable {e f : TypeExpr}

theorem suffix_of_isWrapped (h : e.IsWrapped) : [41] <:+ e.text.utf8 := by
  cases e with
  | name n => cases h
  | array elem zero =>
      cases zero with
      | true =>
          rw [utf8_array_zero]
          have hzero : ([41] : List UInt8) <:+ [44, 32, 122, 101, 114, 111, 41] := by decide
          exact hzero.trans (List.suffix_append _ _)
      | false => exact List.suffix_append _ _
  | map elem => exact List.suffix_append _ _
  | flags elem => exact List.suffix_append _ _
  | other kind => cases h
  | missing => cases h

-- Under the same wrapper, the texts of the elements are the same.
theorem text_array_inj {zero : Bool} :
    (array e zero).text = (array f zero).text ↔ e.text = f.text := by
  refine ⟨fun h => Text.ext_utf8 ?_, fun h => ?_⟩
  · have hbytes := congrArg Text.utf8 h
    cases zero with
    | true =>
        rw [utf8_array_zero, utf8_array_zero] at hbytes
        exact List.append_cancel_left (List.append_cancel_right hbytes)
    | false =>
        rw [utf8_array_one, utf8_array_one] at hbytes
        exact List.append_cancel_left (List.append_cancel_right hbytes)
  · cases zero with
    | true => rw [text, text, h]
    | false => rw [text, text, h]

theorem text_map_inj : (map e).text = (map f).text ↔ e.text = f.text := by
  refine ⟨fun h => Text.ext_utf8 ?_, fun h => by rw [text, text, h]⟩
  have hbytes := congrArg Text.utf8 h
  rw [utf8_map, utf8_map] at hbytes
  exact List.append_cancel_left (List.append_cancel_right hbytes)

theorem text_flags_inj : (flags e).text = (flags f).text ↔ e.text = f.text := by
  refine ⟨fun h => Text.ext_utf8 ?_, fun h => by rw [text, text, h]⟩
  have hbytes := congrArg Text.utf8 h
  rw [utf8_flags, utf8_flags] at hbytes
  exact List.append_cancel_left (List.append_cancel_right hbytes)

namespace Mimics

theorem text_eq (h : Mimics e f) : e.text = f.text := by
  induction h with
  | name h => rfl
  | zero f =>
      apply Text.ext_utf8
      rw [utf8_array_zero, utf8_array_one]
      change [97, 114, 114, 97, 121, 40] ++ (f.text.utf8 ++ [44, 32, 122, 101, 114, 111]) ++ [41]
        = _
      simp only [List.append_assoc, List.cons_append, List.nil_append]
  | array zero h ih => exact text_array_inj.2 ih
  | map h ih => exact text_map_inj.2 ih
  | flags h ih => exact text_flags_inj.2 ih

/-- A name that looks like an expression ends like one. -/
theorem exists_name (h : Mimics e f) : ∃ n ∈ e.names, n.EndsWrapped := by
  induction h with
  | name h => exact ⟨_, List.mem_singleton_self _, Or.inl (suffix_of_isWrapped h)⟩
  | zero f => exact ⟨_, List.mem_singleton_self _, Or.inr (List.suffix_append _ _)⟩
  | array zero h ih => exact ih
  | map h ih => exact ih
  | flags h ih => exact ih

end Mimics

theorem mimics_of_text {n : Text} (hf : f.IsWrapped) (h : n = f.text) : Mimics (name n) f :=
  h ▸ Mimics.name hf

-- What holds of two elements holds of them under the same wrapper.
theorem same_or_mimics_wrap (wrap : TypeExpr → TypeExpr)
    (hwrap : ∀ a b, Mimics a b → Mimics (wrap a) (wrap b)) (h : e = f ∨ Mimics e f ∨ Mimics f e) :
    wrap e = wrap f ∨ Mimics (wrap e) (wrap f) ∨ Mimics (wrap f) (wrap e) :=
  h.imp (congrArg wrap) (Or.imp (hwrap e f) (hwrap f e))

/-- If an array numbered from zero has the text of one that is not, the element of the latter is a
    name that ends with the words for zero. -/
theorem mimics_zero (hf : f.Meaningful) (h : (array e true).text = (array f false).text) :
    Mimics (array f false) (array e true) := by
  have hbytes := congrArg Text.utf8 h
  rw [utf8_array_zero, utf8_array_one, List.append_assoc, List.append_assoc] at hbytes
  have hclosed : e.text.utf8 ++ [44, 32, 122, 101, 114, 111] ++ [41] = f.text.utf8 ++ [41] := by
    rw [← List.append_cancel_left hbytes, List.append_assoc]
    rfl
  have hzero := List.append_cancel_right hclosed
  have hname : ∀ n, f = name n → Mimics (array f false) (array e true) := by
    rintro n rfl
    have hn : n = e.text ++ ", zero" := Text.ext_utf8 hzero.symm
    exact hn ▸ Mimics.zero e
  have hopen : ¬ f.IsWrapped := by
    intro hwrapped
    have hlast := suffix_of_isWrapped hwrapped
    rw [← hzero] at hlast
    have hbyte := List.IsSuffix.getLast hlast
    simp at hbyte
  cases f with
  | name n => exact hname n rfl
  | array elem zero => exact absurd trivial hopen
  | map elem => exact absurd trivial hopen
  | flags elem => exact absurd trivial hopen
  | other kind => cases hf
  | missing => cases hf

/-- Expressions with the same text are the same, or one mimics the other. -/
theorem same_or_mimics (he : e.Meaningful) (hf : f.Meaningful) (h : e.text = f.text) :
    e = f ∨ Mimics e f ∨ Mimics f e := by
  -- Different wrappers begin with different words, so under them the texts differ at once.
  induction e generalizing f with
  | name n =>
      cases f with
      | name m => exact Or.inl (congrArg name h)
      | array elem zero => exact Or.inr (Or.inl (mimics_of_text trivial h))
      | map elem => exact Or.inr (Or.inl (mimics_of_text trivial h))
      | flags elem => exact Or.inr (Or.inl (mimics_of_text trivial h))
      | other kind => cases hf
      | missing => cases hf
  | array elem zero ih =>
      cases f with
      | name m => exact Or.inr (Or.inr (mimics_of_text trivial h.symm))
      | array elem' zero' =>
          by_cases hzero : zero = zero'
          · subst hzero
            exact same_or_mimics_wrap (array · zero) (fun _ _ => .array zero)
              (ih he hf (text_array_inj.1 h))
          · cases zero with
            | true =>
                cases zero' with
                | true => exact absurd rfl hzero
                | false => exact Or.inr (Or.inr (mimics_zero hf h))
            | false =>
                cases zero' with
                | true => exact Or.inr (Or.inl (mimics_zero he h.symm))
                | false => exact absurd rfl hzero
      | map elem' => cases zero <;> cases congrArg Text.utf8 h
      | flags elem' => cases zero <;> cases congrArg Text.utf8 h
      | other kind => cases hf
      | missing => cases hf
  | map elem ih =>
      cases f with
      | name m => exact Or.inr (Or.inr (mimics_of_text trivial h.symm))
      | array elem' zero' => cases zero' <;> cases congrArg Text.utf8 h
      | map elem' =>
          exact same_or_mimics_wrap map (fun _ _ => .map) (ih he hf (text_map_inj.1 h))
      | flags elem' => cases congrArg Text.utf8 h
      | other kind => cases hf
      | missing => cases hf
  | flags elem ih =>
      cases f with
      | name m => exact Or.inr (Or.inr (mimics_of_text trivial h.symm))
      | array elem' zero' => cases zero' <;> cases congrArg Text.utf8 h
      | map elem' => cases congrArg Text.utf8 h
      | flags elem' =>
          exact same_or_mimics_wrap flags (fun _ _ => .flags) (ih he hf (text_flags_inj.1 h))
      | other kind => cases hf
      | missing => cases hf
  | other kind => cases he
  | missing => cases he

/-- Expressions have the same text if they are the same or one mimics the other, and only then. -/
theorem text_eq_iff (he : e.Meaningful) (hf : f.Meaningful) :
    e.text = f.text ↔ e = f ∨ Mimics e f ∨ Mimics f e := by
  refine ⟨same_or_mimics he hf, ?_⟩
  rintro (rfl | hmimics | hmimics)
  · rfl
  · exact hmimics.text_eq
  · exact hmimics.text_eq.symm

theorem Plain.meaningful (h : e.Plain) : e.Meaningful := by
  induction e with
  | name n => trivial
  | array elem zero ih => exact ih h
  | map elem ih => exact ih h
  | flags elem ih => exact ih h
  | other kind => cases h
  | missing => cases h

theorem Plain.names (h : e.Plain) : ∀ n ∈ e.names, n.Plain := by
  induction e with
  | name n => exact List.forall_mem_singleton.2 h
  | array elem zero ih => exact ih h
  | map elem ih => exact ih h
  | flags elem ih => exact ih h
  | other kind => cases h
  | missing => cases h

theorem Mimics.not_plain (h : Mimics e f) : ¬ e.Plain := by
  rcases h.exists_name with ⟨n, hn, hends⟩
  exact fun hplain => hends.not_plain (hplain.names n hn)

/-- Plain expressions with the same text are the same. -/
theorem text_injective (he : e.Plain) (hf : f.Plain) (h : e.text = f.text) : e = f := by
  rcases (text_eq_iff he.meaningful hf.meaningful).1 h with heq | hmimics | hmimics
  · exact heq
  · exact absurd he hmimics.not_plain
  · exact absurd hf hmimics.not_plain

end Same

end TypeExpr

theorem asFlags_inj {a b : Text} : asFlags a = asFlags b ↔ a = b := by
  refine ⟨fun h => Text.ext_utf8 ?_, congrArg asFlags⟩
  have hbytes : [97, 115, 102, 108, 97, 103, 115, 40] ++ a.utf8 ++ [41]
      = [97, 115, 102, 108, 97, 103, 115, 40] ++ b.utf8 ++ [41] := congrArg Text.utf8 h
  exact List.append_cancel_left (List.append_cancel_right hbytes)

namespace LowerType

/-- The expression with the text of a lower type. -/
def expr (l : LowerType) : TypeExpr := if l.asFlags then .flags (.name l.name) else .name l.name

theorem text_expr (l : LowerType) : l.expr.text = l.text := by
  rw [expr, text]
  cases l.asFlags with
  | true => rfl
  | false => rfl

/-- A reference to a type whose name looks like the bitmask form of an enum. -/
def Mimics (l r : LowerType) : Prop :=
  l.asFlags = false ∧ r.asFlags = true ∧ l.name = NetlinkSchema.asFlags r.name

instance (l r : LowerType) : Decidable (l.Mimics r) := inferInstanceAs (Decidable (_ ∧ _ ∧ _))

/-- Lower types have the same text if they are the same or one mimics the other, and only then. -/
theorem text_eq_iff {l r : LowerType} : l.text = r.text ↔ l = r ∨ l.Mimics r ∨ r.Mimics l := by
  rcases l with ⟨name, asFlags⟩
  rcases r with ⟨name', asFlags'⟩
  cases asFlags with
  | true =>
      cases asFlags' with
      | true => simp [text, Mimics, asFlags_inj]
      | false => simp [text, Mimics, eq_comm]
  | false =>
      cases asFlags' with
      | true => simp [text, Mimics]
      | false => simp [text, Mimics]

/-- Lower types of plain names with the same text are the same. -/
theorem text_injective {l r : LowerType} (hl : l.name.Plain) (hr : r.name.Plain)
    (h : l.text = r.text) : l = r := by
  have hopen : ∀ name : Text, ¬ (NetlinkSchema.asFlags name).Plain := fun name hplain =>
    hplain.2.1 (List.mem_append_right _ (List.mem_singleton_self _))
  rcases text_eq_iff.1 h with heq | ⟨-, -, hname⟩ | ⟨-, -, hname⟩
  · exact heq
  · exact absurd (hname ▸ hl) (hopen _)
  · exact absurd (hname ▸ hr) (hopen _)

end LowerType

end NetlinkSchema
