import NetlinkSchema.Proofs.Acceptance
import NetlinkSchema.Proofs.Expression
import NetlinkSchema.Proofs.ExpressionReading

/-!
# Ambiguous expressions

The text of a type expression puts names as they are between words and parentheses. A document may
name a type in any way, so it may refer to a type by a name that looks like an array, and then the
text does not tell the reference from the array. Every wrapped expression that can be read shares
its text with such a reference.

The manifest holds expressions as text, so two schemas may have the same manifest, and with it the
same fingerprint, though they encode messages differently. Schemas are safe from this as long as no
name ends with a parenthesis or with the words for an array that is numbered from zero.

## Main definitions

* `TypeExpr.Readable`, `LowerType.Readable`: What can be read from a document.

## Theorems

* `TypeExpr.WrittenAs.exists_string`: The text of an expression could be written as a name.
* `TypeExpr.same_text_iff_mimics`: Which expressions and lower types have the same text.
* `Schema.reference_disguised_as_array`: Two schemas with the same manifest and different messages.
-/

namespace NetlinkSchema

open Yaml (Node)

theorem Text.ofString_append (a b : String) :
    Text.ofString (a ++ b) = Text.ofString a ++ Text.ofString b := by
  apply Text.ext_utf8
  simp [Text.ofString]

namespace TypeExpr

/-- An expression that can be read from some node. -/
def Readable (e : TypeExpr) : Prop := ∃ place n, ofNode place n = .ok e

theorem readable_name {w : String} (h : (Text.ofString w).isEmpty = false) :
    (name w).Readable := by
  refine ⟨.document, .scalar 1 Yaml.strTag w, ?_⟩
  rw [Text.isEmpty_ofString] at h
  rw [ofNode, h]
  rfl

theorem isEmpty_text_of_isWrapped {e : TypeExpr} (h : e.IsWrapped) : e.text.isEmpty = false := by
  cases e with
  | name n => cases h
  | array elem zero =>
      cases zero with
      | true => rfl
      | false => rfl
  | map elem => rfl
  | flags elem => rfl
  | other kind => cases h
  | missing => cases h

section Readable

variable {e f : TypeExpr} {n : Node}

theorem WrittenAs.meaningful (h : e.WrittenAs n) : e.Meaningful := by
  induction h with
  | name h => trivial
  | array hkind hzero htype h ih => exact ih
  | map hkind hzero htype h ih => exact ih
  | flags hkind hzero htype h ih => exact ih

/-- The text of an expression could be written as a name. -/
theorem WrittenAs.exists_string (h : e.WrittenAs n) : ∃ w : String, e.text = w := by
  have hwrap : ∀ {t : Text} (before after : String), (∃ w : String, t = w) →
      ∃ w : String, Text.ofString before ++ t ++ Text.ofString after = w := by
    rintro t before after ⟨w, rfl⟩
    exact ⟨before ++ w ++ after, by rw [Text.ofString_append, Text.ofString_append]⟩
  induction h with
  | name h => exact ⟨_, rfl⟩
  | @array _ _ _ _ _ zero hkind hzero htype h ih =>
      cases zero with
      | true => exact hwrap "array(" ", zero)" ih
      | false => exact hwrap "array(" ")" ih
  | map hkind hzero htype h ih => exact hwrap "map(" ")" ih
  | flags hkind hzero htype h ih => exact hwrap "asflags(" ")" ih

namespace Readable

theorem exists_written (h : e.Readable) : ∃ n, e.WrittenAs n := by
  rcases h with ⟨place, n, h⟩
  exact ⟨n, writtenAs_of_ofNode h⟩

theorem meaningful (h : e.Readable) : e.Meaningful := by
  rcases h.exists_written with ⟨n, hn⟩
  exact hn.meaningful

theorem name_text (h : e.Readable) (hwrapped : e.IsWrapped) : (name e.text).Readable := by
  rcases h.exists_written with ⟨n, hn⟩
  rcases hn.exists_string with ⟨w, hw⟩
  have hempty := isEmpty_text_of_isWrapped hwrapped
  rw [hw] at hempty ⊢
  exact readable_name hempty

end Readable

theorem eq_of_text_of_names (he : e.Meaningful) (hf : f.Meaningful)
    (hnames : ∀ n ∈ e.names ++ f.names, ¬ n.EndsWrapped) (h : e.text = f.text) : e = f := by
  rcases (text_eq_iff he hf).1 h with heq | hmimics | hmimics
  · exact heq
  · rcases hmimics.exists_name with ⟨n, hn, hends⟩
    exact absurd hends (hnames n (List.mem_append_left _ hn))
  · rcases hmimics.exists_name with ⟨n, hn, hends⟩
    exact absurd hends (hnames n (List.mem_append_right _ hn))

end Readable

end TypeExpr

namespace LowerType

/-- A lower type that can be read from some node. -/
def Readable (l : LowerType) : Prop := ∃ place n, ofNode place n = .ok l

theorem Mimics.endsWrapped {l r : LowerType} (h : l.Mimics r) : l.name.EndsWrapped := by
  rw [h.2.2]
  exact Or.inl (List.suffix_append _ _)

end LowerType

namespace TypeExpr

/-- Expressions that can be read have the same text if they are the same or a name in one looks like
    a part of the other, and only then; every wrapped expression looks like some name. As long as no
    name ends like an expression, the text says which expression it is. So it is for lower types. -/
theorem same_text_iff_mimics {e f : TypeExpr} (he : e.Readable) (hf : f.Readable)
    (l r : LowerType) :
    (e.text = f.text ↔ e = f ∨ e.Mimics f ∨ f.Mimics e) ∧
      (e.IsWrapped → (name e.text).Readable ∧ (name e.text).Mimics e) ∧
      ((∀ n ∈ e.names ++ f.names, ¬ n.EndsWrapped) → e.text = f.text → e = f) ∧
      (l.text = r.text ↔ l = r ∨ l.Mimics r ∨ r.Mimics l) ∧
      (¬ l.name.EndsWrapped → ¬ r.name.EndsWrapped → l.text = r.text → l = r) := by
  refine ⟨text_eq_iff he.meaningful hf.meaningful,
    fun hwrapped => ⟨he.name_text hwrapped, .name hwrapped⟩,
    eq_of_text_of_names he.meaningful hf.meaningful, LowerType.text_eq_iff, fun hl hr h => ?_⟩
  rcases LowerType.text_eq_iff.1 h with heq | hmimics | hmimics
  · exact heq
  · exact absurd hmimics.endsWrapped hl
  · exact absurd hmimics.endsWrapped hr

section Nodes

/-- The node of a word. -/
def word (value : String) : Node := .scalar 1 Yaml.strTag value

/-- A mapping that wraps the expression of a node. -/
def wrapping (kind : String) (elem : Node) (others : List (Node × Node)) : Node :=
  .mapping 1 Yaml.mapTag ((word "kind", word kind) :: (word "type", elem) :: others)

theorem ofNode_wrapping_twice : ofNode .document (wrapping "array" (wrapping "map"
    (wrapping "flags" (word "mode") []) []) [(word "zero", .scalar 1 Yaml.boolTag "true")])
    = .ok (array (map (flags (name "mode"))) true) := rfl

end Nodes

/-- The text of nested wrappers is that of a name, and so is the text of a bitmask form. Without
    such names, what is wrapped differs from what is not. -/
theorem wrapped_text_mimicked :
    (name "array(map(asflags(mode)), zero)").Readable ∧
      (name "array(map(asflags(mode)), zero)").text
        = (array (map (flags (name "mode"))) true).text ∧
      (array (map (flags (name "mode"))) true).text ≠ (name "mode").text ∧
      (⟨"asflags(mode)", false⟩ : LowerType).text = (⟨"mode", true⟩ : LowerType).text ∧
      (⟨"mode", false⟩ : LowerType).text ≠ (⟨"mode", true⟩ : LowerType).text := by
  have htext : (array (map (flags (name "mode"))) true).text
      = "array(map(asflags(mode)), zero)" := by decide +kernel
  have hwrapped : (array (map (flags (name "mode"))) true).Readable :=
    ⟨.document, _, ofNode_wrapping_twice⟩
  have hplain : (name "mode").Readable := readable_name (by decide +kernel)
  obtain ⟨-, hmimics, hnames, hlower, -⟩ := same_text_iff_mimics hwrapped hplain
    ⟨"asflags(mode)", false⟩ ⟨"mode", true⟩
  rcases hmimics trivial with ⟨hname, hlooks⟩
  have hsame := (same_text_iff_mimics hname hwrapped ⟨"mode", false⟩ ⟨"mode", true⟩).1.2
    (Or.inr (Or.inl hlooks))
  have hother := (same_text_iff_mimics hname hwrapped ⟨"mode", false⟩ ⟨"mode", true⟩).2.2.2.2
  rw [htext] at hname hsame
  refine ⟨hname, hsame, fun h => ?_, hlower.2 (Or.inr (Or.inl (by decide +kernel))), fun h => ?_⟩
  · exact absurd (hnames (by decide +kernel) h) (by decide)
  · exact absurd (hother (by decide +kernel) (by decide +kernel) h) (by decide)

end TypeExpr

namespace Schema

/-- Messages with a field of some type, in a schema with a struct that is named like an array. -/
def disguised (x : TypeExpr) : Schema where
  types := [("message", declare none [⟨"x", x, .empty⟩] []),
    ("array(u8)", declare (some .struct) [⟨"a", .name "u8", .empty⟩] [])]
  distinct := by
    change [Text.ofString "message", Text.ofString "array(u8)"].Nodup
    decide +kernel
  named := by
    change ∀ name ∈ [Text.ofString "message", Text.ofString "array(u8)"], isTypeName name = true
    decide +kernel

/-- What the manifest says about the messages and the struct. -/
def disguisedTypes : List ManifestType := [
  ⟨"message", "attrs", .empty, false, none,
    [{ ManifestAttr.empty with name := "x", index := 1, type := "array(u8)" }], none, [], false,
    false⟩,
  ⟨"array(u8)", "struct", .empty, false, none, [], some ⟨1, false, false, some [
    { ManifestField.empty with name := "a", size := 1, type := "u8" }]⟩, [], false, false⟩]

theorem describe_disguised_reference :
    (disguised (.name "array(u8)")).describe = ⟨.empty, some disguisedTypes⟩ := rfl

theorem describe_disguised_array :
    (disguised (.array (.name "u8") false)).describe = ⟨.empty, some disguisedTypes⟩ := rfl

/-- A reference to a struct that is named like an array has the text of the array, and one that is
    named like a bitmask form has the text of that. Two schemas have the same manifest and
    fingerprint, but a message of the one cannot be read with the other. -/
theorem reference_disguised_as_array :
    (TypeExpr.name "array(u8)").Readable ∧ (TypeExpr.array (.name "u8") false).Readable ∧
      (TypeExpr.name "array(u8)").text = (TypeExpr.array (.name "u8") false).text ∧
      TypeExpr.name "array(u8)" ≠ .array (.name "u8") false ∧
      LowerType.Readable ⟨"asflags(mode)", false⟩ ∧ LowerType.Readable ⟨"mode", true⟩ ∧
      (⟨"asflags(mode)", false⟩ : LowerType).text = (⟨"mode", true⟩ : LowerType).text ∧
      ∃ c c', ((disguised (.name "array(u8)")).compile .default).output = some c ∧
        ((disguised (.array (.name "u8") false)).compile .default).output = some c' ∧
        c.manifest = c'.manifest ∧
        (c.bundle.codec? "message").map (fun m => (m.decode [5, 0, 1, 0, 7]).toOption.isSome)
          = some true ∧
        (c'.bundle.codec? "message").map (fun m => (m.decode [5, 0, 1, 0, 7]).toOption.isSome)
          = some false := by
  refine ⟨TypeExpr.readable_name (by decide +kernel),
    ⟨.document, TypeExpr.wrapping "array" (TypeExpr.word "u8") [], rfl⟩, by decide +kernel,
    by decide, ⟨.document, TypeExpr.word "asflags(mode)", rfl⟩,
    ⟨.document, TypeExpr.wrapping "flags" (TypeExpr.word "mode") [], rfl⟩, by decide +kernel, ?_⟩
  refine ⟨_, _, output_of_errors (by decide +kernel), output_of_errors (by decide +kernel), ?_,
    by decide +kernel, by decide +kernel⟩
  change (disguised _).describe.sign = (disguised _).describe.sign
  rw [describe_disguised_reference, describe_disguised_array]

end Schema

end NetlinkSchema
