import NetlinkSchema.Proofs.Agreement
import NetlinkSchema.Proofs.Alike
import NetlinkSchema.Proofs.Placement

/-!
# The order of declarations

Types are looked up by name, so it does not matter where a schema declares them. Schemas with the
same declarations in another order have the same members, the same codecs and the same descriptions.
The only trace of the order is the mark of a struct that contains one declared after it.

## Main definitions

* `ManifestType.undeferred`: A description without that mark.
* `Schema.reversed`: A schema with its declarations in reverse.

## Theorems

* `Schema.get?_of_perm`: Names have the same declarations.
* `Schema.members_of_perm`, `Schema.compileType_of_perm`: Types are resolved and compiled alike.
* `Schema.bundle_agree_of_perm`: The codecs agree.
* `Schema.describe_of_perm`: The descriptions are the same but for the mark.
* `Schema.codecs_independent_of_order`: All of this, for schemas that are accepted.
-/

namespace NetlinkSchema

namespace ManifestType

/-- The description of a type without the mark of a deferred struct. -/
def undeferred (t : ManifestType) : ManifestType :=
  { t with struct := t.struct.map fun l => { l with deferred := false } }

end ManifestType

namespace Schema

section Perm

variable {s t : Schema} (h : s.types.Perm t.types)
include h

theorem get?_of_perm : s.get? = t.get? := by
  funext name
  refine Option.ext fun d => ?_
  rw [← mem_types_iff, ← mem_types_iff, h.mem_iff]

theorem alike_of_perm : s.Alike t := by
  intro name
  rw [get?_of_perm h]
  cases t.get? name with
  | none => exact .none
  | some d => exact .some (.refl d)

theorem membersTo_of_perm (depth : Nat) : s.membersTo depth = t.membersTo depth := by
  induction depth with
  | zero => rfl
  | succ depth ih =>
      funext name
      have hmember := (alike_of_perm h).memberType (.of_eq ih)
      rw [membersTo, membersTo, get?_of_perm h]
      simp only [hmember]

theorem members_of_perm : s.members = t.members := by
  funext name
  rw [members, members, size, size, h.length_eq, membersTo_of_perm h]

theorem attributePayload_of_perm : s.attributePayload = t.attributePayload := by
  funext a
  exact (alike_of_perm h).attributePayload (.of_eq (members_of_perm h)) a

theorem attrSet_of_perm : s.attrSet = t.attrSet := by
  funext name d
  rw [attrSet, attrSet, attributePayload_of_perm h]

theorem layout_of_perm : s.layout = t.layout := by
  funext name d
  rw [layout, layout, members_of_perm h]

theorem needsOf_of_perm : s.needsOf = t.needsOf := by
  funext name d
  rw [needsOf, needsOf, attrSet_of_perm h, members_of_perm h]

/-- The same derived forms are needed, in another order. -/
theorem needs_perm : s.needs.Perm t.needs := by
  rw [needs, needs, needsOf_of_perm h]
  exact h.flatMap_right _

theorem contains_needs_of_perm (x : Text × Variant) : s.needs.contains x = t.needs.contains x := by
  rw [Bool.eq_iff_iff, List.contains_iff_mem, List.contains_iff_mem, (needs_perm h).mem_iff]

theorem compileType_of_perm : s.compileType s.needs = t.compileType t.needs := by
  funext name d
  rw [compileType, compileType]
  simp only [attrSet_of_perm h, layout_of_perm h, contains_needs_of_perm h]

theorem bundle_get?_of_perm (name : Text) : s.bundle.get? name = t.bundle.get? name := by
  rw [bundle_get?, bundle_get?, get?_of_perm h, compileType_of_perm h]

/-- The codecs of a schema do not tell in which order its types are declared. -/
theorem bundle_agree_of_perm (name : Text) : s.bundle.Agree t.bundle name :=
  bundle_agree (bundle_get?_of_perm h) name

/-- The descriptions of a type differ in the mark of a deferred struct only. -/
theorem describeType_of_perm (settled settled' : List Text) (name : Text) (d : TypeDef) :
    (s.describeType s.needs settled name d).undeferred
      = (t.describeType t.needs settled' name d).undeferred := by
  have hmembers : s.declaredMembers d = t.declaredMembers d := by
    rw [declaredMembers, declaredMembers, size, size, h.length_eq]
    simp only [(alike_of_perm h).memberType (.of_eq (membersTo_of_perm h _))]
  have hattrs : s.describeAttrs d = t.describeAttrs d := by
    rw [describeAttrs, describeAttrs, attributePayload_of_perm h]
  rw [describeType, describeType]
  cases d.effectiveKind with
  | attrs => simp only [hattrs]
  | struct => simp only [describeStruct, ManifestType.undeferred, Option.map_some, hmembers,
      layout_of_perm h]
  | enum => simp only [contains_needs_of_perm h]
  | flags => rfl
  | other name unknown => rfl

end Perm

/-- The manifests describe a name in the same way, but for the mark of a deferred struct. -/
theorem describe_of_perm {s t : Schema} (h : s.types.Perm t.types) (name : Text) :
    (s.describe.sign.type? name).map ManifestType.undeferred
      = (t.describe.sign.type? name).map ManifestType.undeferred := by
  rw [type?_describe, type?_describe, get?_of_perm h, Option.map_map, Option.map_map]
  refine congrArg (fun describe => Option.map describe (t.get? name)) ?_
  funext d
  exact describeType_of_perm h _ _ name d

/-- A schema with its declarations in reverse. -/
def reversed (s : Schema) : Schema where
  types := s.types.reverse
  distinct := by
    rw [List.map_reverse, List.nodup_reverse]
    exact s.distinct
  named := by
    intro name hname
    rw [List.map_reverse, List.mem_reverse] at hname
    exact s.named name hname

/-- Codecs do not depend on the order of declarations: if schemas with the same declarations are
    both accepted, their codecs agree on every name, and the descriptions of a type differ in the
    mark of a deferred struct only. A struct may have fixed offsets in one order and be walked over
    in the other. Both come to the same, and if its size is exact, to what the codec does. -/
theorem codecs_independent_of_order {s t : Schema} (horder : s.types.Perm t.types)
    {o o' : CompileOptions} {c c' : Compiled} (hs : (s.compile o).output = some c)
    (ht : (t.compile o').output = some c') :
    (∀ name, c.bundle.Agree c'.bundle name) ∧
    (∀ name, (c.manifest.type? name).map ManifestType.undeferred
      = (c'.manifest.type? name).map ManifestType.undeferred) ∧
    ∀ name l, c.bundle.codec? name = some (.struct l) →
      l.SamePlaced s.settledStructs t.settledStructs ∧
      (s.CountsNonneg → MemberType.exactMembersSize l.members < 2 ^ 63 →
        l.Placed s.settledStructs ∧ l.Placed t.settledStructs) := by
  have haccepted := (accepted_of_compile hs).1
  rw [eq_of_compile hs, eq_of_compile ht]
  refine ⟨bundle_agree_of_perm horder, describe_of_perm horder, fun name l hcodec => ?_⟩
  refine ⟨l.samePlaced _ _, fun hcounts hsize => ?_⟩
  have hsized := struct_sized haccepted hcounts hcodec hsize
  exact ⟨hsized.placed _, hsized.placed _⟩

-- The corners of a box are points, which the tree declares before boxes.
theorem tree_codecs_independent_of_order :
    tree.settledStructs.contains "box" = true ∧
      tree.reversed.settledStructs.contains "box" = false ∧
      tree.bundle.Agree tree.reversed.bundle "node" ∧
      (tree.layout "box" box).Placed tree.reversed.settledStructs := by
  have hreversed := output_of_errors (s := tree.reversed) (o := .default) (by decide +kernel)
  rcases codecs_independent_of_order (List.reverse_perm _).symm tree_compile hreversed with
    ⟨hagree, -, hplaced⟩
  have hmem : (Text.ofString "box", box) ∈ tree.types := by simp [tree]
  have hcodec := codec?_struct hmem rfl
  exact ⟨by decide +kernel, by decide +kernel, hagree "node",
    ((hplaced "box" _ hcodec).2 (by decide +kernel) (by decide +kernel)).2⟩

end Schema

end NetlinkSchema
