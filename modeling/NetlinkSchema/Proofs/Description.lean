import NetlinkSchema.Proofs.Resolution

/-!
# Descriptions

What a manifest says about a type can be read back: its kind, the names and numbers of its values,
and the names, types and counts of its fields. This holds for the entry of each name, since a
manifest lists the types of a schema as they are declared.

## Main definitions

* `ValueDef.entry`, `TypeDef.entries`: The names and the numbers of values.
* `AttributeDef.outline`: What a manifest says about a struct member, apart from where it is.

## Theorems

* `Kind.name_injective`: The word for a kind determines it.
* `Schema.type?_describe`: The entry of a name describes its declaration.
* `Schema.describeType_kind`, `Schema.describeType_entries`, `Schema.describeFields_outline`: What
  is read back.
-/

namespace NetlinkSchema

namespace Kind

theorem ofName?_name (k : Kind) : ofName? k.name = some k := by
  cases k with
  | attrs => decide +kernel
  | struct => decide +kernel
  | enum => decide +kernel
  | flags => decide +kernel
  | other name unknown => exact dif_pos unknown

/-- The word for a kind determines it. -/
theorem name_injective {k k' : Kind} (h : k.name = k'.name) : k = k' := by
  have hsome : some k = some k' := by rw [← ofName?_name k, h, ofName?_name]
  exact Option.some.inj hsome

end Kind

namespace ValueDef

/-- The name and the number of a value. -/
def entry (v : ValueDef) : Text × Int64 := (v.name, v.value)

end ValueDef

namespace TypeDef

/-- The names and the numbers of the values. -/
def entries (d : TypeDef) : List (Text × Int64) := d.values.map ValueDef.entry

end TypeDef

namespace AttributeDef

/-- What a manifest says about a struct member, apart from its place and what is noted about it. -/
def outline (a : AttributeDef) : Text × Text × Int64 × Text :=
  (a.name, a.type.text, a.options.count, Schema.lowerText a.options.type)

end AttributeDef

namespace Schema

theorem getD_presentList {α : Type} (xs : List α) : (presentList xs).getD [] = xs := by
  cases xs with
  | nil => rfl
  | cons x xs => rfl

section Entry

variable (s : Schema) (needs : List (Text × Variant)) (settled : List Text) (name : Text)
  (d : TypeDef)

theorem describeType_name : (s.describeType needs settled name d).name = name := by
  rw [describeType]
  cases d.effectiveKind with
  | attrs => rfl
  | struct => rfl
  | enum => rfl
  | flags => rfl
  | other kind unknown => rfl

theorem describeType_kind :
    (s.describeType needs settled name d).kind = d.effectiveKind.name := by
  rw [describeType]
  cases d.effectiveKind with
  | attrs => rfl
  | struct => rfl
  | enum => rfl
  | flags => rfl
  | other kind unknown => rfl

theorem describeType_entries (hkind : d.effectiveKind = .enum ∨ d.effectiveKind = .flags) :
    (s.describeType needs settled name d).values.map (fun v => (v.name, v.value)) = d.entries := by
  rw [describeType]
  rcases hkind with hkind | hkind
  · simp only [hkind, List.map_map]
    rfl
  · simp only [hkind, List.map_map]
    rfl

end Entry

theorem typeList_describe (s : Schema) : s.describe.sign.typeList
    = s.types.map fun t => s.describeType s.needs s.settledStructs t.1 t.2 :=
  getD_presentList _

/-- A name is described by its declaration. -/
theorem type?_describe (s : Schema) (name : Text) : s.describe.sign.type? name
    = (s.get? name).map (s.describeType s.needs s.settledStructs name) := by
  rw [Manifest.type?, typeList_describe, List.find?_map, get?]
  have hname : ((fun t : ManifestType => t.name == name) ∘ fun t : Text × TypeDef =>
      s.describeType s.needs s.settledStructs t.1 t.2) = fun t => t.1 == name := by
    funext t
    rw [Function.comp_apply, describeType_name]
  rw [hname]
  cases hfind : s.types.find? (·.1 == name) with
  | none => rfl
  | some t =>
      have ht : t.1 = name := by simpa using List.find?_some hfind
      simp only [Option.map_some, ht]

/-- Members are described one by one, whatever their offsets. -/
theorem describeFields_outline (offset : Int64) (ms : List (AttributeDef × MemberType)) :
    (describeFields offset ms).map (fun f => (f.name, f.type, f.count, f.lower))
      = ms.map fun m => m.1.outline := by
  induction ms generalizing offset with
  | nil => rfl
  | cons m rest ih => rw [describeFields, List.map_cons, List.map_cons, ih]; rfl

end Schema

end NetlinkSchema
