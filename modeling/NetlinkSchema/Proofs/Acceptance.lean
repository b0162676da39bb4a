import NetlinkSchema.Compilation.Result
import NetlinkSchema.Proofs.Object

/-!
# Accepted schemas

A schema is accepted if no phase of the compilation found an error. The errors of a phase are those
of its types put together, so each type is then without fault on its own: its names are distinct and
not reserved, and each of its fields is resolved.

## Main definitions

* `Schema.Accepted`: No phase found an error.
* `Schema.tree`: A schema of trees, which is accepted.

## Theorems

* `Schema.output_eq_some_iff`, `Schema.outcome_eq_endless_iff`: How a compilation ends.
* `Schema.accepted_of_compile`: A schema with codecs is accepted.
* `Schema.mem_types_iff`: A name looks up to its declaration.
* `Schema.Accepted.field_names`, `Schema.Accepted.value_names`: Names are distinct.
* `Schema.Accepted.member_resolved`: The members of structs are resolved.
* `Schema.lowering_cases`, `Schema.elementType_cases`, `Schema.memberType_cases`,
  `Schema.namedPayload_cases`, `Schema.flagListPayload_iff`: What a field may be resolved to.
-/

namespace NetlinkSchema

namespace Check

variable {α β : Type}

theorem result?_eq_some_iff {x : Check α} {a : α} : x.result? = some a ↔ x.result = .ok a := by
  rw [result?]
  cases x.result with
  | error e => exact ⟨nofun, nofun⟩
  | ok b => exact ⟨fun h => by cases h; rfl, fun h => by cases h; rfl⟩

@[simp] theorem result?_ok (a b : α) : (ok a).result? = some b ↔ a = b := by
  rw [result?_eq_some_iff, ok, Except.ok.injEq]

@[simp] theorem result?_pure (a b : α) : (pure a : Check α).result? = some b ↔ a = b :=
  result?_ok a b

/-- Two checks in a row have a result if both have one. -/
@[simp] theorem result?_bind {x : Check α} {f : α → Check β} {b : β} :
    (x >>= f).result? = some b ↔ ∃ a, x.result? = some a ∧ (f a).result? = some b := by
  simp only [result?_eq_some_iff]
  change (andThen x f).result = .ok b ↔ _
  rw [andThen]
  cases x.result with
  | error e => exact ⟨nofun, fun ⟨_, h, _⟩ => nomatch h⟩
  | ok a =>
      constructor
      · exact fun h => ⟨a, rfl, h⟩
      · rintro ⟨a', h, hf⟩
        cases h
        exact hf

/-- A check that refuses the first fault in a list has a result if there is no fault. -/
theorem result?_of_find? {x : Check α} {a r : α} {xs : List β} {p : β → Bool}
    (hok : xs.find? p = none → x = .ok r)
    (hfail : ∀ v, xs.find? p = some v → x.result? = none) :
    x.result? = some a ↔ (∀ v ∈ xs, ¬ p v = true) ∧ a = r := by
  cases hfind : xs.find? p with
  | none =>
      rw [hok hfind, result?_ok]
      exact ⟨fun h => ⟨List.find?_eq_none.1 hfind, h.symm⟩, fun h => h.2.symm⟩
  | some v =>
      rw [hfail v hfind]
      constructor
      · intro h
        cases h
      · rintro ⟨hnone, -⟩
        exact absurd (List.find?_some hfind) (hnone v (List.mem_of_find?_eq_some hfind))

theorem exists_of_errorsAt {x : Check α} {site : Site} (h : x.errorsAt site = []) :
    ∃ a, x.result? = some a := by
  rw [errorsAt] at h
  split at h
  · rename_i a ha
    exact ⟨a, result?_eq_some_iff.2 ha⟩
  · cases h

end Check

namespace Findings

theorem errors_append (a b : Findings) : (a ++ b).errors = a.errors ++ b.errors := rfl

theorem errors_concat_eq_nil {all : List Findings} (h : (concat all).errors = []) {f : Findings}
    (hf : f ∈ all) : f.errors = [] := List.flatMap_eq_nil_iff.1 h f hf

end Findings

-- What the scans for repeated names leave over.
theorem nodup_of_repeatedAfter {ts seen : List Text} (h : repeatedAfter seen ts = []) :
    ts.Nodup ∧ ∀ t ∈ ts, t ∉ seen := by
  induction ts generalizing seen with
  | nil => exact ⟨List.nodup_nil, nofun⟩
  | cons t rest ih =>
      rw [repeatedAfter] at h
      split at h
      · cases h
      · rename_i hseen
        rcases ih h with ⟨hnodup, hfresh⟩
        refine ⟨List.nodup_cons.2 ⟨fun ht => hfresh t ht List.mem_cons_self, hnodup⟩, ?_⟩
        refine List.forall_mem_cons.2 ⟨by simpa using hseen, fun x hx hxs => ?_⟩
        exact hfresh x hx (List.mem_cons_of_mem _ hxs)

theorem nodup_of_fieldFaults {owner : Text} {as : List AttributeDef} {seen : List Text}
    (h : TypeDef.fieldFaults owner seen as = []) :
    (as.map AttributeDef.name).Nodup ∧
      ∀ a ∈ as, a.name ∉ seen ∧ isReservedField a.name = false := by
  induction as generalizing seen with
  | nil => exact ⟨List.nodup_nil, nofun⟩
  | cons a rest ih =>
      rw [TypeDef.fieldFaults, List.append_eq_nil_iff, List.append_eq_nil_iff] at h
      rcases h with ⟨⟨hseen, hreserved⟩, hrest⟩
      rcases ih hrest with ⟨hnodup, hfresh⟩
      have hnew : a.name ∉ seen := by
        intro hmem
        rw [if_pos (by simpa using hmem)] at hseen
        cases hseen
      have hfree : isReservedField a.name = false := by
        by_contra hres
        rw [if_pos (by simpa using hres)] at hreserved
        cases hreserved
      constructor
      · refine List.nodup_cons.2 ⟨fun hmem => ?_, hnodup⟩
        rcases List.mem_map.1 hmem with ⟨b, hb, hname⟩
        exact (hfresh b hb).1 (hname ▸ List.mem_cons_self)
      · refine List.forall_mem_cons.2 ⟨⟨hnew, hfree⟩, fun b hb => ?_⟩
        exact ⟨fun hmem => (hfresh b hb).1 (List.mem_cons_of_mem _ hmem), (hfresh b hb).2⟩

namespace Schema

variable {s : Schema}

/-- A name looks up to its declaration. -/
theorem mem_types_iff {name : Text} {d : TypeDef} : (name, d) ∈ s.types ↔ s.get? name = some d := by
  constructor
  · intro h
    rw [get?, find?_key s.distinct h, Option.map_some]
  · intro h
    rcases Option.map_eq_some_iff.1 h with ⟨t, ht, rfl⟩
    have hname : t.1 = name := by simpa using List.find?_some ht
    rw [← hname]
    exact List.mem_of_find?_eq_some ht

/-- No phase of the compilation found an error. -/
structure Accepted (s : Schema) : Prop where
  declared : ∀ t ∈ s.types, (t.2.findings t.1).errors = []
  cyclic : ∃ reject, ∀ c ∈ s.cycles, (s.findingOfCycle reject c).errors = []
  typed : ∀ t ∈ s.types, (s.typeFindings t.1 t.2).errors = []
  enums : ∀ t ∈ s.enums, (enumFindings s.needs t.1 t.2).errors = []

theorem errors_of_settle {o : CompileOptions} {f : Findings} (h : (settle o f).errors = []) :
    f.errors = [] := by
  unfold settle at h
  split at h
  · exact (List.append_eq_nil_iff.1 h).1
  · exact h

-- A phase that was not reached leaves an error behind, so all were reached.
theorem accepted_of_examine {o : CompileOptions} (h : (s.examine o).1.errors = []) :
    s.Accepted := by
  unfold examine at h
  simp only at h
  split at h
  · rename_i hdeclared
    exact absurd h (by simpa using hdeclared)
  rename_i hdeclared
  split at h
  · rename_i hcyclic
    exact absurd h (by simpa using hcyclic)
  rename_i hcyclic
  split at h
  · rename_i htyped
    exact absurd h (by simpa using htyped)
  simp only [Findings.errors_append, List.append_eq_nil_iff] at h
  rcases h with ⟨⟨⟨h₁, h₂⟩, h₃⟩, h₄⟩
  constructor
  · exact fun t ht => Findings.errors_concat_eq_nil h₁ (List.mem_map_of_mem ht)
  · refine ⟨o.rejectAttrCycles, fun c hc => ?_⟩
    exact Findings.errors_concat_eq_nil h₂ (List.mem_map_of_mem hc)
  · exact fun t ht => Findings.errors_concat_eq_nil h₃ (List.mem_map_of_mem ht)
  · exact fun t ht => Findings.errors_concat_eq_nil h₄ (List.mem_map_of_mem ht)

section Compile

variable {o : CompileOptions} {c : Compiled}

theorem findings_compile : (s.compile o).findings = settle o (s.examine o).1 := by
  unfold compile
  simp only
  split
  · rfl
  · rfl

theorem outcome_compile : (s.compile o).outcome =
    if (s.compile o).findings.errors.isEmpty then
      if s.allSized then .compiled ⟨s.bundle, s.describe.sign⟩ else .endless
    else .refused := by
  rw [findings_compile]
  unfold compile
  simp only
  split
  · rfl
  · rfl

/-- There are codecs if there are no errors and all structs have a size. They are those of the
    schema, with its description, whatever the options. -/
theorem output_eq_some_iff : (s.compile o).output = some c ↔
    (s.compile o).findings.errors = [] ∧ s.allSized = true ∧ c = ⟨s.bundle, s.describe.sign⟩ := by
  rw [Compilation.output, outcome_compile]
  by_cases herrors : (s.compile o).findings.errors = []
  · by_cases hsized : s.allSized = true
    · simp [herrors, hsized, eq_comm]
    · simp [herrors, hsized]
  · simp [herrors]

/-- A compilation does not end if there are no errors and some struct has no size. -/
theorem outcome_eq_endless_iff : (s.compile o).outcome = .endless ↔
    (s.compile o).findings.errors = [] ∧ s.allSized = false := by
  rw [outcome_compile]
  by_cases herrors : (s.compile o).findings.errors = []
  · by_cases hsized : s.allSized = true
    · simp [herrors, hsized]
    · simp [herrors, hsized]
  · simp [herrors]

theorem accepted_of_errors (h : (s.compile o).findings.errors = []) : s.Accepted := by
  rw [findings_compile] at h
  exact accepted_of_examine (errors_of_settle h)

/-- A schema with codecs is accepted, and the codecs are those of its types. -/
theorem accepted_of_compile (h : (s.compile o).output = some c) :
    s.Accepted ∧ c.bundle = s.bundle := by
  rcases output_eq_some_iff.1 h with ⟨herrors, -, rfl⟩
  exact ⟨accepted_of_errors herrors, rfl⟩

theorem eq_of_compile (h : (s.compile o).output = some c) : c = ⟨s.bundle, s.describe.sign⟩ :=
  (output_eq_some_iff.1 h).2.2

-- The condition can be evaluated without a look at the manifest.
theorem output_of_errors
    (h : ((settle o (s.examine o).1).errors.isEmpty && s.allSized) = true) :
    (s.compile o).output = some ⟨s.bundle, s.describe.sign⟩ := by
  rcases Bool.and_eq_true_iff.1 h with ⟨herrors, hsized⟩
  refine output_eq_some_iff.2 ⟨?_, hsized, rfl⟩
  rw [findings_compile]
  exact List.isEmpty_iff.1 herrors

end Compile

section Tree

/-- A declaration of which only the kind, the fields and the values matter. -/
def declare (kind : Option Kind) (attrs : List AttributeDef) (values : List ValueDef) : TypeDef :=
  { TypeDef.empty with kind := kind, attrs := attrs, values := values }

/-- Nodes of a tree: the set of a node contains itself, in an array and as a repeated field. -/
def node : TypeDef := declare none
  [⟨"label", .name "string", .empty⟩,
    ⟨"mode", .name "u8", { AttributeOptions.empty with type := some ⟨"mode", false⟩ }⟩,
    ⟨"colors", .flags (.name "color"), .empty⟩,
    ⟨"place", .name "box", .empty⟩,
    ⟨"leaf", .name "flag", .empty⟩,
    ⟨"children", .array (.name "node") false, .empty⟩,
    ⟨"named", .name "node", { AttributeOptions.empty with repeated := true }⟩] []

/-- The place of a node: two corners in a row. -/
def box : TypeDef := declare (some .struct)
  [⟨"corners", .name "point", { AttributeOptions.empty with count := 2 }⟩] []

/-- The schema of such trees. A node has a place, which is a struct that contains another one. -/
def tree : Schema where
  types := [
    ("color", declare (some .enum) [] [⟨"red", 1, none, .empty⟩, ⟨"dark_red", 2, none, .empty⟩]),
    ("mode", declare (some .flags) [] [⟨"read", 1, none, .empty⟩, ⟨"write", 2, none, .empty⟩]),
    ("point", declare (some .struct) [⟨"x", .name "s32", .empty⟩,
      ⟨"pad", .name "data", { AttributeOptions.empty with count := 4 }⟩] []),
    ("box", box),
    ("node", node)]
  distinct := by decide +kernel
  named := by decide +kernel

theorem tree_compile : (tree.compile .default).output = some ⟨tree.bundle, tree.describe.sign⟩ :=
  output_of_errors (by decide +kernel)

end Tree

namespace Accepted

variable {name : Text} {d : TypeDef}

/-- The fields of an attribute set or a struct have distinct names, and none is reserved. -/
theorem field_names (h : s.Accepted) (ht : (name, d) ∈ s.types)
    (hkind : d.effectiveKind = .attrs ∨ d.effectiveKind = .struct) :
    (d.attrs.map AttributeDef.name).Nodup ∧ ∀ a ∈ d.attrs, isReservedField a.name = false := by
  have hfound := h.declared _ ht
  have hfaults : TypeDef.fieldFaults name [] d.attrs = [] := by
    rw [TypeDef.findings] at hfound
    rcases hkind with hkind | hkind
    · simp only [hkind] at hfound
      exact (List.append_eq_nil_iff.1 hfound).2
    · simp only [hkind] at hfound
      exact (List.append_eq_nil_iff.1 hfound).2
  rcases nodup_of_fieldFaults hfaults with ⟨hnodup, hfresh⟩
  exact ⟨hnodup, fun a ha => (hfresh a ha).2⟩

/-- The values of an enum or a flags type have distinct names. -/
theorem value_names (h : s.Accepted) (ht : (name, d) ∈ s.types)
    (hkind : d.effectiveKind = .enum ∨ d.effectiveKind = .flags) :
    (d.values.map ValueDef.name).Nodup := by
  have hfound := h.declared _ ht
  have hfaults : repeatedAfter [] (d.values.map ValueDef.name) = [] := by
    rw [TypeDef.findings] at hfound
    rcases hkind with hkind | hkind
    · simp only [hkind] at hfound
      exact List.map_eq_nil_iff.1 (List.append_eq_nil_iff.1 hfound).2
    · simp only [hkind] at hfound
      exact List.map_eq_nil_iff.1 (List.append_eq_nil_iff.1 hfound).2
  exact (nodup_of_repeatedAfter hfaults).1

/-- The known members of a struct are resolved. -/
theorem member_resolved (h : s.Accepted) (ht : (name, d) ∈ s.types)
    (hkind : d.effectiveKind = .struct) {a : AttributeDef} (ha : a ∈ knownMembers d.attrs) :
    ∃ t, (s.memberType s.members a).result? = some t := by
  have hfound := h.typed _ ht
  simp only [typeFindings, hkind, structFindings, Findings.errors_append,
    List.append_eq_nil_iff] at hfound
  exact Check.exists_of_errorsAt (Findings.errors_concat_eq_nil hfound.2 (List.mem_map_of_mem ha))

end Accepted

theorem knownMembers_sublist (as : List AttributeDef) : (knownMembers as).Sublist as := by
  induction as with
  | nil => exact List.Sublist.refl _
  | cons a rest ih =>
      rw [knownMembers]
      split
      · exact List.Sublist.cons_cons a (List.nil_sublist rest)
      · exact ih.cons_cons a

section Resolved

variable {name : Text} {o : AttributeOptions}

theorem result?_bitmaskLowering {num : Number} {lower : LowerType} {d : TypeDef} {l : Lowering} :
    (bitmaskLowering num lower d).result? = some l ↔
      (∀ v ∈ d.values, 0 ≤ v.value → v.value ≤ 63 → num.fits (EnumType.bitOf v.value) = true) ∧
        l = .bitmask (EnumType.ofDef lower.name d) := by
  rw [Check.result?_of_find? (x := bitmaskLowering num lower d)
    (fun hnone => by rw [bitmaskLowering, hnone])
    fun v hsome => by rw [bitmaskLowering, hsome]; rfl]
  simp only [Bool.and_eq_true, decide_eq_true_eq, Bool.not_eq_true', not_and, Bool.not_eq_false,
    and_imp]

theorem result?_flagsLowering {num : Number} {lower : LowerType} {d : TypeDef} {l : Lowering} :
    (flagsLowering num lower d).result? = some l ↔
      (∀ v ∈ d.values, num.fits v.value.toUInt64 = true) ∧
        l = .flags (FlagsType.ofDef lower.name d) := by
  rw [Check.result?_of_find? (x := flagsLowering num lower d)
    (fun hnone => by rw [flagsLowering, hnone]) fun v hsome => by rw [flagsLowering, hsome]; rfl]
  simp only [Bool.not_eq_true', Bool.not_eq_false]

theorem result?_lowering {num : Number} {lower : LowerType} {d : TypeDef}
    (hinteger : num.isFloat = false) (ht : (lower.name, d) ∈ s.types) :
    (s.lowering num (some lower)).result? = (lowerTo num lower d).result? := by
  rw [lowering, if_neg (by rw [hinteger]; exact Bool.false_ne_true), mem_types_iff.1 ht]
  rfl

/-- What the meaning of an integer field may be. The bits of a flags type or a bitmask fit the width
    of the integer. -/
theorem lowering_cases {num : Number} {lower : Option LowerType} {l : Lowering}
    (h : (s.lowering num lower).result? = some l) :
    lower = none ∧ l = .none ∨ ∃ r d, lower = some r ∧ num.isFloat = false ∧
      (r.name, d) ∈ s.types ∧
      (d.effectiveKind = .enum ∧ r.asFlags = false ∧ l = .enum (EnumType.ofDef r.name d) ∨
        d.effectiveKind = .enum ∧ r.asFlags = true ∧
          (∀ v ∈ d.values, 0 ≤ v.value → v.value ≤ 63 →
            num.fits (EnumType.bitOf v.value) = true) ∧
          l = .bitmask (EnumType.ofDef r.name d) ∨
        d.effectiveKind = .flags ∧ r.asFlags = false ∧
          (∀ v ∈ d.values, num.fits v.value.toUInt64 = true) ∧
          l = .flags (FlagsType.ofDef r.name d)) := by
  cases lower with
  | none => exact Or.inl ⟨rfl, ((Check.result?_ok _ _).1 h).symm⟩
  | some r =>
      by_cases hfloat : num.isFloat = true
      · rw [lowering, if_pos hfloat] at h
        cases h
      have hinteger : num.isFloat = false := by simpa using hfloat
      cases hget : s.get? r.name with
      | none =>
          rw [lowering, if_neg hfloat, hget] at h
          cases h
      | some d =>
          have ht := mem_types_iff.2 hget
          refine Or.inr ⟨r, d, rfl, hinteger, ht, ?_⟩
          rw [result?_lowering hinteger ht, lowerTo] at h
          split at h
          · rename_i hkind hflags
            exact Or.inr (Or.inl ⟨hkind, hflags, result?_bitmaskLowering.1 h⟩)
          · rename_i hkind hflags
            exact Or.inl ⟨hkind, hflags, ((Check.result?_ok _ _).1 h).symm⟩
          · rename_i hkind hflags
            exact Or.inr (Or.inr ⟨hkind, hflags, result?_flagsLowering.1 h⟩)
          · cases h

/-- What one element of a struct member may be. A struct is not contained in another if later
    versions may extend it. -/
theorem elementType_cases {members : Text → Members} {t : MemberType}
    (h : (s.elementType members name o).result? = some t) :
    name = "bool" ∧ o.type = none ∧ t = .bool ∨
    (∃ num l, Number.ofName? name = some num ∧ (s.lowering num o.type).result? = some l ∧
      t = .number num l) ∨
    ∃ d, (name, d) ∈ s.types ∧ d.effectiveKind = .struct ∧ isExpandable d = false ∧
      o.type = none ∧ t = .struct name (members name) := by
  unfold elementType at h
  split at h
  · rename_i hname
    split at h
    · cases h
    · rename_i hlower
      exact Or.inl ⟨hname, hlower, ((Check.result?_ok _ _).1 h).symm⟩
  right
  split at h
  · cases h
  split at h
  · rename_i num hnum
    rcases Check.result?_bind.1 h with ⟨l, hl, h⟩
    exact Or.inl ⟨num, l, hnum, hl, ((Check.result?_pure _ _).1 h).symm⟩
  right
  unfold nestedStruct at h
  split at h
  · cases h
  rename_i d hget
  split at h
  · cases h
  rename_i hkind
  split at h
  · cases h
  rename_i hlower
  split at h
  · cases h
  rename_i hexpandable
  exact ⟨d, mem_types_iff.2 hget, not_not.1 hkind, by simpa using hexpandable, hlower,
    ((Check.result?_ok _ _).1 h).symm⟩

/-- What a struct member may be: a byte string, an element, or a number of elements. -/
theorem memberType_cases {members : Text → Members} {a : AttributeDef} {t : MemberType}
    (h : (s.memberType members a).result? = some t) :
    ∃ name, a.type = .name name ∧
      ((name = "data" ∨ name = "string") ∧ a.options.count ≠ 0 ∧ t = .bytes a.options.count ∨
        ∃ elem, (s.elementType members name a.options).result? = some elem ∧
          t = if 0 < a.options.count then .array a.options.count elem else elem) := by
  unfold memberType at h
  split at h
  · rename_i name htype
    refine ⟨name, htype, ?_⟩
    rcases Check.result?_bind.1 h with ⟨-, -, h⟩
    rcases Check.result?_bind.1 h with ⟨-, -, h⟩
    unfold namedMember at h
    split at h
    · rename_i hname
      left
      unfold bytesType at h
      split at h
      · cases h
      · rename_i hcount
        exact ⟨hname, hcount, (Except.ok.inj (Check.result?_eq_some_iff.1 h)).symm⟩
    · rcases Check.result?_bind.1 h with ⟨elem, helem, h⟩
      exact Or.inr ⟨elem, helem, ((Check.result?_pure _ _).1 h).symm⟩
  · cases h

/-- What a payload may be that is neither an array, a map nor a list of flags. Only a number has a
    lower type. -/
theorem namedPayload_cases {p : Payload} (h : (s.namedPayload o name).result? = some p) :
    (∃ num l, Number.ofName? name = some num ∧ (s.lowering num o.type).result? = some l ∧
      p = .number num l) ∨
    o.type = none ∧ (name = "string" ∧ p = .string o.maxLength ∨ name = "data" ∧ p = .data ∨
      name = "bool" ∧ p = .bool ∨ name = "flag" ∧ p = .flag) ∨
    o.type = none ∧ ∃ d, (name, d) ∈ s.types ∧
      (d.effectiveKind = .struct ∧ p = .struct (s.layout name d) ∨
        d.effectiveKind = .attrs ∧ p = .attrs name) := by
  unfold namedPayload at h
  split at h
  · rename_i num lower hnum
    rcases Check.result?_bind.1 h with ⟨l, hl, h⟩
    exact Or.inl ⟨_, l, hnum, hl, ((Check.result?_pure _ _).1 h).symm⟩
  · cases h
  rename_i hlower
  right
  split at h
  · rename_i hname
    exact Or.inl ⟨hlower, Or.inl ⟨hname, ((Check.result?_ok _ _).1 h).symm⟩⟩
  split at h
  · rename_i hname
    exact Or.inl ⟨hlower, Or.inr (Or.inl ⟨hname, ((Check.result?_ok _ _).1 h).symm⟩)⟩
  split at h
  · rename_i hname
    exact Or.inl ⟨hlower, Or.inr (Or.inr (Or.inl ⟨hname, ((Check.result?_ok _ _).1 h).symm⟩))⟩
  split at h
  · rename_i hname
    exact Or.inl ⟨hlower, Or.inr (Or.inr (Or.inr ⟨hname, ((Check.result?_ok _ _).1 h).symm⟩))⟩
  right
  split at h
  · cases h
  rename_i d hget
  refine ⟨hlower, d, mem_types_iff.2 hget, ?_⟩
  split at h
  · rename_i hkind
    exact Or.inl ⟨hkind, ((Check.result?_ok _ _).1 h).symm⟩
  · rename_i hkind
    exact Or.inr ⟨hkind, ((Check.result?_ok _ _).1 h).symm⟩
  · cases h

/-- A list of flags is that of an enum. -/
theorem flagListPayload_iff {elem : TypeExpr} {p : Payload} :
    (s.flagListPayload o elem).result? = some p ↔ o.type = none ∧
      ∃ name d, elem = .name name ∧ (name, d) ∈ s.types ∧ d.effectiveKind = .enum ∧
        p = .flagList (EnumType.ofDef name d) := by
  unfold flagListPayload
  constructor
  · intro h
    split at h
    · cases h
    · rename_i n hlower
      split at h
      · cases h
      rename_i d hget
      split at h
      · rename_i hkind
        exact ⟨hlower, n, d, rfl, mem_types_iff.2 hget, hkind, ((Check.result?_ok _ _).1 h).symm⟩
      · cases h
    · cases h
  · rintro ⟨hlower, n, d, rfl, ht, hkind, rfl⟩
    rw [hlower]
    simp only [mem_types_iff.1 ht, if_pos hkind]
    exact (Check.result?_ok _ _).2 rfl

end Resolved

end Schema

end NetlinkSchema
