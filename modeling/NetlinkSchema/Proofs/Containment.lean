import NetlinkSchema.Proofs.Cycle
import Mathlib.Order.WellFounded

/-!
# Structs contain each other without cycles

A struct contains another one by value if one of its known members has it as a type. A struct that
contains itself would have no size. The search for cycles goes through attribute sets as well, and a
cycle of structs that it comes upon from an attribute set might be taken for one through that set;
what rules this out is the resolution of members. A struct that is contained in another is not
expandable, so that all of its fields are members, and each of them that refers to a composite type
contains a struct of the same sort. From such a struct the search meets nothing else.

## Main definitions

* `Schema.Contains`: A struct contains another one by value.
* `Schema.Solid`: A struct that may be contained in others.
* `Schema.eclipse`: A cycle of attribute sets besides a struct that contains itself.

## Theorems

* `Schema.solid_of_contains`, `Schema.contains_of_refersTo`: What solid structs refer to.
* `Schema.contains_wellFounded`, `Schema.contains_acyclic`: Containment is well founded and has no
  cycle.
* `Schema.depth_induction`: The number of types is depth enough.
* `Schema.members_eq`: The members of a struct are found to the full depth.
* `Schema.sizedWithin_of_cycle`, `Schema.allSized_iff`: What has no size contains itself.
* `Schema.structs_finite`: Schemas without errors have finite structs.
-/

namespace NetlinkSchema

namespace Schema

/-- A struct contains another one by value: a member up to the first one that ends the known part
    has it as its type, be it once or a number of times. -/
def Contains (s : Schema) (a b : Text) : Prop :=
  ∃ d, (a, d) ∈ s.types ∧ d.effectiveKind = .struct ∧
    (∃ f ∈ knownMembers d.attrs, f.type = .name b) ∧ s.isStruct b = true

/-- A struct that later versions do not extend. -/
def Solid (s : Schema) (name : Text) : Prop :=
  ∃ d, (name, d) ∈ s.types ∧ d.effectiveKind = .struct ∧ isExpandable d = false

variable {s : Schema}

theorem Contains.isStruct {a b : Text} (h : s.Contains a b) : s.isStruct b = true := by
  rcases h with ⟨-, -, -, -, hb⟩
  exact hb

theorem isStruct_iff {name : Text} :
    s.isStruct name = true ↔ ∃ d, (name, d) ∈ s.types ∧ d.effectiveKind = .struct := by
  unfold isStruct kind?
  cases hget : s.get? name with
  | none => simp [mem_types_iff, hget]
  | some d => simp [mem_types_iff, hget]

/-- What a struct contains is what its size is looked for in. -/
theorem contains_iff {a b : Text} :
    s.Contains a b ↔ s.isStruct a = true ∧ b ∈ s.contained a := by
  have hmember : ∀ f : AttributeDef, s.contained? f = some b ↔
      f.type = .name b ∧ s.isStruct b = true := by
    intro f
    rw [contained?]
    cases f.type with
    | name n =>
        simp only [Option.ite_none_right_eq_some, Option.some.injEq, TypeExpr.name.injEq]
        exact ⟨fun ⟨hn, heq⟩ => ⟨heq, heq ▸ hn⟩, fun ⟨heq, hb⟩ => ⟨heq ▸ hb, heq⟩⟩
    | _ => simp
  rw [isStruct_iff, contained]
  constructor
  · rintro ⟨d, ht, hkind, ⟨f, hf, htype⟩, hb⟩
    refine ⟨⟨d, ht, hkind⟩, ?_⟩
    rw [mem_types_iff.1 ht]
    exact List.mem_filterMap.2 ⟨f, hf, (hmember f).2 ⟨htype, hb⟩⟩
  · rintro ⟨⟨d, ht, hkind⟩, hmem⟩
    rw [mem_types_iff.1 ht] at hmem
    rcases List.mem_filterMap.1 hmem with ⟨f, hf, hcontained⟩
    rcases (hmember f).1 hcontained with ⟨htype, hb⟩
    exact ⟨d, ht, hkind, ⟨f, hf, htype⟩, hb⟩

theorem isComposite_of_isStruct {name : Text} (h : s.isStruct name = true) :
    s.isComposite name = true := by
  rw [isStruct, beq_iff_eq] at h
  rw [isComposite, h]

theorem Solid.isStruct {name : Text} (h : s.Solid name) : s.isStruct name = true := by
  rcases h with ⟨d, ht, hkind, -⟩
  exact isStruct_iff.2 ⟨d, ht, hkind⟩

-- Builtin types are no types of the schema.
theorem not_builtin {name : Text} (h : name ∈ s.names) :
    name ≠ "data" ∧ name ≠ "string" ∧ name ≠ "bool" ∧ name ≠ "flag" ∧
      Number.ofName? name = none := by
  have hname := s.named name h
  rw [isTypeName, Bool.and_eq_true, Bool.not_eq_true', Bool.not_eq_true', isBuiltin,
    Bool.or_eq_false_iff] at hname
  rcases hname with ⟨-, hnames, hnumber⟩
  simp only [List.any_cons, List.any_nil, Bool.or_false, Bool.or_eq_false_iff,
    beq_eq_false_iff_ne, ne_eq] at hnames
  rcases hnames with ⟨hbool, hflag, hdata, hstring⟩
  refine ⟨Ne.symm hdata, Ne.symm hstring, Ne.symm hbool, Ne.symm hflag, ?_⟩
  exact Option.not_isSome_iff_eq_none.1 (by rw [hnumber]; exact Bool.false_ne_true)

/-- A member that has a type of the schema contains a solid struct. -/
theorem solid_of_member {members : Text → Members} {a : AttributeDef} {t : MemberType} {b : Text}
    (h : (s.memberType members a).result? = some t) (ha : a.type = .name b) (hb : b ∈ s.names) :
    s.Solid b := by
  rcases not_builtin hb with ⟨hdata, hstring, hbool, -, hnumber⟩
  rcases memberType_cases h with ⟨name, hname, hcases⟩
  rw [ha] at hname
  cases hname
  rcases hcases with ⟨hbytes | hbytes, -⟩ | ⟨elem, helem, -⟩
  · exact absurd hbytes hdata
  · exact absurd hbytes hstring
  rcases elementType_cases helem with ⟨hb', -⟩ | ⟨num, l, hnum, -, -⟩ | ⟨d, ht, hkind, hexp, -⟩
  · exact absurd hb' hbool
  · rw [hnumber] at hnum
    cases hnum
  · exact ⟨d, ht, hkind, hexp⟩

theorem mem_names_of_isStruct {name : Text} (h : s.isStruct name = true) : name ∈ s.names :=
  mem_names_of_isComposite (isComposite_of_isStruct h)

/-- A contained struct is solid. -/
theorem solid_of_contains (h : s.Accepted) {a b : Text} (hc : s.Contains a b) : s.Solid b := by
  rcases hc with ⟨d, ht, hkind, ⟨f, hf, htype⟩, hb⟩
  rcases h.member_resolved ht hkind hf with ⟨t, hresult⟩
  exact solid_of_member hresult htype (mem_names_of_isStruct hb)

theorem knownMembers_of_not_expandable {as : List AttributeDef} (h : as.any marksAbi = false) :
    knownMembers as = as := by
  induction as with
  | nil => rfl
  | cons a rest ih =>
      rw [List.any_cons, Bool.or_eq_false_iff] at h
      rw [knownMembers, h.1, if_neg Bool.false_ne_true, ih h.2]

/-- What a solid struct refers to, it contains. -/
theorem contains_of_refersTo (h : s.Accepted) {a b : Text} (ha : s.Solid a)
    (href : s.RefersTo a b) : s.Contains a b := by
  rcases ha with ⟨d, ht, hkind, hexp⟩
  rcases refersTo_iff.1 href with ⟨hcomposite, d', ht', f, hf, hcore⟩
  have hd : d' = d := Option.some.inj ((mem_types_iff.1 ht').symm.trans (mem_types_iff.1 ht))
  rw [hd] at hf
  have hknown : f ∈ knownMembers d.attrs := by
    rw [knownMembers_of_not_expandable hexp]
    exact hf
  rcases h.member_resolved ht hkind hknown with ⟨t, hresult⟩
  rcases memberType_cases hresult with ⟨name, htype, -⟩
  -- A member is no array or map, so what it refers to is its type itself.
  have hname : f.type = .name b := by
    rw [htype] at hcore ⊢
    exact hcore
  have hsolid := solid_of_member hresult hname (mem_names_of_isComposite hcomposite)
  exact ⟨d, ht, hkind, ⟨f, hknown, hname⟩, hsolid.isStruct⟩

theorem refersTo_of_contains {a b : Text} (hc : s.Contains a b) : s.RefersTo a b := by
  rcases hc with ⟨d, ht, -, ⟨f, hf, htype⟩, hb⟩
  refine refersTo_iff.2 ⟨isComposite_of_isStruct hb, d, ht, f, ?_, ?_⟩
  · exact (knownMembers_sublist d.attrs).subset hf
  · rw [htype]
    rfl

/-- No cycle of an accepted schema goes through solid structs only: it would be an error. -/
theorem exists_not_solid (h : s.Accepted) {c : List Text} (hc : c ∈ s.cycles) :
    ∃ x ∈ c, ¬ s.Solid x := by
  rcases h.cyclic with ⟨reject, hfound⟩
  by_contra hall
  push Not at hall
  have hstructs : c.all s.isStruct = true := List.all_eq_true.2 fun x hx => (hall x hx).isStruct
  have herrors := hfound c hc
  rw [findingOfCycle, if_pos hstructs] at herrors
  cases herrors

/-- Containment is well founded. -/
theorem contains_wellFounded (h : s.Accepted) (hnul : ∀ name ∈ s.names, 0 ∉ name.utf8) :
    WellFounded fun b a => s.Contains a b := by
  rcases s.search_settles with ⟨visited, hsettled, hcycles, hvisited⟩
  have hclosed : ∀ v w, s.Solid v → s.RefersTo v w → s.Solid w := fun v w hv hvw =>
    solid_of_contains h (contains_of_refersTo h hv hvw)
  have hacc := acc_of_settled hnul hclosed hcycles (fun c hc => exists_not_solid h hc) hsettled
  -- All that a struct contains is solid, whether it is solid itself or not.
  refine ⟨fun a => Acc.intro a fun b hb => ?_⟩
  have hsolid := solid_of_contains h hb
  have hb_acc := hacc b (hvisited b (isComposite_of_isStruct hsolid.isStruct)) hsolid
  exact Subrelation.accessible (fun hcontains => refersTo_of_contains hcontains) hb_acc

/-- No struct contains itself, by whatever way. -/
theorem contains_acyclic (h : s.Accepted) (hnul : ∀ name ∈ s.names, 0 ∉ name.utf8) (a : Text) :
    ¬ Relation.TransGen s.Contains a a := fun ha =>
  (contains_wellFounded h hnul).transGen.irrefl.irrefl a (Relation.transGen_swap.2 ha)

section Depth

/-- A way down through structs comes upon none of them twice. -/
theorem IsPath.snoc_contains (hacyclic : ∀ a, ¬ Relation.TransGen s.Contains a a)
    {path : List Text} {name b : Text} (hpath : s.IsPath s.Contains path name)
    (hcontains : s.Contains name b) : s.IsPath s.Contains (path ++ [name]) b := by
  refine hpath.snoc hcontains (mem_names_of_isStruct hcontains.isStruct) fun hmem => ?_
  have hreach : Relation.ReflTransGen s.Contains b name := by
    refine hpath.chain.backwards_induction (Relation.ReflTransGen s.Contains · name) _
      (fun x y hxy hy => Relation.ReflTransGen.head hxy hy) (fun _ => ?_) b hmem
    rw [List.getLast_concat]
  exact hacyclic b (Relation.TransGen.tail' hreach hcontains)

/-- What is true of a struct at some depth if it is true of the structs that it contains at one less
    is true of all structs at the size of the schema. -/
theorem depth_induction (hacyclic : ∀ a, ¬ Relation.TransGen s.Contains a a)
    {P : Nat → Text → Prop} (hstep : ∀ depth name, s.isStruct name = true →
      (∀ b, s.Contains name b → P depth b) → P (depth + 1) name)
    {name : Text} (hstruct : s.isStruct name = true) : P s.size name := by
  -- The induction is on the depth that is left. The path is the way along which it was used up,
  -- and it has no struct twice.
  have key : ∀ (depth : Nat) (path : List Text) (name : Text), s.IsPath s.Contains path name →
      s.isStruct name = true → s.size ≤ path.length + depth → P depth name := by
    intro depth
    induction depth with
    | zero =>
        intro path name hpath _ hsize
        have hlt := hpath.length_lt
        omega
    | succ depth ih =>
        intro path name hpath hstruct hsize
        refine hstep depth name hstruct fun b hcontains => ?_
        refine ih (path ++ [name]) b (hpath.snoc_contains hacyclic hcontains)
          hcontains.isStruct ?_
        rw [List.length_append, List.length_singleton]
        omega
  exact key s.size [] name (isPath_nil (mem_names_of_isStruct hstruct)) hstruct (by simp)

/-- The type of a member depends on the members of the struct that it contains, and on no other. -/
theorem memberType_congr {members members' : Text → Members} {a : AttributeDef}
    (h : ∀ b, a.type = .name b → s.isStruct b = true → members b = members' b) :
    s.memberType members a = s.memberType members' a := by
  unfold memberType
  cases htype : a.type with
  | name n =>
      have hnested : nestedStruct s members n a.options = nestedStruct s members' n a.options := by
        unfold nestedStruct
        cases hget : s.get? n with
        | none => rfl
        | some d =>
            by_cases hkind : d.effectiveKind = .struct
            · rw [h n htype (isStruct_iff.2 ⟨d, mem_types_iff.2 hget, hkind⟩)]
            · simp only [ne_eq, hkind, not_false_eq_true, if_true]
      simp only [namedMember, elementType, hnested]
  | _ => rfl

theorem membersTo_size (hacyclic : ∀ a, ¬ Relation.TransGen s.Contains a a) {name : Text}
    (hstruct : s.isStruct name = true) :
    s.membersTo s.size name = s.membersTo (s.size + 1) name := by
  refine depth_induction (P := fun depth name => s.membersTo depth name
    = s.membersTo (depth + 1) name) hacyclic (fun depth name hstruct ih => ?_) hstruct
  rcases isStruct_iff.1 hstruct with ⟨d, ht, hkind⟩
  rw [membersTo, membersTo, mem_types_iff.1 ht]
  simp only
  refine List.filterMap_congr fun a ha => ?_
  rw [memberType_congr fun b htype hb => ih b ⟨d, ht, hkind, ⟨a, ha, htype⟩, hb⟩]

/-- The members of a struct are found to the full depth. -/
theorem members_eq (hacyclic : ∀ a, ¬ Relation.TransGen s.Contains a a) {name : Text} {d : TypeDef}
    (ht : (name, d) ∈ s.types) (hkind : d.effectiveKind = .struct) :
    s.members name = (knownMembers d.attrs).filterMap fun a =>
      (s.memberType s.members a).result?.map (a.name, ·) := by
  have hstruct : s.isStruct name = true := isStruct_iff.2 ⟨d, ht, hkind⟩
  rw [members, membersTo_size hacyclic hstruct, membersTo, mem_types_iff.1 ht]
  rfl

theorem sizedWithin_size (hacyclic : ∀ a, ¬ Relation.TransGen s.Contains a a) {name : Text}
    (hstruct : s.isStruct name = true) : s.sizedWithin s.size name = true := by
  refine depth_induction (P := fun depth name => s.sizedWithin depth name = true) hacyclic
    (fun depth name hstruct ih => ?_) hstruct
  rw [sizedWithin, List.all_eq_true]
  exact fun b hb => ih b (contains_iff.2 ⟨hstruct, hb⟩)

/-- The size of a struct that contains itself is not found, however deep the search goes. -/
theorem sizedWithin_of_cycle (depth : Nat) {a : Text} (h : Relation.TransGen s.Contains a a) :
    s.sizedWithin depth a = false := by
  induction depth generalizing a with
  | zero => rfl
  | succ depth ih =>
      -- The next struct on the way back to the first one contains itself as well.
      rcases Relation.TransGen.head'_iff.1 h with ⟨b, hab, hback⟩
      have hb := ih (Relation.TransGen.tail' hback hab)
      rw [sizedWithin, List.all_eq_false]
      exact ⟨b, (contains_iff.1 hab).2, by rw [hb]; exact Bool.false_ne_true⟩

/-- All structs have a size if and only if none contains itself. -/
theorem allSized_iff : s.allSized = true ↔ ∀ a, ¬ Relation.TransGen s.Contains a a := by
  rw [allSized, List.all_eq_true]
  constructor
  · intro h a ha
    rcases Relation.TransGen.head'_iff.1 ha with ⟨b, hab, -⟩
    have hstruct := (contains_iff.1 hab).1
    have hsized := h a (List.mem_filter.2 ⟨mem_names_of_isStruct hstruct, hstruct⟩)
    rw [sizedWithin_of_cycle s.size ha] at hsized
    cases hsized
  · intro hacyclic name hname
    exact sizedWithin_size hacyclic (List.mem_filter.1 hname).2

end Depth

/-- A schema without errors, as is every schema that is compiled, has finite structs if there are no
    NUL bytes in its names: containment has no cycle and is well founded, and the members of each
    struct are those of its declaration down to the last contained struct. So it is compiled. -/
theorem structs_finite {s : Schema} {o : CompileOptions}
    (herrors : (s.compile o).findings.errors = []) (hnul : ∀ name ∈ s.names, 0 ∉ name.utf8) :
    (∀ a, ¬ Relation.TransGen s.Contains a a) ∧ (WellFounded fun b a => s.Contains a b) ∧
      (∀ name d, (name, d) ∈ s.types → d.effectiveKind = .struct →
        s.members name = (knownMembers d.attrs).filterMap fun a =>
          (s.memberType s.members a).result?.map (a.name, ·)) ∧
      (s.compile o).output = some ⟨s.bundle, s.describe.sign⟩ := by
  have haccepted := accepted_of_errors herrors
  have hacyclic := contains_acyclic haccepted hnul
  exact ⟨hacyclic, contains_wellFounded haccepted hnul,
    fun name d ht hkind => members_eq hacyclic ht hkind,
    output_eq_some_iff.2 ⟨herrors, allSized_iff.2 hacyclic, rfl⟩⟩

theorem tree_structs_finite : tree.Contains "box" "point" ∧
    (∀ a, ¬ Relation.TransGen tree.Contains a a) ∧ (WellFounded fun b a => tree.Contains a b) ∧
      (∀ name d, (name, d) ∈ tree.types → d.effectiveKind = .struct →
        tree.members name = (knownMembers d.attrs).filterMap fun a =>
          (tree.memberType tree.members a).result?.map (a.name, ·)) ∧
      (tree.compile .default).output = some ⟨tree.bundle, tree.describe.sign⟩ := by
  have hbox : (Text.ofString "box", box) ∈ tree.types := by simp [tree]
  constructor
  · exact ⟨box, hbox, rfl, ⟨_, List.mem_cons_self, rfl⟩, by decide +kernel⟩
  · exact structs_finite (output_eq_some_iff.1 tree_compile).1 (by decide +kernel)

/-- Two attribute sets that refer to each other, and a struct of the given name that contains
    itself. -/
def eclipse (name : Text) (hname : name ≠ "a" ∧ name ≠ "b" ∧ isTypeName name = true) : Schema where
  types := [
    ("a", declare none [⟨"b", .name "b", .empty⟩] []),
    ("b", declare none [⟨"a", .name "a", .empty⟩] []),
    (name, declare (some .struct) [⟨"self", .name name, .empty⟩] [])]
  distinct := by
    have hab : (Text.ofString "a") ≠ "b" := by decide +kernel
    change [Text.ofString "a", "b", name].Nodup
    simp [hab, hname.1.symm, hname.2.1.symm]
  named := by
    have ha : isTypeName "a" = true := by decide +kernel
    have hb : isTypeName "b" = true := by decide +kernel
    change ∀ n ∈ [Text.ofString "a", "b", name], isTypeName n = true
    simp [ha, hb, hname.2.2]

/-- The names of the two sets with a NUL byte between them. -/
def eclipsedName : Text := ⟨[97, 0, 98]⟩

theorem eclipsedName_allowed :
    eclipsedName ≠ "a" ∧ eclipsedName ≠ "b" ∧ isTypeName eclipsedName = true := by
  decide +kernel

end Schema

end NetlinkSchema
