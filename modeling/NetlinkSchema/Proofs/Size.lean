import NetlinkSchema.Proofs.Containment
import NetlinkSchema.Proofs.Resolution

/-!
# Sizes by declaration

The number of bytes of a struct, read off the declarations: the sum over the fields up to the first
version, where a struct within the struct counts with its own size. The size is a relation that is
built up from within, so a struct that contains itself has none, and a struct that has one contains
nothing without a size.

A compiled struct has the size of its declaration. Without NUL bytes in names every struct of an
accepted schema has a size, because containment is well founded.

## Main definitions

* `Schema.MembersSize`: The number of bytes of a list of members.
* `Schema.HasSize`: The number of bytes of a struct.
* `Schema.SizesFit`: All structs have sizes that are signed words.

## Theorems

* `Schema.HasSize.acc`: Containment below a struct with a size comes to an end.
* `Schema.HasSize.exactMembersSize_eq`: The members that are compiled have the declared size.
* `Schema.hasSize_of_acc`: Structs of accepted schemas below which containment ends have a size.
* `Schema.sizesFit_iff`: The sizes are those of the members that are compiled.
-/

namespace NetlinkSchema

/-- How many elements a member has: one, unless it is an inline array. -/
def AttributeDef.elements (a : AttributeDef) : Nat :=
  if 0 < a.options.count then a.options.count.toNatClampNeg else 1

/-- The number of bytes of a builtin type of fixed size. -/
def builtinSize? (name : Text) : Option Nat :=
  if name = "bool" then some 1 else (Number.ofName? name).map Number.size

namespace Schema

/-- The number of bytes of a list of members. -/
inductive MembersSize (s : Schema) : List AttributeDef → Nat → Prop
  | nil : MembersSize s [] 0
  | bytes {a : AttributeDef} {name : Text} {rest : List AttributeDef} {n : Nat}
      (htype : a.type = .name name) (hname : name = "data" ∨ name = "string")
      (hrest : MembersSize s rest n) :
      MembersSize s (a :: rest) (a.options.count.toNatClampNeg + n)
  | builtin {a : AttributeDef} {name : Text} {rest : List AttributeDef} {k n : Nat}
      (htype : a.type = .name name) (hk : builtinSize? name = some k)
      (hrest : MembersSize s rest n) : MembersSize s (a :: rest) (k * a.elements + n)
  | struct {a : AttributeDef} {name : Text} {d : TypeDef} {rest : List AttributeDef} {k n : Nat}
      (htype : a.type = .name name) (ht : (name, d) ∈ s.types) (hkind : d.effectiveKind = .struct)
      (hk : MembersSize s (knownMembers d.attrs) k) (hrest : MembersSize s rest n) :
      MembersSize s (a :: rest) (k * a.elements + n)

/-- The number of bytes of a struct, without those that later versions append. -/
def HasSize (s : Schema) (name : Text) (n : Nat) : Prop :=
  ∃ d, (name, d) ∈ s.types ∧ d.effectiveKind = .struct ∧ s.MembersSize (knownMembers d.attrs) n

/-- Every struct has a size, and it is a signed word. -/
def SizesFit (s : Schema) : Prop :=
  ∀ t ∈ s.types, t.2.effectiveKind = .struct → ∃ n, n < 2 ^ 63 ∧ s.HasSize t.1 n

variable {s : Schema}

section Containment

/-- What a struct contains, given its declaration. -/
theorem Contains.exists_member {a b : Text} {d : TypeDef} (h : s.Contains a b)
    (ht : (a, d) ∈ s.types) :
    (∃ f ∈ knownMembers d.attrs, f.type = .name b) ∧ s.isStruct b = true := by
  rcases h with ⟨d', ht', -, hmember⟩
  obtain rfl : d' = d := Option.some.inj ((mem_types_iff.1 ht').symm.trans (mem_types_iff.1 ht))
  exact hmember

theorem builtinSize?_of_mem {name : Text} (h : name ∈ s.names) : builtinSize? name = none := by
  rcases not_builtin h with ⟨-, -, hbool, -, hnumber⟩
  rw [builtinSize?, if_neg hbool, hnumber]
  rfl

-- The induction is on how the size is made up. There is something to show only for a struct in the
-- list, and for the structs within that one it is known.
theorem MembersSize.acc {as : List AttributeDef} {n : Nat} (h : s.MembersSize as n) :
    ∀ a ∈ as, ∀ b, a.type = .name b → s.isStruct b = true →
      Acc (fun y x => s.Contains x y) b := by
  induction h with
  | nil => exact fun a ha => absurd ha List.not_mem_nil
  | bytes htype hname _ ih =>
      refine List.forall_mem_cons.2 ⟨fun b hb hstruct => ?_, ih⟩
      rcases not_builtin (mem_names_of_isStruct hstruct) with ⟨hdata, hstring, -⟩
      rw [← TypeExpr.name.inj (htype.symm.trans hb)] at hdata hstring
      exact absurd hname (not_or.2 ⟨hdata, hstring⟩)
  | builtin htype hk _ ih =>
      refine List.forall_mem_cons.2 ⟨fun b hb hstruct => ?_, ih⟩
      rw [TypeExpr.name.inj (htype.symm.trans hb),
        builtinSize?_of_mem (mem_names_of_isStruct hstruct)] at hk
      cases hk
  | struct htype ht _ _ _ ihmembers ih =>
      refine List.forall_mem_cons.2 ⟨fun b hb _ => ?_, ih⟩
      rw [← TypeExpr.name.inj (htype.symm.trans hb)]
      refine Acc.intro _ fun y hcontains => ?_
      rcases hcontains.exists_member ht with ⟨⟨f, hf, hy⟩, hstruct⟩
      exact ihmembers f hf y hy hstruct

/-- Containment below a struct with a size comes to an end. -/
theorem HasSize.acc {name : Text} {n : Nat} (h : s.HasSize name n) :
    Acc (fun y x => s.Contains x y) name := by
  rcases h with ⟨d, ht, -, hsize⟩
  refine Acc.intro name fun y hcontains => ?_
  rcases hcontains.exists_member ht with ⟨⟨f, hf, hy⟩, hstruct⟩
  exact hsize.acc f hf y hy hstruct

/-- A struct that contains itself, by whatever way, has no size. -/
theorem not_hasSize_of_transGen {name : Text} (h : Relation.TransGen s.Contains name name)
    (n : Nat) : ¬ s.HasSize name n := by
  intro hsize
  have hacc := hsize.acc.transGen
  rw [← Relation.transGen_swap] at h
  induction hacc with
  | intro x _ ih => exact ih x h h hsize

/-- If all structs have sizes then no struct contains itself. -/
theorem SizesFit.acyclic (h : s.SizesFit) (a : Text) : ¬ Relation.TransGen s.Contains a a := by
  intro ha
  rcases Relation.TransGen.head'_iff.1 ha with ⟨b, ⟨d, ht, hkind, -⟩, -⟩
  rcases h _ ht hkind with ⟨n, -, hsize⟩
  exact not_hasSize_of_transGen ha n hsize

end Containment

section Exact

variable {a : AttributeDef} {name : Text} {o : AttributeOptions} {t : MemberType}

theorem builtinSize?_of_ofName? {num : Number} (h : Number.ofName? name = some num) :
    builtinSize? name = some num.size := by
  have hbool : name ≠ "bool" := by
    rintro rfl
    rw [show Number.ofName? "bool" = none by decide +kernel] at h
    cases h
  rw [builtinSize?, if_neg hbool, h]
  rfl

/-- An element of a struct member has the size of a builtin type or is a struct. -/
theorem elementType_size (h : (s.elementType s.members name o).result? = some t) :
    builtinSize? name = some t.exactSize ∨
      s.isStruct name = true ∧ t = .struct name (s.members name) := by
  rcases elementType_cases h with ⟨rfl, -, rfl⟩ | ⟨num, l, hnum, -, rfl⟩ | ⟨d, ht, hkind, -, -, rfl⟩
  · exact Or.inl rfl
  · rw [MemberType.exactSize]
    exact Or.inl (builtinSize?_of_ofName? hnum)
  · exact Or.inr ⟨isStruct_iff.2 ⟨d, ht, hkind⟩, rfl⟩

theorem exactSize_counted {elem : MemberType} :
    (if 0 < a.options.count then MemberType.array a.options.count elem else elem).exactSize
      = elem.exactSize * a.elements := by
  rw [AttributeDef.elements]
  split
  · rw [MemberType.exactSize]
  · rw [Nat.mul_one]

/-- The size of a member: that of a byte string, of elements of a builtin type, or of structs. -/
theorem memberType_size (h : (s.memberType s.members a).result? = some t) :
    ∃ name, a.type = .name name ∧
      ((name = "data" ∨ name = "string") ∧ t.exactSize = a.options.count.toNatClampNeg ∨
        (∃ k, builtinSize? name = some k ∧ t.exactSize = k * a.elements) ∨
        s.isStruct name = true ∧
          t.exactSize = MemberType.exactMembersSize (s.members name) * a.elements) := by
  rcases memberType_cases h with ⟨name, htype, ⟨hname, -, rfl⟩ | ⟨elem, helem, rfl⟩⟩
  · exact ⟨name, htype, Or.inl ⟨hname, by rw [MemberType.exactSize]⟩⟩
  · refine ⟨name, htype, Or.inr ?_⟩
    rcases elementType_size helem with hsize | ⟨hstruct, rfl⟩
    · exact Or.inl ⟨_, hsize, exactSize_counted⟩
    · refine Or.inr ⟨hstruct, ?_⟩
      rw [exactSize_counted, MemberType.exactSize]

/-- The members that a list of fields is resolved to. -/
def resolvedMembers (s : Schema) (as : List AttributeDef) : Members :=
  as.filterMap fun a => (s.memberType s.members a).result?.map (a.name, ·)

theorem resolvedMembers_cons (h : (s.memberType s.members a).result? = some t)
    (rest : List AttributeDef) :
    s.resolvedMembers (a :: rest) = (a.name, t) :: s.resolvedMembers rest := by
  rw [resolvedMembers, List.filterMap_cons, h]
  rfl

theorem members_eq_resolved (hacyclic : ∀ a, ¬ Relation.TransGen s.Contains a a) {d : TypeDef}
    (ht : (name, d) ∈ s.types) (hkind : d.effectiveKind = .struct) :
    s.members name = s.resolvedMembers (knownMembers d.attrs) := members_eq hacyclic ht hkind

theorem builtinSize?_bytes (h : name = "data" ∨ name = "string") : builtinSize? name = none := by
  rcases h with rfl | rfl
  · decide +kernel
  · decide +kernel

theorem not_bytes_of_isStruct (h : s.isStruct name = true) :
    ¬ (name = "data" ∨ name = "string") := by
  rcases not_builtin (mem_names_of_isStruct h) with ⟨hdata, hstring, -⟩
  exact not_or.2 ⟨hdata, hstring⟩

-- The induction is on how the declared size is made up. What the member is resolved to is of the
-- same sort, since byte strings, builtin types and structs have different names.
theorem MembersSize.exactMembersSize_eq (h : s.Accepted)
    (hacyclic : ∀ a, ¬ Relation.TransGen s.Contains a a) {as : List AttributeDef} {n : Nat}
    (hsize : s.MembersSize as n)
    (hresolved : ∀ a ∈ as, ∃ t, (s.memberType s.members a).result? = some t) :
    MemberType.exactMembersSize (s.resolvedMembers as) = n := by
  induction hsize with
  | nil => rfl
  | bytes htype hname _ ih =>
      rcases List.forall_mem_cons.1 hresolved with ⟨⟨t, ht⟩, hrest⟩
      rw [resolvedMembers_cons ht, MemberType.exactMembersSize, ih hrest]
      rcases memberType_size ht with ⟨name', htype', hcases⟩
      obtain rfl := TypeExpr.name.inj (htype.symm.trans htype')
      rcases hcases with ⟨-, hbytes⟩ | ⟨k, hk, -⟩ | ⟨hstruct, -⟩
      · rw [hbytes]
      · rw [builtinSize?_bytes hname] at hk
        cases hk
      · exact absurd hname (not_bytes_of_isStruct hstruct)
  | builtin htype hk _ ih =>
      rcases List.forall_mem_cons.1 hresolved with ⟨⟨t, ht⟩, hrest⟩
      rw [resolvedMembers_cons ht, MemberType.exactMembersSize, ih hrest]
      rcases memberType_size ht with ⟨name', htype', hcases⟩
      obtain rfl := TypeExpr.name.inj (htype.symm.trans htype')
      rcases hcases with ⟨hname, -⟩ | ⟨k', hk', hbuiltin⟩ | ⟨hstruct, -⟩
      · rw [builtinSize?_bytes hname] at hk
        cases hk
      · rw [hbuiltin, Option.some.inj (hk'.symm.trans hk)]
      · rw [builtinSize?_of_mem (mem_names_of_isStruct hstruct)] at hk
        cases hk
  | struct htype hd hkind _ _ ihmembers ih =>
      rcases List.forall_mem_cons.1 hresolved with ⟨⟨t, ht⟩, hrest⟩
      rw [resolvedMembers_cons ht, MemberType.exactMembersSize, ih hrest]
      rcases memberType_size ht with ⟨name', htype', hcases⟩
      obtain rfl := TypeExpr.name.inj (htype.symm.trans htype')
      have hstruct := isStruct_iff.2 ⟨_, hd, hkind⟩
      rcases hcases with ⟨hname, -⟩ | ⟨k', hk', -⟩ | ⟨-, hnested⟩
      · exact absurd hname (not_bytes_of_isStruct hstruct)
      · rw [builtinSize?_of_mem (mem_names_of_isStruct hstruct)] at hk'
        cases hk'
      · rw [hnested, members_eq_resolved hacyclic hd hkind,
          ihmembers fun a ha => h.member_resolved hd hkind ha]

/-- The members that are compiled have the declared size. -/
theorem HasSize.exactMembersSize_eq (h : s.Accepted)
    (hacyclic : ∀ a, ¬ Relation.TransGen s.Contains a a) {n : Nat} (hsize : s.HasSize name n) :
    MemberType.exactMembersSize (s.members name) = n := by
  rcases hsize with ⟨d, ht, hkind, hmembers⟩
  rw [members_eq_resolved hacyclic ht hkind]
  exact hmembers.exactMembersSize_eq h hacyclic fun a ha => h.member_resolved ht hkind ha

-- The other way round the size is found by going down to the structs that contain no others.
theorem membersSize_of_resolved {as : List AttributeDef}
    (hstructs : ∀ a ∈ as, ∀ b, a.type = .name b → s.isStruct b = true →
      s.HasSize b (MemberType.exactMembersSize (s.members b)))
    (hresolved : ∀ a ∈ as, ∃ t, (s.memberType s.members a).result? = some t) :
    s.MembersSize as (MemberType.exactMembersSize (s.resolvedMembers as)) := by
  induction as with
  | nil => exact .nil
  | cons a rest ih =>
      rcases List.forall_mem_cons.1 hresolved with ⟨⟨t, ht⟩, hrest⟩
      have hsize := ih (fun b hb => hstructs b (List.mem_cons_of_mem _ hb)) hrest
      rw [resolvedMembers_cons ht, MemberType.exactMembersSize]
      rcases memberType_size ht with
        ⟨name, htype, ⟨hname, hbytes⟩ | ⟨k, hk, hbuiltin⟩ | ⟨hstruct, hnested⟩⟩
      · rw [hbytes]
        exact .bytes htype hname hsize
      · rw [hbuiltin]
        exact .builtin htype hk hsize
      · rcases hstructs a List.mem_cons_self name htype hstruct with ⟨d, hd, hkind, hmembers⟩
        rw [hnested]
        exact .struct htype hd hkind hmembers hsize

/-- A struct of an accepted schema below which containment ends has a size. -/
theorem hasSize_of_acc (h : s.Accepted) (hacyclic : ∀ a, ¬ Relation.TransGen s.Contains a a)
    (hacc : Acc (fun y x => s.Contains x y) name) (hstruct : s.isStruct name = true) :
    s.HasSize name (MemberType.exactMembersSize (s.members name)) := by
  induction hacc with
  | intro x _ ih =>
      rcases isStruct_iff.1 hstruct with ⟨d, ht, hkind⟩
      refine ⟨d, ht, hkind, ?_⟩
      rw [members_eq_resolved hacyclic ht hkind]
      refine membersSize_of_resolved (fun a ha b hb hbstruct => ?_)
        fun a ha => h.member_resolved ht hkind ha
      exact ih b ⟨d, ht, hkind, ⟨a, ha, hb⟩, hbstruct⟩ hbstruct

/-- Without NUL bytes in names the sizes are those that are compiled. -/
theorem sizesFit_iff (h : s.Accepted) (hnul : ∀ name ∈ s.names, 0 ∉ name.utf8) :
    s.SizesFit ↔ ∀ t ∈ s.types, t.2.effectiveKind = .struct →
      MemberType.exactMembersSize (s.members t.1) < 2 ^ 63 := by
  have hacyclic := contains_acyclic h hnul
  constructor
  · intro hfit t ht hkind
    rcases hfit t ht hkind with ⟨n, hlt, hsize⟩
    rw [hsize.exactMembersSize_eq h hacyclic]
    exact hlt
  · intro hlt t ht hkind
    have hsize := hasSize_of_acc h hacyclic ((contains_wellFounded h hnul).apply t.1)
      (isStruct_iff.2 ⟨t.2, ht, hkind⟩)
    exact ⟨_, hlt t ht hkind, hsize⟩

end Exact

end Schema

end NetlinkSchema
