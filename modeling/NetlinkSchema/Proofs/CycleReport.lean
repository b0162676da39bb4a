import NetlinkSchema.Proofs.Size
import NetlinkSchema.Proofs.Validity

/-!
# What is reported about cycles

The search reports some cycle if there is one, and everything that it reports is a cycle: the names
along it refer to each other, the last one is the first, and no other name occurs twice. No other
phase of the compilation reports cycles.

A cycle of structs is reported as a struct that contains itself. This is not always so. The search
follows all fields of a struct, also those after the first version, which are no members of the
compiled struct, and those that are arrays or maps, which no struct has as members. A reference
through such a field does not make a struct larger. Where a cycle has no such references, its
structs contain each other and have no size.

## Main definitions

* `CompileFault.cycle?`: The cycle that a fault is about.
* `Schema.Mentions`: A struct refers to another one by a field that is no member.
* `Schema.chainLink`: A struct that refers to itself, and is refused though it may have a size.

## Theorems

* `Schema.cycle_check_exact`: There is a report if there is a cycle, and reports are of cycles.
* `Schema.mem_cycleFindings`: Only the search for cycles reports them.
* `Schema.struct_cycle_links`: How the structs of a reported cycle are linked.
-/

namespace NetlinkSchema

/-- The cycle that a fault is about. -/
def CompileFault.cycle? : CompileFault → Option (List Text)
  | structCycle c | attrsCycle c => some c
  | _ => none

namespace Check

variable {α β : Type}

/-- A check that finds no cycle. -/
def Local (x : Check α) : Prop := ∀ fault, x.result = .error fault → fault.cycle? = none

theorem local_ok (warnings : List WarningCause) (a : α) : (⟨warnings, .ok a⟩ : Check α).Local := by
  intro fault h
  cases h

theorem local_fail {fault : CompileFault} (h : fault.cycle? = none) :
    (fail fault : Check α).Local := by
  intro fault' hfault
  cases hfault
  exact h

theorem local_bind {x : Check α} {f : α → Check β} (hx : x.Local) (hf : ∀ a, (f a).Local) :
    (x >>= f).Local := by
  intro fault h
  change (x.andThen f).result = _ at h
  unfold andThen at h
  cases hresult : x.result with
  | error fault' =>
      rw [hresult] at h
      cases h
      exact hx _ hresult
  | ok a =>
      rw [hresult] at h
      exact hf a _ h

end Check

namespace Findings

/-- No error is about a cycle. -/
def Local (f : Findings) : Prop := ∀ e ∈ f.errors, e.fault.cycle? = none

theorem local_append {f g : Findings} (hf : f.Local) (hg : g.Local) : (f ++ g).Local := by
  intro e he
  rw [errors_append, List.mem_append] at he
  exact he.elim (hf e) (hg e)

theorem local_concat {all : List Findings} (h : ∀ f ∈ all, f.Local) : (concat all).Local := by
  intro e he
  rcases List.mem_flatMap.1 he with ⟨f, hf, hef⟩
  exact h f hf e hef

theorem local_ofCheck {α : Type} {x : Check α} (h : x.Local) (site : Site) :
    (ofCheck site x).Local := by
  intro e he
  change e ∈ x.errorsAt site at he
  unfold Check.errorsAt at he
  cases hresult : x.result with
  | ok a =>
      rw [hresult] at he
      cases he
  | error fault =>
      rw [hresult] at he
      rw [List.mem_singleton.1 he]
      exact h _ hresult

end Findings

namespace Schema

variable {s : Schema}

section Phases

theorem local_lowerTo (num : Number) (lower : LowerType) (d : TypeDef) :
    (lowerTo num lower d).Local := by
  unfold lowerTo
  split
  · unfold bitmaskLowering
    simp only
    split
    · exact Check.local_fail rfl
    · exact Check.local_ok _ _
  · exact Check.local_ok _ _
  · unfold flagsLowering
    split
    · exact Check.local_fail rfl
    · exact Check.local_ok _ _
  · exact Check.local_fail rfl

theorem local_lowering (num : Number) (lower : Option LowerType) :
    (s.lowering num lower).Local := by
  cases lower with
  | none => exact Check.local_ok _ _
  | some lower =>
      rw [lowering]
      split
      · exact Check.local_fail rfl
      split
      · exact Check.local_fail rfl
      · exact Check.local_bind (Check.local_ok _ _) fun _ => local_lowerTo num lower _

theorem local_elementType (members : Text → Members) (name : Text) (o : AttributeOptions) :
    (s.elementType members name o).Local := by
  unfold elementType
  split
  · split
    · exact Check.local_fail rfl
    · exact Check.local_ok _ _
  split
  · exact Check.local_fail rfl
  split
  · exact Check.local_bind (local_lowering _ _) fun _ => Check.local_ok _ _
  · unfold nestedStruct
    split
    · exact Check.local_fail rfl
    split
    · exact Check.local_fail rfl
    split
    · exact Check.local_fail rfl
    split
    · exact Check.local_fail rfl
    · exact Check.local_ok _ _

theorem local_memberType (members : Text → Members) (a : AttributeDef) :
    (s.memberType members a).Local := by
  unfold memberType
  split
  · refine Check.local_bind (Check.local_ok _ _) fun _ =>
      Check.local_bind (Check.local_ok _ _) fun _ => ?_
    unfold namedMember
    split
    · unfold bytesType
      split
      · exact Check.local_fail rfl
      · exact Check.local_ok _ _
    · exact Check.local_bind (local_elementType _ _ _) fun _ => Check.local_ok _ _
  · exact Check.local_fail rfl

theorem local_namedPayload (o : AttributeOptions) (name : Text) :
    (s.namedPayload o name).Local := by
  unfold namedPayload
  split
  · exact Check.local_bind (local_lowering _ _) fun _ => Check.local_ok _ _
  · exact Check.local_fail rfl
  split
  · exact Check.local_ok _ _
  split
  · exact Check.local_ok _ _
  split
  · exact Check.local_ok _ _
  split
  · exact Check.local_ok _ _
  split
  · exact Check.local_fail rfl
  split
  · exact Check.local_ok _ _
  · exact Check.local_ok _ _
  · exact Check.local_fail rfl

theorem local_payload (o : AttributeOptions) (e : TypeExpr) : (s.payload o e).Local := by
  induction e with
  | name n => exact local_namedPayload o n
  | array elem zero ih => exact Check.local_bind ih fun _ => Check.local_ok _ _
  | map elem ih => exact Check.local_bind ih fun _ => Check.local_ok _ _
  | flags elem _ =>
      rw [payload]
      unfold flagListPayload
      split
      · exact Check.local_fail rfl
      · split
        · exact Check.local_fail rfl
        split
        · exact Check.local_ok _ _
        · exact Check.local_fail rfl
      · exact Check.local_fail rfl
  | other kind => exact local_namedPayload o .empty
  | missing => exact local_namedPayload o .empty

theorem local_attributePayload (a : AttributeDef) : (s.attributePayload a).Local := by
  refine Check.local_bind ?_ fun _ => local_payload a.options a.type
  exact Check.local_bind (Check.local_ok _ _) fun _ =>
    Check.local_bind (Check.local_ok _ _) fun _ => Check.local_ok _ _

theorem mem_of_mem_ite {c : Prop} [Decidable c] {e x : CompileError}
    (h : e ∈ if c then [x] else []) : e = x := by
  split at h
  · exact List.mem_singleton.1 h
  · cases h

theorem local_fieldFaults (owner : Text) (as : List AttributeDef) (seen : List Text) :
    ∀ e ∈ TypeDef.fieldFaults owner seen as, e.fault.cycle? = none := by
  induction as generalizing seen with
  | nil => exact fun e he => absurd he List.not_mem_nil
  | cons a rest ih =>
      intro e he
      rw [TypeDef.fieldFaults, List.mem_append, List.mem_append] at he
      rcases he with (he | he) | he
      · rw [mem_of_mem_ite he]
        rfl
      · rw [mem_of_mem_ite he]
        rfl
      · exact ih _ e he

theorem local_declaration (name : Text) (d : TypeDef) : (d.findings name).Local := by
  have hfields : ∀ {c : Prop} [Decidable c] {kind : Kind} {e : CompileError},
      e ∈ (if c then [] else [⟨Site.ofType name, .kindContent kind true⟩])
        ++ TypeDef.fieldFaults name [] d.attrs → e.fault.cycle? = none := by
    intro c _ kind e he
    rcases List.mem_append.1 he with he | he
    · rw [← ite_not] at he
      rw [mem_of_mem_ite he]
      rfl
    · exact local_fieldFaults name _ _ e he
  have hvalues : ∀ {c : Prop} [Decidable c] {kind : Kind} {names : List Text} {e : CompileError},
      e ∈ (if c then [] else [⟨Site.ofType name, .kindContent kind false⟩])
        ++ names.map (⟨Site.ofType name, .duplicateValue ·⟩) → e.fault.cycle? = none := by
    intro c _ kind names e he
    rcases List.mem_append.1 he with he | he
    · rw [← ite_not] at he
      rw [mem_of_mem_ite he]
      rfl
    · rcases List.mem_map.1 he with ⟨n, -, rfl⟩
      rfl
  unfold TypeDef.findings
  simp only
  cases d.effectiveKind with
  | attrs => exact fun e he => hfields he
  | struct => exact fun e he => hfields he
  | enum => exact fun e he => hvalues he
  | flags => exact fun e he => hvalues he
  | other kind unknown => exact fun e he => absurd he List.not_mem_nil

theorem local_structFindings (name : Text) (d : TypeDef) : (s.structFindings name d).Local := by
  refine Findings.local_append (fun e he => ?_) (Findings.local_concat fun f hf => ?_)
  · rcases List.mem_map.1 he with ⟨a, -, rfl⟩
    rfl
  · rcases List.mem_map.1 hf with ⟨a, -, rfl⟩
    exact Findings.local_ofCheck (local_memberType s.members a) _

theorem local_attrsFindings (name : Text) (d : TypeDef) : (s.attrsFindings name d).Local := by
  refine Findings.local_append (Findings.local_concat fun f hf => ?_) fun e he => ?_
  · rcases List.mem_map.1 hf with ⟨x, -, rfl⟩
    exact Findings.local_ofCheck (local_attributePayload x.2) _
  · split at he
    · rw [List.mem_singleton.1 he]
      rfl
    · cases he

theorem local_typeFindings (name : Text) (d : TypeDef) : (s.typeFindings name d).Local := by
  unfold typeFindings
  cases d.effectiveKind with
  | struct => exact local_structFindings name d
  | flags =>
      intro e he
      rcases List.mem_map.1 he with ⟨v, -, rfl⟩
      rfl
  | attrs => exact local_attrsFindings name d
  | enum => exact fun e he => absurd he List.not_mem_nil
  | other kind unknown => exact fun e he => absurd he List.not_mem_nil

theorem local_enumFindings (needs : List (Text × Variant)) (name : Text) (d : TypeDef) :
    (enumFindings needs name d).Local := by
  intro e he
  rcases List.mem_flatMap.1 he with ⟨v, -, hv⟩
  rcases List.mem_append.1 hv with hv | hv
  · rw [mem_of_mem_ite hv]
    rfl
  · rw [mem_of_mem_ite hv]
    rfl

/-- An error is found in one of the phases. -/
theorem mem_errors_examine {o : CompileOptions} {e : CompileError}
    (h : e ∈ (s.examine o).1.errors) :
    e ∈ s.declarationFindings.errors ∨ e ∈ (s.cycleFindings o.rejectAttrCycles).errors ∨
      e ∈ (Findings.concat (s.types.map fun t => s.typeFindings t.1 t.2)).errors ∨
      e ∈ (Findings.concat (s.enums.map fun t => enumFindings s.needs t.1 t.2)).errors := by
  unfold examine at h
  simp only at h
  split at h
  · exact Or.inl h
  split at h
  · rw [Findings.errors_append, List.mem_append] at h
    tauto
  split at h
  · rw [Findings.errors_append, Findings.errors_append, List.mem_append, List.mem_append] at h
    tauto
  · rw [Findings.errors_append, Findings.errors_append, Findings.errors_append, List.mem_append,
      List.mem_append, List.mem_append] at h
    tauto

/-- Errors about cycles are those of the search for cycles. -/
theorem mem_cycleFindings {o : CompileOptions} {e : CompileError}
    (he : e ∈ (s.compile o).findings.errors) {c : List Text} (hc : e.fault.cycle? = some c) :
    e ∈ (s.cycleFindings o.rejectAttrCycles).errors := by
  have hlocal : ∀ {f : Findings}, f.Local → e ∉ f.errors := by
    intro f hf hmem
    rw [hf e hmem] at hc
    cases hc
  rw [findings_compile] at he
  -- What was a warning at first is not about a cycle either: it is about a warning.
  have hexamined : e ∈ (s.examine o).1.errors := by
    unfold settle at he
    split at he
    · rcases List.mem_append.1 he with he | he
      · exact he
      · rcases List.mem_map.1 he with ⟨w, -, rfl⟩
        cases hc
    · exact he
  rcases mem_errors_examine hexamined with h | h | h | h
  · refine absurd h (hlocal (Findings.local_concat fun f hf => ?_))
    rcases List.mem_map.1 hf with ⟨t, -, rfl⟩
    exact local_declaration t.1 t.2
  · exact h
  · refine absurd h (hlocal (Findings.local_concat fun f hf => ?_))
    rcases List.mem_map.1 hf with ⟨t, -, rfl⟩
    exact local_typeFindings t.1 t.2
  · refine absurd h (hlocal (Findings.local_concat fun f hf => ?_))
    rcases List.mem_map.1 hf with ⟨t, -, rfl⟩
    exact local_enumFindings s.needs t.1 t.2

end Phases

section Search

/-- A cycle of structs is an error. Another cycle is an error or a warning. -/
theorem findingOfCycle_cases (s : Schema) (reject : Bool) (c : List Text) :
    (∀ x ∈ c, s.isStruct x = true) ∧
        s.findingOfCycle reject c = .error ⟨.ofType (c.headD .empty), .structCycle c⟩ ∨
      (∃ x ∈ c, s.isStruct x = false) ∧
        s.findingOfCycle reject c = if reject then
          .error ⟨.ofType (c.headD .empty), .attrsCycle c⟩
          else .warning ⟨.ofType (c.headD .empty), .attrsCycle c⟩ := by
  rw [findingOfCycle]
  cases hall : c.all s.isStruct with
  | true => exact Or.inl ⟨List.all_eq_true.1 hall, if_pos rfl⟩
  | false => exact Or.inr ⟨by simpa using hall, if_neg Bool.false_ne_true⟩

theorem exists_of_mem_errors {reject : Bool} {e : CompileError}
    (he : e ∈ (s.cycleFindings reject).errors) : ∃ c ∈ s.cycles,
      (∀ x ∈ c, s.isStruct x = true) ∧ e.fault = .structCycle c ∨
        reject = true ∧ (∃ x ∈ c, s.isStruct x = false) ∧ e.fault = .attrsCycle c := by
  rcases List.mem_flatMap.1 he with ⟨f, hf, hef⟩
  rcases List.mem_map.1 hf with ⟨c, hc, rfl⟩
  refine ⟨c, hc, ?_⟩
  rcases s.findingOfCycle_cases reject c with ⟨hstructs, hfound⟩ | ⟨hother, hfound⟩
  · rw [hfound] at hef
    rw [List.mem_singleton.1 hef]
    exact Or.inl ⟨hstructs, rfl⟩
  · rw [hfound] at hef
    cases reject with
    | true =>
        rw [List.mem_singleton.1 hef]
        exact Or.inr ⟨rfl, hother, rfl⟩
    | false => cases hef

theorem exists_of_mem_warnings {reject : Bool} {w : Warning}
    (hw : w ∈ (s.cycleFindings reject).warnings) : ∃ c ∈ s.cycles,
      reject = false ∧ (∃ x ∈ c, s.isStruct x = false) ∧ w.cause = .attrsCycle c := by
  rcases List.mem_flatMap.1 hw with ⟨f, hf, hwf⟩
  rcases List.mem_map.1 hf with ⟨c, hc, rfl⟩
  refine ⟨c, hc, ?_⟩
  rcases s.findingOfCycle_cases reject c with ⟨-, hfound⟩ | ⟨hother, hfound⟩
  · rw [hfound] at hwf
    cases hwf
  · rw [hfound] at hwf
    cases reject with
    | true => cases hwf
    | false =>
        rw [List.mem_singleton.1 hwf]
        exact ⟨rfl, hother, rfl⟩

/-- Something is found if there are cycles. -/
theorem cycleFindings_ne_nil_iff (reject : Bool) :
    (s.cycleFindings reject).errors ≠ [] ∨ (s.cycleFindings reject).warnings ≠ [] ↔
      s.cycles ≠ [] := by
  constructor
  · rintro (h | h)
    · rcases List.exists_mem_of_ne_nil _ h with ⟨e, he⟩
      rcases exists_of_mem_errors he with ⟨c, hc, -⟩
      exact List.ne_nil_of_mem hc
    · rcases List.exists_mem_of_ne_nil _ h with ⟨w, hw⟩
      rcases exists_of_mem_warnings hw with ⟨c, hc, -⟩
      exact List.ne_nil_of_mem hc
  · intro h
    rcases List.exists_mem_of_ne_nil _ h with ⟨c, hc⟩
    by_contra hnone
    rw [not_or, not_ne_iff, not_ne_iff] at hnone
    have herrors := List.flatMap_eq_nil_iff.1 hnone.1 _ (List.mem_map_of_mem hc)
    have hwarnings := List.flatMap_eq_nil_iff.1 hnone.2 _ (List.mem_map_of_mem hc)
    rcases s.findingOfCycle_cases reject c with ⟨-, hfound⟩ | ⟨-, hfound⟩
    · rw [hfound] at herrors
      cases herrors
    · rw [hfound] at herrors hwarnings
      cases reject with
      | true => cases herrors
      | false => cases hwarnings

theorem isCycle_of_mem_cycles {c : List Text} (hc : c ∈ s.cycles) : s.IsCycle c := by
  rcases s.search_settles with ⟨-, -, hcycles, -⟩
  exact hcycles c hc

/-- Some cycle is found if there is one. -/
theorem cycles_ne_nil_iff : s.cycles ≠ [] ↔ ∃ name, Relation.TransGen s.RefersTo name name := by
  constructor
  · intro h
    rcases List.exists_mem_of_ne_nil _ h with ⟨c, hc⟩
    have hcycle := isCycle_of_mem_cycles hc
    rcases hcycle.transGen hcycle.isChain with ⟨name, -, hname⟩
    exact ⟨name, hname⟩
  · rintro ⟨name, hname⟩
    exact cycles_ne_nil hname

/-- The check for cycles finds something if the types of a schema refer to each other in a cycle,
    and everything that it finds names a cycle: of structs, or of attribute sets and structs. -/
theorem cycle_check_exact (s : Schema) (reject : Bool) :
    ((s.cycleFindings reject).errors ≠ [] ∨ (s.cycleFindings reject).warnings ≠ [] ↔
        ∃ name, Relation.TransGen s.RefersTo name name) ∧
      (∀ e ∈ (s.cycleFindings reject).errors, ∃ c, s.IsCycle c ∧
        ((∀ x ∈ c, s.isStruct x = true) ∧ e.fault = .structCycle c ∨
          reject = true ∧ (∃ x ∈ c, s.isStruct x = false) ∧ e.fault = .attrsCycle c)) ∧
      ∀ w ∈ (s.cycleFindings reject).warnings, ∃ c, s.IsCycle c ∧
        reject = false ∧ (∃ x ∈ c, s.isStruct x = false) ∧ w.cause = .attrsCycle c := by
  refine ⟨(cycleFindings_ne_nil_iff reject).trans cycles_ne_nil_iff, fun e he => ?_, fun w hw => ?_⟩
  · rcases exists_of_mem_errors he with ⟨c, hc, hfault⟩
    exact ⟨c, isCycle_of_mem_cycles hc, hfault⟩
  · rcases exists_of_mem_warnings hw with ⟨c, hc, hcause⟩
    exact ⟨c, isCycle_of_mem_cycles hc, hcause⟩

end Search

section Members

theorem exists_structCycle_of_code {e : CompileError} (h : e.code = 2030) :
    ∃ c, e.fault = .structCycle c := by
  unfold CompileError.code at h
  cases hfault : e.fault with
  | structCycle c => exact ⟨c, rfl⟩
  | _ =>
      rw [hfault] at h
      cases h

/-- A struct refers to another one by a field that is no member: one after the first version, or an
    array or a map. -/
def Mentions (s : Schema) (a b : Text) : Prop :=
  ∃ d, (a, d) ∈ s.types ∧ d.effectiveKind = .struct ∧ s.isStruct b = true ∧
    ∃ f ∈ d.attrs, f.type.core = .name b ∧ (f ∉ knownMembers d.attrs ∨ f.type ≠ .name b)

/-- What a struct refers to, it contains or mentions. -/
theorem contains_or_mentions {a b : Text} (ha : s.isStruct a = true) (hb : s.isStruct b = true)
    (h : s.RefersTo a b) : s.Contains a b ∨ s.Mentions a b := by
  rcases refersTo_iff.1 h with ⟨-, d, hd, f, hf, hcore⟩
  have hkind : d.effectiveKind = .struct := by
    rcases isStruct_iff.1 ha with ⟨d', hd', hkind⟩
    rw [Option.some.inj ((mem_types_iff.1 hd).symm.trans (mem_types_iff.1 hd'))]
    exact hkind
  by_cases hmember : f ∈ knownMembers d.attrs ∧ f.type = .name b
  · exact Or.inl ⟨d, hd, hkind, ⟨f, hmember⟩, hb⟩
  · exact Or.inr ⟨d, hd, hkind, hb, f, hf, hcore, not_and_or.1 hmember⟩

-- From each type of a cycle the way leads on to its last type, from there to the first one, and
-- back to where it began.
theorem IsCycle.transGen_of_mem {c : List Text} (h : s.IsCycle c) {R : Text → Text → Prop}
    (hR : c.IsChain R) : ∀ x ∈ c, Relation.TransGen R x x := by
  rcases h with ⟨seg, w, rfl, hhead, -, -, -⟩
  have hw : w ∈ seg := List.mem_of_mem_head? hhead
  have hlast := List.getLast?_eq_some_getLast (List.ne_nil_of_mem hw)
  rcases List.isChain_append.1 hR with ⟨hchain, -, hlink⟩
  intro x hx
  have hseg : x ∈ seg := by
    rcases List.mem_append.1 hx with hx | hx
    · exact hx
    · rw [List.mem_singleton.1 hx]
      exact hw
  rcases reach_of_chain hhead hlast hchain x hseg with ⟨hwx, hxv⟩
  exact (Relation.TransGen.tail' hxv (hlink _ hlast w rfl)).trans_left hwx

/-- A cycle of structs that is reported goes along fields, and a struct of it contains the next one
    by value or mentions it by a field that is no member. Without such fields the structs contain
    each other, and none of them has a size. -/
theorem struct_cycle_links {s : Schema} {o : CompileOptions} {e : CompileError}
    (he : e ∈ (s.compile o).findings.errors) (hcode : e.code = 2030) :
    ∃ c, e.fault = .structCycle c ∧ s.IsCycle c ∧ (∀ x ∈ c, s.isStruct x = true) ∧
      c.IsChain (fun a b => s.Contains a b ∨ s.Mentions a b) ∧
      ((∀ a ∈ c, ∀ b ∈ c, s.Mentions a b → s.Contains a b) →
        c.IsChain s.Contains ∧ ∀ x ∈ c, ∀ n, ¬ s.HasSize x n) := by
  rcases exists_structCycle_of_code hcode with ⟨c, hfault⟩
  have hfound := mem_cycleFindings he (c := c) (by rw [hfault]; rfl)
  rcases exists_of_mem_errors hfound with ⟨c', hc', ⟨hstructs, hfault'⟩ | ⟨-, -, hfault'⟩⟩
  · obtain rfl : c = c' := CompileFault.structCycle.inj (hfault.symm.trans hfault')
    have hcycle := isCycle_of_mem_cycles hc'
    have hlinks : c.IsChain fun a b => s.Contains a b ∨ s.Mentions a b :=
      hcycle.isChain.imp_of_mem_imp fun a b ha hb hab =>
        contains_or_mentions (hstructs a ha) (hstructs b hb) hab
    refine ⟨c, hfault, hcycle, hstructs, hlinks, fun hmembers => ?_⟩
    have hcontains : c.IsChain s.Contains :=
      hlinks.imp_of_mem_imp fun a b ha hb hab => hab.elim id (hmembers a ha b hb)
    exact ⟨hcontains, fun x hx => not_hasSize_of_transGen (hcycle.transGen_of_mem hcontains x hx)⟩
  · rw [hfault] at hfault'
    cases hfault'

/-- A struct that refers to itself by its last field. With a version it ends before that field. -/
def chainLink (abi : Text) : Schema where
  types := [("link", declare (some .struct)
    [⟨"id", .name "u8", { AttributeOptions.empty with abi := abi }⟩,
      ⟨"next", .name "link", { AttributeOptions.empty with abi := abi }⟩] [])]
  distinct := by
    change [Text.ofString "link"].Nodup
    decide +kernel
  named := by
    change ∀ name ∈ [Text.ofString "link"], isTypeName name = true
    decide +kernel

/-- The error that is reported about such a struct. -/
def chainLinkError : CompileError := ⟨.ofType "link", .structCycle ["link", "link"]⟩

theorem chainLink_contains_itself :
    chainLinkError ∈ ((chainLink "").compile .default).findings.errors ∧
      (chainLink "").Contains "link" "link" ∧ ∀ n, ¬ (chainLink "").HasSize "link" n := by
  have herror : chainLinkError ∈ ((chainLink "").compile .default).findings.errors := by
    rw [findings_compile]
    decide +kernel
  rcases struct_cycle_links herror rfl with ⟨c, hfault, -, -, -, hmembers⟩
  obtain rfl := CompileFault.structCycle.inj hfault
  have hplain : ∀ a b, (chainLink "").Mentions a b → (chainLink "").Contains a b := by
    rintro a b ⟨d, hd, hkind, hb, f, hf, hcore, hmember⟩
    have hknown : ∀ t ∈ (chainLink "").types, ∀ f ∈ t.2.attrs,
        f ∈ knownMembers t.2.attrs ∧ f.type = f.type.core := by decide +kernel
    rcases hknown _ hd f hf with ⟨hfknown, hftype⟩
    exact ⟨d, hd, hkind, ⟨f, hfknown, hftype.trans hcore⟩, hb⟩
  rcases hmembers fun a _ b _ => hplain a b with ⟨hcontains, hsize⟩
  exact ⟨herror, List.isChain_pair.1 hcontains, hsize "link" List.mem_cons_self⟩

-- With a version the struct is one byte, and the field that refers to it is no member.
theorem chainLink_refused_with_size :
    chainLinkError ∈ ((chainLink "1.0.0").compile .default).findings.errors ∧
      (chainLink "1.0.0").HasSize "link" 1 ∧ ¬ (chainLink "1.0.0").Contains "link" "link" := by
  refine ⟨?_, ?_, ?_⟩
  · rw [findings_compile]
    decide +kernel
  · have hid : builtinSize? "u8" = some 1 := by decide +kernel
    exact ⟨_, List.mem_cons_self, rfl, .builtin rfl hid .nil⟩
  · intro h
    rcases (h.exists_member List.mem_cons_self).1 with ⟨f, hf, htype⟩
    have hmembers : ∀ t ∈ (chainLink "1.0.0").types, ∀ f ∈ knownMembers t.2.attrs,
        f.type ≠ .name "link" := by decide +kernel
    exact hmembers _ List.mem_cons_self f hf htype

end Members

end Schema

end NetlinkSchema
