import NetlinkSchema.Proofs.Containment
import NetlinkSchema.Proofs.Order

/-!
# Acceptance and the order of declarations

A schema is compiled if no phase finds anything that the options count as an error and no struct
contains itself. What structs contain and what is found in a declaration, in a struct, an attribute
set or an enum does not depend on the order of declarations. The search for cycles does: it reports
some cycles of each strongly connected part of the schema, and which ones depends on where it
begins.

With options under which every cycle is an error this makes no difference. Otherwise only a cycle of
structs is an error, and a part that has such a cycle and an attribute set besides may be accepted
in one order and refused in another. Apart from such schemas, acceptance does not depend on the
order.

## Main definitions

* `Findings.Clean`: Nothing is found that counts as an error.
* `Schema.Passes`: All phases are clean.
* `Schema.Connected`: Two types refer to each other, by whatever ways.
* `Schema.CyclesApart`: A cycle of structs is connected to structs only.
* `Schema.entangled`: A schema that is accepted in one order and refused in another.

## Theorems

* `Schema.isSome_compile_iff`: A schema is compiled if all phases are clean and all structs have a
  size.
* `Schema.exists_closes`: Each cycle is connected to a reported one.
* `Schema.acceptance_independent_of_order`: Acceptance does not depend on the order, if cycles are
  apart or are all refused.
-/

namespace NetlinkSchema

namespace Findings

/-- Nothing is found that the options count as an error. -/
def Clean (o : CompileOptions) (f : Findings) : Prop :=
  f.errors = [] ∧ (o.warningsAsErrors = true → f.warnings = [])

variable {o : CompileOptions}

theorem clean_append {f g : Findings} : (f ++ g).Clean o ↔ f.Clean o ∧ g.Clean o := by
  change (f.errors ++ g.errors = [] ∧ (_ → f.warnings ++ g.warnings = [])) ↔ _
  simp only [Clean, List.append_eq_nil_iff]
  tauto

theorem clean_concat {all : List Findings} : (concat all).Clean o ↔ ∀ f ∈ all, f.Clean o := by
  simp only [Clean, concat, List.flatMap_eq_nil_iff]
  constructor
  · exact fun h f hf => ⟨h.1 f hf, fun ho => h.2 ho f hf⟩
  · exact fun h => ⟨fun f hf => (h f hf).1, fun ho f hf => (h f hf).2 ho⟩

theorem errors_settle_eq_nil_iff {f : Findings} :
    (Schema.settle o f).errors = [] ↔ f.Clean o := by
  unfold Schema.settle Clean
  cases o.warningsAsErrors with
  | true => simp
  | false => simp

end Findings

namespace Schema

section Phases

/-- All phases are clean. -/
structure Passes (s : Schema) (o : CompileOptions) : Prop where
  declared : ∀ t ∈ s.types, (t.2.findings t.1).Clean o
  cyclic : ∀ c ∈ s.cycles, (s.findingOfCycle o.rejectAttrCycles c).Clean o
  typed : ∀ t ∈ s.types, (s.typeFindings t.1 t.2).Clean o
  enums : ∀ t ∈ s.enums, (enumFindings s.needs t.1 t.2).Clean o

variable {s : Schema} {o : CompileOptions}

theorem passes_iff : s.Passes o ↔ s.declarationFindings.Clean o ∧
    (s.cycleFindings o.rejectAttrCycles).Clean o ∧
    (Findings.concat (s.types.map fun t => s.typeFindings t.1 t.2)).Clean o ∧
    (Findings.concat (s.enums.map fun t => enumFindings s.needs t.1 t.2)).Clean o := by
  simp only [declarationFindings, cycleFindings, Findings.clean_concat, List.forall_mem_map]
  exact ⟨fun h => ⟨h.declared, h.cyclic, h.typed, h.enums⟩,
    fun h => ⟨h.1, h.2.1, h.2.2.1, h.2.2.2⟩⟩

-- The phases that are left out would be clean or not: an earlier one has an error anyway.
theorem clean_examine_iff : (s.examine o).1.Clean o ↔ s.Passes o := by
  rw [passes_iff]
  unfold examine
  simp only
  split
  · rename_i hdeclared
    have hno : ¬ s.declarationFindings.Clean o := by
      intro h
      rw [h.1] at hdeclared
      cases hdeclared
    exact ⟨fun h => absurd h hno, fun h => absurd h.1 hno⟩
  split
  · rename_i hcyclic
    have hno : ¬ (s.declarationFindings ++ s.cycleFindings o.rejectAttrCycles).Clean o := by
      intro h
      rw [h.1] at hcyclic
      cases hcyclic
    exact ⟨fun h => absurd h hno, fun h => absurd (Findings.clean_append.2 ⟨h.1, h.2.1⟩) hno⟩
  split
  · rename_i htyped
    have hno : ¬ (s.declarationFindings ++ s.cycleFindings o.rejectAttrCycles
        ++ Findings.concat (s.types.map fun t => s.typeFindings t.1 t.2)).Clean o := by
      intro h
      rw [h.1] at htyped
      cases htyped
    refine ⟨fun h => absurd h hno, fun h => absurd ?_ hno⟩
    exact Findings.clean_append.2 ⟨Findings.clean_append.2 ⟨h.1, h.2.1⟩, h.2.2.1⟩
  · simp only [Findings.clean_append, and_assoc]

/-- There are no errors if all phases are clean, and only then. -/
theorem errors_compile_iff : (s.compile o).findings.errors = [] ↔ s.Passes o := by
  rw [findings_compile, Findings.errors_settle_eq_nil_iff, clean_examine_iff]

/-- A schema is compiled if all phases are clean and all structs have a size, and only then. -/
theorem isSome_compile_iff :
    (s.compile o).output.isSome = true ↔ s.Passes o ∧ s.allSized = true := by
  rw [Option.isSome_iff_exists, ← errors_compile_iff]
  simp only [output_eq_some_iff, exists_and_left, exists_eq, and_true]

end Phases

section Connected

/-- Two types refer to each other, by whatever ways. -/
def Connected (s : Schema) (a b : Text) : Prop :=
  Relation.ReflTransGen s.RefersTo a b ∧ Relation.ReflTransGen s.RefersTo b a

variable {s : Schema}

theorem Connected.trans {a b c : Text} (hab : s.Connected a b) (hbc : s.Connected b c) :
    s.Connected a c := ⟨hab.1.trans hbc.1, hbc.2.trans hab.2⟩

-- From its first member on a chain reaches every member, and from each of them its last one.
theorem reach_of_chain {R : Text → Text → Prop} {seg : List Text} {a b : Text}
    (hhead : seg.head? = some a) (hlast : seg.getLast? = some b) (hchain : seg.IsChain R) :
    ∀ x ∈ seg, Relation.ReflTransGen R a x ∧ Relation.ReflTransGen R x b := by
  intro x hx
  constructor
  · refine hchain.induction (Relation.ReflTransGen R a ·) seg (fun _ _ hxy hax => hax.tail hxy)
      (fun hne => ?_) x hx
    rw [List.head?_eq_some_head hne] at hhead
    rw [Option.some.inj hhead]
  · refine hchain.backwards_induction (Relation.ReflTransGen R · b) seg
      (fun _ _ hxy hyb => hyb.head hxy) (fun hne => ?_) x hx
    rw [List.getLast?_eq_some_getLast hne] at hlast
    rw [Option.some.inj hlast]

/-- The types of a cycle that a reference closes are connected to each other. -/
theorem connected_of_chain {v w : Text} (href : s.RefersTo v w) {seg : List Text}
    (hhead : seg.head? = some w) (hlast : seg.getLast? = some v)
    (hchain : seg.IsChain s.RefersTo) : ∀ x ∈ seg, s.Connected v x := by
  intro x hx
  rcases reach_of_chain hhead hlast hchain x hx with ⟨hwx, hxv⟩
  exact ⟨hwx.head href, hxv⟩

/-- A type that refers back to itself is connected to a reference that closes a reported cycle. -/
theorem exists_closes {cycles : List (List Text)} {visited : List Text}
    (h : s.Settled cycles visited) : ∀ a ∈ visited, Relation.TransGen s.RefersTo a a →
      ∃ v w, s.RefersTo v w ∧ s.Closes cycles v w ∧ s.Connected a v := by
  -- The induction goes from the types that were visited last to those that were visited first, and
  -- a reference that closes no cycle leads to one that was visited before.
  induction visited with
  | nil => exact nofun
  | cons first older ih =>
      refine List.forall_mem_cons.2 ⟨fun hcycle => ?_, ih h.2⟩
      rcases Relation.TransGen.head'_iff.1 hcycle with ⟨w, href, hback⟩
      rcases h.1 w href with hold | hcloses
      · rcases ih h.2 w hold (Relation.TransGen.tail' hback href) with ⟨v, x, hvx, hcloses, hwv⟩
        have hconnected : s.Connected first w := ⟨.single href, hback⟩
        exact ⟨v, x, hvx, hcloses, hconnected.trans hwv⟩
      · exact ⟨first, w, href, hcloses, .refl, .refl⟩

theorem IsCycle.isChain {c : List Text} (h : s.IsCycle c) : c.IsChain s.RefersTo := by
  rcases h with ⟨seg, w, rfl, -, hchain, -⟩
  exact hchain

-- The other way round: a cycle that is reported leads back to where it begins, along any relation
-- that links its types.
theorem IsCycle.transGen {c : List Text} (h : s.IsCycle c) {R : Text → Text → Prop}
    (hR : c.IsChain R) : ∃ w ∈ c, Relation.TransGen R w w := by
  rcases h with ⟨seg, w, rfl, hhead, -, -, -⟩
  have hne : seg ≠ [] := fun hnil => by
    rw [hnil] at hhead
    cases hhead
  rcases List.isChain_append.1 hR with ⟨hchain, -, hlink⟩
  have hlast := List.getLast?_eq_some_getLast hne
  have hreach := (reach_of_chain hhead hlast hchain _ (List.getLast_mem hne)).1
  exact ⟨w, by simp, Relation.TransGen.tail' hreach (hlink _ hlast w rfl)⟩

end Connected

section Cycles

/-- A struct refers to a struct. -/
def StructRefersTo (s : Schema) (a b : Text) : Prop :=
  s.isStruct a = true ∧ s.isStruct b = true ∧ s.RefersTo a b

/-- A struct that refers back to itself by way of structs is connected to structs only. -/
def CyclesApart (s : Schema) : Prop :=
  ∀ a b, Relation.TransGen s.StructRefersTo a a → s.Connected a b → s.isStruct b = true

variable {s : Schema} {o : CompileOptions}

/-- Cycles are found clean if they need not be errors and one of their types is no struct. -/
theorem clean_findingOfCycle_iff {c : List Text} :
    (s.findingOfCycle o.rejectAttrCycles c).Clean o ↔
      (o.rejectAttrCycles = false ∧ o.warningsAsErrors = false) ∧ c.all s.isStruct = false := by
  unfold findingOfCycle
  cases c.all s.isStruct with
  | true => simp [Findings.Clean, Findings.error]
  | false =>
      cases o.rejectAttrCycles with
      | true => simp [Findings.Clean, Findings.error]
      | false => simp [Findings.Clean, Findings.warning]

-- Each type of a cycle is the target of a reference, so the search has visited it.
theorem mem_visited_of_transGen {visited : List Text}
    (hvisited : ∀ x, s.isComposite x = true → x ∈ visited) {a : Text}
    (h : Relation.TransGen s.RefersTo a a) : a ∈ visited := by
  rcases Relation.TransGen.tail'_iff.1 h with ⟨b, -, hba⟩
  exact hvisited a (refersTo_iff.1 hba).1

/-- If there is a cycle then one is reported. -/
theorem cycles_ne_nil {a : Text} (h : Relation.TransGen s.RefersTo a a) : s.cycles ≠ [] := by
  rcases s.search_settles with ⟨visited, hsettled, -, hvisited⟩
  rcases exists_closes hsettled a (mem_visited_of_transGen hvisited h) h with
    ⟨v, w, -, ⟨seg, -, -, -, -, hkey⟩, -⟩
  intro hnil
  rw [hnil] at hkey
  cases hkey

/-- Each cycle is connected to one that is reported. -/
theorem exists_reported (hnul : ∀ name ∈ s.names, 0 ∉ name.utf8) {a : Text}
    (h : Relation.TransGen s.RefersTo a a) : ∃ c ∈ s.cycles, ∀ x ∈ c, s.Connected a x := by
  rcases s.search_settles with ⟨visited, hsettled, hcycles, hvisited⟩
  rcases exists_closes hsettled a (mem_visited_of_transGen hvisited h) h with
    ⟨v, w, href, ⟨seg, hhead, hlast, hchain, hnames, hkey⟩, hav⟩
  rcases List.mem_map.1 hkey with ⟨c, hc, hck⟩
  rcases hcycles c hc with ⟨seg', w', rfl, hhead', -, -, hnames'⟩
  have hw : w ∈ seg := List.mem_of_mem_head? hhead
  have hw' : w' ∈ seg' := List.mem_of_mem_head? hhead'
  have hperm : seg'.Perm seg := Search.perm_of_key_eq (fun t ht => hnul t (hnames' t ht))
    (fun t ht => hnul t (hnames t ht)) (List.ne_nil_of_mem hw') (List.ne_nil_of_mem hw) hck
  have hseg : ∀ x ∈ seg', s.Connected a x := fun x hx =>
    hav.trans (connected_of_chain href hhead hlast hchain x (hperm.mem_iff.1 hx))
  refine ⟨_, hc, fun x hx => ?_⟩
  rcases List.mem_append.1 hx with hx | hx
  · exact hseg x hx
  · rw [List.mem_singleton.1 hx]
    exact hseg w' hw'

end Cycles

section Perm

variable {s t : Schema} (h : s.types.Perm t.types)
include h

theorem kind?_of_perm : s.kind? = t.kind? := by
  funext name
  rw [kind?, kind?, get?_of_perm h]

theorem isStruct_of_perm : s.isStruct = t.isStruct := by
  funext name
  rw [isStruct, isStruct, kind?_of_perm h]

theorem contains_of_perm : s.Contains = t.Contains := by
  funext a b
  rw [Contains, Contains, isStruct_of_perm h]
  simp only [h.mem_iff]

theorem allSized_of_perm : s.allSized = t.allSized := by
  rw [Bool.eq_iff_iff, allSized_iff, allSized_iff, contains_of_perm h]

theorem refersTo_of_perm : s.RefersTo = t.RefersTo := by
  have hcomposite : s.isComposite = t.isComposite := by
    funext name
    rw [isComposite, isComposite, kind?_of_perm h]
  funext a b
  refine propext ?_
  rw [refersTo_iff, refersTo_iff, hcomposite]
  simp only [h.mem_iff]

theorem cyclesApart_of_perm (hs : s.CyclesApart) : t.CyclesApart := by
  have hstruct : s.StructRefersTo = t.StructRefersTo := by
    funext a b
    rw [StructRefersTo, StructRefersTo, isStruct_of_perm h, refersTo_of_perm h]
  intro a b ha hab
  rw [← isStruct_of_perm h]
  refine hs a b ?_ ?_
  · rw [hstruct]
    exact ha
  · rw [Connected, refersTo_of_perm h]
    exact hab

theorem typeFindings_of_perm : s.typeFindings = t.typeFindings := by
  funext name d
  rw [typeFindings, typeFindings]
  simp only [structFindings, attrsFindings, attributePayload_of_perm h,
    (alike_of_perm h).memberType (.of_eq (members_of_perm h))]

theorem enumFindings_of_perm : enumFindings s.needs = enumFindings t.needs := by
  funext name d
  rw [enumFindings, enumFindings]
  simp only [contains_needs_of_perm h]

/-- A schema passes in another order as well, unless only the order hides a cycle of structs. -/
theorem passes_of_perm {o : CompileOptions}
    (hlenient : o.rejectAttrCycles = false → o.warningsAsErrors = false →
      (∀ name ∈ s.names, 0 ∉ name.utf8) ∧ s.CyclesApart)
    (hs : s.Passes o) : t.Passes o := by
  rcases t.search_settles with ⟨-, -, hcycles, -⟩
  constructor
  · exact fun x hx => hs.declared x (h.mem_iff.2 hx)
  · intro c hc
    have hgenuine := hcycles c hc
    rw [clean_findingOfCycle_iff]
    -- Some cycle is reported in the first order too, so cycles need not be errors.
    have hoptions : o.rejectAttrCycles = false ∧ o.warningsAsErrors = false := by
      rcases hgenuine.transGen hgenuine.isChain with ⟨a, -, ha⟩
      rw [← refersTo_of_perm h] at ha
      rcases List.exists_mem_of_ne_nil _ (cycles_ne_nil ha) with ⟨c', hc'⟩
      exact (clean_findingOfCycle_iff.1 (hs.cyclic c' hc')).1
    refine ⟨hoptions, ?_⟩
    rcases hlenient hoptions.1 hoptions.2 with ⟨hnul, hapart⟩
    by_contra hall
    rw [Bool.not_eq_false, List.all_eq_true, ← isStruct_of_perm h] at hall
    have hchain : c.IsChain s.StructRefersTo := by
      refine hgenuine.isChain.imp_of_mem_imp fun x y hx hy hxy => ⟨hall x hx, hall y hy, ?_⟩
      rw [refersTo_of_perm h]
      exact hxy
    rcases hgenuine.transGen hchain with ⟨a, -, ha⟩
    have hrefers : Relation.TransGen s.RefersTo a a :=
      Relation.TransGen.mono (fun _ _ hxy => hxy.2.2) _ _ ha
    rcases exists_reported hnul hrefers with ⟨c', hc', hconnected⟩
    have hstructs : c'.all s.isStruct = true := List.all_eq_true.2 fun x hx =>
      hapart a x ha (hconnected x hx)
    rw [(clean_findingOfCycle_iff.1 (hs.cyclic c' hc')).2] at hstructs
    cases hstructs
  · intro x hx
    rw [← typeFindings_of_perm h]
    exact hs.typed x (h.mem_iff.2 hx)
  · intro x hx
    rw [← enumFindings_of_perm h]
    exact hs.enums x ((h.filter _).mem_iff.2 hx)

end Perm

/-- Schemas whose structs are all closed to extension have their cycles apart, if they are
    accepted. -/
theorem cyclesApart_of_solid {s : Schema} (h : s.Accepted)
    (hnul : ∀ name ∈ s.names, 0 ∉ name.utf8) (hsolid : ∀ a, s.isStruct a = true → s.Solid a) :
    s.CyclesApart := by
  intro a b ha
  have hcontains : Relation.TransGen s.Contains a a :=
    Relation.TransGen.mono (fun x y hxy => contains_of_refersTo h (hsolid x hxy.1) hxy.2.2) _ _ ha
  exact absurd hcontains (contains_acyclic h hnul a)

/-- Acceptance does not depend on the order of declarations, if every cycle is refused, or else if
    names have no NUL bytes and cycles of structs are apart from attribute sets. -/
theorem acceptance_independent_of_order {s t : Schema} (horder : s.types.Perm t.types)
    (o : CompileOptions) (hlenient : o.rejectAttrCycles = false → o.warningsAsErrors = false →
      (∀ name ∈ s.names, 0 ∉ name.utf8) ∧ s.CyclesApart) :
    (s.compile o).output.isSome = (t.compile o).output.isSome := by
  rw [Bool.eq_iff_iff, isSome_compile_iff, isSome_compile_iff, allSized_of_perm horder]
  refine and_congr_left fun _ => ?_
  constructor
  · exact passes_of_perm horder hlenient
  · refine passes_of_perm horder.symm fun hreject hwarnings => ?_
    rcases hlenient hreject hwarnings with ⟨hnul, hapart⟩
    have hnames : t.names.Perm s.names := horder.symm.map Prod.fst
    exact ⟨fun name hname => hnul name (hnames.mem_iff.1 hname), cyclesApart_of_perm horder hapart⟩

theorem tree_acceptance_independent_of_order :
    (tree.compile .default).output.isSome = true ∧
      (tree.reversed.compile .default).output.isSome = true := by
  have htree : (tree.compile .default).output.isSome = true := by rw [tree_compile]; rfl
  refine ⟨htree, ?_⟩
  rw [← acceptance_independent_of_order (List.reverse_perm _).symm .default fun _ _ => ?_]
  · exact htree
  · have hnul : ∀ name ∈ tree.names, 0 ∉ name.utf8 := by decide +kernel
    refine ⟨hnul, cyclesApart_of_solid (accepted_of_compile tree_compile).1 hnul fun a ha => ?_⟩
    rcases isStruct_iff.1 ha with ⟨d, hd, hkind⟩
    have hfixed : ∀ t ∈ tree.types, isExpandable t.2 = false := by decide +kernel
    exact ⟨d, hd, hkind, hfixed _ hd⟩

/-- Two structs and an attribute set. The structs refer to each other by fields that are no members
    any more, and the set refers to one of them. -/
def entangled : Schema where
  types := [
    ("trailer", declare (some .struct)
      [⟨"length", .name "u8", { AttributeOptions.empty with abi := "1.0.0" }⟩,
        ⟨"options", .name "options", { AttributeOptions.empty with abi := "2.0.0" }⟩,
        ⟨"header", .name "header", { AttributeOptions.empty with abi := "3.0.0" }⟩] []),
    ("header", declare (some .struct)
      [⟨"length", .name "u8", { AttributeOptions.empty with abi := "1.0.0" }⟩,
        ⟨"trailer", .name "trailer", { AttributeOptions.empty with abi := "2.0.0" }⟩] []),
    ("options", declare none [⟨"header", .name "header", .empty⟩] [])]
  distinct := by decide +kernel
  named := by decide +kernel

-- The structs do not contain each other. From the first struct on the search finds the cycle
-- through the set only, from the set on it finds that of the structs as well.
theorem entangled_depends_on_order : entangled.types.Perm entangled.reversed.types ∧
    (entangled.compile .default).output.isSome = true ∧
    (entangled.reversed.compile .default).output.isSome = false := by
  refine ⟨(List.reverse_perm _).symm, ?_, ?_⟩
  · decide +kernel
  · decide +kernel

end Schema

end NetlinkSchema
