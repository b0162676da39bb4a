import NetlinkSchema.Proofs.CycleReport

/-!
# Which cycles are reported

The search drops a cycle if one with the same key has been reported. To say what is lost by this,
the search is run without dropping anything: `Schema.found` has every cycle that the search comes
across, and what is reported of them is the first one of each key.

A key joins the names of a cycle by NUL bytes. Names may have NUL bytes of their own, and then
cycles through different types may have the same key, so that one of them hides the other. Every
cycle is reported, up to another one through the same types, if this does not happen, and only then.
It does not happen for names without NUL bytes.

## Main definitions

* `Schema.traverse`: Following a type, with all cycles that are found.
* `Schema.found`: The cycles that the search finds.
* `Search.firstOfKey`: The cycles without those that have the key of an earlier one.
* `Schema.Reports`: A cycle is reported.

## Theorems

* `Schema.distinct_traverse`: What is reported on the way is the first cycle of each key.
* `Schema.isCycle_of_mem_found`: What is found is a cycle.
* `Schema.distinct_cycles_reported`: When all cycles through different types are reported.
-/

namespace NetlinkSchema

namespace Schema

namespace Search

/-- Adds a cycle, whatever is there. -/
def record (st : Search) (cycle : List Text) : Search := { st with cycles := st.cycles ++ [cycle] }

/-- The cycles without those that have the key of an earlier one. -/
def firstOfKey (cycles : List (List Text)) : List (List Text) :=
  cycles.foldl (fun kept c => if (kept.map key).contains (key c) then kept else kept ++ [c]) []

/-- The state that is reached if cycles with a known key are dropped. -/
def distinct (st : Search) : Search := ⟨st.visited, firstOfKey st.cycles⟩

theorem firstOfKey_concat (cycles : List (List Text)) (c : List Text) :
    firstOfKey (cycles ++ [c]) = if ((firstOfKey cycles).map key).contains (key c)
      then firstOfKey cycles else firstOfKey cycles ++ [c] := by
  rw [firstOfKey, List.foldl_append, List.foldl_cons, List.foldl_nil]
  rfl

/-- Reporting a cycle drops what recording it keeps. -/
theorem distinct_record (st : Search) (c : List Text) :
    (st.record c).distinct = st.distinct.report c := by
  unfold distinct record report
  simp only [firstOfKey_concat]
  split
  · rfl
  · rfl

/-- Nothing is kept that was not there, every key is kept, and no two of the kept have the same. -/
theorem firstOfKey_spec (cycles : List (List Text)) :
    (∀ c ∈ firstOfKey cycles, c ∈ cycles) ∧
      (∀ c ∈ cycles, ∃ c' ∈ firstOfKey cycles, key c' = key c) ∧
      ((firstOfKey cycles).map key).Nodup := by
  induction cycles using List.reverseRecOn with
  | nil => simp [firstOfKey]
  | append_singleton cycles c ih =>
      rcases ih with ⟨hsub, hkeys, hnodup⟩
      rw [firstOfKey_concat]
      by_cases hold : key c ∈ (firstOfKey cycles).map key
      · rw [if_pos (by simpa using hold)]
        refine ⟨fun x hx => List.mem_append_left _ (hsub x hx), fun x hx => ?_, hnodup⟩
        rcases List.mem_append.1 hx with hx | hx
        · exact hkeys x hx
        · rw [List.mem_singleton.1 hx]
          exact List.mem_map.1 hold
      · rw [if_neg (by simpa using hold)]
        refine ⟨fun x hx => ?_, fun x hx => ?_, ?_⟩
        · rcases List.mem_append.1 hx with hx | hx
          · exact List.mem_append_left _ (hsub x hx)
          · exact List.mem_append_right _ hx
        · rcases List.mem_append.1 hx with hx | hx
          · rcases hkeys x hx with ⟨x', hx', hkey⟩
            exact ⟨x', List.mem_append_left _ hx', hkey⟩
          · exact ⟨x, List.mem_append_right _ hx, rfl⟩
        · rw [List.map_append, List.nodup_append]
          refine ⟨hnodup, List.nodup_singleton _, ?_⟩
          rintro x hx y hy rfl
          exact hold (List.mem_singleton.1 hy ▸ hx)

end Search

/-- Follows the references of a type as `follow` does, and records every cycle that is closed. -/
def traverse (s : Schema) : (fuel : Nat) → (path : List Text) → (name : Text) → Search → Search
  | 0, _, _, st => st
  | fuel + 1, path, name, st =>
    let path := path ++ [name]
    let st := (s.references name).foldl (fun st ref =>
      if path.contains ref then st.record (path.dropWhile (· != ref) ++ [ref])
      else if st.visited.contains ref then st
      else traverse s fuel path ref st) st
    { st with visited := name :: st.visited }

/-- The state of the search after some of the types, with all cycles that were found. -/
def traverseFrom (s : Schema) (names : List Text) (st : Search) : Search :=
  names.foldl (fun st name =>
    if !s.isComposite name || st.visited.contains name then st
    else s.traverse s.size [] name st) st

/-- The cycles that the search finds, in this order, whether they are reported or not. -/
def found (s : Schema) : List (List Text) := (s.traverseFrom s.names (Search.mk [] [])).cycles

variable {s : Schema}

section Reported

/-- One step of the search that records cycles: what is done about a reference. -/
def traverseStep (s : Schema) (fuel : Nat) (path : List Text) (st : Search) (w : Text) : Search :=
  if path.contains w then st.record (path.dropWhile (· != w) ++ [w])
  else if st.visited.contains w then st
  else s.traverse fuel path w st

-- Both searches look at the visited types only, which are the same in both.
theorem distinct_traverseStep {fuel : Nat} {path : List Text}
    (ih : ∀ w st, (s.traverse fuel path w st).distinct = s.follow fuel path w st.distinct)
    (st : Search) (w : Text) :
    (s.traverseStep fuel path st w).distinct = s.followStep fuel path st.distinct w := by
  unfold traverseStep followStep
  by_cases hback : path.contains w = true
  · rw [if_pos hback, if_pos hback]
    exact st.distinct_record _
  · rw [if_neg hback, if_neg hback]
    by_cases hvisited : st.visited.contains w = true
    · rw [if_pos hvisited]
      exact (if_pos hvisited).symm
    · rw [if_neg hvisited, ih w st]
      exact (if_neg hvisited).symm

theorem distinct_foldl_traverseStep {fuel : Nat} {path : List Text}
    (ih : ∀ w st, (s.traverse fuel path w st).distinct = s.follow fuel path w st.distinct)
    (refs : List Text) (st : Search) :
    (refs.foldl (s.traverseStep fuel path) st).distinct
      = refs.foldl (s.followStep fuel path) st.distinct := by
  induction refs generalizing st with
  | nil => rfl
  | cons w rest hrest =>
      rw [List.foldl_cons, List.foldl_cons, hrest, distinct_traverseStep ih]

/-- The search that reports cycles is the one that records them, up to what it drops. -/
theorem distinct_traverse (fuel : Nat) : ∀ (path : List Text) (name : Text) (st : Search),
    (s.traverse fuel path name st).distinct = s.follow fuel path name st.distinct := by
  induction fuel with
  | zero => exact fun path name st => rfl
  | succ fuel ih =>
      intro path name st
      have hrefs := distinct_foldl_traverseStep (fun w st => ih (path ++ [name]) w st)
        (s.references name) st
      have hvisited := congrArg Search.visited hrefs
      have hcycles := congrArg Search.cycles hrefs
      change Search.mk (name :: _) _ = Search.mk (name :: _) _
      exact congrArg₂ Search.mk (congrArg _ hvisited) hcycles

theorem distinct_traverseFrom (names : List Text) (st : Search) :
    (s.traverseFrom names st).distinct = s.searchFrom names st.distinct := by
  induction names generalizing st with
  | nil => rfl
  | cons name rest ih =>
      rw [traverseFrom, searchFrom, List.foldl_cons, List.foldl_cons, ← traverseFrom, ih,
        ← searchFrom]
      congr 1
      by_cases hskip : (!s.isComposite name || st.visited.contains name) = true
      · rw [if_pos hskip]
        exact (if_pos hskip).symm
      · rw [if_neg hskip, distinct_traverse]
        exact (if_neg hskip).symm

/-- What is reported of the cycles that are found is the first one of each key. -/
theorem cycles_eq_firstOfKey (s : Schema) : s.cycles = Search.firstOfKey s.found :=
  (congrArg Search.cycles (distinct_traverseFrom s.names (Search.mk [] []))).symm

end Reported

section Found

theorem traverseStep_isCycle {fuel : Nat} {path : List Text} {name w : Text}
    (hpath : s.IsPath s.RefersTo path name) (href : s.RefersTo name w)
    (hnext : ∀ st : Search, s.IsPath s.RefersTo (path ++ [name]) w →
      (∀ c ∈ st.cycles, s.IsCycle c) →
        ∀ c ∈ (s.traverse fuel (path ++ [name]) w st).cycles, s.IsCycle c)
    {st : Search} (hst : ∀ c ∈ st.cycles, s.IsCycle c) :
    ∀ c ∈ (s.traverseStep fuel (path ++ [name]) st w).cycles, s.IsCycle c := by
  unfold traverseStep
  by_cases hback : w ∈ path ++ [name]
  · rw [if_pos (by simpa using hback)]
    intro c hc
    rcases List.mem_append.1 hc with hc | hc
    · exact hst c hc
    · rw [List.mem_singleton.1 hc]
      exact isCycle_of_back hpath href hback
  · rw [if_neg (by simpa using hback)]
    by_cases hvisited : w ∈ st.visited
    · rw [if_pos (by simpa using hvisited)]
      exact hst
    · rw [if_neg (by simpa using hvisited)]
      have hnames := mem_names_of_isComposite (refersTo_iff.1 href).1
      exact hnext st (hpath.snoc href hnames hback) hst

theorem traverse_isCycle (fuel : Nat) : ∀ (path : List Text) (name : Text) (st : Search),
    s.IsPath s.RefersTo path name → (∀ c ∈ st.cycles, s.IsCycle c) →
      ∀ c ∈ (s.traverse fuel path name st).cycles, s.IsCycle c := by
  induction fuel with
  | zero => exact fun path name st _ hst => hst
  | succ fuel ih =>
      intro path name st hpath hst
      -- The references are followed one after another, each from what the one before has found.
      have hrefs : ∀ (refs : List Text) (st : Search), (∀ w ∈ refs, s.RefersTo name w) →
          (∀ c ∈ st.cycles, s.IsCycle c) →
            ∀ c ∈ (refs.foldl (s.traverseStep fuel (path ++ [name])) st).cycles, s.IsCycle c := by
        intro refs
        induction refs with
        | nil => exact fun st _ hst => hst
        | cons w rest hrest =>
            intro st hall hst
            rw [List.foldl_cons]
            refine hrest _ (fun x hx => hall x (List.mem_cons_of_mem _ hx)) ?_
            exact traverseStep_isCycle hpath (hall w List.mem_cons_self)
              (fun st => ih (path ++ [name]) w st) hst
      exact hrefs (s.references name) st (fun w hw => hw) hst

/-- Everything that the search finds is a cycle. -/
theorem isCycle_of_mem_found {c : List Text} (hc : c ∈ s.found) : s.IsCycle c := by
  have hfrom : ∀ (names : List Text) (st : Search), (∀ c ∈ st.cycles, s.IsCycle c) →
      ∀ c ∈ (s.traverseFrom names st).cycles, s.IsCycle c := by
    intro names
    induction names with
    | nil => exact fun st hst => hst
    | cons name rest ih =>
        intro st hst
        rw [traverseFrom, List.foldl_cons, ← traverseFrom]
        refine ih _ ?_
        by_cases hskip : (!s.isComposite name || st.visited.contains name) = true
        · rw [if_pos hskip]
          exact hst
        · rw [if_neg hskip]
          have hcomposite : s.isComposite name = true := by
            by_contra hno
            rw [Bool.not_eq_true] at hno
            exact hskip (by rw [hno]; rfl)
          exact traverse_isCycle s.size [] name st
            (isPath_nil (mem_names_of_isComposite hcomposite)) hst
  exact hfrom s.names (Search.mk [] []) (fun c hc => absurd hc List.not_mem_nil) c hc

/-- The same types are on both cycles. -/
def SameTypes (c c' : List Text) : Prop := ∀ x, x ∈ c ↔ x ∈ c'

/-- The types of a cycle, each of them once. -/
theorem IsCycle.types {c : List Text} (h : s.IsCycle c) :
    c.dropLast ≠ [] ∧ c.dropLast.Nodup ∧ (∀ x, x ∈ c ↔ x ∈ c.dropLast) ∧
      (∀ x ∈ c.dropLast, x ∈ s.names) ∧ c.dropLast ++ [c.headD .empty] = c := by
  rcases h with ⟨seg, w, rfl, hhead, -, hnodup, hnames⟩
  have hw : w ∈ seg := List.mem_of_mem_head? hhead
  have hne : seg ≠ [] := List.ne_nil_of_mem hw
  rw [List.dropLast_concat]
  refine ⟨hne, hnodup, fun x => ?_, hnames, ?_⟩
  · rw [List.mem_append, List.mem_singleton]
    exact ⟨fun hx => hx.elim id fun hx => hx ▸ hw, Or.inl⟩
  · cases seg with
    | nil => exact absurd rfl hne
    | cons x rest => cases hhead; rfl

/-- Cycles through the same types have the same key. -/
theorem key_eq_of_sameTypes {c c' : List Text} (hc : s.IsCycle c) (hc' : s.IsCycle c')
    (h : SameTypes c c') : Search.key c = Search.key c' := by
  rcases hc.types with ⟨-, hnodup, hmem, -, -⟩
  rcases hc'.types with ⟨-, hnodup', hmem', -, -⟩
  have hperm : c.dropLast.Perm c'.dropLast :=
    (List.perm_ext_iff_of_nodup hnodup hnodup').2 fun x =>
      (hmem x).symm.trans ((h x).trans (hmem' x))
  have hsorted := ((sortBy_perm Text.le c.dropLast).trans hperm).trans
    (sortBy_perm Text.le c'.dropLast).symm
  have heq : sortBy Text.le c.dropLast = sortBy Text.le c'.dropLast :=
    hsorted.eq_of_pairwise (fun a b _ _ => Text.le_antisymm)
      (pairwise_sortBy Text.le_total (fun _ _ _ => Text.le_trans) _)
      (pairwise_sortBy Text.le_total (fun _ _ _ => Text.le_trans) _)
  rw [Search.key, Search.key, heq]

/-- Without NUL bytes in names, cycles with the same key go through the same types. -/
theorem sameTypes_of_key_eq (hnul : ∀ name ∈ s.names, 0 ∉ name.utf8) {c c' : List Text}
    (hc : s.IsCycle c) (hc' : s.IsCycle c') (h : Search.key c = Search.key c') :
    SameTypes c c' := by
  rcases hc.types with ⟨hne, -, hmem, hnames, heq⟩
  rcases hc'.types with ⟨hne', -, hmem', hnames', heq'⟩
  rw [← heq, ← heq'] at h
  have hperm := Search.perm_of_key_eq (fun t ht => hnul t (hnames t ht))
    (fun t ht => hnul t (hnames' t ht)) hne hne' h
  exact fun x => (hmem x).trans (hperm.mem_iff.trans (hmem' x).symm)

end Found

section Reports

/-- A cycle is reported: as an error if it goes through structs only or if all cycles are
    rejected, and else as a warning. -/
def Reports (s : Schema) (reject : Bool) (c : List Text) : Prop :=
  if c.all s.isStruct then
    ⟨.ofType (c.headD .empty), .structCycle c⟩ ∈ (s.cycleFindings reject).errors
  else if reject then
    ⟨.ofType (c.headD .empty), .attrsCycle c⟩ ∈ (s.cycleFindings reject).errors
  else ⟨.ofType (c.headD .empty), .attrsCycle c⟩ ∈ (s.cycleFindings reject).warnings

/-- What is reported are the cycles that the search keeps. -/
theorem reports_iff {reject : Bool} {c : List Text} : s.Reports reject c ↔ c ∈ s.cycles := by
  constructor
  · intro h
    unfold Reports at h
    split at h
    · rcases exists_of_mem_errors h with ⟨c', hc', ⟨-, hfault⟩ | ⟨-, -, hfault⟩⟩
      · rw [CompileFault.structCycle.inj hfault]
        exact hc'
      · cases hfault
    · split at h
      · rcases exists_of_mem_errors h with ⟨c', hc', ⟨-, hfault⟩ | ⟨-, -, hfault⟩⟩
        · cases hfault
        · rw [CompileFault.attrsCycle.inj hfault]
          exact hc'
      · rcases exists_of_mem_warnings h with ⟨c', hc', -, -, hcause⟩
        rw [WarningCause.attrsCycle.inj hcause]
        exact hc'
  · intro hc
    have hfound : s.findingOfCycle reject c ∈ s.cycles.map (s.findingOfCycle reject) :=
      List.mem_map_of_mem hc
    unfold Reports
    unfold findingOfCycle at hfound
    by_cases hstructs : c.all s.isStruct = true
    · simp only [hstructs, if_true] at hfound ⊢
      exact List.mem_flatMap.2 ⟨_, hfound, List.mem_singleton_self _⟩
    · cases reject with
      | true =>
          simp only [hstructs, if_true] at hfound ⊢
          exact List.mem_flatMap.2 ⟨_, hfound, List.mem_singleton_self _⟩
      | false =>
          simp only [hstructs] at hfound ⊢
          exact List.mem_flatMap.2 ⟨_, hfound, List.mem_singleton_self _⟩

/-- A cycle is announced: one through the same types is reported. -/
def Announces (s : Schema) (reject : Bool) (c : List Text) : Prop :=
  ∃ c', SameTypes c c' ∧ s.Reports reject c'

/-- Of the cycles with the same key one is reported. -/
theorem exists_reports {c : List Text} (hc : c ∈ s.found) (reject : Bool) :
    ∃ c' ∈ s.found, Search.key c' = Search.key c ∧ s.Reports reject c' := by
  rcases Search.firstOfKey_spec s.found with ⟨hsub, hkeys, -⟩
  rcases hkeys c hc with ⟨c', hc', hkey⟩
  refine ⟨c', hsub c' hc', hkey, reports_iff.2 ?_⟩
  rw [cycles_eq_firstOfKey]
  exact hc'

/-- No two reports have the same key. -/
theorem eq_of_reports {reject : Bool} {c c' : List Text} (hc : s.Reports reject c)
    (hc' : s.Reports reject c') (h : Search.key c = Search.key c') : c = c' := by
  rw [reports_iff, cycles_eq_firstOfKey] at hc hc'
  exact List.inj_on_of_nodup_map (Search.firstOfKey_spec s.found).2.2 hc hc' h

theorem Reports.isCycle {reject : Bool} {c : List Text} (h : s.Reports reject c) : s.IsCycle c :=
  isCycle_of_mem_cycles (reports_iff.1 h)

/-- A cycle of structs that is announced is an error. -/
theorem Announces.error {reject : Bool} {c : List Text} (h : s.Announces reject c)
    (hstructs : ∀ x ∈ c, s.isStruct x = true) : ∃ e ∈ (s.cycleFindings reject).errors,
      e.code = 2030 ∧ ∃ c', e.fault = .structCycle c' ∧ SameTypes c c' := by
  rcases h with ⟨c', hsame, hreport⟩
  have hall : c'.all s.isStruct = true :=
    List.all_eq_true.2 fun x hx => hstructs x ((hsame x).2 hx)
  unfold Reports at hreport
  rw [if_pos hall] at hreport
  exact ⟨_, hreport, rfl, c', rfl, hsame⟩

/-- All cycles that the search finds are announced, so that none of them hides another one through
    different types, if and only if cycles through different types have different keys. This is so
    if no name has a NUL byte, and then every cycle of structs is reported as an error. -/
theorem distinct_cycles_reported (s : Schema) (reject : Bool) :
    ((∀ c ∈ s.found, s.Announces reject c) ↔
        ∀ c ∈ s.found, ∀ c' ∈ s.found, Search.key c = Search.key c' → SameTypes c c') ∧
      ((∀ name ∈ s.names, 0 ∉ name.utf8) → ∀ c ∈ s.found, s.Announces reject c ∧
        ((∀ x ∈ c, s.isStruct x = true) → ∃ e ∈ (s.cycleFindings reject).errors,
          e.code = 2030 ∧ ∃ c', e.fault = .structCycle c' ∧ SameTypes c c')) := by
  have hannounced : (∀ c ∈ s.found, ∀ c' ∈ s.found, Search.key c = Search.key c' →
      SameTypes c c') → ∀ c ∈ s.found, s.Announces reject c := by
    intro hkeys c hc
    rcases exists_reports hc reject with ⟨c', hc', hkey, hreport⟩
    exact ⟨c', hkeys c hc c' hc' hkey.symm, hreport⟩
  refine ⟨⟨fun hall c hc c' hc' hkey => ?_, hannounced⟩, fun hnul c hc => ?_⟩
  · rcases hall c hc with ⟨r, hsame, hr⟩
    rcases hall c' hc' with ⟨r', hsame', hr'⟩
    -- Both reports have the key of the two cycles, so there is only one of them.
    have hrkey := key_eq_of_sameTypes (isCycle_of_mem_found hc) hr.isCycle hsame
    have hrkey' := key_eq_of_sameTypes (isCycle_of_mem_found hc') hr'.isCycle hsame'
    obtain rfl := eq_of_reports hr hr' (hrkey.symm.trans (hkey.trans hrkey'))
    exact fun x => (hsame x).trans (hsame' x).symm
  · have hreport := hannounced (fun c hc c' hc' => sameTypes_of_key_eq hnul
      (isCycle_of_mem_found hc) (isCycle_of_mem_found hc')) c hc
    exact ⟨hreport, hreport.error⟩

theorem eclipse_apart : [Text.ofString "c", "c"] ∈ (eclipse "c" (by decide +kernel)).found ∧
    ∃ e ∈ ((eclipse "c" (by decide +kernel)).cycleFindings false).errors, e.code = 2030 := by
  have hfound : [Text.ofString "c", "c"] ∈ (eclipse "c" (by decide +kernel)).found := by
    decide +kernel
  have hreported := (distinct_cycles_reported (eclipse "c" (by decide +kernel)) false).2
    (by decide +kernel) _ hfound
  rcases hreported.2 (by decide +kernel) with ⟨e, he, hcode, -⟩
  exact ⟨hfound, e, he, hcode⟩

-- The struct that contains itself has the key of the two attribute sets, which are found first.
theorem eclipsed_struct_unreported :
    [eclipsedName, eclipsedName] ∈ (eclipse eclipsedName eclipsedName_allowed).found ∧
      (eclipse eclipsedName eclipsedName_allowed).isStruct eclipsedName = true ∧
      ∀ reject, ∀ e ∈ ((eclipse eclipsedName eclipsedName_allowed).cycleFindings reject).errors,
        e.code ≠ 2030 := by
  decide +kernel

end Reports

end Schema

end NetlinkSchema
