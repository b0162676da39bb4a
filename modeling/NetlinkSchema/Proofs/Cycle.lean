import NetlinkSchema.Proofs.Acceptance
import Mathlib.Data.List.Chain
import Mathlib.Data.List.Perm.Subperm

/-!
# The search for cycles

The references of a schema are followed depth first, and a type is `visited` once all of its
references have been followed. Then each of them leads to a type that was visited before, or it
closes a cycle that is reported, up to another one through the same types. This is what the search
preserves (`Schema.Settled`), and at its end every struct and attribute set has been visited.

A set of types that refer only to each other, with no reported cycle among them, can therefore be
put in order: each type refers to types that were visited before it.

## Main definitions

* `Schema.RefersTo`: A type refers to a struct or an attribute set.
* `Schema.Closes`: A reference closes a cycle that is reported.
* `Schema.Settled`: What holds of all types that have been visited.

## Theorems

* `Search.perm_of_key_eq`: Cycles with the same key go through the same types.
* `Schema.follow_settles`: Following a type preserves what holds, and visits the type.
* `Schema.search_settles`: The same of the whole search.
* `Schema.acc_of_settled`: Types without a reported cycle are in order.
-/

namespace NetlinkSchema

namespace Text

theorem utf8_join (ts : List Text) : (join ⟨[0]⟩ ts).utf8 = [0].intercalate (ts.map utf8) := by
  cases ts with
  | nil => rfl
  | cons t rest =>
      induction rest generalizing t with
      | nil => simp [join, concat]
      | cons u rest ih =>
          have hrest := ih u
          simp only [join, concat, List.map_cons] at hrest ⊢
          rw [List.intercalate_cons_cons, ← hrest]
          simp

/-- Texts without NUL bytes can be told apart after they are joined by NUL bytes. -/
theorem join_injective {ts us : List Text} (hts : ∀ t ∈ ts, 0 ∉ t.utf8) (hus : ∀ u ∈ us, 0 ∉ u.utf8)
    (hts' : ts ≠ []) (hus' : us ≠ []) (h : join ⟨[0]⟩ ts = join ⟨[0]⟩ us) : ts = us := by
  have hsplit : ∀ xs : List Text, (∀ x ∈ xs, 0 ∉ x.utf8) → xs ≠ [] →
      (join ⟨[0]⟩ xs).utf8.splitOn 0 = xs.map utf8 := by
    intro xs hxs hne
    rw [utf8_join]
    refine List.splitOn_intercalate 0 ?_ (by simpa using hne)
    intro l hl
    rcases List.mem_map.1 hl with ⟨x, hx, rfl⟩
    exact hxs x hx
  have hmap : ts.map utf8 = us.map utf8 := by
    rw [← hsplit ts hts hts', ← hsplit us hus hus', h]
  refine List.map_injective_iff.2 (fun a b hab => ?_) hmap
  cases a
  cases b
  exact congrArg _ hab

end Text

namespace Schema

namespace Search

/-- Cycles with the same key go through the same types. -/
theorem perm_of_key_eq {xs ys : List Text} {x y : Text} (hxs : ∀ t ∈ xs, 0 ∉ t.utf8)
    (hys : ∀ t ∈ ys, 0 ∉ t.utf8) (hxs' : xs ≠ []) (hys' : ys ≠ [])
    (h : key (xs ++ [x]) = key (ys ++ [y])) : xs.Perm ys := by
  rw [key, key, List.dropLast_concat, List.dropLast_concat] at h
  have hsorted : ∀ zs : List Text, zs ≠ [] → sortBy Text.le zs ≠ [] := by
    intro zs hne hnil
    have hperm := sortBy_perm Text.le zs
    rw [hnil] at hperm
    exact hne hperm.nil_eq.symm
  have heq : sortBy Text.le xs = sortBy Text.le ys :=
    Text.join_injective (fun t ht => hxs t (mem_sortBy.1 ht)) (fun t ht => hys t (mem_sortBy.1 ht))
      (hsorted xs hxs') (hsorted ys hys') h
  have hleft := sortBy_perm Text.le xs
  rw [heq] at hleft
  exact hleft.symm.trans (sortBy_perm Text.le ys)

theorem key_mem_report (st : Search) (c : List Text) : key c ∈ (st.report c).cycles.map key := by
  unfold report
  split
  · rename_i hin
    simpa using hin
  · simp

theorem mem_report {st : Search} {c c' : List Text} (h : c' ∈ (st.report c).cycles) :
    c' ∈ st.cycles ∨ c' = c := by
  unfold report at h
  split at h
  · exact Or.inl h
  · simpa using h

theorem mem_report_of_mem {st : Search} {c c' : List Text} (h : c' ∈ st.cycles) :
    c' ∈ (st.report c).cycles := by
  unfold report
  split
  · exact h
  · exact List.mem_append_left _ h

theorem visited_report (st : Search) (c : List Text) : (st.report c).visited = st.visited := by
  unfold report
  split
  · rfl
  · rfl

end Search

variable {s : Schema}

/-- A type refers to a struct or an attribute set through one of its fields. -/
def RefersTo (s : Schema) (a b : Text) : Prop := b ∈ s.references a

/-- The reference from `v` to `w` closes a cycle, through `w`, … and `v`, and a cycle with the same
    key is among the given ones. -/
def Closes (s : Schema) (cycles : List (List Text)) (v w : Text) : Prop :=
  ∃ seg : List Text, seg.head? = some w ∧ seg.getLast? = some v ∧ seg.IsChain s.RefersTo ∧
    (∀ x ∈ seg, x ∈ s.names) ∧ Search.key (seg ++ [w]) ∈ cycles.map Search.key

/-- Each reference of a visited type leads to one that was visited before, or closes a cycle. -/
def Settled (s : Schema) (cycles : List (List Text)) : List Text → Prop
  | [] => True
  | v :: older => (∀ w, s.RefersTo v w → w ∈ older ∨ s.Closes cycles v w) ∧ Settled s cycles older

/-- The cycles that are reported go from reference to reference through types of the schema, end
    where they begin, and have no type twice apart from that. -/
def IsCycle (s : Schema) (c : List Text) : Prop :=
  ∃ seg w, c = seg ++ [w] ∧ seg.head? = some w ∧ c.IsChain s.RefersTo ∧ seg.Nodup ∧
    ∀ x ∈ seg, x ∈ s.names

/-- What the search preserves. -/
structure Consistent (s : Schema) (st : Search) : Prop where
  settled : s.Settled st.cycles st.visited
  cycles : ∀ c ∈ st.cycles, s.IsCycle c

/-- What a part of the search leaves behind: nothing that was found is lost. -/
structure Extends (st st' : Search) : Prop where
  visited : ∀ x ∈ st.visited, x ∈ st'.visited
  cycles : ∀ c ∈ st.cycles, c ∈ st'.cycles

theorem Extends.refl (st : Search) : Extends st st := ⟨fun _ h => h, fun _ h => h⟩

theorem Extends.trans {a b c : Search} (h : Extends a b) (h' : Extends b c) : Extends a c :=
  ⟨fun x hx => h'.visited x (h.visited x hx), fun x hx => h'.cycles x (h.cycles x hx)⟩

theorem Closes.mono {cycles cycles' : List (List Text)} {v w : Text} (h : s.Closes cycles v w)
    (hsub : ∀ c ∈ cycles, c ∈ cycles') : s.Closes cycles' v w := by
  rcases h with ⟨seg, hhead, hlast, hchain, hnames, hkey⟩
  rcases List.mem_map.1 hkey with ⟨c, hc, hck⟩
  exact ⟨seg, hhead, hlast, hchain, hnames, List.mem_map.2 ⟨c, hsub c hc, hck⟩⟩

theorem Settled.mono {cycles cycles' : List (List Text)} {visited : List Text}
    (h : s.Settled cycles visited) (hsub : ∀ c ∈ cycles, c ∈ cycles') :
    s.Settled cycles' visited := by
  induction visited with
  | nil => trivial
  | cons v older ih =>
      exact ⟨fun w hw => (h.1 w hw).imp_right fun hc => hc.mono hsub, ih h.2⟩

/-- The part of a path from a type on. -/
theorem dropWhile_path {path : List Text} {w : Text} (h : w ∈ path) :
    (path.dropWhile (· != w)).head? = some w ∧ path.dropWhile (· != w) <:+ path := by
  refine ⟨?_, List.dropWhile_suffix _⟩
  induction path with
  | nil => cases h
  | cons x rest ih =>
      by_cases hx : x = w
      · rw [List.dropWhile_cons_of_neg (by simpa using hx), List.head?_cons, hx]
      · rw [List.dropWhile_cons_of_pos (by simpa using hx)]
        exact ih ((List.mem_cons.1 h).resolve_left fun heq => hx heq.symm)

/-- A way along a relation to a type, with each type of it once. -/
structure IsPath (s : Schema) (R : Text → Text → Prop) (path : List Text) (name : Text) : Prop where
  chain : (path ++ [name]).IsChain R
  nodup : (path ++ [name]).Nodup
  names : ∀ x ∈ path ++ [name], x ∈ s.names

-- A path is no longer than the schema, so the fuel that is left is enough for one more step.
theorem IsPath.length_lt {R : Text → Text → Prop} {path : List Text} {name : Text}
    (h : s.IsPath R path name) : path.length < s.size := by
  have hle := (List.subperm_of_subset h.nodup h.names).length_le
  rw [List.length_append, List.length_singleton, Schema.names, List.length_map] at hle
  exact hle

/-- The part of a path from a type on ends where the path does. -/
theorem getLast?_dropWhile_path {path : List Text} {name w : Text} (hw : w ∈ path ++ [name]) :
    ((path ++ [name]).dropWhile (· != w)).getLast? = some name := by
  rcases dropWhile_path hw with ⟨hhead, hsuffix⟩
  rw [List.getLast?_eq_some_getLast (List.ne_nil_of_mem (List.mem_of_mem_head? hhead)),
    List.IsSuffix.getLast hsuffix, List.getLast_concat]

/-- A reference back to the path closes a cycle. -/
theorem isCycle_of_back {path : List Text} {name w : Text} (hpath : s.IsPath s.RefersTo path name)
    (href : s.RefersTo name w) (hw : w ∈ path ++ [name]) :
    s.IsCycle ((path ++ [name]).dropWhile (· != w) ++ [w]) := by
  rcases dropWhile_path hw with ⟨hhead, hsuffix⟩
  refine ⟨_, w, rfl, hhead, ?_, hpath.nodup.sublist hsuffix.sublist, fun x hx =>
    hpath.names x (hsuffix.subset hx)⟩
  refine List.isChain_append.2 ⟨hpath.chain.suffix hsuffix, List.isChain_singleton w, ?_⟩
  intro x hx y hy
  rw [getLast?_dropWhile_path hw, Option.mem_some_iff] at hx
  rw [List.head?_cons, Option.mem_some_iff] at hy
  rw [← hx, ← hy]
  exact href

/-- A cycle that is closed is reported. -/
theorem report_closes {path : List Text} {name w : Text} (hpath : s.IsPath s.RefersTo path name)
    (href : s.RefersTo name w) (hw : w ∈ path ++ [name]) {st : Search} (hst : s.Consistent st) :
    s.Consistent (st.report ((path ++ [name]).dropWhile (· != w) ++ [w])) ∧
      s.Closes (st.report ((path ++ [name]).dropWhile (· != w) ++ [w])).cycles name w := by
  rcases dropWhile_path hw with ⟨hhead, hsuffix⟩
  constructor
  · constructor
    · rw [Search.visited_report]
      exact hst.settled.mono fun c hc => Search.mem_report_of_mem hc
    · intro c hc
      rcases Search.mem_report hc with hold | rfl
      · exact hst.cycles c hold
      · exact isCycle_of_back hpath href hw
  · exact ⟨_, hhead, getLast?_dropWhile_path hw, hpath.chain.suffix hsuffix, fun x hx =>
      hpath.names x (hsuffix.subset hx), Search.key_mem_report st _⟩

theorem mem_names_of_isComposite {name : Text} (h : s.isComposite name = true) :
    name ∈ s.names := by
  unfold isComposite kind? at h
  cases hget : s.get? name with
  | none =>
      rw [hget] at h
      cases h
  | some d => exact List.mem_map.2 ⟨(name, d), mem_types_iff.2 hget, rfl⟩

theorem mem_firstOccurrences {t : Text} {ts : List Text} : t ∈ firstOccurrences ts ↔ t ∈ ts :=
  (mem_foldl_distinct id ts []).trans (by simp)

/-- A reference comes from a field, and leads to a struct or an attribute set. -/
theorem refersTo_iff {a b : Text} : s.RefersTo a b ↔ s.isComposite b = true ∧
    ∃ d, (a, d) ∈ s.types ∧ ∃ f ∈ d.attrs, f.type.core = .name b := by
  unfold RefersTo references
  cases hget : s.get? a with
  | none =>
      simp only [mem_types_iff, hget]
      simp
  | some d =>
      simp only [mem_firstOccurrences, List.mem_filterMap, mem_types_iff, hget, Option.some.injEq,
        exists_eq_left']
      constructor
      · rintro ⟨f, hf, href⟩
        unfold reference? at href
        split at href
        · rename_i n hcore
          split at href
          · rename_i hcomposite
            cases href
            exact ⟨hcomposite, f, hf, hcore⟩
          · cases href
        · cases href
      · rintro ⟨hcomposite, f, hf, hcore⟩
        refine ⟨f, hf, ?_⟩
        rw [reference?, hcore]
        simp only [hcomposite, if_true]

/-- One more step of a path. -/
theorem IsPath.snoc {R : Text → Text → Prop} {path : List Text} {name w : Text}
    (h : s.IsPath R path name) (hstep : R name w) (hw : w ∈ s.names) (hnew : w ∉ path ++ [name]) :
    s.IsPath R (path ++ [name]) w := by
  constructor
  · rw [List.isChain_append]
    refine ⟨h.chain, List.isChain_singleton w, ?_⟩
    intro x hx y hy
    rw [List.getLast?_concat, Option.mem_some_iff] at hx
    rw [List.head?_cons, Option.mem_some_iff] at hy
    rw [← hx, ← hy]
    exact hstep
  · rw [List.nodup_append]
    refine ⟨h.nodup, List.nodup_singleton w, ?_⟩
    rintro x hx y hy rfl
    exact hnew (List.mem_singleton.1 hy ▸ hx)
  · intro x hx
    rcases List.mem_append.1 hx with hx | hx
    · exact h.names x hx
    · rw [List.mem_singleton.1 hx]
      exact hw

theorem isPath_nil {R : Text → Text → Prop} {name : Text} (h : name ∈ s.names) :
    s.IsPath R [] name := by
  refine ⟨List.isChain_singleton name, List.nodup_singleton name, fun x hx => ?_⟩
  rw [List.mem_singleton.1 hx]
  exact h

/-- What following one type achieves. -/
structure Followed (s : Schema) (name : Text) (st st' : Search) : Prop where
  consistent : s.Consistent st'
  grown : Extends st st'
  visited : name ∈ st'.visited

/-- One step of the search: what is done about a reference. -/
def followStep (s : Schema) (fuel : Nat) (path : List Text) (st : Search) (w : Text) : Search :=
  if path.contains w then st.report (path.dropWhile (· != w) ++ [w])
  else if st.visited.contains w then st
  else s.follow fuel path w st

-- After the step the reference leads to a visited type or closes a reported cycle.
theorem followStep_settles {fuel : Nat} {path : List Text} {name w : Text}
    (hpath : s.IsPath s.RefersTo path name) (href : s.RefersTo name w)
    (hfollow : ∀ st, s.IsPath s.RefersTo (path ++ [name]) w → s.Consistent st →
      s.Followed w st (s.follow fuel (path ++ [name]) w st))
    {st : Search} (hst : s.Consistent st) :
    s.Consistent (s.followStep fuel (path ++ [name]) st w) ∧
      Extends st (s.followStep fuel (path ++ [name]) st w) ∧
      (w ∈ (s.followStep fuel (path ++ [name]) st w).visited ∨
        s.Closes (s.followStep fuel (path ++ [name]) st w).cycles name w) := by
  unfold followStep
  by_cases hback : w ∈ path ++ [name]
  · rw [if_pos (by simpa using hback)]
    rcases report_closes hpath href hback hst with ⟨hcons, hcloses⟩
    refine ⟨hcons, ⟨fun x hx => ?_, fun c hc => Search.mem_report_of_mem hc⟩, Or.inr hcloses⟩
    rw [Search.visited_report]
    exact hx
  · rw [if_neg (by simpa using hback)]
    by_cases hvisited : w ∈ st.visited
    · rw [if_pos (by simpa using hvisited)]
      exact ⟨hst, Extends.refl st, Or.inl hvisited⟩
    · rw [if_neg (by simpa using hvisited)]
      have hnames := mem_names_of_isComposite (refersTo_iff.1 href).1
      have h := hfollow st (hpath.snoc href hnames hback) hst
      exact ⟨h.consistent, h.grown, Or.inl h.visited⟩

-- The steps for a list of references, one after another.
theorem foldl_followStep_settles {fuel : Nat} {path : List Text} {name : Text}
    (hpath : s.IsPath s.RefersTo path name)
    (hfollow : ∀ w st, s.IsPath s.RefersTo (path ++ [name]) w → s.Consistent st →
      s.Followed w st (s.follow fuel (path ++ [name]) w st))
    (refs : List Text) (hrefs : ∀ w ∈ refs, s.RefersTo name w) {st : Search}
    (hst : s.Consistent st) :
    s.Consistent (refs.foldl (s.followStep fuel (path ++ [name])) st) ∧
      Extends st (refs.foldl (s.followStep fuel (path ++ [name])) st) ∧
      ∀ w ∈ refs, w ∈ (refs.foldl (s.followStep fuel (path ++ [name])) st).visited ∨
        s.Closes (refs.foldl (s.followStep fuel (path ++ [name])) st).cycles name w := by
  induction refs generalizing st with
  | nil => exact ⟨hst, Extends.refl st, nofun⟩
  | cons w rest ih =>
      rcases followStep_settles hpath (hrefs w List.mem_cons_self) (hfollow w) hst with
        ⟨hcons, hgrown, hw⟩
      rcases ih (fun x hx => hrefs x (List.mem_cons_of_mem _ hx)) hcons with
        ⟨hcons', hgrown', hrest⟩
      rw [List.foldl_cons]
      refine ⟨hcons', hgrown.trans hgrown', List.forall_mem_cons.2 ⟨?_, hrest⟩⟩
      -- What the first step found is still there at the end.
      exact hw.imp (hgrown'.visited w) fun hc => hc.mono hgrown'.cycles

/-- Following a type preserves what the search relies on, and visits the type. -/
theorem follow_settles (fuel : Nat) : ∀ (path : List Text) (name : Text) (st : Search),
    s.IsPath s.RefersTo path name → s.size ≤ path.length + fuel → s.Consistent st →
      s.Followed name st (s.follow fuel path name st) := by
  induction fuel with
  | zero =>
      intro path name st hpath hfuel _
      have hlt := hpath.length_lt
      omega
  | succ fuel ih =>
      intro path name st hpath hfuel hst
      have hnext : ∀ w st, s.IsPath s.RefersTo (path ++ [name]) w → s.Consistent st →
          s.Followed w st (s.follow fuel (path ++ [name]) w st) := by
        intro w st hw hcons
        refine ih (path ++ [name]) w st hw ?_ hcons
        rw [List.length_append, List.length_singleton]
        omega
      rcases foldl_followStep_settles hpath hnext (s.references name) (fun w hw => hw) hst with
        ⟨hcons, hgrown, hall⟩
      refine ⟨⟨⟨hall, hcons.settled⟩, hcons.cycles⟩, ⟨fun x hx => ?_, hgrown.cycles⟩,
        List.mem_cons_self⟩
      exact List.mem_cons_of_mem _ (hgrown.visited x hx)

/-- The state of the search after some of the types. -/
def searchFrom (s : Schema) (names : List Text) (st : Search) : Search :=
  names.foldl (fun st name =>
    if !s.isComposite name || st.visited.contains name then st
    else s.follow s.size [] name st) st

theorem searchFrom_settles (names : List Text) {st : Search} (hst : s.Consistent st) :
    s.Consistent (s.searchFrom names st) ∧ Extends st (s.searchFrom names st) ∧
      ∀ x ∈ names, s.isComposite x = true → x ∈ (s.searchFrom names st).visited := by
  induction names generalizing st with
  | nil => exact ⟨hst, Extends.refl st, nofun⟩
  | cons name rest ih =>
      rw [searchFrom, List.foldl_cons]
      by_cases hskip : (!s.isComposite name || st.visited.contains name) = true
      · rw [if_pos hskip]
        rcases ih hst with ⟨hcons, hgrown, hall⟩
        refine ⟨hcons, hgrown, List.forall_mem_cons.2 ⟨fun hname => ?_, hall⟩⟩
        rw [hname, Bool.not_true, Bool.false_or] at hskip
        exact hgrown.visited name (by simpa using hskip)
      · rw [if_neg hskip]
        have hcomposite : s.isComposite name = true := by
          by_contra hno
          rw [Bool.not_eq_true] at hno
          exact hskip (by rw [hno]; rfl)
        -- The search starts with a path of one type.
        have hpath := isPath_nil (R := s.RefersTo) (mem_names_of_isComposite hcomposite)
        have hfollowed := follow_settles s.size [] name st hpath (by simp) hst
        rcases ih hfollowed.consistent with ⟨hcons, hgrown, hall⟩
        refine ⟨hcons, hfollowed.grown.trans hgrown, List.forall_mem_cons.2 ⟨fun _ => ?_, hall⟩⟩
        exact hgrown.visited name hfollowed.visited

/-- At the end of the search all structs and attribute sets are visited and settled. -/
theorem search_settles (s : Schema) : ∃ visited, s.Settled s.cycles visited ∧
    (∀ c ∈ s.cycles, s.IsCycle c) ∧ ∀ x, s.isComposite x = true → x ∈ visited := by
  have hempty : s.Consistent (Search.mk [] []) := ⟨trivial, nofun⟩
  rcases searchFrom_settles s.names hempty with ⟨hcons, -, hall⟩
  exact ⟨_, hcons.settled, hcons.cycles, fun x hx => hall x (mem_names_of_isComposite hx) hx⟩

/-- Types that refer only to each other, with no reported cycle among them, are in order. -/
theorem acc_of_settled (hnul : ∀ name ∈ s.names, 0 ∉ name.utf8) {P : Text → Prop}
    (hclosed : ∀ v w, P v → s.RefersTo v w → P w) {cycles : List (List Text)}
    (hcycles : ∀ c ∈ cycles, s.IsCycle c) (hfree : ∀ c ∈ cycles, ∃ x ∈ c, ¬ P x)
    {visited : List Text} (h : s.Settled cycles visited) :
    ∀ v ∈ visited, P v → Acc (fun w v => s.RefersTo v w) v := by
  induction visited with
  | nil => exact nofun
  | cons first older ih =>
      refine List.forall_mem_cons.2 ⟨fun hP => Acc.intro first fun w hw => ?_, ih h.2⟩
      have hPw : P w := hclosed first w hP hw
      rcases h.1 w hw with hold | ⟨seg, hhead, -, hchain, hnames, hkey⟩
      · exact ih h.2 w hold hPw
      -- The reported cycle goes through the same types as this one, which all have the property.
      exfalso
      have hw_mem : w ∈ seg := List.mem_of_mem_head? hhead
      have hall : ∀ x ∈ seg, P x := by
        refine List.IsChain.induction P seg hchain (fun x y hxy hx => hclosed x y hx hxy) ?_
        intro hne
        have hfirst : seg.head hne = w := by
          rw [List.head?_eq_some_head hne] at hhead
          exact Option.some.inj hhead
        rw [hfirst]
        exact hPw
      rcases List.mem_map.1 hkey with ⟨c, hc, hck⟩
      rcases hcycles c hc with ⟨seg', w', rfl, hhead', -, -, hnames'⟩
      have hw' : w' ∈ seg' := List.mem_of_mem_head? hhead'
      have hperm : seg'.Perm seg := Search.perm_of_key_eq (fun t ht => hnul t (hnames' t ht))
        (fun t ht => hnul t (hnames t ht)) (List.ne_nil_of_mem hw') (List.ne_nil_of_mem hw_mem) hck
      rcases hfree _ hc with ⟨x, hx, hnot⟩
      have hx' : x ∈ seg' := by
        rcases List.mem_append.1 hx with hx | hx
        · exact hx
        · rw [List.mem_singleton.1 hx]
          exact hw'
      exact hnot (hall x (hperm.mem_iff.1 hx'))

end Schema

end NetlinkSchema
