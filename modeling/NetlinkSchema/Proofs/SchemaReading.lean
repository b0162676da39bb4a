import NetlinkSchema.Proofs.ExpressionReading

/-!
# Reading schemas

A schema that was read from a document is well-formed, and it is the one that is written there. Each
part of a schema has a relation to the node it is written as, or to the entries that give it. The
relation asks for what the reader checks, and it says which nodes the part comes from: fields and
values stand one by one for the items of the last sequence under their key, and types for the
entries of the document.

## Main definitions

* `AttributeOptions.GivenBy`, `TypeDef.GivenBy`, `Schema.GivenBy`: What the entries of a mapping
  give.
* `AttributeDef.WrittenAs`, `ValueDef.WrittenAs`: Fields and values and their nodes.
* `TypeDraft.Reads`: What was read of the entries of a type.

## Theorems

* `listedAs_of_readSequence`: The items of a sequence are read one by one.
* `TypeDef.reads_of_readEntry`: What an entry of a type adds.
* `Schema.loaded_as_written`: A schema is read only from a document it is written in.
-/

namespace NetlinkSchema

open Yaml (Node)

/-- A mapping whose entries have a property. -/
def IsMappingWith (P : List (Node × Node) → Prop) (n : Node) : Prop :=
  ∃ line tag entries, n = .mapping line tag entries ∧ P entries

/-- A number that is positive if there is a node for it, and zero if there is none. -/
def PositiveIfGiven (x : Int64) : Option Node → Prop
  | some _ => 0 < x
  | none => x = 0

/-- The items of a sequence, one by one; without a sequence there are none. -/
inductive ListedAs {α : Type} (R : α → Node → Prop) : List α → Option Node → Prop
  | none : ListedAs R [] none
  | items {line : Nat} {tag : String} {xs : List α} {items : List Node}
      (h : List.Forall₂ R xs items) : ListedAs R xs (some (.sequence line tag items))

section Sequence

variable {α : Type} {R : α → Node → Prop} {read : Nat → Node → Except SchemaError α} {xs : List α}

theorem forall₂_of_readItems {index : Nat} {items : List Node}
    (h : readItems read index items = .ok xs)
    (hread : ∀ index n x, read index n = .ok x → R x n) : List.Forall₂ R xs items := by
  induction items generalizing index xs with
  | nil =>
      cases h
      exact .nil
  | cons n rest ih =>
      rw [readItems] at h
      rcases bind_eq_ok_iff.1 h with ⟨x, hx, h⟩
      rcases bind_pure_eq_ok_iff.1 h with ⟨later, hlater, rfl⟩
      exact .cons (hread index n x hx) (ih hlater)

theorem listedAs_of_readSequence {place : Place} {key : Text} {n : Option Node}
    (h : readSequence place key n read = .ok xs)
    (hread : ∀ index n x, read index n = .ok x → R x n) : ListedAs R xs n := by
  rw [readSequence.eq_def] at h
  cases n with
  | none =>
      cases h
      exact .none
  | some n =>
      cases n with
      | sequence line tag items => exact .items (forall₂_of_readItems h hread)
      | scalar line tag value => cases h
      | mapping line tag entries => cases h
      | reference line name target => cases h

end Sequence

namespace AttributeOptions

/-- Options that the entries of a mapping give: the lower type is the last one, and a number is
    positive if it is given at all. -/
structure GivenBy (o : AttributeOptions) (entries : List (Node × Node)) : Prop where
  type : Option.Rel LowerType.WrittenAs o.type (valueOf? entries "type")
  maxLength : PositiveIfGiven o.maxLength (valueOf? entries "maxLength")
  count : PositiveIfGiven o.count (valueOf? entries "count")

/-- The options that a node is written as. -/
def WrittenAs (o : AttributeOptions) : Node → Prop := IsMappingWith o.GivenBy

variable {place : Place} {entries : List (Node × Node)} {k v : Node} {o o' : AttributeOptions}

theorem GivenBy.keep {word : Text} (h : o.GivenBy entries) (hkey : keyOf k = word)
    (hother : word ∉ (["type", "maxLength", "count"] : List Text)) (htype : o'.type = o.type)
    (hlength : o'.maxLength = o.maxLength) (hcount : o'.count = o.count) :
    o'.GivenBy (entries ++ [(k, v)]) := by
  simp only [List.mem_cons, not_or] at hother
  refine ⟨?_, ?_, ?_⟩
  · rw [valueOf?_other hkey hother.1, htype]
    exact h.type
  · rw [valueOf?_other hkey hother.2.1, hlength]
    exact h.maxLength
  · rw [valueOf?_other hkey hother.2.2.1, hcount]
    exact h.count

theorem givenBy_empty : GivenBy empty [] where
  type := .none
  maxLength := rfl
  count := rfl

theorem positiveIfGiven_of_requirePositive {key : Text} {x y : Int64}
    (h : requirePositive place key v x = .ok y) : PositiveIfGiven y (some v) := by
  rw [requirePositive] at h
  split at h
  next hpos =>
    cases h
    exact hpos
  next => cases h

theorem writtenAs_of_ofNode {n : Node} (h : ofNode place n = .ok o) : o.WrittenAs n := by
  rcases exists_mapping h with ⟨line, tag, entries, rfl⟩
  refine ⟨line, tag, entries, rfl, ?_⟩
  refine foldMapping_invariant (fun passed o => GivenBy o passed) givenBy_empty ?_ h
  intro passed k v o o' ho hstep
  -- A number is checked after each of its entries, also if an empty scalar left it alone.
  split at hstep
  next hkey =>
    rcases bind_pure_eq_ok_iff.1 hstep with ⟨docs, -, rfl⟩
    exact ho.keep (eq_of_beq hkey) (by decide) rfl rfl rfl
  split at hstep
  next hkey =>
    rcases bind_pure_eq_ok_iff.1 hstep with ⟨lower, hlower, rfl⟩
    refine ⟨?_, ?_, ?_⟩
    · rw [valueOf?_same (eq_of_beq hkey)]
      exact .some (LowerType.writtenAs_of_ofNode hlower)
    · rw [valueOf?_other (eq_of_beq hkey) (by decide)]
      exact ho.maxLength
    · rw [valueOf?_other (eq_of_beq hkey) (by decide)]
      exact ho.count
  split at hstep
  next hkey =>
    rcases bind_eq_ok_iff.1 hstep with ⟨x, -, hstep⟩
    rcases bind_pure_eq_ok_iff.1 hstep with ⟨y, hy, rfl⟩
    refine ⟨?_, ?_, ?_⟩
    · rw [valueOf?_other (eq_of_beq hkey) (by decide)]
      exact ho.type
    · rw [valueOf?_same (eq_of_beq hkey)]
      exact positiveIfGiven_of_requirePositive hy
    · rw [valueOf?_other (eq_of_beq hkey) (by decide)]
      exact ho.count
  split at hstep
  next hkey =>
    rcases bind_pure_eq_ok_iff.1 hstep with ⟨orig, -, rfl⟩
    exact ho.keep (eq_of_beq hkey) (by decide) rfl rfl rfl
  split at hstep
  next hkey =>
    rcases bind_pure_eq_ok_iff.1 hstep with ⟨repeated, -, rfl⟩
    exact ho.keep (eq_of_beq hkey) (by decide) rfl rfl rfl
  split at hstep
  next hkey =>
    rcases bind_eq_ok_iff.1 hstep with ⟨x, -, hstep⟩
    rcases bind_pure_eq_ok_iff.1 hstep with ⟨y, hy, rfl⟩
    refine ⟨?_, ?_, ?_⟩
    · rw [valueOf?_other (eq_of_beq hkey) (by decide)]
      exact ho.type
    · rw [valueOf?_other (eq_of_beq hkey) (by decide)]
      exact ho.maxLength
    · rw [valueOf?_same (eq_of_beq hkey)]
      exact positiveIfGiven_of_requirePositive hy
  split at hstep
  next hkey =>
    rcases bind_pure_eq_ok_iff.1 hstep with ⟨abi, -, rfl⟩
    exact ho.keep (eq_of_beq hkey) (by decide) rfl rfl rfl
  next => cases hstep

end AttributeOptions

namespace AttributeDef

/-- The field that a node is written as: a sequence of a name, an expression and, if there are any,
    options. -/
inductive WrittenAs : AttributeDef → Node → Prop
  | plain {line nameLine : Nat} {tag nameTag value : String} {type : TypeExpr} {typeNode : Node}
      (hname : (Text.ofString value).isEmpty = false) (htype : type.WrittenAs typeNode) :
      WrittenAs ⟨value, type, .empty⟩
        (.sequence line tag [.scalar nameLine nameTag value, typeNode])
  | options {line nameLine : Nat} {tag nameTag value : String} {type : TypeExpr}
      {o : AttributeOptions} {typeNode optionsNode : Node}
      (hname : (Text.ofString value).isEmpty = false) (htype : type.WrittenAs typeNode)
      (hoptions : o.WrittenAs optionsNode) :
      WrittenAs ⟨value, type, o⟩
        (.sequence line tag [.scalar nameLine nameTag value, typeNode, optionsNode])

/-- What a field is made of. -/
theorem ofParts_eq_ok {type : Text} {index : Nat} {name expr : Node} {options : Option Node}
    {a : AttributeDef} (h : ofParts type index name expr options = .ok a) :
    ∃ line tag value, name = .scalar line tag value ∧ (Text.ofString value).isEmpty = false ∧
      a.name = value ∧ a.type.WrittenAs expr ∧
      options.elim (.ok .empty) (AttributeOptions.ofNode (.namedAttr type index value))
        = .ok a.options := by
  rw [ofParts.eq_def] at h
  cases name with
  | scalar line tag value =>
      dsimp only at h
      split at h
      next => cases h
      next hvalue =>
      rw [Bool.not_eq_true, ← Text.isEmpty_ofString] at hvalue
      refine ⟨line, tag, value, rfl, hvalue, ?_⟩
      rcases bind_eq_ok_iff.1 h with ⟨e, he, h⟩
      cases options with
      | none =>
          cases h
          exact ⟨rfl, TypeExpr.writtenAs_of_ofNode he, rfl⟩
      | some n =>
          rcases bind_pure_eq_ok_iff.1 h with ⟨o, ho, rfl⟩
          exact ⟨rfl, TypeExpr.writtenAs_of_ofNode he, ho⟩
  | sequence line tag items => cases h
  | mapping line tag entries => cases h
  | reference line name target => cases h

theorem writtenAs_of_ofNode {type : Text} {index : Nat} {n : Node} {a : AttributeDef}
    (h : ofNode type index n = .ok a) : a.WrittenAs n := by
  rw [ofNode.eq_def] at h
  split at h
  next =>
    rcases ofParts_eq_ok h with ⟨_, _, value, rfl, hvalue, hname, htype, ho⟩
    rcases a with ⟨name, e, o⟩
    cases hname
    cases ho
    exact .plain hvalue htype
  next =>
    rcases ofParts_eq_ok h with ⟨_, _, value, rfl, hvalue, hname, htype, ho⟩
    rcases a with ⟨name, e, o⟩
    cases hname
    exact .options hvalue htype (AttributeOptions.writtenAs_of_ofNode ho)
  next => cases h

end AttributeDef

namespace ValueDef

/-- The value that a node is written as: a mapping that gives a number and a name. -/
def WrittenAs (v : ValueDef) : Node → Prop := IsMappingWith fun entries =>
  (valueOf? entries "value").isSome = true ∧ v.name.isEmpty = false

theorem writtenAs_of_ofNode {type : Text} {index : Nat} {n : Node} {v : ValueDef}
    (h : ofNode type index n = .ok v) : v.WrittenAs n := by
  rw [ofNode] at h
  rcases bind_eq_ok_iff.1 h with ⟨⟨v', hasValue⟩, hfold, h⟩
  dsimp only at h
  split at h
  next => cases h
  next hvalue =>
  split at h
  next => cases h
  next hname =>
  cases h
  rcases exists_mapping hfold with ⟨line, tag, entries, rfl⟩
  have hgiven : hasValue = (valueOf? entries "value").isSome := by
    refine foldMapping_invariant (fun passed (s : ValueDef × Bool) =>
      s.2 = (valueOf? passed "value").isSome) rfl ?_ hfold
    rintro passed k field ⟨v, hasValue⟩ s' hinv hstep
    dsimp only at hstep hinv ⊢
    split at hstep
    next hkey =>
      rcases bind_pure_eq_ok_iff.1 hstep with ⟨value, -, rfl⟩
      rw [valueOf?_same (eq_of_beq hkey)]
      rfl
    split at hstep
    next hkey =>
      rcases bind_pure_eq_ok_iff.1 hstep with ⟨name, -, rfl⟩
      rwa [valueOf?_other (eq_of_beq hkey) (by decide)]
    split at hstep
    next hkey =>
      rcases bind_pure_eq_ok_iff.1 hstep with ⟨docs, -, rfl⟩
      rwa [valueOf?_other (eq_of_beq hkey) (by decide)]
    split at hstep
    next hkey =>
      rcases bind_pure_eq_ok_iff.1 hstep with ⟨orig, -, rfl⟩
      rwa [valueOf?_other (eq_of_beq hkey) (by decide)]
    next => cases hstep
  rw [Bool.not_eq_true', Bool.not_eq_false] at hvalue
  exact ⟨line, tag, entries, rfl, hgiven ▸ hvalue, Bool.eq_false_iff.2 hname⟩

end ValueDef

namespace TypeDraft

/-- What a draft holds once some entries of a mapping have been read. -/
structure Reads (entries : List (Node × Node)) (d : TypeDraft) : Prop where
  kind : d.properties.kind = ((valueOf? entries "kind").bind wordOf?).bind Kind.ofName?
  known : d.properties.kind.all Kind.isKnown = true
  attrs : d.attrs = valueOf? entries "attrs"
  values : d.values = valueOf? entries "values"

theorem reads_empty : Reads [] ⟨.empty, none, none⟩ := ⟨rfl, rfl, rfl, rfl⟩

theorem Reads.keep {entries : List (Node × Node)} {k v : Node} {word : Text} {d d' : TypeDraft}
    (h : d.Reads entries) (hkey : keyOf k = word)
    (hother : word ∉ (["kind", "attrs", "values"] : List Text))
    (hkind : d'.properties.kind = d.properties.kind) (hattrs : d'.attrs = d.attrs)
    (hvalues : d'.values = d.values) : d'.Reads (entries ++ [(k, v)]) := by
  simp only [List.mem_cons, not_or] at hother
  refine ⟨?_, ?_, ?_, ?_⟩
  · rw [valueOf?_other hkey hother.1, hkind]
    exact h.kind
  · rw [hkind]
    exact h.known
  · rw [valueOf?_other hkey hother.2.1, hattrs]
    exact h.attrs
  · rw [valueOf?_other hkey hother.2.2.1, hvalues]
    exact h.values

end TypeDraft

namespace TypeDef

/-- A type that the entries of a mapping give: its kind is the word of the last kind, and fields and
    values are those of the last sequences. -/
structure GivenBy (d : TypeDef) (entries : List (Node × Node)) : Prop where
  kind : d.kind = ((valueOf? entries "kind").bind wordOf?).bind Kind.ofName?
  known : d.kind ∈ [none, some .attrs, some .struct, some .enum, some .flags]
  attrs : ListedAs AttributeDef.WrittenAs d.attrs (valueOf? entries "attrs")
  values : ListedAs ValueDef.WrittenAs d.values (valueOf? entries "values")

/-- The type that a node is written as. -/
def WrittenAs (d : TypeDef) : Node → Prop := IsMappingWith d.GivenBy

theorem reads_of_readEntry {place : Place} {passed : List (Node × Node)} {k v : Node}
    {d d' : TypeDraft} (hd : d.Reads passed) (h : readEntry place d (keyOf k) v = .ok d') :
    d'.Reads (passed ++ [(k, v)]) := by
  rw [readEntry] at h
  dsimp only at h
  split at h
  next hkey =>
    rcases bind_eq_ok_iff.1 h with ⟨word, hword, h⟩
    split at h
    next hknown =>
      cases h
      refine ⟨?_, hknown, ?_, ?_⟩
      · rw [valueOf?_same (eq_of_beq hkey), Option.bind_some, wordOf?_of_readField hword]
        rfl
      · rw [valueOf?_other (eq_of_beq hkey) (by decide)]
        exact hd.attrs
      · rw [valueOf?_other (eq_of_beq hkey) (by decide)]
        exact hd.values
    next => cases h
  split at h
  next hkey =>
    rcases bind_pure_eq_ok_iff.1 h with ⟨orig, -, rfl⟩
    exact hd.keep (eq_of_beq hkey) (by decide) rfl rfl rfl
  split at h
  next hkey =>
    rcases bind_pure_eq_ok_iff.1 h with ⟨docs, -, rfl⟩
    exact hd.keep (eq_of_beq hkey) (by decide) rfl rfl rfl
  split at h
  next hkey =>
    rcases bind_pure_eq_ok_iff.1 h with ⟨root, -, rfl⟩
    exact hd.keep (eq_of_beq hkey) (by decide) rfl rfl rfl
  split at h
  next hkey =>
    rcases bind_pure_eq_ok_iff.1 h with ⟨zero, -, rfl⟩
    exact hd.keep (eq_of_beq hkey) (by decide) rfl rfl rfl
  split at h
  next hkey =>
    cases h
    refine ⟨?_, hd.known, ?_, ?_⟩
    · rw [valueOf?_other (eq_of_beq hkey) (by decide)]
      exact hd.kind
    · rw [valueOf?_same (eq_of_beq hkey)]
    · rw [valueOf?_other (eq_of_beq hkey) (by decide)]
      exact hd.values
  split at h
  next hkey =>
    cases h
    refine ⟨?_, hd.known, ?_, ?_⟩
    · rw [valueOf?_other (eq_of_beq hkey) (by decide)]
      exact hd.kind
    · rw [valueOf?_other (eq_of_beq hkey) (by decide)]
      exact hd.attrs
    · rw [valueOf?_same (eq_of_beq hkey)]
  next => cases h

theorem kind_mem_of_isKnown {kind : Option Kind} (h : kind.all Kind.isKnown = true) :
    kind ∈ [none, some .attrs, some .struct, some .enum, some .flags] := by
  cases kind with
  | none => decide
  | some k =>
      cases k with
      | attrs => decide
      | struct => decide
      | enum => decide
      | flags => decide
      | other name unknown => cases h

theorem writtenAs_of_ofNode {name : Text} {n : Node} {d : TypeDef} (h : ofNode name n = .ok d) :
    d.WrittenAs n := by
  rw [ofNode] at h
  rcases bind_eq_ok_iff.1 h with ⟨draft, hfold, h⟩
  rcases bind_eq_ok_iff.1 h with ⟨attrs, hattrs, h⟩
  rcases bind_pure_eq_ok_iff.1 h with ⟨values, hvalues, rfl⟩
  rcases exists_mapping hfold with ⟨line, tag, entries, rfl⟩
  have hreads : draft.Reads entries :=
    foldMapping_invariant (fun passed d => TypeDraft.Reads passed d) TypeDraft.reads_empty
      (fun _ _ _ _ _ => reads_of_readEntry) hfold
  refine ⟨line, tag, entries, rfl, hreads.kind, kind_mem_of_isKnown hreads.known, ?_, ?_⟩
  · rw [← hreads.attrs]
    exact listedAs_of_readSequence hattrs fun _ _ _ => AttributeDef.writtenAs_of_ofNode
  · rw [← hreads.values]
    exact listedAs_of_readSequence hvalues fun _ _ _ => ValueDef.writtenAs_of_ofNode

end TypeDef

namespace Schema

/-- A schema that the entries of a document give: one type for each, in their order, under a name of
    its own. -/
structure GivenBy (s : Schema) (entries : List (Node × Node)) : Prop where
  names : s.names = entries.map (keyOf ·.1)
  distinct : s.names.Nodup
  nonempty : ∀ name ∈ s.names, name.isEmpty = false
  notBuiltin : ∀ name ∈ s.names, isBuiltin name = false
  types : List.Forall₂ (fun t e => t.2.WrittenAs e.2) s.types entries

/-- The schema that a document is written as. -/
def WrittenAs (s : Schema) : Node → Prop := IsMappingWith s.GivenBy

theorem types_of_add {s s' : Schema} {name : Text} {d : TypeDef} (h : s.add name d = .ok s') :
    s'.types = s.types ++ [(name, d)] := by
  rw [add] at h
  split at h
  next => cases h
  split at h
  next => cases h
  split at h
  next => cases h
  next =>
    cases h
    rfl

theorem types_of_readEntry {s s' : Schema} {e : Node × Node} (h : readEntry s e = .ok s') :
    ∃ d, TypeDef.ofNode (keyOf e.1) e.2 = .ok d ∧ s'.types = s.types ++ [(keyOf e.1, d)] := by
  rw [readEntry] at h
  rcases bind_eq_ok_iff.1 h with ⟨d, hd, h⟩
  refine ⟨d, hd, ?_⟩
  cases hadd : s.add (keyOf e.1) d with
  | error fault =>
      rw [hadd] at h
      cases h
  | ok added =>
      rw [hadd] at h
      cases h
      exact types_of_add hadd

theorem writtenAs_of_ofNode {n : Node} {s : Schema} (h : ofNode n = .ok s) : s.WrittenAs n := by
  cases n with
  | mapping line tag entries =>
      have htypes : s.names = entries.map (keyOf ·.1) ∧
          List.Forall₂ (fun t e => TypeDef.WrittenAs t.2 e.2) s.types entries := by
        refine foldlM_invariant (fun passed (s : Schema) => s.names = passed.map (keyOf ·.1) ∧
          List.Forall₂ (fun t e => TypeDef.WrittenAs t.2 e.2) s.types passed) ⟨rfl, .nil⟩ ?_ h
        -- Each entry appends a type, so the names keep the order of the document.
        rintro passed e s s' - ⟨hnames, hpassed⟩ hstep
        rcases types_of_readEntry hstep with ⟨d, hd, hs'⟩
        rw [names, hs', List.map_append, List.map_append, ← hnames]
        exact ⟨rfl, List.rel_append hpassed (.cons (TypeDef.writtenAs_of_ofNode hd) .nil)⟩
      have hnamed : ∀ name ∈ s.names, name.isEmpty = false ∧ isBuiltin name = false := by
        intro name hname
        have := s.named name hname
        rw [isTypeName, Bool.and_eq_true, Bool.not_eq_true', Bool.not_eq_true'] at this
        exact this
      exact ⟨line, tag, entries, rfl, htypes.1, s.distinct, fun name h => (hnamed name h).1,
        fun name h => (hnamed name h).2, htypes.2⟩
  | scalar line tag value => cases h
  | sequence line tag items => cases h
  | reference line name target => cases h

/-- Loaded schemas are well-formed. A schema is read only from a document it is written in, so its
    names are the keys of the document, its types have known kinds and named fields and values, its
    expressions and lower types have names, and the numbers of its fields are positive if they are
    given. A text without a document is read as the schema without types. -/
theorem loaded_as_written :
    (∀ n s, ofNode n = .ok s → s.WrittenAs n) ∧
      ∀ fmt source s, parse fmt source = .ok s →
        (Node.parse? (documentText fmt source) = some none ∧ s.names = []) ∨
          ∃ n, Node.parse? (documentText fmt source) = some (some n) ∧ s.WrittenAs n := by
  refine ⟨fun n s => writtenAs_of_ofNode, fun fmt source s h => ?_⟩
  rw [parse.eq_def] at h
  cases hdoc : Node.parse? (documentText fmt source) with
  | none =>
      rw [hdoc] at h
      cases h
  | some doc =>
      rw [hdoc] at h
      cases doc with
      | none =>
          cases h
          exact Or.inl ⟨rfl, rfl⟩
      | some n => exact Or.inr ⟨n, rfl, writtenAs_of_ofNode h⟩

/-- A document in which keys are repeated: a kind that is taken back, an empty list of fields, a
    count that an empty scalar leaves alone, and an expression that is wrapped twice. -/
def repeatedKeys : List (Node × Node) :=
  let word (value : String) : Node := .scalar 1 Yaml.strTag value
  let list (items : List Node) : Node := .sequence 1 Yaml.seqTag items
  let pairs (entries : List (String × Node)) : Node :=
    .mapping 1 Yaml.mapTag (entries.map fun e => (word e.1, e.2))
  [(word "event", pairs [("kind", word "enum"), ("kind", word "attrs"), ("attrs", list []),
      ("attrs", list [
        list [word "id", word "u8"],
        list [word "levels",
          pairs [("kind", word "map"), ("kind", word "array"), ("zero", word "on"),
            ("type", pairs [("kind", word "flags"), ("type", word "level")])],
          pairs [("count", .scalar 1 Yaml.intTag "2"), ("count", .scalar 1 Yaml.nullTag ""),
            ("type", pairs [("kind", word "flags"), ("type", word "level")])]]])]),
    (word "level", pairs [("kind", word "enum"),
      ("values", list [pairs [("value", .scalar 1 Yaml.intTag "1"), ("name", word "high")]])])]

/-- The text of a document in which a kind is taken back. -/
def retractedKind : Text :=
  "\x7b\"event\": \x7b\"kind\": \"enum\", \"kind\": \"\", \"attrs\": [[\"id\", \"u8\"]],\x7d\x7d"

theorem repeated_keys_as_written :
    (∃ s, ofNode (.mapping 1 Yaml.mapTag repeatedKeys) = .ok s ∧
      s.names = [Text.ofString "event", Text.ofString "level"] ∧ s.GivenBy repeatedKeys) ∧
    ∃ s n, parse .json retractedKind = .ok s ∧ s.names = [Text.ofString "event"] ∧
      Node.parse? (documentText .json retractedKind) = some (some n) ∧ s.WrittenAs n := by
  constructor
  · rcases exists_ok_of_isSome (by decide +kernel :
      (ofNode (.mapping 1 Yaml.mapTag repeatedKeys)).toOption.isSome = true) with ⟨s, hs⟩
    rcases loaded_as_written.1 _ s hs with ⟨_, _, entries, hentries, hgiven⟩
    cases hentries
    exact ⟨s, hs, hgiven.names, hgiven⟩
  · have hparse : (parse .json retractedKind).toOption.map names
        = some [Text.ofString "event"] := by
      decide +kernel
    rcases exists_ok_of_isSome (by decide +kernel :
      (parse .json retractedKind).toOption.isSome = true) with ⟨s, hs⟩
    rw [hs] at hparse
    have hnames : s.names = [Text.ofString "event"] := Option.some.inj hparse
    rcases loaded_as_written.2 _ _ s hs with ⟨-, hnone⟩ | ⟨n, hn, hwritten⟩
    · rw [hnone] at hnames
      cases hnames
    · exact ⟨s, n, hs, hnames, hn, hwritten⟩

end Schema

end NetlinkSchema
