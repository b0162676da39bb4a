import NetlinkSchema.Proofs.Outcome
import NetlinkSchema.Schema.Document

/-!
# Reading expressions

Which nodes a type expression is read from. A mapping is read entry by entry, and its keys may be
repeated: the last entry of a key counts, though an empty scalar may leave an older value alone. So
the invariant of a mapping speaks of the entries that were passed, and what it says at the end can
be told from the last entry of each key.

An expression and the node it is written as are related by recursion on the expression, down the
nodes of its elements as deep as they are nested. The relation asks for what the reader checks:
names are not empty, only a name has a flag-list form, and only arrays are numbered from zero.

## Main definitions

* `valueOf?`: The value of the last entry with a key.
* `TypeExpr.WrittenAs`, `LowerType.WrittenAs`: Expressions and lower types and their nodes.
* `ExprDraft.Reads`: What was read of the entries of an expression.

## Theorems

* `foldMapping_invariant`: What each entry preserves holds at the end of a mapping.
* `TypeExpr.writtenAs_of_ofNode`: An expression is read only from a node it is written as.
* `LowerType.writtenAs_of_ofNode`: The same for a lower type.
-/

namespace NetlinkSchema

open Yaml (Node)

/-- The value of the last entry with a key. -/
def valueOf? (entries : List (Node × Node)) (key : Text) : Option Node :=
  (entries.filter (keyOf ·.1 == key)).getLast?.map Prod.snd

/-- The word that a node stands for; an empty scalar stands for the empty word. -/
def wordOf? (n : Node) : Option Text := (n.decodeText.bind (·.orElse .empty)).toOption

theorem Text.isEmpty_ofString (value : String) :
    (Text.ofString value).isEmpty = value.isEmpty := by
  rw [Text.isEmpty, Text.ofString, String.isEmpty, ← String.size_toByteArray, Array.isEmpty_toList]
  rfl

section Mapping

variable {entries : List (Node × Node)} {k v : Node} {key word : Text}

theorem valueOf?_same (h : keyOf k = key) : valueOf? (entries ++ [(k, v)]) key = some v := by
  simp [valueOf?, List.filter_append, h]

theorem valueOf?_other (h : keyOf k = word) (hne : word ≠ key) :
    valueOf? (entries ++ [(k, v)]) key = valueOf? entries key := by
  simp [valueOf?, List.filter_append, h, hne]

section Fold

variable {σ : Type} {place : Place} {n : Node} {init s : σ}
  {step : σ → Text → Node → Except SchemaError σ}

theorem exists_mapping (h : foldMapping place n init step = .ok s) :
    ∃ line tag entries, n = .mapping line tag entries := by
  cases n with
  | mapping line tag entries => exact ⟨line, tag, entries, rfl⟩
  | scalar line tag value => cases h
  | sequence line tag items => cases h
  | reference line name target => cases h

/-- What each entry preserves holds at the end of a mapping. -/
theorem foldMapping_invariant (inv : List (Node × Node) → σ → Prop) {line : Nat} {tag : String}
    (hinit : inv [] init)
    (hstep : ∀ passed k v s s', inv passed s → step s (keyOf k) v = .ok s' →
      inv (passed ++ [(k, v)]) s')
    (h : foldMapping place (.mapping line tag entries) init step = .ok s) : inv entries s :=
  foldlM_invariant inv hinit (fun passed e s s' _ => hstep passed e.1 e.2 s s') h

end Fold

theorem wordOf?_of_readField {place : Place}
    (h : readField place key v Node.decodeText .empty = .ok word) : wordOf? v = some word := by
  rw [readField] at h
  rw [wordOf?]
  cases hv : v.decodeText.bind (·.orElse .empty) with
  | error e =>
      rw [hv] at h
      cases h
  | ok a =>
      rw [hv] at h
      cases h
      rfl

end Mapping

namespace TypeExpr

/-- The expression that a node is written as. -/
inductive WrittenAs : TypeExpr → Node → Prop
  | name {line : Nat} {value : String} (h : (Text.ofString value).isEmpty = false) :
      WrittenAs (name value) (.scalar line Yaml.strTag value)
  | array {line : Nat} {tag : String} {entries : List (Node × Node)} {v : Node} {elem : TypeExpr}
      {zero : Bool} (hkind : (valueOf? entries "kind").bind wordOf? = some "array")
      (hzero : zero = true → (valueOf? entries "zero").isSome = true)
      (htype : valueOf? entries "type" = some v) (h : WrittenAs elem v) :
      WrittenAs (array elem zero) (.mapping line tag entries)
  | map {line : Nat} {tag : String} {entries : List (Node × Node)} {v : Node} {elem : TypeExpr}
      (hkind : (valueOf? entries "kind").bind wordOf? = some "map")
      (hzero : valueOf? entries "zero" = none)
      (htype : valueOf? entries "type" = some v) (h : WrittenAs elem v) :
      WrittenAs (map elem) (.mapping line tag entries)
  | flags {line : Nat} {tag : String} {entries : List (Node × Node)} {v : Node} {n : Text}
      (hkind : (valueOf? entries "kind").bind wordOf? = some "flags")
      (hzero : valueOf? entries "zero" = none)
      (htype : valueOf? entries "type" = some v) (h : WrittenAs (TypeExpr.name n) v) :
      WrittenAs (flags (TypeExpr.name n)) (.mapping line tag entries)

end TypeExpr

namespace ExprDraft

/-- What a draft holds once some entries of a mapping have been read. -/
structure Reads (place : Place) (entries : List (Node × Node)) (d : ExprDraft) : Prop where
  kind : (valueOf? entries "kind").elim (some .empty) wordOf? = some d.kind
  elem : d.elem = (valueOf? entries "type").map fun v => (v.line, TypeExpr.ofNode place v)
  zero : d.zero = true → d.hasZero = true
  hasZero : d.hasZero = (valueOf? entries "zero").isSome

theorem reads_empty (place : Place) : Reads place [] empty := ⟨rfl, rfl, id, rfl⟩

namespace Reads

variable {place : Place} {entries : List (Node × Node)} {d : ExprDraft}

theorem bind_kind (h : d.Reads place entries) {word : Text} (hkind : d.kind = word)
    (hword : word ≠ .empty) : (valueOf? entries "kind").bind wordOf? = some word := by
  have hgiven := h.kind
  cases hv : valueOf? entries "kind" with
  | none =>
      rw [hv, hkind] at hgiven
      exact absurd (Option.some.inj hgiven).symm hword
  | some v =>
      rw [hv, hkind] at hgiven
      exact hgiven

theorem zero_eq_none (h : d.Reads place entries) (hzero : d.hasZero = false) :
    valueOf? entries "zero" = none := by
  rw [h.hasZero] at hzero
  exact Option.isNone_iff_eq_none.1 (Option.isSome_eq_false_iff.1 hzero)

end Reads

/-- The expression that a draft makes of its element. -/
inductive Wraps (d : ExprDraft) : TypeExpr → TypeExpr → Prop
  | array {elem : TypeExpr} (hkind : d.kind = "array") : Wraps d elem (.array elem d.zero)
  | map {elem : TypeExpr} (hkind : d.kind = "map") (hzero : d.hasZero = false) :
      Wraps d elem (.map elem)
  | flags {n : Text} (hkind : d.kind = "flags") (hzero : d.hasZero = false) :
      Wraps d (.name n) (.flags (.name n))

theorem wraps_of_finish {place : Place} {line : Nat} {d : ExprDraft} {e : TypeExpr}
    (h : d.finish place line = .ok e) :
    ∃ elemLine elem, d.elem = some (elemLine, .ok elem) ∧ d.Wraps elem e := by
  rw [finish] at h
  split at h
  · cases h
  split at h
  · cases h
  next hknown =>
  cases helem : d.elem with
  | none =>
      rw [helem] at h
      cases h
  | some pair =>
      rcases pair with ⟨elemLine, read⟩
      rw [helem] at h
      dsimp only at h
      -- Numbering from zero is refused first, unless the kind is that of an array.
      split at h
      · cases h
      next hzero =>
      rcases bind_eq_ok_iff.1 h with ⟨elem, rfl, h⟩
      refine ⟨elemLine, elem, rfl, ?_⟩
      split at h
      next harray =>
        cases h
        exact .array (eq_of_beq harray)
      next harray =>
      simp only [bne, harray, Bool.not_false, Bool.and_true, Bool.not_eq_true] at hzero
      split at h
      next hmap =>
        cases h
        exact .map (eq_of_beq hmap) hzero
      next hmap =>
      simp only [harray, hmap, Bool.false_or, Bool.not_eq_true, Bool.not_eq_false'] at hknown
      cases elem with
      | name n =>
          cases h
          exact .flags (eq_of_beq hknown) hzero
      | array elem zero => cases h
      | map elem => cases h
      | flags elem => cases h
      | other kind => cases h
      | missing => cases h

end ExprDraft

namespace TypeExpr

variable {place : Place}

/-- What reading an entry does to the draft of an expression. -/
theorem ofEntries_cons {k v : Node} {rest : List (Node × Node)} {d d' : ExprDraft}
    (h : ofEntries place ((k, v) :: rest) d = .ok d') :
    ∃ d₁, ofEntries place rest d₁ = .ok d' ∧
      ((keyOf k = "kind" ∧ ∃ word, wordOf? v = some word ∧ d₁ = { d with kind := word }) ∨
        (keyOf k = "type" ∧ d₁ = { d with elem := some (v.line, ofNode place v) }) ∨
        (keyOf k = "zero" ∧ ∃ zero, d₁ = { d with zero, hasZero := true })) := by
  rw [ofEntries] at h
  split at h
  next hkey =>
    rcases bind_eq_ok_iff.1 h with ⟨word, hword, h⟩
    exact ⟨_, h, Or.inl ⟨eq_of_beq hkey, word, wordOf?_of_readField hword, rfl⟩⟩
  split at h
  next hkey => exact ⟨_, h, Or.inr (Or.inl ⟨eq_of_beq hkey, rfl⟩)⟩
  split at h
  next hkey =>
    rcases bind_eq_ok_iff.1 h with ⟨zero, -, h⟩
    exact ⟨_, h, Or.inr (Or.inr ⟨eq_of_beq hkey, zero, rfl⟩)⟩
  next => cases h

theorem reads_of_ofEntries {passed entries : List (Node × Node)} {d d' : ExprDraft}
    (hd : d.Reads place passed) (h : ofEntries place entries d = .ok d') :
    d'.Reads place (passed ++ entries) := by
  induction entries generalizing passed d with
  | nil =>
      rw [ofEntries] at h
      cases h
      rwa [List.append_nil]
  | cons e rest ih =>
      rcases e with ⟨k, v⟩
      rcases ofEntries_cons h with ⟨d₁, hrest, hcases⟩
      rw [← List.singleton_append, ← List.append_assoc]
      refine ih ?_ hrest
      -- The entry is now the last one of its key; those of the other keys stay what they were.
      rcases hcases with ⟨hkey, word, hword, rfl⟩ | ⟨hkey, rfl⟩ | ⟨hkey, zero, rfl⟩
      · refine ⟨?_, ?_, hd.zero, ?_⟩
        · rw [valueOf?_same hkey]
          exact hword
        · rw [valueOf?_other hkey (by decide)]
          exact hd.elem
        · rw [valueOf?_other hkey (by decide)]
          exact hd.hasZero
      · refine ⟨?_, ?_, hd.zero, ?_⟩
        · rw [valueOf?_other hkey (by decide)]
          exact hd.kind
        · rw [valueOf?_same hkey]
          rfl
        · rw [valueOf?_other hkey (by decide)]
          exact hd.hasZero
      · refine ⟨?_, ?_, fun _ => rfl, ?_⟩
        · rw [valueOf?_other hkey (by decide)]
          exact hd.kind
        · rw [valueOf?_other hkey (by decide)]
          exact hd.elem
        · rw [valueOf?_same hkey]
          rfl

/-- How an expression comes from a node: a scalar is a name, and a mapping says how the expression
    of its last type is wrapped. -/
theorem ofNode_cases {n : Node} {e : TypeExpr} (h : ofNode place n = .ok e) :
    (∃ line value, n = .scalar line Yaml.strTag value ∧ (Text.ofString value).isEmpty = false ∧
        e = .name value) ∨
      ∃ line tag entries v elem, n = .mapping line tag entries ∧
        valueOf? entries "type" = some v ∧ ofNode place v = .ok elem ∧
        ∃ d : ExprDraft, d.Reads place entries ∧ d.Wraps elem e := by
  cases n with
  | scalar line tag value =>
      rw [ofNode] at h
      split at h
      next hname =>
        rw [Bool.and_eq_true, Bool.not_eq_true', ← Text.isEmpty_ofString] at hname
        cases h
        obtain rfl := eq_of_beq hname.1
        exact Or.inl ⟨line, value, rfl, hname.2, rfl⟩
      next => cases h
  | mapping line tag entries =>
      rw [ofNode] at h
      rcases bind_eq_ok_iff.1 h with ⟨d, hd, hfinish⟩
      have hreads := reads_of_ofEntries (ExprDraft.reads_empty place) hd
      rcases ExprDraft.wraps_of_finish hfinish with ⟨elemLine, elem, helem, hwraps⟩
      rw [hreads.elem, Option.map_eq_some_iff] at helem
      rcases helem with ⟨v, hv, hread⟩
      exact Or.inr
        ⟨line, tag, entries, v, elem, rfl, hv, congrArg Prod.snd hread, d, hreads, hwraps⟩
  | sequence line tag items =>
      rw [ofNode] at h
      cases h
  | reference line name target =>
      rw [ofNode] at h
      cases h

/-- An expression is read only from a node that it is written as. -/
theorem writtenAs_of_ofNode {n : Node} {e : TypeExpr} (h : ofNode place n = .ok e) :
    e.WrittenAs n := by
  rcases ofNode_cases h with ⟨line, value, rfl, hvalue, rfl⟩ |
    ⟨line, tag, entries, v, elem, rfl, htype, helem, d, hd, hwraps⟩
  · exact .name hvalue
  · -- The element is smaller than the expression, whatever the nodes are.
    cases hwraps with
    | array hkind =>
        exact .array (hd.bind_kind hkind (by decide)) (fun h => hd.hasZero ▸ hd.zero h) htype
          (writtenAs_of_ofNode helem)
    | map hkind hzero =>
        exact .map (hd.bind_kind hkind (by decide)) (hd.zero_eq_none hzero) htype
          (writtenAs_of_ofNode helem)
    | flags hkind hzero =>
        exact .flags (hd.bind_kind hkind (by decide)) (hd.zero_eq_none hzero) htype
          (writtenAs_of_ofNode helem)
termination_by e

end TypeExpr

namespace LowerType

/-- The lower type that a node is written as: a name, or a mapping that gives its kind and its
    name. -/
inductive WrittenAs : LowerType → Node → Prop
  | name {line : Nat} {tag value : String} (h : (Text.ofString value).isEmpty = false) :
      WrittenAs ⟨value, false⟩ (.scalar line tag value)
  | flags {line : Nat} {tag : String} {entries : List (Node × Node)} {name : Text}
      (hkind : (valueOf? entries "kind").isSome = true)
      (htype : (valueOf? entries "type").isSome = true) (h : name.isEmpty = false) :
      WrittenAs ⟨name, true⟩ (.mapping line tag entries)

theorem writtenAs_of_ofNode {place : Place} {n : Node} {l : LowerType}
    (h : ofNode place n = .ok l) : l.WrittenAs n := by
  cases n with
  | scalar line tag value =>
      rw [ofNode] at h
      split at h
      next => cases h
      next hvalue =>
        cases h
        exact .name (by rwa [Text.isEmpty_ofString, ← Bool.not_eq_true])
  | sequence line tag items => cases h
  | reference line name target => cases h
  | mapping line tag entries =>
      rw [ofNode.eq_def] at h
      rcases bind_eq_ok_iff.1 h with ⟨⟨kind, name⟩, hfold, h⟩
      dsimp only at h
      split at h
      next => cases h
      next hkind =>
      split at h
      next => cases h
      next hname =>
      cases h
      -- A word may be older than its last entry, but there is none without an entry.
      have hgiven : (valueOf? entries "kind" = none → kind = .empty) ∧
          (valueOf? entries "type" = none → name = .empty) := by
        refine foldMapping_invariant (fun passed (s : Text × Text) =>
          (valueOf? passed "kind" = none → s.1 = .empty) ∧
            (valueOf? passed "type" = none → s.2 = .empty)) ⟨fun _ => rfl, fun _ => rfl⟩ ?_ hfold
        rintro passed k v ⟨kind, name⟩ s' ⟨hkinds, hnames⟩ hstep
        dsimp only at hstep
        split at hstep
        next hkey =>
          rcases bind_pure_eq_ok_iff.1 hstep with ⟨kind', -, rfl⟩
          rw [valueOf?_same (eq_of_beq hkey), valueOf?_other (eq_of_beq hkey) (by decide)]
          exact ⟨fun h => absurd h (Option.some_ne_none v), hnames⟩
        next =>
        split at hstep
        next hkey =>
          rcases bind_pure_eq_ok_iff.1 hstep with ⟨name', -, rfl⟩
          rw [valueOf?_same (eq_of_beq hkey), valueOf?_other (eq_of_beq hkey) (by decide)]
          exact ⟨hkinds, fun h => absurd h (Option.some_ne_none v)⟩
        next => cases hstep
      refine .flags ?_ ?_ (Bool.eq_false_iff.2 hname)
      · refine Option.isSome_iff_ne_none.2 fun hnone => ?_
        rw [hgiven.1 hnone] at hkind
        exact absurd (by decide) hkind
      · refine Option.isSome_iff_ne_none.2 fun hnone => hname ?_
        rw [hgiven.2 hnone]
        rfl

end LowerType

end NetlinkSchema
