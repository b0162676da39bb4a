import NetlinkSchema.Proofs.RoundTrip
import NetlinkSchema.Proofs.SamePayload

/-!
# Absent entries

A key whose value is absent stands for a key that is not there. This holds at the top of an object
and wherever the schema has an object further down: in a field that is an attribute set, a struct,
flags, a bitmask or a flag list, in an element of an array, an inline array or a map, and in an
occurrence of a repeated field. Such entries may be taken out, declared or not, without a difference
to what is encoded.

It does not hold of every object inside a value. Where the schema has a map, an object is refused
unless it is empty, so an absent entry makes a difference there. For this reason the places are
found by the type of what is encoded.

One step takes out one key at one place. Each step keeps the result, and so do any number of them.

## Main definitions

* `Object.Drops`: A key with no value is taken out of an object.
* `MemberType.Trims`, `Payload.Trims`, `Codec.Trims`: The same at some place inside a value.

## Theorems

* `Object.Drops.corresponds`: Nothing else changes.
* `MemberType.Trims.same`, `Payload.Trims.same`: A step cannot be told from the encoding.
* `absent_entries_ignored`: Neither can any number of steps.
-/

namespace NetlinkSchema

namespace Object

/-- The object without the entries of a key. -/
def without (obj : Object) (key : Text) : Object := obj.filter fun e => !(e.1 == key)

/-- A key that has no value is taken out of an object. -/
inductive Drops : Object → Object → Prop
  | intro (obj : Object) (key : Text) : (∀ e ∈ obj, e.1 = key → e.2.isNull = true) →
      Drops obj (obj.without key)

theorem mem_without {obj : Object} {key : Text} {e : Text × Value} :
    e ∈ obj.without key ↔ e ∈ obj ∧ e.1 ≠ key := by
  rw [without, List.mem_filter]
  simp

theorem get_without {obj : Object} {key : Text}
    (h : ∀ e ∈ obj, e.1 = key → e.2.isNull = true) (name : Text) :
    Object.get (obj.without key) name = Object.get obj name := by
  rw [get_eq_value?, get_eq_value?]
  induction obj with
  | nil => rfl
  | cons e rest ih =>
      rcases e with ⟨k, v⟩
      have hrest := ih fun x hx => h x (List.mem_cons_of_mem _ hx)
      rw [value?_cons]
      by_cases hkey : k = key
      · -- The entry goes. Its value is absent, as is what is found without it.
        subst hkey
        have hnull : v = .null := Value.isNull_iff.1 (h (k, v) List.mem_cons_self rfl)
        subst hnull
        rw [without, List.filter_cons_of_neg (by simp)]
        by_cases hname : k = name
        · subst hname
          rw [if_pos rfl, Option.getD_some]
          cases hfound : value? (rest.filter fun e => !(e.1 == k)) k with
          | none => rfl
          | some w =>
              rcases Option.map_eq_some_iff.1 hfound with ⟨x, hx, -⟩
              have hmem := (mem_without.1 (List.mem_of_find?_eq_some hx)).2
              exact absurd (by simpa using List.find?_some hx) hmem
        · rw [if_neg hname]
          exact hrest
      · rw [without, List.filter_cons_of_pos (by simpa using hkey), value?_cons]
        by_cases hname : k = name
        · rw [if_pos hname, if_pos hname]
        · rw [if_neg hname, if_neg hname]
          exact hrest

theorem Drops.corresponds {R : Text → Value → Value → Prop} (hR : ∀ k v, R k v v) {a b : Object}
    (h : Drops a b) : Corresponds R a b := by
  cases h with
  | intro key hnull =>
      refine .of_same hR (fun e hset => ?_) fun name => (get_without hnull name).symm
      rw [mem_without]
      constructor
      · intro he
        refine ⟨he, fun hkey => ?_⟩
        rw [hnull e he hkey] at hset
        cases hset
      · exact And.left

end Object

namespace MemberType

/-- A key that has no value is taken out of an object inside the value of a struct member. Members
    have distinct names in a schema that is accepted, so that a key belongs to one of them. -/
inductive Trims : MemberType → Value → Value → Prop
  | lowered {num : Number} {lower : Lowering} {a b : Object} : lower.takesObject = true →
      Object.Drops a b → Trims (number num lower) (.object a) (.object b)
  | entry {name : Text} {members : Members} {a b : Object} :
      Object.Drops a b → Trims (struct name members) (.object a) (.object b)
  | member {name : Text} {members : Members} {key : Text} {v w : Value} (before after : Object) :
      key ∈ members.map Prod.fst → (∀ t, (key, t) ∈ members → Trims t v w) →
      Trims (struct name members) (.object (before ++ (key, v) :: after))
        (.object (before ++ (key, w) :: after))
  | element {count : Int64} {elem : MemberType} {v w : Value} (before after : List Value) :
      Trims elem v w →
      Trims (array count elem) (.list (before ++ v :: after)) (.list (before ++ w :: after))

theorem Trims.isComposite {t : MemberType} {v w : Value} (h : t.Trims v w) :
    v.isComposite = true ∧ w.isComposite = true := by
  cases h with
  | lowered _ _ => exact ⟨rfl, rfl⟩
  | entry _ => exact ⟨rfl, rfl⟩
  | member _ _ _ _ => exact ⟨rfl, rfl⟩
  | element _ _ _ => exact ⟨rfl, rfl⟩

/-- The value under the name of a member is an object or a list, before and after. -/
theorem isComposite_of_trims {members : Members} {key : Text} {v w : Value}
    (hkey : key ∈ members.map Prod.fst) (h : ∀ t, (key, t) ∈ members → t.Trims v w) :
    v.isComposite = true ∧ w.isComposite = true := by
  rcases List.mem_map.1 hkey with ⟨⟨k, t⟩, hm, rfl⟩
  exact (h t hm).isComposite

/-- A struct member cannot tell what was taken out. -/
theorem Trims.same {t : MemberType} {v w : Value} (h : t.Trims v w) : t.Same v w := by
  induction h with
  | lowered hlower hdrops =>
      exact same_number (Lowering.sameResult_toBytes hlower _
        (hdrops.corresponds fun _ _ => Or.inl rfl))
  | @entry name members a b hdrops =>
      exact same_struct (hdrops.corresponds (SameUnder.refl members))
  | @member name members key v w before after hkey htrims ih =>
      rcases isComposite_of_trims hkey htrims with ⟨hv, hw⟩
      exact same_struct (.replace (SameUnder.refl members) (Value.isNull_of_isComposite hv)
        (Value.isNull_of_isComposite hw) ih before after)
  | @element count elem v w before after _ ih =>
      exact same_array (forall₂_replace (Same.refl elem) ih before after)

end MemberType

namespace Payload

/-- A key that has no value is taken out of an object inside the value of a payload. Fields have
    distinct names in a schema that is accepted, so that a key belongs to one of them. -/
inductive Trims (sets : AttrSets) : Payload → Value → Value → Prop
  | entry {p : Payload} {a b : Object} : p.takesObject = true → Object.Drops a b →
      Trims sets p (.object a) (.object b)
  | member {l : Layout} {key : Text} {v w : Value} (before after : Object) :
      key ∈ l.memberNames → (∀ t, (key, t) ∈ l.members → t.Trims v w) →
      Trims sets (struct l) (.object (before ++ (key, v) :: after))
        (.object (before ++ (key, w) :: after))
  | field {name key : Text} {v w : Value} (before after : Object) :
      key ∈ (sets.fields name).map Field.name →
      (∀ f ∈ sets.fields name, f.name = key → f.repeated = false) →
      (∀ f ∈ sets.fields name, f.name = key → Trims sets f.payload v w) →
      Trims sets (attrs name) (.object (before ++ (key, v) :: after))
        (.object (before ++ (key, w) :: after))
  | occurrence {name key : Text} {v w : Value} (before after : Object) (first last : List Value) :
      key ∈ (sets.fields name).map Field.name →
      (∀ f ∈ sets.fields name, f.name = key → f.repeated = true) →
      (∀ f ∈ sets.fields name, f.name = key → Trims sets f.payload v w) →
      Trims sets (attrs name) (.object (before ++ (key, .list (first ++ v :: last)) :: after))
        (.object (before ++ (key, .list (first ++ w :: last)) :: after))
  | element {zero : Bool} {elem : Payload} {v w : Value} (before after : List Value) :
      Trims sets elem v w →
      Trims sets (array zero elem) (.list (before ++ v :: after)) (.list (before ++ w :: after))
  | mapEntry {elem : Payload} {key : UInt16} {v w : Value} (before after : List (UInt16 × Value)) :
      Trims sets elem v w →
      Trims sets (map elem) (.map (before ++ (key, v) :: after))
        (.map (before ++ (key, w) :: after))
  | intMapEntry {elem : Payload} {key : Int64} {v w : Value}
      (before after : List (Int64 × Value)) : Trims sets elem v w →
      Trims sets (map elem) (.intMap (before ++ (key, v) :: after))
        (.intMap (before ++ (key, w) :: after))

variable {sets : AttrSets} {p : Payload} {v w : Value}

theorem Trims.isComposite (h : p.Trims sets v w) :
    v.isComposite = true ∧ w.isComposite = true := by
  cases h with
  | entry _ _ => exact ⟨rfl, rfl⟩
  | member _ _ _ _ => exact ⟨rfl, rfl⟩
  | field _ _ _ _ _ => exact ⟨rfl, rfl⟩
  | occurrence _ _ _ _ _ _ _ => exact ⟨rfl, rfl⟩
  | element _ _ _ => exact ⟨rfl, rfl⟩
  | mapEntry _ _ _ => exact ⟨rfl, rfl⟩
  | intMapEntry _ _ _ => exact ⟨rfl, rfl⟩

/-- A payload cannot tell what was taken out. -/
theorem Trims.same (h : p.Trims sets v w) : p.Same sets v w := by
  induction h with
  | @entry p a b hp hdrops => exact same_object hp (hdrops.corresponds (SameUnder.refl p))
  | @member l key v w before after hkey htrims =>
      rcases MemberType.isComposite_of_trims hkey htrims with ⟨hv, hw⟩
      refine same_object rfl (.replace (SameUnder.refl (struct l)) (Value.isNull_of_isComposite hv)
        (Value.isNull_of_isComposite hw) ⟨fun t ht => ?_, Or.inr ⟨hv, hw⟩⟩ before after)
      exact (htrims t ht).same
  | @field name key v w before after hkey hsingle htrims ih =>
      rcases List.mem_map.1 hkey with ⟨f, hf, hname⟩
      rcases (htrims f hf hname).isComposite with ⟨hv, hw⟩
      refine same_object rfl (.replace (SameUnder.refl (attrs name))
        (Value.isNull_of_isComposite hv) (Value.isNull_of_isComposite hw) ?_ before after)
      intro g hg hgname
      exact Field.same_single (hsingle g hg hgname) (ih g hg hgname)
  | @occurrence name key v w before after first last hkey hrep htrims ih =>
      refine same_object rfl (.replace (SameUnder.refl (attrs name)) rfl rfl ?_ before after)
      intro g hg hgname
      exact Field.same_repeated (hrep g hg hgname)
        (forall₂_replace (Same.refl g.payload) (ih g hg hgname) first last)
  | @element zero elem v w before after _ ih =>
      exact same_array (forall₂_replace (Same.refl elem) ih before after)
  | mapEntry before after _ ih => exact same_map_replace ih before after
  | intMapEntry before after _ ih => exact same_intMap_replace ih before after

end Payload

namespace Codec

/-- A key that has no value is taken out of an object inside a message. -/
def Trims : Codec → Object → Object → Prop
  | attrs sets name, a, b => (Payload.attrs name).Trims sets (.object a) (.object b)
  | struct layout, a, b => (Payload.struct layout).Trims [] (.object a) (.object b)

theorem sameResult_of_trims {c : Codec} {a b : Object} (h : c.Trims a b) :
    SameResult (c.encode a) (c.encode b) := by
  cases c with
  | attrs sets name => exact (Payload.Trims.same h).encode
  | struct layout =>
      have hsame := (Payload.Trims.same h).encode
      rw [Payload.encode, Payload.encode] at hsame
      exact hsame

end Codec

/-- An absent entry is as good as none. Taking keys that have no value out of an object, and out of
    the objects inside it, leaves what is encoded as it is: the same bytes, or a failure. The same
    holds of flags and of the derived forms of enums. -/
theorem absent_entries_ignored :
    (∀ (c : Codec) (a b : Object), Relation.ReflTransGen c.Trims a b →
      SameResult (c.encode a) (c.encode b)) ∧
    ∀ a b : Object, Relation.ReflTransGen Object.Drops a b →
      (∀ f : FlagsType, SameResult (f.encode a) (f.encode b)) ∧
      ∀ e : EnumCodec, SameResult (e.encodeBitmask a) (e.encodeBitmask b) ∧
        SameResult (e.encodeFlagList a) (e.encodeFlagList b) := by
  have hmarks : ∀ a b : Object, Object.Drops a b →
      Object.Corresponds (fun _ => Value.SameMark) a b := fun a b hdrops =>
    hdrops.corresponds fun _ _ => Or.inl rfl
  refine ⟨fun c a b h => .of_steps c.encode (fun _ _ => Codec.sameResult_of_trims) h,
    fun a b h => ⟨fun f => .of_steps f.encode (fun a b hdrops => ?_) h, fun e =>
      ⟨.of_steps e.encodeBitmask (fun a b hdrops => ?_) h,
        .of_steps e.encodeFlagList (fun a b hdrops => ?_) h⟩⟩⟩
  · exact FlagsType.sameResult_encode (hmarks a b hdrops)
  · exact SameResult.bind (.refl _) fun _ => EnumType.sameResult_encodeBitmask (hmarks a b hdrops)
  · exact SameResult.bind (.refl _) fun _ => EnumType.sameResult_encodeFlagList (hmarks a b hdrops)

namespace Schema

/-- A node with absent entries: one that is not declared, a flag, and a field of another node. -/
def sparseNode : Object :=
  [("ghost", .null), ("label", .text "a"),
    ("mode", .object [("read", .bool true), ("write", .null)]),
    ("named", .list [.object [("leaf", .null)], .object []])]

/-- The same node without them. -/
def plainNode : Object :=
  [("label", .text "a"), ("mode", .object [("read", .bool true)]),
    ("named", .list [.object [], .object []])]

theorem sparseNode_encoded : ∃ b,
    (Codec.attrs tree.bundle.attrSets "node").encode sparseNode = .ok b ∧
      (Codec.attrs tree.bundle.attrSets "node").encode plainNode = .ok b := by
  have hsome : ((Codec.attrs tree.bundle.attrSets "node").encode sparseNode).toOption.isSome
      = true := by decide +kernel
  have hmode : ∀ f ∈ tree.bundle.attrSets.fields "node", f.name = "mode" →
      f.repeated = false ∧ f.payload.takesObject = true := by decide +kernel
  have hnamed : ∀ f ∈ tree.bundle.attrSets.fields "node", f.name = "named" →
      f.repeated = true ∧ f.payload.takesObject = true := by decide +kernel
  have hflags : Object.Drops [("read", .bool true), ("write", .null)] [("read", .bool true)] :=
    .intro _ "write" (by decide +kernel)
  have hnode : Object.Drops [("leaf", .null)] [] := .intro _ "leaf" (by decide +kernel)
  have hfirst : (Codec.attrs tree.bundle.attrSets "node").Trims sparseNode
      [("ghost", .null), ("label", .text "a"), ("mode", .object [("read", .bool true)]),
        ("named", .list [.object [("leaf", .null)], .object []])] :=
    Payload.Trims.field [("ghost", .null), ("label", .text "a")] [_] (by decide +kernel)
      (fun f hf hname => (hmode f hf hname).1)
      fun f hf hname => .entry (hmode f hf hname).2 hflags
  have hsecond : (Codec.attrs tree.bundle.attrSets "node").Trims
      [("ghost", .null), ("label", .text "a"), ("mode", .object [("read", .bool true)]),
        ("named", .list [.object [("leaf", .null)], .object []])]
      (("ghost", .null) :: plainNode) :=
    Payload.Trims.occurrence [_, _, _] [] [] [.object []] (by decide +kernel)
      (fun f hf hname => (hnamed f hf hname).1)
      fun f hf hname => .entry (hnamed f hf hname).2 hnode
  have hthird : (Codec.attrs tree.bundle.attrSets "node").Trims (("ghost", .null) :: plainNode)
      plainNode :=
    Payload.Trims.entry rfl (.intro _ "ghost" (by decide +kernel))
  have hsame := absent_entries_ignored.1 _ _ _ (((Relation.ReflTransGen.single hfirst).tail
    hsecond).tail hthird)
  rcases exists_ok_of_isSome hsome with ⟨b, hb⟩
  exact ⟨b, hb, (sameResult_iff.1 hsame b).1 hb⟩

end Schema

end NetlinkSchema
