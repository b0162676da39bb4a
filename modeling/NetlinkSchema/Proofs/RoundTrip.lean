import NetlinkSchema.Proofs.Resolution

/-!
# Round trips of messages

Attribute sets may contain each other, so neither round trip goes by induction on types. What was
encoded is followed through the value, whose parts are nested less deeply than the value itself.
What was decoded is followed through the bytes, since each payload is shorter than the stream around
it. In both cases one more level is one of the steps for arrays, maps and attribute sets.

## Main definitions

* `Codec.WellFormed`: The attribute sets or the layout of a codec are well formed.

## Theorems

* `Payload.matches_of_encode`, `Payload.survives_of_decode`: The two inductions.
* `Codec.encoded`, `Codec.decoded`: The two round trips of a message.
* `Schema.codec_wellFormed`: The codecs of an accepted schema are well formed.
* `Schema.encoded_message_fixed`: A message that was encoded is decoded and encoded to itself.
* `Schema.decoded_message_kept`: An object that was decoded is encoded and decoded to itself, unless
  an attribute gets too long.
-/

namespace NetlinkSchema

namespace Payload

variable {sets : AttrSets}

-- The induction is on the depth of the value; the payload type is arbitrary at each level, because
-- an attribute set may contain itself.
theorem matches_of_encode_depth (hsets : sets.WellFormed) (n : Nat) :
    ∀ (p : Payload) (v : Value) (b : Bytes), v.depth = n → p.WellFormed → v.KeysDistinct →
      p.encode sets v = .ok b → ∃ v', p.Matches sets v' b := by
  induction n using Nat.strong_induction_on with
  | _ n ih =>
      intro p v b hdepth hp hv h
      subst hdepth
      have hsmaller : ∀ q : Payload, q.WellFormed → ∀ x : Value, x.depth < v.depth →
          x.KeysDistinct → ∀ d, q.encode sets x = .ok d → ∃ x', q.Matches sets x' d :=
        fun q hq x hlt hx d hd => ih x.depth hlt q x d rfl hq hx hd
      cases p with
      | array zero elem =>
          refine matches_of_encode_array (fun items hitems x hx => ?_) h
          exact hsmaller elem hp x (Value.depth_lt_of_mem_items hitems hx)
            (hv.of_mem_items hitems hx)
      | map elem => exact matches_of_encode_map hv (hsmaller elem hp) h
      | attrs name =>
          cases v with
          | object obj =>
              exact matches_of_encode_attrs hsets hv
                (fun g hg => hsmaller g.payload (hsets.payload name g hg)) h
          | _ =>
              rw [encode] at h
              · cases h
              · intro obj hobj
                cases hobj
      | _ =>
          refine matches_of_encode_leaf ?_ hp h
          exact trivial

/-- What was encoded stands for some value. -/
theorem matches_of_encode (hsets : sets.WellFormed) {p : Payload} (hp : p.WellFormed) {v : Value}
    (hv : v.KeysDistinct) {b : Bytes} (h : p.encode sets v = .ok b) :
    ∃ v', p.Matches sets v' b :=
  matches_of_encode_depth hsets v.depth p v b rfl hp hv h

theorem survives_of_decode_length (hsets : sets.WellFormed) (n : Nat) :
    ∀ (p : Payload) (d : Bytes) (v : Value), d.length = n → p.WellFormed →
      p.decode sets d = .ok v → p.Survives sets v := by
  induction n using Nat.strong_induction_on with
  | _ n ih =>
      intro p d v hlength hp h
      subst hlength
      -- The payload of an attribute is shorter than the stream by its header.
      have hshorter : ∀ q : Payload, q.WellFormed → ∀ a ∈ (Attribute.walk d).1, ∀ x,
          q.decode sets a.payload = .ok x → q.Survives sets x := by
        intro q hq a ha x hx
        have hsize := Attribute.size_le_of_mem_walk ha
        have hheader : 0 < Attribute.headerSize := by decide
        exact ih a.payload.length (by omega) q a.payload x rfl hq hx
      cases p with
      | array zero elem => exact survives_array (hshorter elem hp) h
      | map elem => exact survives_map (hshorter elem hp) h
      | attrs name =>
          exact survives_attrs hsets
            (fun g hg => hshorter g.payload (hsets.payload name g hg)) h
      | _ =>
          refine survives_leaf ?_ hp h
          exact trivial

/-- What was decoded can be encoded, unless an attribute gets too long. -/
theorem survives_of_decode (hsets : sets.WellFormed) {p : Payload} (hp : p.WellFormed) {d : Bytes}
    {v : Value} (h : p.decode sets d = .ok v) : p.Survives sets v :=
  survives_of_decode_length hsets d.length p d v rfl hp h

end Payload

namespace Codec

/-- The attribute sets or the layout of a codec are well formed. -/
def WellFormed : Codec → Prop
  | attrs sets _ => sets.WellFormed
  | struct layout => layout.WellFormed

/-- A payload that is an attribute set is decoded as a message of that set. -/
theorem decode_attrs_map (sets : AttrSets) (name : Text) (buf : Bytes) :
    ((attrs sets name).decode buf).map .object = (Payload.attrs name).decode sets buf := by
  rw [decode, Payload.decode]
  cases Nested.getObject buf _ with
  | error e => rfl
  | ok obj => rfl

theorem decode_attrs_eq_ok_iff {sets : AttrSets} {name : Text} {b : Bytes} {obj : Object} :
    (attrs sets name).decode b = .ok obj
      ↔ (Payload.attrs name).decode sets b = .ok (.object obj) := by
  rw [← decode_attrs_map, map_eq_ok_iff]
  constructor
  · exact fun h => ⟨obj, h, rfl⟩
  · rintro ⟨_, h, heq⟩
    cases heq
    exact h

/-- A message that was encoded is decoded, and encoded to itself again. -/
theorem encoded {c : Codec} (hc : c.WellFormed) {obj : Object}
    (hobj : (Value.object obj).KeysDistinct) {b : Bytes} (h : c.encode obj = .ok b) :
    ∃ obj', c.decode b = .ok obj' ∧ c.encode obj' = .ok b := by
  cases c with
  | struct layout => exact Layout.encoded hc h
  | attrs sets name =>
      rcases Payload.matches_of_encode hc (p := .attrs name) trivial hobj h with ⟨v, hmatch⟩
      rcases (Payload.decode_attrs sets).1 hmatch.read with ⟨-, os, -, rfl⟩
      exact ⟨_, decode_attrs_eq_ok_iff.2 hmatch.read, hmatch.written⟩

/-- An object that was decoded can be encoded, unless an attribute gets too long, and is decoded
    the same again. -/
theorem decoded {c : Codec} (hc : c.WellFormed) {b : Bytes} {obj : Object}
    (h : c.decode b = .ok obj) : UnlessTooLong (c.encode obj) fun b' => c.decode b' = .ok obj := by
  cases c with
  | struct layout =>
      rcases Layout.decoded hc h with ⟨b', henc, hdec⟩
      change UnlessTooLong (layout.encode obj) _
      rw [henc]
      exact hdec
  | attrs sets name =>
      have hsurvives := Payload.survives_of_decode hc (p := .attrs name) trivial
        (decode_attrs_eq_ok_iff.1 h)
      exact UnlessTooLong.imp hsurvives fun b' hb' => decode_attrs_eq_ok_iff.2 hb'

end Codec

namespace Schema

variable {s : Schema}

/-- The codecs of an accepted schema are well formed. -/
theorem codec_wellFormed (h : s.Accepted) (hu : s.Unambiguous) {name : Text} {c : Codec}
    (hc : s.bundle.codec? name = some c) : c.WellFormed := by
  rcases codec_cases hc with ⟨d, ht, ⟨-, rfl⟩ | ⟨hkind, rfl⟩⟩
  · exact attrSets_wellFormed h hu
  · exact layout_wellFormed h hu ht hkind

theorem tree_unambiguous : tree.Unambiguous := by
  constructor <;> decide +kernel

theorem tree_codec : tree.bundle.codec? "node" = some (.attrs tree.bundle.attrSets "node") := by
  have hmem : (Text.ofString "node", node) ∈ tree.types := by simp [tree]
  exact codec?_attrs hmem rfl

/-- A message that was encoded by a codec of an accepted schema is decoded to some object, and that
    object is encoded to the same message. -/
theorem encoded_message_fixed {s : Schema} {o : CompileOptions} {compiled : Compiled}
    (hcompile : (s.compile o).output = some compiled) (hu : s.Unambiguous) {name : Text}
    {c : Codec} (hc : compiled.bundle.codec? name = some c) {obj : Object}
    (hobj : (Value.object obj).KeysDistinct) {b : Bytes} (h : c.encode obj = .ok b) :
    ∃ obj', c.decode b = .ok obj' ∧ c.encode obj' = .ok b := by
  rcases accepted_of_compile hcompile with ⟨haccepted, hbundle⟩
  rw [hbundle] at hc
  exact Codec.encoded (codec_wellFormed haccepted hu hc) hobj h

/-- A node with two generations below it. Its flag is left out, its unknown mode bit is kept. -/
def trunk : Object :=
  [("children", .list [.object [("label", .text "b"), ("leaf", .bool true)]]),
    ("colors", .object [("darkRed", .bool true)]),
    ("label", .text "a"),
    ("leaf", .bool false),
    ("mode", .object [("__unknown", .ofInt .uint64 4), ("read", .bool true)]),
    ("named", .list [.object [("children", .list [.object []])], .object []]),
    ("place", .object [("corners", .list [.object [("x", .ofInt .int32 (-3))], .object []])])]

theorem encoded_trunk_fixed : ∃ b obj',
    (Codec.attrs tree.bundle.attrSets "node").encode trunk = .ok b ∧
      (Codec.attrs tree.bundle.attrSets "node").decode b = .ok obj' ∧
      (Codec.attrs tree.bundle.attrSets "node").encode obj' = .ok b := by
  have hsome : ((Codec.attrs tree.bundle.attrSets "node").encode trunk).toOption.isSome = true := by
    decide +kernel
  have hkeys : (Value.object trunk).KeysDistinct := by
    simp only [trunk, Value.KeysDistinct, Value.FieldsDistinct, Value.ItemsDistinct, Value.ofInt]
    decide +kernel
  cases h : (Codec.attrs tree.bundle.attrSets "node").encode trunk with
  | error e =>
      rw [h] at hsome
      cases hsome
  | ok b =>
      rcases encoded_message_fixed tree_compile tree_unambiguous tree_codec hkeys h with
        ⟨obj', hdec, henc⟩
      exact ⟨b, obj', rfl, hdec, henc⟩

/-- An object that was decoded by a codec of an accepted schema is encoded to a message that is
    decoded to the same object, unless an attribute gets too long for its header. -/
theorem decoded_message_kept {s : Schema} {o : CompileOptions} {compiled : Compiled}
    (hcompile : (s.compile o).output = some compiled) (hu : s.Unambiguous) {name : Text}
    {c : Codec} (hc : compiled.bundle.codec? name = some c) {b : Bytes} {obj : Object}
    (h : c.decode b = .ok obj) :
    (∃ b', c.encode obj = .ok b' ∧ c.decode b' = .ok obj) ∨
      ∃ e, c.encode obj = .error e ∧ e.TooLong := by
  rcases accepted_of_compile hcompile with ⟨haccepted, hbundle⟩
  rw [hbundle] at hc
  have hkept := Codec.decoded (codec_wellFormed haccepted hu hc) h
  cases henc : c.encode obj with
  | ok b' =>
      rw [henc] at hkept
      exact Or.inl ⟨b', rfl, hkept⟩
  | error e =>
      rw [henc] at hkept
      exact Or.inr ⟨e, rfl, hkept⟩

/-- A node as another program may send it: in another order, with an attribute that is not
    declared, with a label that is replaced by a later one, and with a marked nested attribute. -/
def branch : Bytes :=
  [4, 0, 5, 0, 5, 0, 99, 0, 7, 0, 0, 0, 6, 0, 1, 0, 98, 0, 0, 0, 8, 0, 6, 128, 4, 0, 1, 0,
    6, 0, 1, 0, 97, 0, 0, 0]

theorem decoded_branch_kept : ∃ obj,
    (Codec.attrs tree.bundle.attrSets "node").decode branch = .ok obj ∧
      ((∃ b', (Codec.attrs tree.bundle.attrSets "node").encode obj = .ok b' ∧
          (Codec.attrs tree.bundle.attrSets "node").decode b' = .ok obj) ∨
        ∃ e, (Codec.attrs tree.bundle.attrSets "node").encode obj = .error e ∧ e.TooLong) := by
  have hsome :
      ((Codec.attrs tree.bundle.attrSets "node").decode branch).toOption.isSome = true := by
    decide +kernel
  cases h : (Codec.attrs tree.bundle.attrSets "node").decode branch with
  | error e =>
      rw [h] at hsome
      cases hsome
  | ok obj => exact ⟨obj, rfl, decoded_message_kept tree_compile tree_unambiguous tree_codec h⟩

end Schema

end NetlinkSchema
