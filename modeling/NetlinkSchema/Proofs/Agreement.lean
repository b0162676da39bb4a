import NetlinkSchema.Proofs.Resolution

/-!
# Bundles that agree

Two bundles agree on a name if nothing that can be done with it tells them apart: its kind, the
length of a struct, decoding, encoding, and the named numbers and bits. Payloads refer to attribute
sets by name, so decoding looks at nothing but the fields that each name has; sets that are listed
in another order are as good.

## Main definitions

* `AttrSets.SameFields`: Each name has the same fields.
* `Bundle.Agree`: Two bundles treat a name alike.

## Theorems

* `Payload.decode_congr`, `Payload.encode_congr`: Payloads look at the fields of names only.
* `Bundle.agree_of_get?`: Bundles with the same types agree.
* `Schema.bundle_agree`: So do those of schemas that compile each name to the same.
-/

namespace NetlinkSchema

namespace AttrSets

/-- Each name has the same fields. -/
def SameFields (sets sets' : AttrSets) : Prop := ∀ name, sets.fields name = sets'.fields name

end AttrSets

namespace Payload

variable {sets sets' : AttrSets}

/-- Decoding looks at the fields of names only. -/
theorem decode_congr (h : sets.SameFields sets') (p : Payload) (data : Bytes) :
    p.decode sets data = p.decode sets' data := by
  induction hn : data.length using Nat.strong_induction_on generalizing p data with
  | _ n ih =>
    subst hn
    -- What is nested in the payload is shorter, and the decoders are handed the evidence.
    have hnested : ∀ q : Payload, (fun (d : Bytes) (_ : d.length < data.length) => q.decode sets d)
        = fun d _ => q.decode sets' d := by
      intro q
      funext d hd
      exact ih d.length hd q d rfl
    cases p with
    | number num lower => rw [decode, decode]
    | string maxLength => rw [decode, decode]
    | data => rw [decode, decode]
    | bool => rw [decode, decode]
    | flag => rw [decode, decode]
    | array zero elem => rw [decode, decode, hnested elem]
    | map elem => rw [decode, decode, hnested elem]
    | flagList e => rw [decode, decode]
    | struct l => rw [decode, decode]
    | attrs name =>
        rw [decode, decode, h name]
        refine congrArg (fun fields => Nested.getObject data fields >>= fun obj =>
          pure (Value.object obj)) ?_
        funext type
        refine congrArg (fun read => Option.map read _) ?_
        funext f obj d hd
        rw [ih d.length hd f.payload d rfl]

-- The values of an object, and the items of a repeated one, are nested less deeply than the object.
theorem attributes_congr {type : Text} {obj : Object} {f : Field}
    (h : ∀ x : Value, x.depth < (Value.object obj).depth →
      f.payload.encode sets x = f.payload.encode sets' x) :
    f.attributes sets type obj = f.attributes sets' type obj := by
  have hoccurrence : ∀ x : Value, x.depth < (Value.object obj).depth →
      f.occurrence sets type x = f.occurrence sets' type x := by
    intro x hx
    rw [Field.occurrence, Field.occurrence, h x hx]
  have hdepth := Object.depth_get_lt obj f.name
  unfold Field.attributes Field.valueAttributes
  cases f.repeated with
  | false => simp only [Bool.false_eq_true, if_false, hoccurrence _ hdepth]
  | true =>
      cases hitems : (Object.get obj f.name).items? with
      | none => rfl
      | some items =>
          have hmapM :
              items.mapM (f.occurrence sets type) = items.mapM (f.occurrence sets' type) := by
            rw [← mapM_attach items, ← mapM_attach items]
            congr 1
            funext item
            exact hoccurrence item.1 ((Value.depth_lt_of_mem_items hitems item.2).trans hdepth)
          simp only [if_true, hmapM]

/-- Encoding looks at the fields of names only. -/
theorem encode_congr (h : sets.SameFields sets') (p : Payload) (v : Value) :
    p.encode sets v = p.encode sets' v := by
  induction hn : v.depth using Nat.strong_induction_on generalizing p v with
  | _ n ih =>
    subst hn
    have hnested : ∀ q : Payload, (fun (x : Value) (_ : x.depth < v.depth) => q.encode sets x)
        = fun x _ => q.encode sets' x := by
      intro q
      funext x hx
      exact ih x.depth hx q x rfl
    cases p with
    | number num lower => rw [encode, encode]
    | string maxLength => rw [encode, encode]
    | data => rw [encode, encode]
    | bool => rw [encode, encode]
    | flag => rw [encode, encode]
    | array zero elem => rw [encode, encode, hnested elem]
    | map elem => rw [encode, encode, hnested elem]
    | flagList e => unfold encode; rfl
    | struct l => unfold encode; rfl
    | attrs name =>
        by_cases hobj : ∃ obj, v = .object obj
        · rcases hobj with ⟨obj, rfl⟩
          have hfields : Field.attributes sets name obj = Field.attributes sets' name obj := by
            funext f
            exact attributes_congr fun x hx => ih x.depth hx f.payload x rfl
          rw [encode_attrs, encode_attrs, h name, hfields]
        · have hno : ∀ obj, v = .object obj → False := fun obj hv => hobj ⟨obj, hv⟩
          rw [encode, encode]
          · exact hno
          · exact hno

end Payload

namespace Codec

variable {sets sets' : AttrSets} {name : Text}

theorem decode_attrs_congr (h : sets.SameFields sets') (buf : Bytes) :
    (attrs sets name).decode buf = (attrs sets' name).decode buf := by
  rw [decode, decode, Payload.decode_congr h]

theorem encode_attrs_congr (h : sets.SameFields sets') (obj : Object) :
    (attrs sets name).encode obj = (attrs sets' name).encode obj :=
  Payload.encode_congr h _ _

end Codec

namespace Bundle

/-- Two bundles treat a name alike: it has the same kind, the same codec as far as can be observed,
    and the same named numbers and bits. -/
structure Agree (a b : Bundle) (name : Text) : Prop where
  kind : (a.get? name).map CompiledType.kind = (b.get? name).map CompiledType.kind
  length : (a.codec? name).map Codec.length = (b.codec? name).map Codec.length
  decode : ∀ buf, (a.codec? name).map (·.decode buf) = (b.codec? name).map (·.decode buf)
  encode : ∀ obj, (a.codec? name).map (·.encode obj) = (b.codec? name).map (·.encode obj)
  encodeInto : ∀ obj buf,
    (a.codec? name).map (·.encodeInto obj buf) = (b.codec? name).map (·.encodeInto obj buf)
  flags : a.flags? name = b.flags? name
  enum : a.enum? name = b.enum? name

variable {a b : Bundle}

/-- Bundles with the same type under a name agree on it, if attribute sets have the same fields. -/
theorem agree_of_get? (hsets : a.attrSets.SameFields b.attrSets) {name : Text}
    (hget : a.get? name = b.get? name) : a.Agree b name := by
  -- Only an attribute set has a codec that refers to other types of the bundle.
  have hcodec : a.codec? name = b.codec? name ∨
      a.codec? name = some (.attrs a.attrSets name) ∧
        b.codec? name = some (.attrs b.attrSets name) := by
    unfold codec?
    rw [← hget]
    cases a.get? name with
    | none => exact Or.inl rfl
    | some t =>
        cases t with
        | attrs set => exact Or.inr ⟨rfl, rfl⟩
        | struct l => exact Or.inl rfl
        | enum e => exact Or.inl rfl
        | flags f => exact Or.inl rfl
        | other kind => exact Or.inl rfl
  have hkind := congrArg (Option.map CompiledType.kind) hget
  have hflags : a.flags? name = b.flags? name := by rw [flags?, flags?, hget]
  have henum : a.enum? name = b.enum? name := by rw [enum?, enum?, hget]
  rcases hcodec with heq | ⟨ha, hb⟩
  · exact ⟨hkind, by rw [heq], fun _ => by rw [heq], fun _ => by rw [heq], fun _ _ => by rw [heq],
      hflags, henum⟩
  · refine ⟨hkind, ?_, ?_, ?_, ?_, hflags, henum⟩
    · rw [ha, hb]
      rfl
    · intro buf
      rw [ha, hb, Option.map_some, Option.map_some, Codec.decode_attrs_congr hsets]
    · intro obj
      rw [ha, hb, Option.map_some, Option.map_some, Codec.encode_attrs_congr hsets]
    · intro obj buf
      rw [ha, hb]
      rfl

end Bundle

namespace Schema

/-- The fields of a name are those of the attribute set that it is compiled to, if it is one. -/
theorem fields_bundle (s : Schema) (name : Text) : s.bundle.attrSets.fields name
    = ((s.bundle.get? name).bind CompiledType.attrSet?).elim [] AttrSet.fields := by
  rcases s.fields_attrSets name with ⟨d, hd, hkind, hfields⟩ | ⟨hno, hfields⟩
  · rw [hfields, bundle_get?, mem_types_iff.1 hd, Option.map_some, compileType]
    simp only [hkind]
    rfl
  · rw [hfields]
    cases hset : (s.bundle.get? name).bind CompiledType.attrSet? with
    | none => rfl
    | some set =>
        rcases Option.bind_eq_some_iff.1 hset with ⟨c, hget, hc⟩
        cases c with
        | attrs set' =>
            rcases get?_eq_attrs hget with ⟨d, hd, hkind, -⟩
            refine absurd ?_ hno
            rw [kind?, mem_types_iff.1 hd, Option.map_some, hkind]
        | struct l => cases hc
        | enum e => cases hc
        | flags f => cases hc
        | other kind => cases hc

/-- Schemas that compile each name to the same have codecs that agree. -/
theorem bundle_agree {s t : Schema} (h : ∀ name, s.bundle.get? name = t.bundle.get? name)
    (name : Text) : s.bundle.Agree t.bundle name := by
  refine Bundle.agree_of_get? (fun n => ?_) (h name)
  rw [fields_bundle, fields_bundle, h]

end Schema

end NetlinkSchema
