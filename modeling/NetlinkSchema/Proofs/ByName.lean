import NetlinkSchema.Proofs.RoundTrip

/-!
# Decoding by name

The types of a bundle hold what they refer to: a payload has the layout of its struct, a lowered
integer has its enum. A decoder may as well keep names only, and look up a struct, an attribute set,
an enum or a flags type in the bundle when it comes to it. Here one step of such a decoder is
defined. What it looks up and does not find is left to `beyond`, and structs and attribute sets are
left to `call`; so nothing about `call` is used but what it gives for the types and bytes that the
step descends to.

## Main definitions

* `Payload.Enters`, `MemberType.Enters`: The structs and attribute sets that decoding descends to.
* `Bundle.ThroughAttribute`, `Bundle.ThroughMember`, `Bundle.Descends`: One descent.
* `Payload.Resolved`, `MemberType.Resolved`, `Bundle.Resolved`: What types refer to is in the
  bundle.
* `Bundle.decodeStep`: One step of decoding by name.
* `Bundle.decodeAlong`: Decoding by name, by recursion along descents.

## Theorems

* `Bundle.Resolved.codec_of_descends`: No descent ends at a name that is not in the bundle.
* `Payload.decodeVia_eq`, `MemberType.decodeVia_eq`, `Bundle.decodeStep_eq`: The step agrees with
  decoding.
* `Bundle.decodeAlong_eq`: So does the recursion.
-/

namespace NetlinkSchema

section Descent

namespace Payload

/-- Decoding a payload comes to a struct or an attribute set of some name, with some bytes. -/
inductive Enters : Payload → Bytes → Text → Bytes → Prop
  | struct (l : Layout) (d : Bytes) : Enters (struct l) d l.name d
  | attrs (name : Text) (d : Bytes) : Enters (attrs name) d name d
  | array {zero : Bool} {elem : Payload} {d : Bytes} {a : Attribute} {name : Text} {d' : Bytes} :
      a ∈ (Attribute.walk d).1 → Enters elem a.payload name d' → Enters (array zero elem) d name d'
  | map {elem : Payload} {d : Bytes} {a : Attribute} {name : Text} {d' : Bytes} :
      a ∈ (Attribute.walk d).1 → Enters elem a.payload name d' → Enters (map elem) d name d'

/-- What a payload enters is no longer than the payload. -/
theorem Enters.length_le {p : Payload} {d d' : Bytes} {name : Text} (h : p.Enters d name d') :
    d'.length ≤ d.length := by
  induction h with
  | struct l d => exact Nat.le_refl _
  | attrs name d => exact Nat.le_refl _
  | array ha _ ih =>
      have hsize := Attribute.size_le_of_mem_walk ha
      omega
  | map ha _ ih =>
      have hsize := Attribute.size_le_of_mem_walk ha
      omega

end Payload

namespace MemberType

/-- A member is a struct of some name, or a number of them. -/
def Enters : MemberType → Text → Prop
  | struct n _, name => n = name
  | array _ elem, name => elem.Enters name
  | bytes _, _ | bool, _ | number _ _, _ => False

end MemberType

namespace Bundle

/-- Decoding an attribute set descends through one of its attributes. -/
def ThroughAttribute (b : Bundle) (y x : Text × Bytes) : Prop :=
  ∃ set, b.get? x.1 = some (.attrs set) ∧ ∃ f ∈ set.fields, ∃ a ∈ (Attribute.walk x.2).1,
    f.payload.Enters a.payload y.1 y.2

/-- Decoding a struct descends to a member, which is a part of its bytes. -/
def ThroughMember (b : Bundle) (y x : Text × Bytes) : Prop :=
  ∃ l, b.get? x.1 = some (.struct l) ∧ (∃ m ∈ l.members, m.2.Enters y.1) ∧ y.2 <:+: x.2

/-- Decoding `x`, a type and its bytes, descends to `y`. -/
def Descends (b : Bundle) (y x : Text × Bytes) : Prop :=
  b.ThroughAttribute y x ∨ b.ThroughMember y x

/-- A descent through an attribute leaves its header behind. -/
theorem ThroughAttribute.length_le {b : Bundle} {x y : Text × Bytes}
    (h : b.ThroughAttribute y x) : y.2.length + Attribute.headerSize ≤ x.2.length := by
  rcases h with ⟨_, _, _, _, a, ha, henters⟩
  have hsize := Attribute.size_le_of_mem_walk ha
  have hpart := henters.length_le
  omega

end Bundle

end Descent

section Step

variable (b : Bundle) (beyond call : Text → Bytes → Except WireError Value)

/-- Reads an integer whose meaning is looked up in the bundle. -/
def Lowering.readVia (num : Number) (buf : Bytes) : Lowering → Except WireError Value
  | none => .ok (num.read buf)
  | enum e =>
    match b.enum? e.name with
    | some c => .ok (c.type.decodeName (num.read buf))
    | .none => beyond e.name buf
  | bitmask e =>
    match b.enum? e.name with
    | some c => (c.decodeBitmask (num.readBits buf)).map .object
    | .none => beyond e.name buf
  | flags f =>
    match b.flags? f.name with
    | some f => .ok (.object (f.decode (num.readBits buf)))
    | .none => beyond f.name buf

/-- Decodes a payload; what it refers to is looked up in the bundle, or called. -/
def Payload.decodeVia : Payload → Bytes → Except WireError Value
  | number num lower, d => do
    num.checkLength d
    lower.readVia b beyond num d
  | string maxLength, d => Scalar.getString d maxLength
  | data, d => .ok (.bytes d)
  | bool, d => Scalar.getBool d
  | flag, d => Scalar.getFlag d
  | array zero elem, d => do
    let items ← Nested.getArray d zero fun d _ => elem.decodeVia d
    return .list items
  | map elem, d => do
    let entries ← Nested.getMap d fun d _ => elem.decodeVia d
    return .map entries
  | flagList e, d =>
    match b.enum? e.name with
    | some c => (c.decodeFlagList d).map .object
    | none => beyond e.name d
  | struct l, d => call l.name d
  | attrs name, d => call name d

/-- Decodes a member; a struct is called by its name. -/
def MemberType.decodeVia : MemberType → Bytes → Except WireError Value
  | bytes _, buf => .ok (.bytes buf)
  | bool, buf => Scalar.readBool (buf.headD 0)
  | number num lower, buf => lower.readVia b beyond num buf
  | struct name _, buf => call name buf
  | array count elem, buf => do
    let n := count.toNatClampNeg
    return .list (← (pieces (buf.length / n) n buf).mapM elem.decodeVia)

/-- Decodes the members at the start of a buffer. -/
def MemberType.decodeMembersVia (type : Text) : Members → Bytes → Except WireError Object
  | [], _ => .ok []
  | (name, t) :: rest, buf => do
    match t.decodeVia b beyond call (buf.take t.length) with
    | .error e => throw (.field type name e)
    | .ok v =>
      let others ← decodeMembersVia type rest (buf.drop t.length)
      return Object.set others name v

/-- One step of decoding by name: the type is looked up, and so is all that it refers to. -/
def Bundle.decodeStep (name : Text) (buf : Bytes) : Except WireError Value :=
  match b.get? name with
  | some (.attrs set) => do
    let obj ← Nested.getObject buf fun type =>
      (set.fields.find? (·.index == type)).map fun f => fun obj d _ =>
        match f.payload.decodeVia b beyond call d with
        | .ok v => .ok (f.store obj v)
        | .error e => .error (.field name f.name e)
    return .object obj
  | some (.struct l) => do
    l.checkLength buf
    let obj ← MemberType.decodeMembersVia b beyond call l.name l.members buf
    match buf.drop l.size.toNatClampNeg with
    | [] => return .object obj
    | tail =>
      return .object (if l.expandable then Object.set obj unparsedField (.bytes tail) else obj)
  | _ => beyond name buf

end Step

section Resolved

variable (b : Bundle)

/-- The enum or flags type of a meaning is in the bundle, with the form that is needed. -/
def Lowering.Resolved : Lowering → Prop
  | none => True
  | enum e => ∃ c, b.enum? e.name = some c ∧ c.type = e
  | bitmask e => ∃ c, b.enum? e.name = some c ∧ c.type = e ∧ c.bitmask = true
  | flags f => b.flags? f.name = some f

/-- All that a payload refers to is in the bundle. -/
def Payload.Resolved : Payload → Prop
  | number _ lower => lower.Resolved b
  | array _ elem => elem.Resolved
  | map elem => elem.Resolved
  | flagList e => ∃ c, b.enum? e.name = some c ∧ c.type = e ∧ c.flagList = true
  | struct l => b.codec? l.name = some (.struct l)
  | attrs name => b.codec? name = some (.attrs b.attrSets name)
  | string _ | data | bool | flag => True

/-- All that a member refers to is in the bundle. A struct that it contains is not expandable. -/
def MemberType.Resolved : MemberType → Prop
  | number _ lower => lower.Resolved b
  | struct name members => b.codec? name = some (.struct ⟨name, members, false⟩)
  | array _ elem => elem.Resolved
  | bytes _ | bool => True

/-- All that the types of a bundle refer to is in the bundle. -/
structure Bundle.Resolved : Prop where
  sets : ∀ name set, b.get? name = some (.attrs set) → b.attrSets.fields name = set.fields
  fields : ∀ name set, b.get? name = some (.attrs set) → ∀ f ∈ set.fields, f.payload.Resolved b
  members : ∀ name l, b.get? name = some (.struct l) → ∀ m ∈ l.members, m.2.Resolved b

variable {b}

theorem Payload.Resolved.codec_of_enters {p : Payload} {d d' : Bytes} {name : Text}
    (h : p.Resolved b) (henters : p.Enters d name d') : ∃ c, b.codec? name = some c := by
  induction henters with
  | struct l d => exact ⟨_, h⟩
  | attrs name d => exact ⟨_, h⟩
  | array _ _ ih => exact ih h
  | map _ _ ih => exact ih h

theorem MemberType.Resolved.codec_of_enters {t : MemberType} {name : Text} (h : t.Resolved b)
    (henters : t.Enters name) : ∃ c, b.codec? name = some c := by
  induction t using MemberType.inductionOn with
  | bytes count => cases henters
  | bool => cases henters
  | number num lower => cases henters
  | struct n members _ =>
      cases henters
      exact ⟨_, h⟩
  | array count elem ih => exact ih h henters

/-- What decoding descends to has a codec. -/
theorem Bundle.Resolved.codec_of_descends (h : b.Resolved) {x y : Text × Bytes}
    (hy : b.Descends y x) : ∃ c, b.codec? y.1 = some c := by
  rcases hy with ⟨set, hget, f, hf, a, -, henters⟩ | ⟨l, hget, ⟨m, hm, henters⟩, -⟩
  · exact (h.fields x.1 set hget f hf).codec_of_enters henters
  · exact (h.members x.1 l hget m hm).codec_of_enters henters

end Resolved

namespace Nested

variable {buf : Bytes}

-- Only the attributes of the walk are ever handed to the step.
theorem foldAttributes_congr {σ : Type} {init : σ}
    {step step' : σ → (a : Attribute) → a.payload.length < buf.length → Except WireError σ}
    (h : ∀ s a hlen, a ∈ (Attribute.walk buf).1 → step s a hlen = step' s a hlen) :
    foldAttributes buf init step = foldAttributes buf init step' := by
  unfold foldAttributes
  congr 2
  funext s a
  exact h s a.1 _ a.2

theorem getArray_congr {zero : Bool} {decode decode' : PayloadDecoder buf Value}
    (h : ∀ a ∈ (Attribute.walk buf).1, ∀ hlen, decode a.payload hlen = decode' a.payload hlen) :
    getArray buf zero decode = getArray buf zero decode' := by
  unfold getArray
  congr 1
  refine foldAttributes_congr fun items a hlen ha => ?_
  rw [h a ha hlen]

theorem getMap_congr {decode decode' : PayloadDecoder buf Value}
    (h : ∀ a ∈ (Attribute.walk buf).1, ∀ hlen, decode a.payload hlen = decode' a.payload hlen) :
    getMap buf decode = getMap buf decode' := by
  unfold getMap
  refine foldAttributes_congr fun entries a hlen ha => ?_
  rw [h a ha hlen]

end Nested

namespace Codec

-- The tail of a struct that is not expandable is dropped, whatever it is.
theorem decode_struct_map (name : Text) (members : Members) (buf : Bytes) :
    ((struct ⟨name, members, false⟩).decode buf).map .object
      = (MemberType.struct name members).decode buf := by
  rw [decode, Layout.decode, MemberType.decode]
  change ((MemberType.checkSize name (MemberType.membersSize members).toInt buf >>= _).map _) = _
  cases MemberType.checkSize name (MemberType.membersSize members).toInt buf with
  | error e => rfl
  | ok u =>
      simp only [ok_bind]
      cases MemberType.decodeMembers name members buf with
      | error e => rfl
      | ok obj =>
          simp only [ok_bind]
          split <;> rfl

end Codec

section Agreement

variable {b : Bundle} {beyond call : Text → Bytes → Except WireError Value}

theorem Lowering.readVia_eq {lower : Lowering} (h : lower.Resolved b) (num : Number) (buf : Bytes) :
    lower.readVia b beyond num buf = .ok (lower.read num buf) := by
  cases lower with
  | none => rfl
  | enum e =>
      rcases h with ⟨c, hc, rfl⟩
      simp only [readVia, hc, read]
  | bitmask e =>
      rcases h with ⟨c, hc, rfl, hform⟩
      simp only [readVia, hc, read_bitmask, EnumCodec.decodeBitmask, EnumCodec.require, hform,
        if_true, ok_bind, pure_eq_ok, map_ok]
  | flags f =>
      change b.flags? f.name = some f at h
      simp only [readVia, h, read_flags]

/-- Decoding a payload by name is decoding it, if what it calls is decoded. -/
theorem Payload.decodeVia_eq {p : Payload} {d : Bytes} (h : p.Resolved b)
    (hcall : ∀ name d' c, p.Enters d name d' → b.codec? name = some c →
      call name d' = (c.decode d').map .object) :
    p.decodeVia b beyond call d = p.decode b.attrSets d := by
  induction p generalizing d with
  | number num lower =>
      rw [decodeVia, decode, Lowering.readVia_eq h]
      rfl
  | string maxLength => rw [decodeVia, decode]
  | data => rw [decodeVia, decode]
  | bool => rw [decodeVia, decode]
  | flag => rw [decodeVia, decode]
  | array zero elem ih =>
      rw [decodeVia, decode]
      congr 1
      exact Nested.getArray_congr fun a ha _ =>
        ih h fun name d' c henters => hcall name d' c (.array ha henters)
  | map elem ih =>
      rw [decodeVia, decode]
      congr 1
      exact Nested.getMap_congr fun a ha _ =>
        ih h fun name d' c henters => hcall name d' c (.map ha henters)
  | flagList e =>
      rcases h with ⟨c, hc, rfl, hform⟩
      simp only [decodeVia, hc, decode, EnumCodec.decodeFlagList, EnumCodec.require, hform, if_true,
        ok_bind]
      cases c.type.decodeFlagList d with
      | error e => rfl
      | ok obj => rfl
  | struct l =>
      rw [decodeVia, hcall _ _ _ (.struct l d) h, Codec.decode, decode]
      cases l.decode d with
      | error e => rfl
      | ok obj => rfl
  | attrs name =>
      rw [decodeVia, hcall _ _ _ (.attrs name d) h, Codec.decode_attrs_map]

theorem MemberType.infix_of_mem_pieces {size count : Nat} {buf piece : Bytes}
    (h : piece ∈ pieces size count buf) : piece <:+: buf := by
  induction count generalizing buf with
  | zero => cases h
  | succ count ih =>
      rcases List.mem_cons.1 h with rfl | hrest
      · exact (List.take_prefix size buf).isInfix
      · exact (ih hrest).trans (List.drop_suffix size buf).isInfix

/-- Decoding a member by name is decoding it, if the parts of its bytes that it calls are
    decoded. -/
theorem MemberType.decodeVia_eq {t : MemberType} {buf : Bytes} (h : t.Resolved b)
    (hcall : ∀ name d c, t.Enters name → d <:+: buf → b.codec? name = some c →
      call name d = (c.decode d).map .object) :
    t.decodeVia b beyond call buf = t.decode buf := by
  induction t using MemberType.inductionOn generalizing buf with
  | bytes count => rw [decodeVia, decode]
  | bool => rw [decodeVia, decode]
  | number num lower => rw [decodeVia, decode, Lowering.readVia_eq h]
  -- The members of a struct are left to the call, so nothing is asked of them here.
  | struct name members _ =>
      rw [decodeVia, hcall name buf _ rfl (List.infix_refl buf) h, Codec.decode_struct_map]
  | array count elem ih =>
      rw [decodeVia, decode]
      rw [← mapM_attach _ elem.decode, ← mapM_attach _ (elem.decodeVia b beyond call)]
      congr 2
      funext piece
      have hinfix := infix_of_mem_pieces piece.2
      exact ih h fun name d c henters hd => hcall name d c henters (hd.trans hinfix)

theorem MemberType.decodeMembersVia_eq {type : Text} {members : Members} {buf : Bytes}
    (h : ∀ m ∈ members, m.2.Resolved b)
    (hcall : ∀ name d c, (∃ m ∈ members, m.2.Enters name) → d <:+: buf → b.codec? name = some c →
      call name d = (c.decode d).map .object) :
    decodeMembersVia b beyond call type members buf = decodeMembers type members buf := by
  induction members generalizing buf with
  | nil => rw [decodeMembersVia, decodeMembers]
  | cons m rest ih =>
      rcases m with ⟨name, t⟩
      have hhead : t.decodeVia b beyond call (buf.take t.length)
          = t.decode (buf.take t.length) := by
        refine decodeVia_eq (h _ List.mem_cons_self) fun n d c henters hd => ?_
        exact hcall n d c ⟨_, List.mem_cons_self, henters⟩
          (hd.trans (List.take_prefix t.length buf).isInfix)
      have hrest : decodeMembersVia b beyond call type rest (buf.drop t.length)
          = decodeMembers type rest (buf.drop t.length) := by
        refine ih (fun m hm => h m (List.mem_cons_of_mem _ hm)) fun n d c henters hd => ?_
        rcases henters with ⟨m, hm, henters⟩
        exact hcall n d c ⟨m, List.mem_cons_of_mem _ hm, henters⟩
          (hd.trans (List.drop_suffix t.length buf).isInfix)
      cases hdecode : t.decode (buf.take t.length) with
      | error e => simp only [decodeMembersVia, decodeMembers, hhead, hdecode]
      | ok v => simp only [decodeMembersVia, decodeMembers, hhead, hdecode, hrest]

/-- One step of decoding by name is decoding, if all that it descends to is decoded. -/
theorem Bundle.decodeStep_eq (h : b.Resolved) {name : Text} {c : Codec}
    (hc : b.codec? name = some c) {buf : Bytes}
    (hcall : ∀ y c', b.Descends y (name, buf) → b.codec? y.1 = some c' →
      call y.1 y.2 = (c'.decode y.2).map .object) :
    b.decodeStep beyond call name buf = (c.decode buf).map .object := by
  rcases codec?_eq_some hc with ⟨set, hget, rfl⟩ | ⟨l, hget, rfl⟩
  · simp only [decodeStep, hget]
    rw [Codec.decode_attrs_map, Payload.decode, h.sets name set hget]
    congr 1
    rw [Nested.getObject_eq, Nested.getObject_eq]
    refine Nested.foldAttributes_congr fun obj a _ ha => ?_
    unfold Nested.fieldStep
    beta_reduce
    cases hfind : set.fields.find? (·.index == a.type) with
    | none => rfl
    | some f =>
        have hf := List.mem_of_find?_eq_some hfind
        have hfield : f.payload.decodeVia b beyond call a.payload
            = f.payload.decode b.attrSets a.payload := by
          refine Payload.decodeVia_eq (h.fields name set hget f hf) fun n d c henters => ?_
          exact hcall (n, d) c (Or.inl ⟨set, hget, f, hf, a, ha, henters⟩)
        cases hdecode : f.payload.decode b.attrSets a.payload with
        | error e => simp only [hfield, hdecode]
        | ok v => simp only [hfield, hdecode]
  · simp only [decodeStep, hget]
    have hmembers : MemberType.decodeMembersVia b beyond call l.name l.members buf
        = MemberType.decodeMembers l.name l.members buf := by
      refine MemberType.decodeMembersVia_eq (h.members name l hget) fun n d c henters hd => ?_
      exact hcall (n, d) c (Or.inr ⟨l, hget, henters, hd⟩)
    rw [hmembers, Codec.decode, Layout.decode]
    cases l.checkLength buf with
    | error e => rfl
    | ok u =>
        simp only [ok_bind]
        cases MemberType.decodeMembers l.name l.members buf with
        | error e => rfl
        | ok obj =>
            simp only [ok_bind]
            cases buf.drop l.size.toNatClampNeg with
            | nil => rfl
            | cons x tail => rfl

open Classical in
/-- Decoding by name from descent to descent. A call that is no descent is left to `beyond`, and so
    is a name that is not found. -/
noncomputable def Bundle.decodeAlong (b : Bundle) (hwf : WellFounded b.Descends)
    (beyond : Text → Bytes → Except WireError Value) : Text × Bytes → Except WireError Value :=
  hwf.fix fun x descend => b.decodeStep beyond
    (fun name d => if h : b.Descends (name, d) x then descend (name, d) h else beyond name d)
    x.1 x.2

/-- Decoding from descent to descent is decoding: nothing is ever left to `beyond`. -/
theorem Bundle.decodeAlong_eq (h : b.Resolved) (hwf : WellFounded b.Descends) (x : Text × Bytes)
    {c : Codec} (hc : b.codec? x.1 = some c) :
    b.decodeAlong hwf beyond x = (c.decode x.2).map .object := by
  induction x using hwf.induction generalizing c with
  | h x ih =>
      rw [decodeAlong, hwf.fix_eq]
      refine decodeStep_eq h hc fun y c' hy hc' => ?_
      -- The step calls nothing but descents, so the other branch is never taken.
      rw [dif_pos hy]
      exact ih y hy hc'

end Agreement

end NetlinkSchema
