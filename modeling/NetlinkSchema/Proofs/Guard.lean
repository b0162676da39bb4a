import NetlinkSchema.Proofs.Resolution

/-!
# Guarded codecs

The codecs of a bundle hold the enums that they use, and use their derived forms as they are. A
codec may as well go through the bundle each time, where a form that was not compiled is refused.
Here the codecs are defined once more, with that guard in front of every derived form and nothing
else changed. If the forms that a codec holds are compiled, the guard never stops it, and the
guarded codec is the codec.

## Main definitions

* `Bundle.Compiles`: A form of an enum is compiled in a bundle.
* `Lowering.readGuarded`, `Lowering.toBytesGuarded`: Integers behind the guard.
* `MemberType.decodeGuarded`, `MemberType.writeGuarded`: Members of structs.
* `Field.writer`: The attributes of a field, given how one occurrence of it is encoded.
* `Payload.decodeGuarded`, `Payload.encodeGuarded`: Payloads.
* `Codec.decodeGuarded`, `Codec.encodeGuarded`, `Codec.encodeIntoGuarded`: Messages.
* `Bundle.Ready`: All forms that the codecs of a bundle hold are compiled.

## Theorems

* `MemberType.decodeGuarded_eq`, `MemberType.writeGuarded_eq`: Members are not stopped.
* `Payload.decodeGuarded_eq`, `Payload.encodeGuarded_eq`: Nor are payloads.
* `Bundle.Ready.decodeGuarded_eq`, `Bundle.Ready.encodeGuarded_eq`: Nor are messages.
-/

namespace NetlinkSchema

section Codecs

variable (b : Bundle)

/-- The enum of a bundle by which a form is guarded. One that is not there has no forms. -/
def Bundle.guardOf (e : EnumType) : EnumCodec := (b.enum? e.name).getD ⟨e, false, false⟩

namespace Lowering

/-- Decodes the first bytes of a buffer, a bitmask behind the guard. -/
def readGuarded (num : Number) (buf : Bytes) : Lowering → Except WireError Value
  | bitmask e => do
    let obj ← (b.guardOf e).decodeBitmask (num.readBits buf)
    return .object obj
  | l => .ok (l.read num buf)

/-- Encodes a value, a bitmask behind the guard. -/
def toBytesGuarded (num : Number) (v : Value) : Lowering → Except WireError Bytes
  | bitmask e => objectBytes num (asFlags e.name) v (b.guardOf e).encodeBitmask
  | l => l.toBytes num v

end Lowering

namespace MemberType

mutual

/-- Decodes the bytes of a member. -/
def decodeGuarded : MemberType → Bytes → Except WireError Value
  | bytes _, buf => .ok (.bytes buf)
  | bool, buf => Scalar.readBool (buf.headD 0)
  | number num lower, buf => lower.readGuarded b num buf
  | struct name members, buf => do
    checkSize name (membersSize members).toInt buf
    return .object (← decodeMembersGuarded name members buf)
  | array count elem, buf => do
    let n := count.toNatClampNeg
    return .list (← (pieces (buf.length / n) n buf).mapM elem.decodeGuarded)

/-- Decodes the members at the start of a buffer. -/
def decodeMembersGuarded (type : Text) : List (Text × MemberType) → Bytes → Except WireError Object
  | [], _ => .ok []
  | (name, t) :: rest, buf => do
    match t.decodeGuarded (buf.take t.length) with
    | .error e => throw (.field type name e)
    | .ok v =>
      let others ← decodeMembersGuarded type rest (buf.drop t.length)
      return Object.set others name v

end

mutual

/-- Writes a value over the bytes of a member. -/
def writeGuarded : MemberType → Value → Bytes → Written
  | bytes count, v, buf => (bytes count).write v buf
  | bool, v, buf => bool.write v buf
  | number num lower, v, buf =>
    match lower.toBytesGuarded b num v with
    | .ok data => (Bytes.overwrite buf data, none)
    | .error e => (buf, some e)
  | struct name members, v, buf =>
    match v with
    | .object obj =>
      match checkSize name (membersSize members).toInt buf with
      | .error e => (buf, some e)
      | .ok () =>
        match firstUndeclared? obj (members.map (·.1)) with
        | some key => (buf, some (.field name key .undeclared))
        | none => writeMembersGuarded name members obj buf
    | _ => (buf, some (.unexpectedType name v.typeName))
  | array count elem, v, buf =>
    match v.items? with
    | none => (buf, some (.unexpectedType "array" v.typeName))
    | some items =>
      if items.length = count.toInt then
        writeItems (buf.length / items.length) elem.writeGuarded items buf
      else (buf, some (.bound .count count.toInt items.length))

/-- Writes the members of an object at the start of a buffer. -/
def writeMembersGuarded (type : Text) : List (Text × MemberType) → Object → Bytes → Written
  | [], _, buf => (buf, none)
  | (name, t) :: rest, obj, buf =>
    let piece := buf.take t.length
    let written := match Object.get obj name with
      | .null => (Bytes.zeros piece.length, none)
      | v => t.writeGuarded v piece
    match written with
    | (piece', some e) => (piece' ++ buf.drop t.length, some (.field type name e))
    | (piece', none) =>
      let (tail, e) := writeMembersGuarded type rest obj (buf.drop t.length)
      (piece' ++ tail, e)

end

end MemberType

namespace Layout

/-- Decodes a struct. -/
def decodeGuarded (l : Layout) (buf : Bytes) : Except WireError Object := do
  l.checkLength buf
  let obj ← MemberType.decodeMembersGuarded b l.name l.members buf
  match buf.drop l.size.toNatClampNeg with
  | [] => return obj
  | tail => return if l.expandable then Object.set obj unparsedField (.bytes tail) else obj

/-- What an object writes into a buffer that has been checked. -/
def writeCheckedGuarded (l : Layout) (obj : Object) (tail buf : Bytes) : MemberType.Written :=
  match MemberType.firstUndeclared? obj l.declaredKeys with
  | some key => (buf, some (.field l.name key .undeclared))
  | none =>
    let known := buf.take l.size.toNatClampNeg
    match MemberType.writeMembersGuarded b l.name l.members obj known with
    | (known', some e) => (known' ++ buf.drop l.size.toNatClampNeg, some e)
    | (known', none) => (known' ++ tail, none)

/-- Encodes an object into a buffer. -/
def encodeIntoGuarded (l : Layout) (obj : Object) (buf : Bytes) : MemberType.Written :=
  match l.tail obj with
  | .error e => (buf, some e)
  | .ok tail =>
    let want := l.size.toInt + tail.length
    if buf.length = want then l.writeCheckedGuarded b obj tail buf
    else (buf, some (.within l.name (.bound .length want buf.length)))

/-- Encodes an object. -/
def encodeGuarded (l : Layout) (obj : Object) : Except WireError Bytes := do
  let tail ← l.tail obj
  match l.encodeIntoGuarded b obj (Bytes.zeros (l.size.toNatClampNeg + tail.length)) with
  | (buf, none) => return buf
  | (_, some e) => throw e

end Layout

/-- Writes a field of an object, given how one occurrence of it is encoded. -/
def Field.writer (type : Text) (obj : Object) (f : Field)
    (encode : Nested.ItemEncoder (.object obj)) : Nested.FieldWriter obj :=
  let put (x : Value) (hx : x.depth < (Value.object obj).depth) : Write Unit :=
    if f.payload.omits x then pure ()
    else Write.mapError (.field type f.name) do
      let data ← Write.lift (encode x hx)
      Write.put f.index data
  ⟨f.name, fun x hx =>
    if f.repeated then
      match hi : x.items? with
      | none => throw (.field type f.name (.unexpectedType "list of repeated values" x.typeName))
      | some items => items.attach.forM fun item =>
          put item.1 (Nat.lt_trans (Value.depth_lt_of_mem_items hi item.2) hx)
    else put x hx⟩

namespace Payload

variable (sets : AttrSets)

/-- Decodes a payload. -/
def decodeGuarded (p : Payload) (data : Bytes) : Except WireError Value :=
  match p with
  | number num lower => do
    num.checkLength data
    lower.readGuarded b num data
  | string maxLength => Scalar.getString data maxLength
  | .data => .ok (.bytes data)
  | bool => Scalar.getBool data
  | flag => Scalar.getFlag data
  | array zero elem => do
    let items ← Nested.getArray data zero fun d _ => elem.decodeGuarded d
    return .list items
  | map elem => do
    let entries ← Nested.getMap data fun d _ => elem.decodeGuarded d
    return .map entries
  | flagList e => do
    let obj ← (b.guardOf e).decodeFlagList data
    return .object obj
  | struct l => do
    let obj ← l.decodeGuarded b data
    return .object obj
  | attrs name => do
    let obj ← Nested.getObject data fun type =>
      ((sets.fields name).find? (·.index == type)).map fun f => fun obj d _ =>
        match f.payload.decodeGuarded d with
        | .ok v => .ok (f.store obj v)
        | .error e => .error (.field name f.name e)
    return .object obj
termination_by data.length

/-- Encodes a value. -/
def encodeGuarded (p : Payload) (v : Value) : Except WireError Bytes :=
  match p with
  | number num lower => lower.toBytesGuarded b num v
  | string maxLength => Scalar.putString v maxLength
  | .data => Scalar.putData v
  | bool => Scalar.putBool v
  | flag => Scalar.putFlag v
  | array zero elem => Write.toBytes (Nested.putArray v zero fun item _ => elem.encodeGuarded item)
  | map elem => Write.toBytes (Nested.putMap v fun item _ => elem.encodeGuarded item)
  | flagList e =>
    match v with
    | .object obj => (b.guardOf e).encodeFlagList obj
    | _ => .error (.unexpectedType (asFlags e.name) v.typeName)
  | struct l =>
    match v with
    | .object obj => l.encodeGuarded b obj
    | _ => .error (.unexpectedType l.name v.typeName)
  | attrs name =>
    match v with
    | .object obj =>
      Write.toBytes (Nested.putObject obj ((sets.fields name).map fun f =>
        f.writer name obj fun x _ => f.payload.encodeGuarded x))
    | _ => .error (.unexpectedType name v.typeName)
termination_by v.depth

end Payload

namespace Codec

/-- Decodes a message. -/
def decodeGuarded : Codec → Bytes → Except WireError Object
  | attrs sets name, buf => do
    match ← (Payload.attrs name).decodeGuarded b sets buf with
    | .object obj => return obj
    | _ => return []
  | struct layout, buf => layout.decodeGuarded b buf

/-- Encodes a message. -/
def encodeGuarded : Codec → Object → Except WireError Bytes
  | attrs sets name, obj => (Payload.attrs name).encodeGuarded b sets (.object obj)
  | struct layout, obj => layout.encodeGuarded b obj

/-- Encodes a struct into a buffer. -/
def encodeIntoGuarded : Codec → Object → Bytes → MemberType.Written
  | attrs _ name, _, buf => (buf, some (.notStruct name))
  | struct layout, obj, buf => layout.encodeIntoGuarded b obj buf

end Codec

end Codecs

section Ready

variable (b : Bundle)

/-- An enum is the one of its name in a bundle, and a form of it is compiled. -/
def Bundle.Compiles (e : EnumType) (variant : Variant) : Prop :=
  ∃ c, b.enum? e.name = some c ∧ c.type = e ∧ c.require variant = .ok ()

/-- The form that the meaning of an integer uses is compiled. -/
def Lowering.Ready : Lowering → Prop
  | bitmask e => b.Compiles e .bitmask
  | none | enum _ | flags _ => True

/-- The forms that a member uses are compiled, be it in a struct within it. -/
inductive MemberType.Ready : MemberType → Prop
  | bytes (count : Int64) : Ready (.bytes count)
  | bool : Ready .bool
  | number (num : Number) {lower : Lowering} (h : lower.Ready b) : Ready (.number num lower)
  | struct (name : Text) {members : Members} (h : ∀ m ∈ members, Ready m.2) :
      Ready (.struct name members)
  | array (count : Int64) {elem : MemberType} (h : Ready elem) : Ready (.array count elem)

/-- The forms that a payload uses are compiled. -/
def Payload.Ready : Payload → Prop
  | number _ lower => lower.Ready b
  | array _ elem => elem.Ready
  | map elem => elem.Ready
  | flagList e => b.Compiles e .flagList
  | struct l => ∀ m ∈ l.members, m.2.Ready b
  | string _ | data | bool | flag | attrs _ => True

/-- The forms that the codecs of a bundle use are compiled. -/
structure Bundle.Ready : Prop where
  fields : ∀ name, ∀ f ∈ b.attrSets.fields name, f.payload.Ready b
  members : ∀ name l, b.codec? name = some (.struct l) → ∀ m ∈ l.members, m.2.Ready b

end Ready

section Agreement

variable {b : Bundle}

theorem Bundle.Compiles.guardOf_eq {e : EnumType} {variant : Variant} (h : b.Compiles e variant) :
    (b.guardOf e).type = e ∧ (b.guardOf e).require variant = .ok () := by
  rcases h with ⟨c, hc, htype, hform⟩
  rw [guardOf, hc]
  exact ⟨htype, hform⟩

namespace Lowering

variable {lower : Lowering}

theorem readGuarded_eq (h : lower.Ready b) (num : Number) (buf : Bytes) :
    lower.readGuarded b num buf = .ok (lower.read num buf) := by
  cases lower with
  | bitmask e =>
      rcases h.guardOf_eq with ⟨htype, hform⟩
      rw [readGuarded, EnumCodec.decodeBitmask, hform, htype, read_bitmask]
      rfl
  | none => rfl
  | enum e => rfl
  | flags f => rfl

theorem toBytesGuarded_eq (h : lower.Ready b) (num : Number) (v : Value) :
    lower.toBytesGuarded b num v = lower.toBytes num v := by
  cases lower with
  | bitmask e =>
      rcases h.guardOf_eq with ⟨htype, hform⟩
      have hencode : (b.guardOf e).encodeBitmask = e.encodeBitmask := by
        funext obj
        rw [EnumCodec.encodeBitmask, hform, htype]
        rfl
      rw [toBytesGuarded, toBytes, hencode]
  | none => rfl
  | enum e => rfl
  | flags f => rfl

end Lowering

namespace MemberType

theorem decodeMembersGuarded_eq {type : Text} {members : Members} {buf : Bytes}
    (h : ∀ m ∈ members, ∀ d, m.2.decodeGuarded b d = m.2.decode d) :
    decodeMembersGuarded b type members buf = decodeMembers type members buf := by
  induction members generalizing buf with
  | nil => rw [decodeMembersGuarded, decodeMembers]
  | cons m rest ih =>
      rcases m with ⟨name, t⟩
      have hhead : t.decodeGuarded b (buf.take t.length) = t.decode (buf.take t.length) :=
        h (name, t) List.mem_cons_self _
      rewrite [decodeMembersGuarded, decodeMembers, hhead,
        ih fun m hm => h m (List.mem_cons_of_mem _ hm)]
      rfl

/-- The guard does not stop the decoding of a member. -/
theorem decodeGuarded_eq {t : MemberType} (h : t.Ready b) (buf : Bytes) :
    t.decodeGuarded b buf = t.decode buf := by
  induction h generalizing buf with
  | bytes count => rw [decodeGuarded, decode]
  | bool => rw [decodeGuarded, decode]
  | number num hlower => rw [decodeGuarded, decode, Lowering.readGuarded_eq hlower]
  | struct name _ ih => rw [decodeGuarded, decode, decodeMembersGuarded_eq ih]
  | array count _ ih => rw [decodeGuarded, decode, funext ih]

theorem writeMembersGuarded_eq {type : Text} {members : Members} {obj : Object} {buf : Bytes}
    (h : ∀ m ∈ members, ∀ v d, m.2.writeGuarded b v d = m.2.write v d) :
    writeMembersGuarded b type members obj buf = writeMembers type members obj buf := by
  induction members generalizing buf with
  | nil => rw [writeMembersGuarded, writeMembers]
  | cons m rest ih =>
      rcases m with ⟨name, t⟩
      -- As functions, because it depends on the object which value is written, if any.
      have hhead : t.writeGuarded b = t.write :=
        funext fun v => funext fun d => h (name, t) List.mem_cons_self v d
      rewrite [writeMembersGuarded, writeMembers, hhead,
        ih fun m hm => h m (List.mem_cons_of_mem _ hm)]
      rfl

/-- Nor the encoding. -/
theorem writeGuarded_eq {t : MemberType} (h : t.Ready b) (v : Value) (buf : Bytes) :
    t.writeGuarded b v buf = t.write v buf := by
  induction h generalizing v buf with
  | bytes count => rw [writeGuarded]
  | bool => rw [writeGuarded]
  | number num hlower =>
      rewrite [writeGuarded, write, Lowering.toBytesGuarded_eq hlower]
      rfl
  | struct name _ ih =>
      cases v with
      | object obj =>
          rewrite [writeGuarded, write, writeMembersGuarded_eq ih]
          rfl
      | _ => rfl
  | @array count elem _ ih =>
      have helem : elem.writeGuarded b = elem.write := funext fun v => funext fun d => ih v d
      rewrite [writeGuarded, write, helem]
      rfl

end MemberType

namespace Layout

variable {l : Layout}

theorem decodeGuarded_eq (h : ∀ m ∈ l.members, m.2.Ready b) (buf : Bytes) :
    l.decodeGuarded b buf = l.decode buf := by
  rewrite [decodeGuarded, decode, MemberType.decodeMembersGuarded_eq fun m hm =>
    MemberType.decodeGuarded_eq (h m hm)]
  rfl

theorem encodeIntoGuarded_eq (h : ∀ m ∈ l.members, m.2.Ready b) (obj : Object) (buf : Bytes) :
    l.encodeIntoGuarded b obj buf = l.encodeInto obj buf := by
  have hmembers : MemberType.writeMembersGuarded b l.name l.members obj
      = MemberType.writeMembers l.name l.members obj :=
    funext fun _ => MemberType.writeMembersGuarded_eq fun m hm =>
      MemberType.writeGuarded_eq (h m hm)
  have hchecked : l.writeCheckedGuarded b obj = l.writeChecked obj := by
    funext tail d
    rewrite [writeCheckedGuarded, writeChecked, hmembers]
    rfl
  rewrite [encodeIntoGuarded, encodeInto, hchecked]
  rfl

theorem encodeGuarded_eq (h : ∀ m ∈ l.members, m.2.Ready b) (obj : Object) :
    l.encodeGuarded b obj = l.encode obj := by
  have hinto : l.encodeIntoGuarded b obj = l.encodeInto obj := funext (encodeIntoGuarded_eq h obj)
  rewrite [encodeGuarded, encode, hinto]
  rfl

end Layout

namespace Payload

variable {sets : AttrSets}

-- The induction is on the length of the payload, as for the codec itself.
/-- The guard does not stop the decoding of a payload. -/
theorem decodeGuarded_eq (hsets : ∀ name, ∀ f ∈ sets.fields name, f.payload.Ready b) {p : Payload}
    (h : p.Ready b) (data : Bytes) : p.decodeGuarded b sets data = p.decode sets data := by
  induction hn : data.length using Nat.strong_induction_on generalizing p data with
  | h n ih =>
    subst hn
    have hnested : ∀ q : Payload, q.Ready b →
        (fun (d : Bytes) (_ : d.length < data.length) => q.decodeGuarded b sets d)
          = fun d _ => q.decode sets d := by
      intro q hq
      funext d hd
      exact ih d.length hd hq d rfl
    cases p with
    | number num lower =>
        rw [decodeGuarded, decode, Lowering.readGuarded_eq h]
        rfl
    | string maxLength => rw [decodeGuarded, decode]
    | data => rw [decodeGuarded, decode]
    | bool => rw [decodeGuarded, decode]
    | flag => rw [decodeGuarded, decode]
    | array zero elem => rw [decodeGuarded, decode, hnested elem h]
    | map elem => rw [decodeGuarded, decode, hnested elem h]
    | flagList e =>
        rcases Bundle.Compiles.guardOf_eq h with ⟨htype, hform⟩
        rw [decodeGuarded, decode, EnumCodec.decodeFlagList, hform, htype]
        rfl
    | struct l => rw [decodeGuarded, decode, Layout.decodeGuarded_eq h]
    | attrs name =>
        rw [decodeGuarded, decode]
        congr 2
        funext type
        cases hfind : (sets.fields name).find? (·.index == type) with
        | none => rfl
        | some f =>
            -- The field is one of the set, so the forms that it uses are compiled.
            have hf := hsets name f (List.mem_of_find?_eq_some hfind)
            simp only [Option.map_some, Option.some.injEq]
            funext obj d hd
            rewrite [ih d.length hd hf d rfl]
            rfl

theorem encode_attrs_writer (name : Text) (obj : Object) :
    (attrs name).encode sets (.object obj)
      = Write.toBytes (Nested.putObject obj ((sets.fields name).map fun f =>
          f.writer name obj fun x _ => f.payload.encode sets x)) := by
  rw [encode]
  rfl

-- The induction is on the depth of the value, as for the codec itself.
/-- Nor the encoding. -/
theorem encodeGuarded_eq (hsets : ∀ name, ∀ f ∈ sets.fields name, f.payload.Ready b) {p : Payload}
    (h : p.Ready b) (v : Value) : p.encodeGuarded b sets v = p.encode sets v := by
  induction hn : v.depth using Nat.strong_induction_on generalizing p v with
  | h n ih =>
    subst hn
    have hnested : ∀ q : Payload, q.Ready b →
        (fun (x : Value) (_ : x.depth < v.depth) => q.encodeGuarded b sets x)
          = fun x _ => q.encode sets x := by
      intro q hq
      funext x hx
      exact ih x.depth hx hq x rfl
    cases p with
    | number num lower => rw [encodeGuarded, encode, Lowering.toBytesGuarded_eq h]
    | string maxLength => rw [encodeGuarded, encode]
    | data => rw [encodeGuarded, encode]
    | bool => rw [encodeGuarded, encode]
    | flag => rw [encodeGuarded, encode]
    | array zero elem => rw [encodeGuarded, encode, hnested elem h]
    | map elem => rw [encodeGuarded, encode, hnested elem h]
    | flagList e =>
        rcases Bundle.Compiles.guardOf_eq h with ⟨htype, hform⟩
        cases v with
        | object obj =>
            rewrite [encodeGuarded, encode, EnumCodec.encodeFlagList, hform, htype]
            rfl
        | _ => simp only [encodeGuarded, encode]
    | struct l =>
        cases v with
        | object obj => rw [encodeGuarded, encode, Layout.encodeGuarded_eq h]
        | _ => simp only [encodeGuarded, encode]
    | attrs name =>
        cases v with
        | object obj =>
            rw [encodeGuarded, encode_attrs_writer]
            congr 2
            refine List.map_congr_left fun f hf => ?_
            rw [hnested f.payload (hsets name f hf)]
        | _ => simp only [encodeGuarded, encode]

end Payload

namespace Bundle.Ready

variable {name : Text} {c : Codec}

/-- The guard does not stop the decoding of a message. -/
theorem decodeGuarded_eq (h : b.Ready) (hc : b.codec? name = some c) (buf : Bytes) :
    c.decodeGuarded b buf = c.decode buf := by
  rcases codec?_eq_some hc with ⟨set, -, rfl⟩ | ⟨l, -, rfl⟩
  · have hset : (Payload.attrs name).Ready b := trivial
    rewrite [Codec.decodeGuarded, Codec.decode, Payload.decodeGuarded_eq h.fields hset]
    rfl
  · exact Layout.decodeGuarded_eq (h.members name l hc) buf

/-- Nor the encoding. -/
theorem encodeGuarded_eq (h : b.Ready) (hc : b.codec? name = some c) (obj : Object) :
    c.encodeGuarded b obj = c.encode obj := by
  rcases codec?_eq_some hc with ⟨set, -, rfl⟩ | ⟨l, -, rfl⟩
  · have hset : (Payload.attrs name).Ready b := trivial
    exact Payload.encodeGuarded_eq h.fields hset (.object obj)
  · exact Layout.encodeGuarded_eq (h.members name l hc) obj

theorem encodeIntoGuarded_eq (h : b.Ready) (hc : b.codec? name = some c) (obj : Object)
    (buf : Bytes) : c.encodeIntoGuarded b obj buf = c.encodeInto obj buf := by
  rcases codec?_eq_some hc with ⟨set, -, rfl⟩ | ⟨l, -, rfl⟩
  · rfl
  · exact Layout.encodeIntoGuarded_eq (h.members name l hc) obj buf

end Bundle.Ready

end Agreement

end NetlinkSchema
