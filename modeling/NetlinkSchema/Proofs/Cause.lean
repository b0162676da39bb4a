import NetlinkSchema.Bundle
import NetlinkSchema.Proofs.Layout

/-!
# Causes of errors

Why decoding or encoding can fail. The cause of an error is what is left without the places that
were put around it, so it is enough to look at the steps that make an error: all others pass on the
errors of their parts, with a place at most. A message can have a wrong length or number, a string
without an end, a byte that is no boolean, or a flag that is not expected. A value can be of the
wrong type or out of range, or have keys or names that are not declared.

## Main definitions

* `WireError.OfMessage`, `WireError.OfValue`: What can be wrong with a message, and with a value.
* `FailsBy`: A computation fails by causes of a kind only.

## Theorems

* `FailsBy.bind`, `FailsBy.mapM`, `FailsBy.foldlM`: What is passed on by steps in a row.
* `Payload.decode_failsBy`, `Payload.encode_failsBy`: The codecs of payloads.
* `Codec.decode_failsBy`, `Codec.encode_failsBy`, `Codec.encodeInto_failsBy`: Those of messages.
-/

namespace NetlinkSchema

namespace WireError

/-- What can be wrong with a message. -/
def OfMessage : WireError → Prop
  | bound _ _ _ | notTerminated | invalidBool | netByteOrder => True
  | _ => False

/-- What can be wrong with a value. -/
def OfValue : WireError → Prop
  | bound _ _ _ | undeclared | undeclaredKey _ | unknownName _ | wrongType => True
  | unexpectedType _ _ | outOfRange _ _ => True
  | _ => False

end WireError

open WireError

/-- The error of a computation, if there is one, has a cause of a kind. -/
def FailsBy {α : Type} (P : WireError → Prop) (x : Except WireError α) : Prop :=
  ∀ e, x = .error e → P e.cause

namespace FailsBy

variable {P : WireError → Prop} {α β σ : Type} {x : Except WireError α}

theorem ok (a : α) : FailsBy P (.ok a) := by
  intro e h
  cases h

theorem error {e : WireError} (h : P e.cause) : FailsBy P (.error e : Except WireError α) := by
  intro e' h'
  cases h'
  exact h

theorem bind {f : α → Except WireError β} (h : FailsBy P x) (hf : ∀ a, FailsBy P (f a)) :
    FailsBy P (x >>= f) := by
  cases x with
  | error e => exact error (h e rfl)
  | ok a => exact hf a

theorem mapM {f : α → Except WireError β} {xs : List α} (h : ∀ x ∈ xs, FailsBy P (f x)) :
    FailsBy P (xs.mapM f) := by
  induction xs with
  | nil => exact ok []
  | cons x xs ih =>
      rw [List.mapM_cons]
      refine (h x List.mem_cons_self).bind fun y => ?_
      exact (ih fun z hz => h z (List.mem_cons_of_mem _ hz)).bind fun ys => ok (y :: ys)

theorem foldlM {step : σ → α → Except WireError σ} {xs : List α} (init : σ)
    (h : ∀ x ∈ xs, ∀ s, FailsBy P (step s x)) : FailsBy P (xs.foldlM step init) := by
  induction xs generalizing init with
  | nil => exact ok init
  | cons x xs ih =>
      rw [List.foldlM_cons]
      refine (h x List.mem_cons_self init).bind fun s => ?_
      exact ih s fun y hy => h y (List.mem_cons_of_mem _ hy)

end FailsBy

section Bounds

variable {P : WireError → Prop} (hP : ∀ what want got, P (.bound what want got))

include hP

theorem Scalar.checkMaxLength_failsBy (maxLength : Int64) (length : Nat) :
    FailsBy P (checkMaxLength maxLength length) := by
  unfold checkMaxLength
  split
  · exact .error (hP _ _ _)
  · exact .ok _

theorem MemberType.checkSize_failsBy (name : Text) (want : Int) (buf : Bytes) :
    FailsBy P (checkSize name want buf) := by
  unfold checkSize
  split
  · exact .ok _
  · exact .error (hP _ _ _)

end Bounds

section Messages

theorem ofMessage_bound (what : Bound) (want got : Int) : OfMessage (.bound what want got) :=
  trivial

theorem Number.checkLength_failsBy (num : Number) (d : Bytes) :
    FailsBy OfMessage (num.checkLength d) := by
  unfold checkLength
  split
  · exact .ok _
  · exact .error trivial

namespace Scalar

theorem getString_failsBy (d : Bytes) (maxLength : Int64) :
    FailsBy OfMessage (getString d maxLength) := by
  refine (checkMaxLength_failsBy ofMessage_bound maxLength d.length).bind fun _ => ?_
  split
  · exact .ok _
  · exact .error trivial

theorem readBool_failsBy (x : UInt8) : FailsBy OfMessage (readBool x) := by
  unfold readBool
  split
  · exact .ok _
  split
  · exact .ok _
  · exact .error trivial

theorem getBool_failsBy (d : Bytes) : FailsBy OfMessage (getBool d) := by
  unfold getBool
  split
  · exact readBool_failsBy _
  · exact .error trivial

theorem getFlag_failsBy (d : Bytes) : FailsBy OfMessage (getFlag d) := by
  unfold getFlag
  split
  · exact .ok _
  · exact .error trivial

end Scalar

theorem Attribute.parse_failsBy (buf : Bytes) : FailsBy OfMessage (parse buf) := by
  unfold parse
  split
  · dsimp only
    split
    · exact .error trivial
    · exact .ok _
  · exact .error trivial

/-- A walk ends early for a fault of the message. -/
theorem Attribute.ofMessage_of_walk {buf : Bytes} {e : WireError} (h : (walk buf).2 = some e) :
    e.cause.OfMessage := by
  fun_induction walk buf with
  | case1 => cases h
  | case2 buf _ e' hparse =>
      cases h
      exact parse_failsBy buf _ hparse
  | case3 buf _ a length hparse rest e' hwalk ih =>
      rw [hwalk] at ih
      exact ih h

namespace Nested

variable {buf : Bytes}

theorem foldAttributes_failsBy {σ : Type} {init : σ}
    {step : σ → (a : Attribute) → a.payload.length < buf.length → Except WireError σ}
    (h : ∀ s a hlen, FailsBy OfMessage (step s a hlen)) :
    FailsBy OfMessage (foldAttributes buf init step) := by
  unfold foldAttributes
  refine (FailsBy.foldlM init fun a _ s => h s a.1 _).bind fun s => ?_
  cases hwalk : (Attribute.walk buf).2 with
  | none => exact .ok s
  | some e => exact .error (Attribute.ofMessage_of_walk hwalk)

theorem getObject_failsBy {fields : UInt16 → Option (Object → PayloadDecoder buf Object)}
    (h : ∀ type decode, fields type = some decode → ∀ obj d hd,
      FailsBy OfMessage (decode obj d hd)) : FailsBy OfMessage (getObject buf fields) := by
  unfold getObject
  refine foldAttributes_failsBy fun obj a hlen => ?_
  -- An attribute that is not declared is skipped, whatever it holds.
  split
  · exact .ok obj
  · rename_i decode hdecode
    split
    · exact .error trivial
    · exact h a.type decode hdecode obj a.payload hlen

theorem getArray_failsBy {zero : Bool} {decode : PayloadDecoder buf Value}
    (h : ∀ d hd, FailsBy OfMessage (decode d hd)) :
    FailsBy OfMessage (getArray buf zero decode) := by
  unfold getArray
  refine (foldAttributes_failsBy fun items a hlen => ?_).bind fun _ => .ok _
  dsimp only
  split
  · exact .error trivial
  split
  · exact .error trivial
  cases hdecode : decode a.payload hlen with
  | ok item => exact .ok _
  | error e => exact .error (h _ hlen e hdecode)

theorem getMap_failsBy {decode : PayloadDecoder buf Value}
    (h : ∀ d hd, FailsBy OfMessage (decode d hd)) : FailsBy OfMessage (getMap buf decode) := by
  unfold getMap
  refine foldAttributes_failsBy fun entries a hlen => ?_
  split
  · exact .error trivial
  cases hdecode : decode a.payload hlen with
  | ok item => exact .ok _
  | error e => exact .error (h _ hlen e hdecode)

end Nested

theorem EnumType.decodeFlagList_failsBy (e : EnumType) (buf : Bytes) :
    FailsBy OfMessage (e.decodeFlagList buf) := by
  refine Nested.getObject_failsBy fun type decode hdecode obj d _ => ?_
  rcases Option.map_eq_some_iff.1 hdecode with ⟨field, -, rfl⟩
  beta_reduce
  cases hflag : Scalar.getFlag d with
  | ok v => exact .ok _
  | error err => exact .error (Scalar.getFlag_failsBy d err hflag)

namespace MemberType

theorem decodeMembers_failsBy {type : Text} {members : Members} {buf : Bytes}
    (h : ∀ m ∈ members, ∀ d, FailsBy OfMessage (m.2.decode d)) :
    FailsBy OfMessage (decodeMembers type members buf) := by
  induction members generalizing buf with
  | nil =>
      rw [decodeMembers]
      exact .ok _
  | cons m rest ih =>
      rcases m with ⟨name, t⟩
      have hhead : FailsBy OfMessage (t.decode (buf.take t.length)) :=
        h (name, t) List.mem_cons_self _
      rw [decodeMembers]
      cases hdecode : t.decode (buf.take t.length) with
      | error e => exact .error (hhead e hdecode)
      | ok v => exact (ih fun m hm => h m (List.mem_cons_of_mem _ hm)).bind fun _ => .ok _

theorem decode_failsBy (t : MemberType) (buf : Bytes) : FailsBy OfMessage (t.decode buf) := by
  induction t using MemberType.inductionOn generalizing buf with
  | bytes count =>
      rw [decode]
      exact .ok _
  | bool =>
      rw [decode]
      exact Scalar.readBool_failsBy _
  | number num lower =>
      rw [decode]
      exact .ok _
  | struct name members ih =>
      rw [decode]
      refine (checkSize_failsBy ofMessage_bound name _ buf).bind fun _ => ?_
      exact (decodeMembers_failsBy ih).bind fun _ => .ok _
  | array count elem ih =>
      rw [decode]
      exact (FailsBy.mapM fun piece _ => ih piece).bind fun _ => .ok _

end MemberType

theorem Layout.decode_failsBy (l : Layout) (buf : Bytes) : FailsBy OfMessage (l.decode buf) := by
  have hlength : FailsBy OfMessage (l.checkLength buf) := by
    unfold checkLength
    dsimp only
    split
    · split
      · exact .error trivial
      · exact .ok _
    · exact MemberType.checkSize_failsBy ofMessage_bound _ _ _
  rw [decode]
  refine hlength.bind fun _ => ?_
  refine (MemberType.decodeMembers_failsBy fun m _ d => m.2.decode_failsBy d).bind fun obj => ?_
  split
  · exact .ok _
  · exact .ok _

/-- Decoding a payload fails for a fault of the message. -/
theorem Payload.decode_failsBy (sets : AttrSets) (p : Payload) (data : Bytes) :
    FailsBy OfMessage (p.decode sets data) := by
  -- Attribute sets may contain themselves, so the induction is on the length of the payload.
  induction hn : data.length using Nat.strong_induction_on generalizing p data with
  | h n ih =>
    subst hn
    have hnested : ∀ (q : Payload) (d : Bytes), d.length < data.length →
        FailsBy OfMessage (q.decode sets d) := fun q d hd => ih d.length hd q d rfl
    cases p with
    | number num lower =>
        rw [decode]
        exact (num.checkLength_failsBy data).bind fun _ => .ok _
    | string maxLength =>
        rw [decode]
        exact Scalar.getString_failsBy data maxLength
    | data =>
        rw [decode]
        exact .ok _
    | bool =>
        rw [decode]
        exact Scalar.getBool_failsBy data
    | flag =>
        rw [decode]
        exact Scalar.getFlag_failsBy data
    | array zero elem =>
        rw [decode]
        exact (Nested.getArray_failsBy (hnested elem)).bind fun _ => .ok _
    | map elem =>
        rw [decode]
        exact (Nested.getMap_failsBy (hnested elem)).bind fun _ => .ok _
    | flagList e =>
        rw [decode]
        exact (e.decodeFlagList_failsBy data).bind fun _ => .ok _
    | struct l =>
        rw [decode]
        exact (l.decode_failsBy data).bind fun _ => .ok _
    | attrs name =>
        rw [decode]
        refine (Nested.getObject_failsBy fun type read hread obj d hd => ?_).bind fun _ => .ok _
        rcases Option.map_eq_some_iff.1 hread with ⟨f, -, rfl⟩
        beta_reduce
        cases hdecode : f.payload.decode sets d with
        | ok v => exact .ok _
        | error e => exact .error (hnested f.payload d hd e hdecode)

end Messages

section Values

theorem ofValue_bound (what : Bound) (want got : Int) : OfValue (.bound what want got) := trivial

namespace Number

theorem checkBits_failsBy (num : Number) (bits : UInt64) :
    FailsBy OfValue (num.checkBits bits) := by
  unfold checkBits
  split
  · exact .ok _
  · exact .error trivial

theorem unsignedBits_failsBy (num : Number) (x : UInt64) :
    FailsBy OfValue (num.unsignedBits x) := by
  unfold unsignedBits
  split
  · exact .ok _
  · exact .error trivial

theorem signedBits_failsBy (num : Number) (x : Int64) : FailsBy OfValue (num.signedBits x) := by
  unfold signedBits
  split
  · split
    · exact .error trivial
    · exact .ok _
  · split
    · exact .error trivial
    · exact num.unsignedBits_failsBy _

theorem integerBits_failsBy (num : Number) (i : Integer) :
    FailsBy OfValue (num.integerBits i) := by
  unfold integerBits
  split
  · exact num.signedBits_failsBy _
  · exact num.unsignedBits_failsBy _

theorem toBits_failsBy (num : Number) (v : Value) : FailsBy OfValue (num.toBits v) := by
  unfold toBits
  dsimp only
  split
  · split
    · exact num.integerBits_failsBy _
    · exact .error trivial
  · split
    · exact num.integerBits_failsBy _
    · exact .error trivial
  · split
    · exact .ok _
    · exact .error trivial
  · split
    · exact .ok _
    · exact .error trivial

theorem put_failsBy (num : Number) (v : Value) : FailsBy OfValue (num.put v) :=
  (num.toBits_failsBy v).bind fun _ => .ok _

end Number

namespace Scalar

theorem putString_failsBy (v : Value) (maxLength : Int64) :
    FailsBy OfValue (putString v maxLength) := by
  have hlength := checkMaxLength_failsBy ofValue_bound maxLength
  cases v with
  | text t => exact (hlength _).bind fun _ => .ok _
  | bytes b => exact (hlength _).bind fun _ => .ok _
  | _ => exact .error trivial

theorem putData_failsBy (v : Value) : FailsBy OfValue (putData v) := by
  unfold putData
  split
  · exact .ok _
  · exact .ok _
  · exact .error trivial

theorem writeBool_failsBy (v : Value) : FailsBy OfValue (writeBool v) := by
  unfold writeBool
  split
  · exact .ok _
  · exact .ok _
  · exact .error trivial

theorem putBool_failsBy (v : Value) : FailsBy OfValue (putBool v) :=
  (writeBool_failsBy v).bind fun _ => .ok _

theorem putFlag_failsBy (v : Value) : FailsBy OfValue (putFlag v) := by
  unfold putFlag
  split
  · exact .ok _
  · exact .error trivial

end Scalar

namespace EnumType

variable (e : EnumType)

theorem encodeName_failsBy (v : Value) : FailsBy OfValue (e.encodeName v) := by
  unfold encodeName
  split
  · split
    · exact .ok _
    · exact .error trivial
  · exact .ok _

theorem selected_failsBy (obj : Object) : FailsBy OfValue (e.selected obj) := by
  unfold selected
  refine FailsBy.foldlM [] fun entry _ picked => ?_
  dsimp only
  split
  · exact .ok _
  split
  · exact .error trivial
  · exact .ok _
  · exact .error trivial

theorem encodeBitmask_failsBy (obj : Object) : FailsBy OfValue (e.encodeBitmask obj) :=
  (e.selected_failsBy obj).bind fun _ => .ok _

end EnumType

theorem FlagsType.encode_failsBy (f : FlagsType) (obj : Object) :
    FailsBy OfValue (f.encode obj) := by
  unfold encode
  refine FailsBy.foldlM 0 fun entry _ bits => FailsBy.bind ?_ fun _ => .ok _
  unfold entryBits
  split
  · exact .ok _
  split
  · split
    · exact .ok _
    · exact .error trivial
  · split
    · exact .error trivial
    · exact .ok _
    · exact .error trivial

namespace Lowering

theorem objectBytes_failsBy {num : Number} {want : Text} {v : Value}
    {encode : Object → Except WireError UInt64} (h : ∀ obj, FailsBy OfValue (encode obj)) :
    FailsBy OfValue (objectBytes num want v encode) := by
  cases v with
  | object obj => exact (h obj).bind fun bits => (num.checkBits_failsBy bits).bind fun _ => .ok _
  | _ => exact .error trivial

theorem toBytes_failsBy (l : Lowering) (num : Number) (v : Value) :
    FailsBy OfValue (l.toBytes num v) := by
  cases l with
  | none => exact num.put_failsBy v
  | enum e => exact (e.encodeName_failsBy v).bind num.put_failsBy
  | bitmask e => exact objectBytes_failsBy e.encodeBitmask_failsBy
  | flags f => exact objectBytes_failsBy f.encode_failsBy

end Lowering

end Values

section Streams

/-- The error of writing to a stream, if there is one, has a cause of a kind. -/
def Write.FailsBy {α : Type} (P : WireError → Prop) (x : Write α) : Prop :=
  ∀ w e w', x w = .error e w' → P e.cause

namespace Write.FailsBy

variable {P : WireError → Prop} {α β : Type} {x : Write α}

theorem pure (a : α) : FailsBy P (pure a : Write α) := by
  intro w e w' h
  cases h

theorem throw {e : WireError} (h : P e.cause) : FailsBy P (throw e : Write α) := by
  intro w e' w' h'
  cases h'
  exact h

theorem bind {f : α → Write β} (h : FailsBy P x) (hf : ∀ a, FailsBy P (f a)) :
    FailsBy P (x >>= f) := by
  intro w e w' hrun
  -- The second step starts with what the first one has written.
  change EStateM.bind x f w = _ at hrun
  unfold EStateM.bind at hrun
  cases hx : x w with
  | ok a w₁ =>
      rw [hx] at hrun
      exact hf a w₁ e w' hrun
  | error e₁ w₁ =>
      rw [hx] at hrun
      cases hrun
      exact h w e w' hx

theorem lift {x : Except WireError α} (h : NetlinkSchema.FailsBy P x) : FailsBy P (lift x) := by
  cases x with
  | ok a => exact pure a
  | error e => exact throw (h e rfl)

theorem mapError {place : WireError → WireError} (h : FailsBy P x)
    (hplace : ∀ e, (place e).cause = e.cause) : FailsBy P (mapError place x) := by
  intro w e w' hrun
  unfold Write.mapError at hrun
  cases hx : x w with
  | ok a w₁ =>
      rw [hx] at hrun
      cases hrun
  | error e₁ w₁ =>
      rw [hx] at hrun
      cases hrun
      rw [hplace]
      exact h w e₁ w' hx

theorem forM {xs : List β} {f : β → Write Unit} (h : ∀ b ∈ xs, FailsBy P (f b)) :
    FailsBy P (xs.forM f) := by
  induction xs with
  | nil => exact pure ()
  | cons b xs ih =>
      refine (h b List.mem_cons_self).bind fun _ => ?_
      exact ih fun c hc => h c (List.mem_cons_of_mem _ hc)

theorem toBytes {x : Write Unit} (h : FailsBy P x) : NetlinkSchema.FailsBy P x.toBytes := by
  unfold Write.toBytes
  cases hx : EStateM.run x Writer.empty with
  | ok a w => exact .ok _
  | error e w => exact .error (h _ e w hx)

end Write.FailsBy

theorem Writer.ofValue_of_refusal? {type : UInt16} {payload : Bytes} {e : WireError}
    (h : refusal? type payload = some e) : e.cause.OfValue := by
  unfold refusal? at h
  dsimp only at h
  split at h
  · cases h
    trivial
  split at h
  · cases h
    trivial
  · cases h

theorem Write.put_failsBy (type : UInt16) (payload : Bytes) :
    Write.FailsBy OfValue (put type payload) := by
  intro w e w' hrun
  unfold put Writer.put at hrun
  cases hrefusal : Writer.refusal? type payload with
  | none =>
      rw [hrefusal] at hrun
      cases hrun
  | some e' =>
      rw [hrefusal] at hrun
      cases hrun
      exact Writer.ofValue_of_refusal? hrefusal

theorem EnumType.encodeFlagList_failsBy (e : EnumType) (obj : Object) :
    FailsBy OfValue (e.encodeFlagList obj) :=
  (e.selected_failsBy obj).bind fun _ =>
    Write.FailsBy.toBytes (Write.FailsBy.forM fun _ _ => Write.put_failsBy _ _)

namespace Nested

theorem putObject_failsBy {obj : Object} {fields : List (FieldWriter obj)}
    (h : ∀ f ∈ fields, ∀ v hv, Write.FailsBy OfValue (f.write v hv)) :
    Write.FailsBy OfValue (putObject obj fields) := by
  have hfields : Write.FailsBy OfValue (fields.forM fun f =>
      if (Object.get obj f.name).isNull then pure ()
      else f.write (Object.get obj f.name) (Object.depth_get_lt obj f.name)) := by
    refine Write.FailsBy.forM fun f hf => ?_
    split
    · exact .pure _
    · exact h f hf _ _
  unfold putObject
  dsimp only
  split
  · exact (Write.FailsBy.throw trivial).bind fun _ => hfields
  · exact hfields

theorem putArray_failsBy {v : Value} {zero : Bool} {encode : ItemEncoder v}
    (h : ∀ item hitem, FailsBy OfValue (encode item hitem)) :
    Write.FailsBy OfValue (putArray v zero encode) := by
  unfold putArray
  split
  · exact .throw trivial
  · refine Write.FailsBy.forM fun item _ => ?_
    have hput : ∀ payload, Write.FailsBy OfValue (do
        if Attribute.typeMask < firstIndex zero + item.2 then
          throw (.bound .attributeType Attribute.typeMask (firstIndex zero + item.2 : Nat))
        Write.put (UInt16.ofNat (firstIndex zero + item.2)) payload) := by
      intro payload
      split
      · exact (Write.FailsBy.throw trivial).bind fun _ => Write.put_failsBy _ _
      · exact Write.put_failsBy _ _
    dsimp only
    split
    · exact (Write.FailsBy.pure _).bind hput
    · rename_i e hencode
      have hcause : (WireError.element item.2 e).cause.OfValue := h _ _ e hencode
      exact (Write.FailsBy.throw hcause).bind hput

theorem typeOfKey_failsBy (key : Int) : FailsBy OfValue (typeOfKey key) := by
  unfold typeOfKey
  split
  · exact .error trivial
  · exact .ok _

theorem entries_failsBy (v : Value) : FailsBy OfValue (entries v) := by
  unfold entries
  split
  · exact .ok _
  · exact FailsBy.mapM fun e _ => (typeOfKey_failsBy _).bind fun _ => .ok _
  · exact .ok _
  · exact .ok _
  · exact .error trivial
  · exact .error trivial
  · exact .error trivial

theorem putMap_failsBy {v : Value} {encode : ItemEncoder v}
    (h : ∀ item hitem, FailsBy OfValue (encode item hitem)) :
    Write.FailsBy OfValue (putMap v encode) := by
  unfold putMap
  refine (Write.FailsBy.lift (entries_failsBy v)).bind fun es => Write.FailsBy.forM fun e _ => ?_
  dsimp only
  split
  · exact (Write.FailsBy.pure _).bind fun _ => Write.put_failsBy _ _
  · rename_i err hencode
    have hcause : (WireError.element e.key.toNat err).cause.OfValue := h _ _ err hencode
    exact (Write.FailsBy.throw hcause).bind fun _ => Write.put_failsBy _ _

end Nested

end Streams

section Structs

namespace MemberType

/-- The error at which writing stopped, if there is one, has a cause of a kind. -/
def Written.FailsBy (P : WireError → Prop) (w : Written) : Prop := ∀ e, w.2 = some e → P e.cause

theorem Written.failsBy_none {P : WireError → Prop} (buf : Bytes) :
    Written.FailsBy P (buf, none) := by
  intro e h
  cases h

theorem Written.failsBy_some {P : WireError → Prop} {e : WireError} (h : P e.cause) (buf : Bytes) :
    Written.FailsBy P (buf, some e) := by
  intro e' h'
  cases h'
  exact h

theorem writeItems_failsBy {P : WireError → Prop} {size : Nat} {write : Value → Bytes → Written}
    (h : ∀ v buf, Written.FailsBy P (write v buf)) (items : List Value) (buf : Bytes) :
    Written.FailsBy P (writeItems size write items buf) := by
  induction items generalizing buf with
  | nil => exact Written.failsBy_none buf
  | cons v rest ih =>
      rw [writeItems]
      cases hwrite : write v (buf.take size) with
      | mk piece e =>
          cases e with
          | some e => exact Written.failsBy_some (h v _ e (by rw [hwrite])) _
          | none => exact ih (buf.drop size)

theorem writeMembers_failsBy {type : Text} {members : Members} {obj : Object} {buf : Bytes}
    (h : ∀ m ∈ members, ∀ v d, Written.FailsBy OfValue (m.2.write v d)) :
    Written.FailsBy OfValue (writeMembers type members obj buf) := by
  induction members generalizing buf with
  | nil =>
      rw [writeMembers]
      exact Written.failsBy_none buf
  | cons m rest ih =>
      rcases m with ⟨name, t⟩
      have hhead : ∀ v d, Written.FailsBy OfValue (t.write v d) := h (name, t) List.mem_cons_self
      rw [writeMembers]
      dsimp only
      split
      · rename_i piece e hwritten
        -- A member that is not set is written as zeros, so it is one that is set.
        have hcause : (WireError.field type name e).cause.OfValue := by
          split at hwritten
          · cases hwritten
          · exact hhead _ _ e (by rw [hwritten])
        exact Written.failsBy_some hcause _
      · exact ih fun m hm => h m (List.mem_cons_of_mem _ hm)

theorem write_failsBy (t : MemberType) (v : Value) (buf : Bytes) :
    Written.FailsBy OfValue (t.write v buf) := by
  induction t using MemberType.inductionOn generalizing v buf with
  | bytes count =>
      rw [write]
      cases hdata : Scalar.putData v with
      | error e => exact Written.failsBy_some (Scalar.putData_failsBy v e hdata) _
      | ok data =>
          dsimp only
          split
          · exact Written.failsBy_none _
          · exact Written.failsBy_some trivial _
  | bool =>
      rw [write]
      cases hbool : Scalar.writeBool v with
      | error e => exact Written.failsBy_some (Scalar.writeBool_failsBy v e hbool) _
      | ok x => exact Written.failsBy_none _
  | number num lower =>
      rw [write]
      cases hdata : lower.toBytes num v with
      | error e => exact Written.failsBy_some (lower.toBytes_failsBy num v e hdata) _
      | ok data => exact Written.failsBy_none _
  | struct name members ih =>
      cases v with
      | object obj =>
          rw [write]
          cases hsize : checkSize name (membersSize members).toInt buf with
          | error e =>
              exact Written.failsBy_some (checkSize_failsBy ofValue_bound _ _ _ e hsize) _
          | ok u =>
              -- Keys are checked before any member is written.
              dsimp only
              split
              · exact Written.failsBy_some trivial _
              · exact writeMembers_failsBy ih
      | _ => exact Written.failsBy_some trivial _
  | array count elem ih =>
      rw [write]
      split
      · exact Written.failsBy_some trivial _
      split
      · exact writeItems_failsBy ih _ _
      · exact Written.failsBy_some trivial _

end MemberType

namespace Layout

variable (l : Layout)

theorem tail_failsBy (obj : Object) : FailsBy OfValue (l.tail obj) := by
  unfold tail
  split
  · split
    · exact .ok _
    · exact .ok _
    · exact .error trivial
  · exact .ok _

theorem writeChecked_failsBy (obj : Object) (tail buf : Bytes) :
    MemberType.Written.FailsBy OfValue (l.writeChecked obj tail buf) := by
  unfold writeChecked
  split
  · exact MemberType.Written.failsBy_some trivial _
  dsimp only
  split
  · rename_i known e hwritten
    have hcause : e.cause.OfValue := MemberType.writeMembers_failsBy
      (fun m _ v d => m.2.write_failsBy v d) e (congrArg Prod.snd hwritten)
    exact MemberType.Written.failsBy_some hcause _
  · exact MemberType.Written.failsBy_none _

theorem encodeInto_failsBy (obj : Object) (buf : Bytes) :
    MemberType.Written.FailsBy OfValue (l.encodeInto obj buf) := by
  unfold encodeInto
  cases htail : l.tail obj with
  | error e => exact MemberType.Written.failsBy_some (l.tail_failsBy obj e htail) _
  | ok tail =>
      dsimp only
      split
      · exact l.writeChecked_failsBy obj tail buf
      · exact MemberType.Written.failsBy_some trivial _

theorem encode_failsBy (obj : Object) : FailsBy OfValue (l.encode obj) := by
  unfold encode
  refine (l.tail_failsBy obj).bind fun tail => ?_
  split
  · exact .ok _
  · rename_i buf e hwritten
    exact .error (l.encodeInto_failsBy obj _ e (by rw [hwritten]))

end Layout

end Structs

/-- Encoding an object as attributes fails as its fields do. -/
theorem Payload.encode_attrs_failsBy {sets : AttrSets} {name : Text} {obj : Object}
    (h : ∀ (q : Payload) (x : Value), x.depth < (Value.object obj).depth →
      FailsBy OfValue (q.encode sets x)) :
    FailsBy OfValue ((Payload.attrs name).encode sets (.object obj)) := by
  -- One occurrence of a field. A repeated field has one for each item of a list.
  have hput : ∀ (f : Field) (x : Value), x.depth < (Value.object obj).depth →
      Write.FailsBy OfValue (if f.payload.omits x then pure ()
        else Write.mapError (.field name f.name) do
          let data ← Write.lift (f.payload.encode sets x)
          Write.put f.index data) := by
    intro f x hx
    split
    · exact .pure ()
    · refine Write.FailsBy.mapError ?_ fun _ => rfl
      exact (Write.FailsBy.lift (h f.payload x hx)).bind (Write.put_failsBy f.index)
  rw [encode]
  refine (Nested.putObject_failsBy fun writer hwriter x hx => ?_).toBytes
  rcases List.mem_map.1 hwriter with ⟨f, -, rfl⟩
  dsimp only
  split
  · split
    · exact .throw trivial
    · rename_i items hitems
      refine Write.FailsBy.forM fun item _ => hput f item.1 ?_
      exact (Value.depth_lt_of_mem_items hitems item.2).trans hx
  · exact hput f x hx

/-- Encoding a value as a payload fails for a fault of the value. -/
theorem Payload.encode_failsBy (sets : AttrSets) (p : Payload) (v : Value) :
    FailsBy OfValue (p.encode sets v) := by
  -- Elements are nested less deeply than the value around them, so the induction is on its depth.
  induction hn : v.depth using Nat.strong_induction_on generalizing p v with
  | h n ih =>
    subst hn
    have hnested : ∀ (q : Payload) (x : Value), x.depth < v.depth →
        FailsBy OfValue (q.encode sets x) := fun q x hx => ih x.depth hx q x rfl
    cases p with
    | number num lower =>
        rw [encode]
        exact lower.toBytes_failsBy num v
    | string maxLength =>
        rw [encode]
        exact Scalar.putString_failsBy v maxLength
    | data =>
        rw [encode]
        exact Scalar.putData_failsBy v
    | bool =>
        rw [encode]
        exact Scalar.putBool_failsBy v
    | flag =>
        rw [encode]
        exact Scalar.putFlag_failsBy v
    | array zero elem =>
        rw [encode]
        exact (Nested.putArray_failsBy (hnested elem)).toBytes
    | map elem =>
        rw [encode]
        exact (Nested.putMap_failsBy (hnested elem)).toBytes
    | flagList e =>
        unfold encode
        split
        · exact e.encodeFlagList_failsBy _
        · exact .error trivial
    | struct l =>
        unfold encode
        split
        · exact l.encode_failsBy _
        · exact .error trivial
    | attrs name =>
        cases v with
        | object obj => exact encode_attrs_failsBy hnested
        | _ =>
            unfold encode
            exact .error trivial

namespace Codec

/-- Decoding a message fails for a fault of the message. -/
theorem decode_failsBy (c : Codec) (buf : Bytes) : FailsBy OfMessage (c.decode buf) := by
  cases c with
  | attrs sets name =>
      rw [decode]
      refine ((Payload.attrs name).decode_failsBy sets buf).bind fun v => ?_
      split
      · exact .ok _
      · exact .ok _
  | struct l => exact l.decode_failsBy buf

/-- Encoding an object fails for a fault of the object. -/
theorem encode_failsBy (c : Codec) (obj : Object) : FailsBy OfValue (c.encode obj) := by
  cases c with
  | attrs sets name => exact (Payload.attrs name).encode_failsBy sets (.object obj)
  | struct l => exact l.encode_failsBy obj

/-- So does encoding it into a buffer, if the type is a struct. -/
theorem encodeInto_failsBy (c : Codec) (obj : Object) (buf : Bytes) :
    MemberType.Written.FailsBy (fun e => e.OfValue ∨ e = .notStruct c.name)
      (c.encodeInto obj buf) := by
  cases c with
  | attrs sets name => exact MemberType.Written.failsBy_some (Or.inr rfl) _
  | struct l => exact fun e he => Or.inl (l.encodeInto_failsBy obj buf e he)

end Codec

end NetlinkSchema
