import NetlinkSchema.Proofs.Exact
import NetlinkSchema.Proofs.Placement

/-!
# Buffers of the caller

A struct is encoded into a buffer that the caller brings along, or into a new one that is all
zeros. The caller's buffer may hold anything, such as an earlier message. What comes out does not
depend on it: each member overwrites all of its bytes, a member that is not set with zeros, and the
members and the bytes beyond them cover the buffer. The argument needs the sizes to be exact, as a
member that is shorter than its place would leave old bytes behind.

The buffer itself stays as it is if it is refused before the first member is written.

## Main definitions

* `MemberType.outcome`: The bytes that were written, or why writing stopped.
* `MemberType.checkKeys`: Refuses an object with a key that is not declared.
* `Layout.Refuses`: An object or a buffer is refused before anything is written.

## Theorems

* `MemberType.outcome_writeItems_cons`, `MemberType.outcome_writeMembers_cons`: Writing as a
  sequence of steps.
* `MemberType.outcome_write_eq`: What is written to a member does not depend on the buffer.
* `Layout.encodeInto_eq_iff`: Encoding into a buffer is encoding, if the length is right.
* `Layout.Refuses.unchanged`: A buffer that is refused stays as it is.
* `Schema.struct_buffer_overwritten`: Both of the structs of an accepted schema.
-/

namespace NetlinkSchema

namespace MemberType

/-- The bytes that were written, or why writing stopped. -/
def outcome : Written → Except WireError Bytes
  | (b, none) => .ok b
  | (_, some e) => .error e

theorem outcome_eq_ok_iff {w : Written} {b : Bytes} : outcome w = .ok b ↔ w = (b, none) := by
  rcases w with ⟨b', e⟩
  cases e with
  | none => simp [outcome]
  | some e => simp [outcome]

/-- Refuses an object with a key that is set and not declared. -/
def checkKeys (type : Text) (obj : Object) (declared : List Text) : Except WireError Unit :=
  ((firstUndeclared? obj declared).map fun key =>
    Except.error (WireError.field type key .undeclared)).getD (.ok ())

theorem firstUndeclared?_eq_none_iff {obj : Object} {declared : List Text} :
    firstUndeclared? obj declared = none ↔
      ∀ e ∈ obj, e.2.isNull = false → e.1 ∈ declared := by
  rw [firstUndeclared?, Option.map_eq_none_iff, List.find?_eq_none]
  simp

theorem checkKeys_eq_ok_iff {type : Text} {obj : Object} {declared : List Text} {u : Unit} :
    checkKeys type obj declared = .ok u ↔ ∀ e ∈ obj, e.2.isNull = false → e.1 ∈ declared := by
  rw [← firstUndeclared?_eq_none_iff, checkKeys]
  cases firstUndeclared? obj declared with
  | none => simp
  | some key => simp

section Steps

theorem outcome_writeItems_cons (size : Nat) (write : Value → Bytes → Written) (v : Value)
    (rest : List Value) (buf : Bytes) :
    outcome (writeItems size write (v :: rest) buf) = (do
      let piece ← outcome (write v (buf.take size))
      let tail ← outcome (writeItems size write rest (buf.drop size))
      return piece ++ tail) := by
  rw [writeItems]
  rcases write v (buf.take size) with ⟨piece, e⟩
  cases e with
  | some e => rfl
  | none =>
      rcases writeItems size write rest (buf.drop size) with ⟨tail, e⟩
      cases e with
      | some e => rfl
      | none => rfl

/-- The bytes of one member: zeros if it is not set. -/
def outcomeAt (type : Text) (m : Text × MemberType) (obj : Object) (buf : Bytes) :
    Except WireError Bytes :=
  if (Object.get obj m.1).isNull then .ok (Bytes.zeros buf.length)
  else (outcome (m.2.write (Object.get obj m.1) buf)).mapError (.field type m.1)

theorem outcome_writeMembers_cons (type : Text) (m : Text × MemberType) (rest : Members)
    (obj : Object) (buf : Bytes) :
    outcome (writeMembers type (m :: rest) obj buf) = (do
      let piece ← outcomeAt type m obj (buf.take m.2.length)
      let tail ← outcome (writeMembers type rest obj (buf.drop m.2.length))
      return piece ++ tail) := by
  rcases m with ⟨name, t⟩
  rw [writeMembers_cons, outcomeAt]
  by_cases hnull : (Object.get obj name).isNull = true
  · simp only [if_pos hnull]
    rcases writeMembers type rest obj (buf.drop t.length) with ⟨tail, e⟩
    cases e with
    | some e => rfl
    | none => rfl
  · simp only [if_neg hnull]
    rcases t.write (Object.get obj name) (buf.take t.length) with ⟨piece, e⟩
    cases e with
    | some e => rfl
    | none =>
        rcases writeMembers type rest obj (buf.drop t.length) with ⟨tail, e⟩
        cases e with
        | some e => rfl
        | none => rfl

theorem outcome_write_struct (name : Text) (members : Members) (obj : Object) (buf : Bytes) :
    outcome ((struct name members).write (.object obj) buf) = (do
      checkSize name (membersSize members).toInt buf
      checkKeys name obj (members.map Prod.fst)
      outcome (writeMembers name members obj buf)) := by
  rw [write, checkKeys]
  cases checkSize name (membersSize members).toInt buf with
  | error e => rfl
  | ok u =>
      simp only [ok_bind]
      cases firstUndeclared? obj (members.map Prod.fst) with
      | some key => rfl
      | none => rfl

theorem outcome_write_array {count : Int64} (elem : MemberType) {v : Value} {items : List Value}
    (h : v.items? = some items) (buf : Bytes) :
    outcome ((array count elem).write v buf) =
      if items.length = count.toInt then
        outcome (writeItems (buf.length / items.length) elem.write items buf)
      else .error (.bound .count count.toInt items.length) := by
  rw [write, h]
  simp only
  split
  · rfl
  · rfl

end Steps

section Overwriting

theorem outcome_write_bytes {count : Int64} (v : Value) {buf : Bytes}
    (h : (buf.length : Int) = count.toInt) : outcome ((bytes count).write v buf) = (do
      let data ← Scalar.putData v
      if data.length = count.toInt then return data
      throw (.bound .count count.toInt data.length)) := by
  rw [write]
  cases Scalar.putData v with
  | error e => rfl
  | ok data =>
      simp only [ok_bind]
      by_cases hdata : (data.length : Int) = count.toInt
      · rw [if_pos hdata, if_pos hdata, Bytes.overwrite_of_length_eq (by omega)]
        rfl
      · rw [if_neg hdata, if_neg hdata]
        rfl

theorem outcome_write_bool (v : Value) {buf : Bytes} (h : buf.length = 1) :
    outcome (bool.write v buf) = (Scalar.writeBool v).map fun b => [b] := by
  rw [write]
  cases Scalar.writeBool v with
  | error e => rfl
  | ok b => exact congrArg Except.ok (Bytes.overwrite_of_length_eq h.symm)

theorem length_of_toBytes {l : Lowering} {num : Number} {v : Value} {b : Bytes}
    (h : l.toBytes num v = .ok b) : b.length = num.size := by
  have hobject : ∀ {want : Text} {encode : Object → Except WireError UInt64},
      Lowering.objectBytes num want v encode = .ok b → b.length = num.size := by
    intro want encode henc
    rcases Lowering.objectBytes_eq_ok henc with ⟨obj, bits, -, -, -, rfl⟩
    exact num.length_bitsToBytes bits
  cases l with
  | none => exact Number.length_of_put h
  | enum e =>
      rcases bind_eq_ok_iff.1 h with ⟨raw, -, hraw⟩
      exact Number.length_of_put hraw
  | bitmask e => exact hobject h
  | flags f => exact hobject h

theorem outcome_write_number (num : Number) (lower : Lowering) (v : Value) {buf : Bytes}
    (h : buf.length = num.size) :
    outcome ((number num lower).write v buf) = lower.toBytes num v := by
  rw [write]
  cases hbytes : lower.toBytes num v with
  | error e => rfl
  | ok b =>
      have hb := length_of_toBytes hbytes
      exact congrArg Except.ok (Bytes.overwrite_of_length_eq (hb.trans h.symm))

theorem outcome_writeItems_eq {size : Nat} {write : Value → Bytes → Written}
    (hwrite : ∀ v b b', b.length = size → b'.length = size →
      outcome (write v b) = outcome (write v b'))
    (vs : List Value) {buf buf' : Bytes} (h : buf.length = size * vs.length)
    (h' : buf'.length = size * vs.length) :
    outcome (writeItems size write vs buf) = outcome (writeItems size write vs buf') := by
  induction vs generalizing buf buf' with
  | nil =>
      rw [List.length_nil, Nat.mul_zero] at h h'
      rw [List.eq_nil_of_length_eq_zero h, List.eq_nil_of_length_eq_zero h']
  | cons v rest ih =>
      rw [List.length_cons, Nat.mul_succ] at h h'
      have hhead := hwrite v (buf.take size) (buf'.take size)
        (List.length_take_of_le (by omega)) (List.length_take_of_le (by omega))
      have hrest : outcome (writeItems size write rest (buf.drop size))
          = outcome (writeItems size write rest (buf'.drop size)) :=
        ih (by rw [List.length_drop]; omega) (by rw [List.length_drop]; omega)
      rw [outcome_writeItems_cons, outcome_writeItems_cons, hhead, hrest]

theorem outcome_writeMembers_eq {type : Text} {members : Members}
    (hlength : ∀ m ∈ members, m.2.length = m.2.exactSize)
    (hwrite : ∀ m ∈ members, ∀ v b b', b.length = m.2.exactSize → b'.length = m.2.exactSize →
      outcome (m.2.write v b) = outcome (m.2.write v b'))
    (obj : Object) {buf buf' : Bytes} (h : buf.length = exactMembersSize members)
    (h' : buf'.length = exactMembersSize members) :
    outcome (writeMembers type members obj buf) = outcome (writeMembers type members obj buf') := by
  induction members generalizing buf buf' with
  | nil =>
      rw [exactMembersSize] at h h'
      rw [List.eq_nil_of_length_eq_zero h, List.eq_nil_of_length_eq_zero h']
  | cons m rest ih =>
      rw [exactMembersSize] at h h'
      have hm := hlength m List.mem_cons_self
      have htake : (buf.take m.2.length).length = m.2.exactSize := by
        rw [hm]
        exact List.length_take_of_le (by omega)
      have htake' : (buf'.take m.2.length).length = m.2.exactSize := by
        rw [hm]
        exact List.length_take_of_le (by omega)
      have hhead : outcomeAt type m obj (buf.take m.2.length)
          = outcomeAt type m obj (buf'.take m.2.length) := by
        rw [outcomeAt, outcomeAt, htake, htake', hwrite m List.mem_cons_self _ _ _ htake htake']
      have hrest : outcome (writeMembers type rest obj (buf.drop m.2.length))
          = outcome (writeMembers type rest obj (buf'.drop m.2.length)) :=
        ih (fun x hx => hlength x (List.mem_cons_of_mem _ hx))
          (fun x hx => hwrite x (List.mem_cons_of_mem _ hx))
          (by rw [List.length_drop]; omega) (by rw [List.length_drop]; omega)
      rw [outcome_writeMembers_cons, outcome_writeMembers_cons, hhead, hrest]

/-- What is written to a member does not depend on what its place held before. -/
theorem outcome_write_eq {t : MemberType} (h : t.Sized) (hsize : t.exactSize < 2 ^ 63) (v : Value)
    {buf buf' : Bytes} (hbuf : buf.length = t.exactSize) (hbuf' : buf'.length = t.exactSize) :
    outcome (t.write v buf) = outcome (t.write v buf') := by
  induction t using inductionOn generalizing v buf buf' with
  | bytes count =>
      have hcount := toNatClampNeg_of_nonneg (h _ (.refl _))
      rw [exactSize] at hbuf hbuf'
      rw [outcome_write_bytes v (by omega), outcome_write_bytes v (by omega)]
  | bool => rw [outcome_write_bool v hbuf, outcome_write_bool v hbuf']
  | number num lower =>
      rw [outcome_write_number num lower v hbuf, outcome_write_number num lower v hbuf']
  | struct name members ih =>
      rw [exactSize] at hsize hbuf hbuf'
      have hlt : ∀ m ∈ members, m.2.exactSize < 2 ^ 63 := fun m hm =>
        Nat.lt_of_le_of_lt (exactSize_le_of_mem hm) hsize
      cases v with
      | object obj =>
          have hcheck : checkSize name (membersSize members).toInt buf
              = checkSize name (membersSize members).toInt buf' := by
            rw [checkSize, checkSize, hbuf, hbuf']
          have hmembers : outcome (writeMembers name members obj buf)
              = outcome (writeMembers name members obj buf') :=
            outcome_writeMembers_eq (fun m hm => length_eq (h.member hm) (hlt m hm))
              (fun m hm v b b' hb hb' => ih m hm (h.member hm) (hlt m hm) v hb hb') obj hbuf hbuf'
          rw [outcome_write_struct, outcome_write_struct, hcheck, hmembers]
      | _ => rfl
  | array count elem ih =>
      have hpos : 0 < count.toInt := h _ (.refl _)
      have hcount := toNatClampNeg_of_nonneg (Int.le_of_lt hpos)
      rw [exactSize] at hsize hbuf hbuf'
      have hlt : elem.exactSize < 2 ^ 63 :=
        Nat.lt_of_le_of_lt (Nat.le_mul_of_pos_right _ (by omega)) hsize
      cases hitems : v.items? with
      | none =>
          rw [write, write, hitems]
          rfl
      | some items =>
          rw [outcome_write_array elem hitems, outcome_write_array elem hitems]
          split
          · rename_i hlength
            obtain hn : items.length = count.toNatClampNeg := by omega
            -- Each element has an equal share of the buffer.
            have hshare : elem.exactSize * count.toNatClampNeg / items.length = elem.exactSize := by
              rw [hn]
              exact Nat.mul_div_cancel _ (by omega)
            rw [hbuf, hbuf', hshare]
            exact outcome_writeItems_eq (fun v b b' hb hb' => ih h.element hlt v hb hb') items
              (by rw [hbuf, hn]) (by rw [hbuf', hn])
          · rfl

end Overwriting

end MemberType

namespace Layout

open MemberType (outcome checkKeys exactMembersSize)

variable {l : Layout}

theorem outcome_writeChecked (l : Layout) (obj : Object) (tail buf : Bytes) :
    outcome (l.writeChecked obj tail buf) = (do
      checkKeys l.name obj l.declaredKeys
      let known ← outcome (MemberType.writeMembers l.name l.members obj
        (buf.take l.size.toNatClampNeg))
      return known ++ tail) := by
  rw [writeChecked, checkKeys]
  cases MemberType.firstUndeclared? obj l.declaredKeys with
  | some key => rfl
  | none =>
      simp only [Option.map_none, Option.getD_none, ok_bind]
      rcases MemberType.writeMembers l.name l.members obj (buf.take l.size.toNatClampNeg) with
        ⟨known, e⟩
      cases e with
      | some e => rfl
      | none => rfl

/-- Encoding is writing over zeros. -/
theorem encode_eq_outcome (l : Layout) (obj : Object) : l.encode obj = (do
    let tail ← l.tail obj
    outcome (l.encodeInto obj (Bytes.zeros (l.size.toNatClampNeg + tail.length)))) := by
  rw [encode]
  cases l.tail obj with
  | error e => rfl
  | ok tail =>
      simp only [ok_bind]
      rcases l.encodeInto obj (Bytes.zeros (l.size.toNatClampNeg + tail.length)) with ⟨b, e⟩
      cases e with
      | some e => rfl
      | none => rfl

theorem encodeInto_of_length (h : l.Sized) {obj : Object} {tail : Bytes}
    (htail : l.tail obj = .ok tail) {buf : Bytes}
    (hbuf : buf.length = exactMembersSize l.members + tail.length) :
    l.encodeInto obj buf = l.writeChecked obj tail buf := by
  have hsize := h.toInt_size
  rw [encodeInto, htail]
  exact if_pos (by omega)

/-- Encoding into a buffer of the right length ends as encoding does, in bytes or in an error. -/
theorem outcome_encodeInto (h : l.Sized) {obj : Object} {tail : Bytes}
    (htail : l.tail obj = .ok tail) {buf : Bytes}
    (hbuf : buf.length = exactMembersSize l.members + tail.length) :
    outcome (l.encodeInto obj buf) = l.encode obj := by
  have hlen := h.length_eq
  have hzeros : (Bytes.zeros (l.size.toNatClampNeg + tail.length)).length
      = exactMembersSize l.members + tail.length := by
    rw [Bytes.length_zeros, hlen]
  have hmembers : outcome (MemberType.writeMembers l.name l.members obj
        (buf.take l.size.toNatClampNeg))
      = outcome (MemberType.writeMembers l.name l.members obj
        ((Bytes.zeros (l.size.toNatClampNeg + tail.length)).take l.size.toNatClampNeg)) := by
    refine MemberType.outcome_writeMembers_eq h.length_members
      (fun m hm v b b' hb hb' => MemberType.outcome_write_eq (h.members m hm) (h.exactSize_lt m hm)
        v hb hb') obj ?_ ?_
    · rw [hlen]
      exact List.length_take_of_le (by omega)
    · rw [hlen] at hzeros ⊢
      exact List.length_take_of_le (by omega)
  rw [encode_eq_outcome, htail, ok_bind, encodeInto_of_length h htail hbuf,
    encodeInto_of_length h htail hzeros, outcome_writeChecked, outcome_writeChecked, hmembers]

theorem length_of_encode (h : l.Sized) {obj : Object} {tail b : Bytes}
    (htail : l.tail obj = .ok tail) (henc : l.encode obj = .ok b) :
    b.length = exactMembersSize l.members + tail.length := by
  rcases exists_of_encode h henc with ⟨known, tail', rfl, htail', hknown⟩
  obtain rfl : tail' = tail := Except.ok.inj (htail'.symm.trans htail)
  have hlength : (MemberType.writeMembers l.name l.members obj
      (Bytes.zeros (exactMembersSize l.members))).1.length = _ :=
    MemberType.length_writeMembers (fun m _ v b => MemberType.length_write m.2 v b) obj _
  rw [hknown, Bytes.length_zeros] at hlength
  rw [List.length_append, hlength]

/-- Encoding into a buffer gives what encoding gives, if the buffer is exactly as long. -/
theorem encodeInto_eq_iff (h : l.Sized) {obj : Object} {buf b : Bytes} :
    l.encodeInto obj buf = (b, none) ↔ l.encode obj = .ok b ∧ buf.length = b.length := by
  cases htail : l.tail obj with
  | error e =>
      have hinto : l.encodeInto obj buf = (buf, some e) := by rw [encodeInto, htail]
      have henc : l.encode obj = .error e := by rw [encode, htail, error_bind]
      simp [hinto, henc]
  | ok tail =>
      by_cases hbuf : buf.length = exactMembersSize l.members + tail.length
      · rw [← MemberType.outcome_eq_ok_iff, outcome_encodeInto h htail hbuf]
        exact ⟨fun henc => ⟨henc, hbuf.trans (length_of_encode h htail henc).symm⟩, And.left⟩
      · constructor
        · intro hinto
          have hsize := h.toInt_size
          rw [encodeInto, htail] at hinto
          simp only at hinto
          rw [if_neg (by omega)] at hinto
          cases hinto
        · rintro ⟨henc, hlength⟩
          exact absurd (hlength.trans (length_of_encode h htail henc)) hbuf

/-- An object or a buffer is refused before anything is written: the bytes beyond the known members
    are no bytes, the buffer does not have the encoded length, or a key is not declared. -/
inductive Refuses (l : Layout) (obj : Object) (buf : Bytes) : Prop
  | unparsed : l.expandable = true → (Object.get obj unparsedField).isNull = false →
      (∀ b, Object.get obj unparsedField ≠ .bytes b) → Refuses l obj buf
  | length {tail : Bytes} : l.tail obj = .ok tail →
      buf.length ≠ exactMembersSize l.members + tail.length → Refuses l obj buf
  | undeclared {e : Text × Value} : e ∈ obj → e.2.isNull = false → e.1 ∉ l.declaredKeys →
      Refuses l obj buf

theorem tail_eq_error {obj : Object} (hexp : l.expandable = true)
    (hset : (Object.get obj unparsedField).isNull = false)
    (hbytes : ∀ b, Object.get obj unparsedField ≠ .bytes b) : ∃ e, l.tail obj = .error e := by
  rw [tail, if_pos hexp]
  cases hv : Object.get obj unparsedField with
  | null =>
      rw [hv] at hset
      cases hset
  | bytes b => exact absurd hv (hbytes b)
  | _ => exact ⟨_, rfl⟩

/-- A buffer that is refused stays as it is. -/
theorem Refuses.unchanged (h : l.Sized) {obj : Object} {buf : Bytes}
    (hrefuses : l.Refuses obj buf) :
    ∃ e, l.encodeInto obj buf = (buf, some e) := by
  rw [encodeInto]
  cases htail : l.tail obj with
  | error e => exact ⟨e, rfl⟩
  | ok tail =>
      simp only
      split
      · rename_i hbuf
        cases hrefuses with
        | unparsed hexp hset hbytes =>
            rcases tail_eq_error hexp hset hbytes with ⟨e, he⟩
            rw [htail] at he
            cases he
        | length htail' hne =>
            have hsize := h.toInt_size
            obtain rfl := Except.ok.inj (htail'.symm.trans htail)
            omega
        | undeclared he hset hkey =>
            rw [writeChecked]
            cases hfind : MemberType.firstUndeclared? obj l.declaredKeys with
            | some key => exact ⟨_, rfl⟩
            | none => exact absurd (MemberType.firstUndeclared?_eq_none_iff.1 hfind _ he hset) hkey
      · exact ⟨_, rfl⟩

end Layout

namespace Schema

/-- A struct of an accepted schema overwrites all of the buffer it is encoded into. Encoding into a
    buffer succeeds if encoding does and the buffer is as long as the encoded bytes, and then leaves
    these bytes, whatever the buffer held. A buffer that is refused stays as it is. -/
theorem struct_buffer_overwritten {s : Schema} {o : CompileOptions} {compiled : Compiled}
    (hcompile : (s.compile o).output = some compiled) (hcounts : s.CountsNonneg) {name : Text}
    {l : Layout} (hcodec : compiled.bundle.codec? name = some (.struct l))
    (hsize : MemberType.exactMembersSize l.members < 2 ^ 63) (obj : Object) (buf : Bytes) :
    (∀ b, (Codec.struct l).encodeInto obj buf = (b, none) ↔
      (Codec.struct l).encode obj = .ok b ∧ buf.length = b.length) ∧
    (l.Refuses obj buf → ∃ e, (Codec.struct l).encodeInto obj buf = (buf, some e)) := by
  rcases accepted_of_compile hcompile with ⟨h, hbundle⟩
  rw [hbundle] at hcodec
  have hsized := struct_sized h hcounts hcodec hsize
  exact ⟨fun b => Layout.encodeInto_eq_iff hsized, Layout.Refuses.unchanged hsized⟩

/-- A panel with a red lamp and one that is left out, and with bytes that the struct does not
    know. -/
def redPanel : Object :=
  [("__unparsed", .bytes [5, 6]), ("lamps", .list [.object [("color", .text "red")], .object []]),
    ("mode", .object [("write", .bool true)])]

theorem redPanel_overwrites :
    (Codec.struct (panel.layout "panel" lamps)).encodeInto redPanel (List.replicate 11 255)
      = ([0, 0, 1, 0, 0, 0, 2, 0, 0, 5, 6], none) ∧
    ∃ e, (Codec.struct (panel.layout "panel" lamps)).encodeInto redPanel [255, 255]
      = ([255, 255], some e) := by
  have hmem : (Text.ofString "panel", lamps) ∈ panel.types := List.mem_cons_self
  have hcodec := codec?_struct hmem rfl
  have hcompile := output_of_errors (s := panel) (o := .default) (by decide +kernel)
  have hwritten := struct_buffer_overwritten hcompile (by decide +kernel) hcodec (by decide +kernel)
    redPanel
  have htail : (panel.layout "panel" lamps).tail redPanel = .ok [5, 6] := by decide +kernel
  exact ⟨((hwritten (List.replicate 11 255)).1 _).2 ⟨by decide +kernel, rfl⟩,
    (hwritten [255, 255]).2 (.length htail (by decide +kernel))⟩

end Schema

end NetlinkSchema
