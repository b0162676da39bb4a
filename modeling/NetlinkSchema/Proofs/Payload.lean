import NetlinkSchema.Proofs.Layout
import NetlinkSchema.Proofs.Outline

/-!
# Round trips of payloads

Two statements are carried through all payload types. What has been encoded is the encoding of
some value that it decodes to: `Matches` is the relation between that value and the bytes. What has
been decoded can be encoded, unless an attribute gets too long for its header, and is decoded the
same again: `Survives`. The first leaves open which value it is, since encoding forgets aliases,
empty lists and the like; the second leaves open which bytes they are, since decoding forgets
unknown attributes, their order and their padding.

Here both are shown for payloads that hold no other payloads, and for arrays and maps of elements
for which they hold already.

## Main definitions

* `Payload.WellFormed`: The enums, flags types and structs of a payload are well formed.
* `Payload.Matches`, `Payload.Survives`: The two statements.
* `Payload.numbered`: The attribute of an element by its place.

## Theorems

* `Payload.matches_of_encode_array`, `Payload.survives_array`: Arrays.
* `Payload.matches_of_encode_map`, `Payload.survives_map`: Maps.
* `Payload.present_of_decode`: What is decoded is never absent, and never left out.
-/

namespace NetlinkSchema

namespace Payload

/-- The enums, flags types and structs of a payload are well formed. -/
def WellFormed : Payload → Prop
  | number _ lower => lower.WellFormed
  | array _ elem => elem.WellFormed
  | map elem => elem.WellFormed
  | flagList e => e.WellFormed ∧ e.AttributeTypes
  | struct l => l.WellFormed
  | string _ | data | bool | flag | attrs _ => True

/-- A value and bytes stand for each other, and the value is one that is written. -/
structure Matches (sets : AttrSets) (p : Payload) (v : Value) (b : Bytes) : Prop where
  read : p.decode sets b = .ok v
  written : p.encode sets v = .ok b
  present : v.isNull = false
  kept : p.omits v = false

/-- A value can be written, unless an attribute gets too long, and is read the same again. -/
def Survives (sets : AttrSets) (p : Payload) (v : Value) : Prop :=
  UnlessTooLong (p.encode sets v) fun b => p.decode sets b = .ok v

variable {sets : AttrSets}

theorem Survives.of_written {p : Payload} {v : Value} {b : Bytes} (hw : p.encode sets v = .ok b)
    (hr : p.decode sets b = .ok v) : p.Survives sets v := by
  rw [Survives, hw]
  exact hr

theorem getBool_eq_ok {d : Bytes} {v : Value} (h : Scalar.getBool d = .ok v) :
    ∃ c : Bool, v = .bool c ∧ d = [if c then 1 else 0] := by
  rcases d with _ | ⟨x, _ | ⟨y, rest⟩⟩
  · cases h
  · rcases Scalar.readBool_eq_ok h with ⟨c, rfl, rfl⟩
    exact ⟨c, rfl, rfl⟩
  · cases h

/-- What is decoded is never absent, and never left out when it is encoded. -/
theorem present_of_decode {p : Payload} {d : Bytes} {v : Value} (h : p.decode sets d = .ok v) :
    v.isNull = false ∧ p.omits v = false := by
  cases p with
  | number num lower =>
      rw [decode] at h
      rcases bind_eq_ok_iff.1 h with ⟨u, -, hv⟩
      cases hv
      exact ⟨lower.isNull_read num d, by unfold omits; rfl⟩
  | string maxLength =>
      rw [decode, Scalar.getString] at h
      rcases bind_eq_ok_iff.1 h with ⟨u, -, hv⟩
      split at hv
      · cases hv
        exact ⟨rfl, rfl⟩
      · cases hv
  | data =>
      rw [decode] at h
      cases h
      exact ⟨rfl, rfl⟩
  | bool =>
      rw [decode] at h
      rcases getBool_eq_ok h with ⟨c, rfl, -⟩
      exact ⟨rfl, rfl⟩
  | flag =>
      rw [decode] at h
      cases d with
      | nil =>
          cases h
          exact ⟨rfl, rfl⟩
      | cons x rest => cases h
  | array zero elem =>
      rcases (decode_array sets).1 h with ⟨-, vs, -, rfl⟩
      exact ⟨rfl, rfl⟩
  | map elem =>
      rcases (decode_map sets).1 h with ⟨-, es, -, rfl⟩
      exact ⟨rfl, rfl⟩
  | flagList e =>
      rw [decode] at h
      rcases bind_eq_ok_iff.1 h with ⟨obj, -, hv⟩
      cases hv
      exact ⟨rfl, rfl⟩
  | struct l =>
      rw [decode] at h
      rcases bind_eq_ok_iff.1 h with ⟨obj, -, hv⟩
      cases hv
      exact ⟨rfl, rfl⟩
  | attrs name =>
      rcases (decode_attrs sets).1 h with ⟨-, os, -, rfl⟩
      exact ⟨rfl, rfl⟩

theorem Matches.of_read_written {p : Payload} {v : Value} {b : Bytes}
    (hr : p.decode sets b = .ok v) (hw : p.encode sets v = .ok b) : p.Matches sets v b :=
  ⟨hr, hw, (present_of_decode hr).1, (present_of_decode hr).2⟩

section Leaves

theorem matches_number {num : Number} {lower : Lowering} {b : Bytes}
    (h : lower.Canonical num b) : (number num lower).Matches sets (lower.read num b) b := by
  refine Matches.of_read_written ?_ ?_
  · rw [decode, Number.checkLength, if_pos h.1, ok_bind, pure_eq_ok]
  · rw [encode]
    exact h.2

theorem survives_number {num : Number} {lower : Lowering} (h : lower.WellFormed) {d : Bytes}
    {v : Value} (hd : (number num lower).decode sets d = .ok v) :
    (number num lower).Survives sets v := by
  rw [decode] at hd
  rcases bind_eq_ok_iff.1 hd with ⟨u, hcheck, hv⟩
  cases hv
  have hlen : d.length = num.size := by
    unfold Number.checkLength at hcheck
    split at hcheck
    · assumption
    · cases hcheck
  rcases Lowering.exists_canonical h hlen with ⟨b, hb, hsame⟩
  rw [← hsame]
  exact Survives.of_written (matches_number hb).written (matches_number hb).read

-- The terminator is the last byte and is counted by the limit in both directions.
theorem matches_string {maxLength : Int64} {t : Bytes}
    (h : Scalar.checkMaxLength maxLength (t.length + 1) = .ok ()) :
    (string maxLength).Matches sets (.text ⟨t⟩) (t ++ [0]) := by
  refine Matches.of_read_written ?_ ?_
  · rw [decode, Scalar.getString, List.length_append, List.length_singleton, h, ok_bind,
      List.getLast?_concat]
    simp only [List.dropLast_concat, pure_eq_ok]
  · rw [encode, Scalar.putString]
    simp only [h, ok_bind, pure_eq_ok]

theorem matches_of_encode_string {maxLength : Int64} {v : Value} {b : Bytes}
    (h : (string maxLength).encode sets v = .ok b) :
    ∃ v', (string maxLength).Matches sets v' b := by
  rw [encode] at h
  have hdata : ∃ t : Bytes, (do
      Scalar.checkMaxLength maxLength (t.length + 1)
      return t ++ [0]) = .ok b := by
    cases v with
    | text t => exact ⟨t.utf8, h⟩
    | bytes t => exact ⟨t, h⟩
    | _ => cases h
  rcases hdata with ⟨t, ht⟩
  rcases bind_eq_ok_iff.1 ht with ⟨u, hcheck, hb⟩
  cases hb
  exact ⟨_, matches_string hcheck⟩

theorem survives_string {maxLength : Int64} {d : Bytes} {v : Value}
    (h : (string maxLength).decode sets d = .ok v) : (string maxLength).Survives sets v := by
  rw [decode, Scalar.getString] at h
  rcases bind_eq_ok_iff.1 h with ⟨u, hcheck, hv⟩
  split at hv
  · rename_i hlast
    cases hv
    have hd : d.dropLast ++ [0] = d := List.dropLast_append_getLast? 0 hlast
    have hlen : d.dropLast.length + 1 = d.length := by
      rw [← List.length_singleton (a := (0 : UInt8)), ← List.length_append, hd]
    rw [← hlen] at hcheck
    exact Survives.of_written (matches_string hcheck).written (matches_string hcheck).read
  · cases hv

theorem matches_data (b : Bytes) : data.Matches sets (.bytes b) b :=
  Matches.of_read_written (by rw [decode]) (by rw [encode]; rfl)

theorem matches_bool (c : Bool) : bool.Matches sets (.bool c) [if c then 1 else 0] := by
  refine Matches.of_read_written ?_ ?_
  · rw [decode]
    cases c <;> rfl
  · rw [encode]
    cases c <;> rfl

theorem matches_flag : flag.Matches sets (.bool true) [] :=
  Matches.of_read_written (by rw [decode]; rfl) (by rw [encode]; rfl)

/-- A payload that holds no other payloads. -/
def IsLeaf : Payload → Prop
  | array _ _ | map _ | attrs _ => False
  | _ => True

/-- What has been encoded as a leaf stands for some value. -/
theorem matches_of_encode_leaf {p : Payload} (hp : p.IsLeaf) (h : p.WellFormed) {v : Value}
    {b : Bytes} (henc : p.encode sets v = .ok b) : ∃ v', p.Matches sets v' b := by
  cases p with
  | number num lower =>
      rw [encode] at henc
      exact ⟨_, matches_number (Lowering.canonical_of_toBytes h henc)⟩
  | string maxLength => exact matches_of_encode_string henc
  | data => exact ⟨_, matches_data b⟩
  | bool =>
      rw [encode] at henc
      rcases bind_eq_ok_iff.1 henc with ⟨x, hx, hb⟩
      cases hb
      cases v with
      | bool c =>
          cases c with
          | false =>
              cases hx
              exact ⟨_, matches_bool false⟩
          | true =>
              cases hx
              exact ⟨_, matches_bool true⟩
      | _ => cases hx
  | flag =>
      rw [encode] at henc
      cases v with
      | bool c =>
          cases henc
          exact ⟨_, matches_flag⟩
      | _ => cases henc
  | flagList e =>
      cases v with
      | object obj =>
          rw [encode] at henc
          rcases EnumType.flagList_encoded h.1 h.2 henc with ⟨obj', hread, hwritten⟩
          refine ⟨.object obj', Matches.of_read_written ?_ ?_⟩
          · rw [decode, hread, ok_bind, pure_eq_ok]
          · rw [encode]
            exact hwritten
      | _ =>
          rw [encode] at henc
          · cases henc
          · intro obj hobj
            cases hobj
  | struct l =>
      cases v with
      | object obj =>
          rw [encode] at henc
          rcases Layout.encoded h henc with ⟨obj', hread, hwritten⟩
          refine ⟨.object obj', Matches.of_read_written ?_ ?_⟩
          · rw [decode, hread, ok_bind, pure_eq_ok]
          · rw [encode]
            exact hwritten
      | _ =>
          rw [encode] at henc
          · cases henc
          · intro obj hobj
            cases hobj
  | array zero elem => exact hp.elim
  | map elem => exact hp.elim
  | attrs name => exact hp.elim

/-- What has been decoded as a leaf can be encoded. -/
theorem survives_leaf {p : Payload} (hp : p.IsLeaf) (h : p.WellFormed) {d : Bytes} {v : Value}
    (hdec : p.decode sets d = .ok v) : p.Survives sets v := by
  cases p with
  | number num lower => exact survives_number h hdec
  | string maxLength => exact survives_string hdec
  | data =>
      rw [decode] at hdec
      cases hdec
      exact Survives.of_written (matches_data d).written (matches_data d).read
  | bool =>
      rw [decode] at hdec
      rcases getBool_eq_ok hdec with ⟨c, rfl, -⟩
      exact Survives.of_written (matches_bool c).written (matches_bool c).read
  | flag =>
      rw [decode] at hdec
      cases d with
      | nil =>
          cases hdec
          exact Survives.of_written matches_flag.written matches_flag.read
      | cons x rest => cases hdec
  | flagList e =>
      rw [decode] at hdec
      rcases bind_eq_ok_iff.1 hdec with ⟨obj, hobj, hv⟩
      cases hv
      rcases EnumType.flagList_decoded h.1 h.2 hobj with ⟨b, hwritten, hread⟩
      refine Survives.of_written (b := b) ?_ ?_
      · rw [encode]
        exact hwritten
      · rw [decode, hread, ok_bind, pure_eq_ok]
  | struct l =>
      rw [decode] at hdec
      rcases bind_eq_ok_iff.1 hdec with ⟨obj, hobj, hv⟩
      cases hv
      rcases Layout.decoded h hobj with ⟨b, hwritten, hread⟩
      refine Survives.of_written (b := b) ?_ ?_
      · rw [encode]
        exact hwritten
      · rw [decode, hread, ok_bind, pure_eq_ok]
  | array zero elem => exact hp.elim
  | map elem => exact hp.elim
  | attrs name => exact hp.elim

end Leaves

section Array

/-- The attribute of an element by its place. -/
def numbered (zero : Bool) (x : Bytes × Nat) : UInt16 × Bytes :=
  (UInt16.ofNat (Nested.firstIndex zero + x.2), x.1)

/-- The place of an element is an attribute type, and its payload fits. -/
def Fits (zero : Bool) (x : Bytes × Nat) : Prop :=
  Nested.firstIndex zero + x.2 ≤ 0x3FFF ∧ 4 + x.1.length ≤ 0xFFFF

theorem toNat_numbered {zero : Bool} {x : Bytes × Nat} (h : Nested.firstIndex zero + x.2 ≤ 0x3FFF) :
    (numbered zero x).1.toNat = Nested.firstIndex zero + x.2 := by
  rw [numbered, UInt16.toNat_ofNat']
  exact Nat.mod_eq_of_lt (by omega)

theorem accept_numbered {zero : Bool} {x : Bytes × Nat} (h : Fits zero x) :
    Writer.accept (numbered zero x).1 (numbered zero x).2 = .ok (numbered zero x) :=
  Writer.accept_eq_ok_iff.2 ⟨toNat_numbered h.1 ▸ h.1, h.2, rfl⟩

variable {zero : Bool} {elem : Payload}

theorem element_eq_ok_iff {x : Value} {i : Nat} {a : UInt16 × Bytes} :
    element sets zero elem (x, i) = .ok a ↔
      ∃ b, elem.encode sets x = .ok b ∧ Fits zero (b, i) ∧ a = numbered zero (b, i) := by
  unfold element
  cases elem.encode sets x with
  | error e =>
      constructor
      · intro h
        cases h
      · rintro ⟨b, h, -⟩
        cases h
  | ok b =>
      simp only [Except.mapError, ok_bind, Except.ok.injEq, exists_eq_left']
      by_cases hi : Attribute.typeMask < Nested.firstIndex zero + i
      · rw [if_pos hi]
        constructor
        · intro h
          cases h
        · rintro ⟨hfits, -⟩
          exact absurd hi (Nat.not_lt.2 hfits.1)
      · rw [if_neg hi, Writer.accept_eq_ok_iff]
        have hle : Nested.firstIndex zero + i ≤ 0x3FFF := Nat.not_lt.1 hi
        have htype : (UInt16.ofNat (Nested.firstIndex zero + i)).toNat ≤ 0x3FFF :=
          Nat.le_trans (Nat.le_of_eq (toNat_numbered (x := (b, i)) hle)) hle
        constructor
        · rintro ⟨-, hsize, rfl⟩
          exact ⟨⟨hle, hsize⟩, rfl⟩
        · rintro ⟨hfits, rfl⟩
          exact ⟨htype, hfits.2, rfl⟩

theorem readElement_eq_ok_iff {a : Attribute} {i : Nat} {v : Value} :
    readElement sets zero elem (a, i) = .ok v ↔ a.type.toNat = Nested.firstIndex zero + i ∧
      a.netByteOrder = false ∧ elem.decode sets a.payload = .ok v := by
  unfold readElement
  by_cases htype : a.type.toNat = Nested.firstIndex zero + i
  · simp only [htype, ne_eq, not_true, if_false, true_and]
    cases a.netByteOrder with
    | true =>
        constructor
        · intro h
          cases h
        · rintro ⟨h, -⟩
          cases h
    | false =>
        simp only [Bool.false_eq_true, if_false, true_and]
        exact mapError_eq_ok_iff
  · simp only [ne_eq, htype, not_false_eq_true, if_true, false_and, iff_false]
    intro h
    cases h

/-- The attributes of elements, one after another, are read as the elements. -/
theorem mapM_readElement {vs : List Value} {bs : List Bytes}
    (h : List.Forall₂ (fun v b => elem.decode sets b = .ok v) vs bs) (k : Nat)
    (hfits : ∀ x ∈ bs.zipIdx k, Fits zero x) :
    ((((bs.zipIdx k).map (numbered zero)).map Attribute.plain).zipIdx k).mapM
      (readElement sets zero elem) = .ok vs := by
  induction h generalizing k with
  | nil => rfl
  | cons hv _ ih =>
      rw [List.zipIdx_cons, List.forall_mem_cons] at hfits
      rw [List.zipIdx_cons, List.map_cons, List.map_cons, List.zipIdx_cons, List.mapM_cons,
        readElement_eq_ok_iff.2 ⟨toNat_numbered hfits.1.1, rfl, hv⟩, ok_bind, ih _ hfits.2, ok_bind,
        pure_eq_ok]

theorem decode_array_stream {vs : List Value} {bs : List Bytes}
    (h : List.Forall₂ (fun v b => elem.decode sets b = .ok v) vs bs)
    (hfits : ∀ x ∈ bs.zipIdx, Fits zero x) :
    (array zero elem).decode sets (Writer.stream (bs.zipIdx.map (numbered zero)))
      = .ok (.list vs) := by
  have hwalk : Attribute.walk (Writer.stream (bs.zipIdx.map (numbered zero)))
      = ((bs.zipIdx.map (numbered zero)).map Attribute.plain, none) := by
    refine Attribute.walk_stream fun a ha => ?_
    rcases List.mem_map.1 ha with ⟨x, hx, rfl⟩
    exact accept_numbered (hfits x hx)
  refine (decode_array sets).2 ?_
  rw [hwalk]
  exact ⟨rfl, vs, mapM_readElement h 0 hfits, rfl⟩

theorem mapM_element {vs : List Value} {bs : List Bytes}
    (h : List.Forall₂ (fun v b => elem.encode sets v = .ok b) vs bs) (k : Nat)
    (hfits : ∀ x ∈ bs.zipIdx k, Fits zero x) :
    (vs.zipIdx k).mapM (element sets zero elem) = .ok ((bs.zipIdx k).map (numbered zero)) := by
  induction h generalizing k with
  | nil => rfl
  | cons hv _ ih =>
      rw [List.zipIdx_cons, List.forall_mem_cons] at hfits
      rw [List.zipIdx_cons, List.zipIdx_cons, List.mapM_cons,
        element_eq_ok_iff.2 ⟨_, hv, hfits.1, rfl⟩, ok_bind, ih _ hfits.2, ok_bind, pure_eq_ok,
        List.map_cons]

-- Where all elements were written, their payloads are known and fit.
theorem forall₂_of_mapM_element {vs : List Value} {k : Nat} {as : List (UInt16 × Bytes)}
    (h : (vs.zipIdx k).mapM (element sets zero elem) = .ok as) :
    ∃ bs, as = (bs.zipIdx k).map (numbered zero) ∧
      List.Forall₂ (fun v b => elem.encode sets v = .ok b) vs bs ∧
      ∀ x ∈ bs.zipIdx k, Fits zero x := by
  induction vs generalizing k as with
  | nil =>
      cases h
      exact ⟨[], rfl, List.Forall₂.nil, nofun⟩
  | cons v vs ih =>
      rw [List.zipIdx_cons, List.mapM_cons] at h
      rcases bind_eq_ok_iff.1 h with ⟨a, ha, hrest⟩
      rcases bind_eq_ok_iff.1 hrest with ⟨as', has', heq⟩
      cases heq
      rcases element_eq_ok_iff.1 ha with ⟨b, hb, hfits, rfl⟩
      rcases ih has' with ⟨bs, rfl, hbs, hall⟩
      exact ⟨b :: bs, rfl, hbs.cons hb, List.forall_mem_cons.2 ⟨hfits, hall⟩⟩

/-- An array that was encoded stands for some list, if its elements stand for some values. -/
theorem matches_of_encode_array {v : Value} {b : Bytes}
    (helem : ∀ items, v.items? = some items → ∀ x ∈ items, ∀ d, elem.encode sets x = .ok d →
      ∃ x', elem.Matches sets x' d)
    (h : (array zero elem).encode sets v = .ok b) : ∃ v', (array zero elem).Matches sets v' b := by
  rcases items?_of_encode_array sets h with ⟨items, hitems⟩
  rw [encode_array sets hitems, map_eq_ok_iff] at h
  rcases h with ⟨as, has, rfl⟩
  rcases forall₂_of_mapM_element has with ⟨bs, rfl, hbs, hfits⟩
  have hvalue : ∀ d ∈ bs, ∃ x', elem.Matches sets x' d := by
    intro d hd
    rcases forall₂_right hbs hd with ⟨x, hx, hxd⟩
    exact helem items hitems x hx d hxd
  rcases exists_forall₂ hvalue with ⟨vs, hvs⟩
  have hmatch : List.Forall₂ (elem.Matches sets) vs bs := hvs.flip
  refine ⟨.list vs, Matches.of_read_written ?_ ?_⟩
  · exact decode_array_stream (hmatch.imp fun _ _ hm => hm.read) hfits
  · rw [encode_array sets rfl, mapM_element (hmatch.imp fun _ _ hm => hm.written) 0 hfits, map_ok]

/-- The elements of a list that was decoded, and the places at which they stood. -/
theorem forall₂_of_mapM_readElement {as : List Attribute} {k : Nat} {vs : List Value}
    (h : (as.zipIdx k).mapM (readElement sets zero elem) = .ok vs) :
    (∀ v ∈ vs, ∃ a ∈ as, elem.decode sets a.payload = .ok v) ∧
      ∀ x ∈ vs.zipIdx k, ∃ a ∈ as, a.type.toNat = Nested.firstIndex zero + x.2 := by
  induction as generalizing k vs with
  | nil =>
      cases h
      exact ⟨nofun, nofun⟩
  | cons a as ih =>
      rw [List.zipIdx_cons, List.mapM_cons] at h
      rcases bind_eq_ok_iff.1 h with ⟨v, hv, hrest⟩
      rcases bind_eq_ok_iff.1 hrest with ⟨vs', hvs', heq⟩
      cases heq
      rcases readElement_eq_ok_iff.1 hv with ⟨htype, -, hdec⟩
      rcases ih hvs' with ⟨hvalues, hplaces⟩
      have hmem : ∀ {P : Attribute → Prop}, (∃ x ∈ as, P x) → ∃ x ∈ a :: as, P x :=
        fun ⟨x, hx, hp⟩ => ⟨x, List.mem_cons_of_mem _ hx, hp⟩
      refine ⟨List.forall_mem_cons.2 ⟨⟨a, List.mem_cons_self, hdec⟩, fun x hx =>
        hmem (hvalues x hx)⟩, ?_⟩
      rw [List.zipIdx_cons]
      exact List.forall_mem_cons.2 ⟨⟨a, List.mem_cons_self, htype⟩, fun x hx =>
        hmem (hplaces x hx)⟩

-- An element whose place is an attribute type is refused for its length only.
theorem unlessTooLong_element {x : Value} {i : Nat} (hi : Nested.firstIndex zero + i ≤ 0x3FFF)
    (hx : elem.Survives sets x) :
    UnlessTooLong (element sets zero elem (x, i)) fun a =>
      ∃ b, elem.decode sets b = .ok x ∧ Fits zero (b, i) ∧ a = numbered zero (b, i) := by
  unfold element
  refine UnlessTooLong.bind (hx.mapError fun e he => he.element _) fun b hb => ?_
  have hmask : ¬ Attribute.typeMask < Nested.firstIndex zero + i := Nat.not_lt.2 hi
  simp only [if_neg hmask]
  have htype := toNat_numbered (x := (b, i)) hi
  refine (Writer.unlessTooLong_accept (Nat.le_trans (Nat.le_of_eq htype) hi) b).imp fun a ha => ?_
  rcases Writer.accept_eq_ok_iff.1 ha with ⟨-, hsize, rfl⟩
  exact ⟨b, hb, ⟨hi, hsize⟩, rfl⟩

theorem unlessTooLong_mapM_element {vs : List Value} {k : Nat}
    (hplaces : ∀ x ∈ vs.zipIdx k, Nested.firstIndex zero + x.2 ≤ 0x3FFF)
    (helem : ∀ x ∈ vs, elem.Survives sets x) :
    UnlessTooLong ((vs.zipIdx k).mapM (element sets zero elem)) fun as =>
      ∃ bs, as = (bs.zipIdx k).map (numbered zero) ∧
        List.Forall₂ (fun v b => elem.decode sets b = .ok v) vs bs ∧
        ∀ x ∈ bs.zipIdx k, Fits zero x := by
  induction vs generalizing k with
  | nil => exact ⟨[], rfl, List.Forall₂.nil, nofun⟩
  | cons v vs ih =>
      rw [List.zipIdx_cons] at hplaces
      have hhead := List.forall_mem_cons.1 hplaces
      have hall := List.forall_mem_cons.1 helem
      rw [List.zipIdx_cons, List.mapM_cons]
      refine (unlessTooLong_element hhead.1 hall.1).bind ?_
      rintro a ⟨b, hb, hfits, rfl⟩
      refine (ih hhead.2 hall.2).bind ?_
      rintro as ⟨bs, rfl, hbs, hrest⟩
      exact ⟨b :: bs, rfl, hbs.cons hb, List.forall_mem_cons.2 ⟨hfits, hrest⟩⟩

/-- A list that was decoded can be encoded, if its elements can. -/
theorem survives_array {d : Bytes} {v : Value}
    (helem : ∀ a ∈ (Attribute.walk d).1, ∀ x, elem.decode sets a.payload = .ok x →
      elem.Survives sets x)
    (h : (array zero elem).decode sets d = .ok v) : (array zero elem).Survives sets v := by
  rcases (decode_array sets).1 h with ⟨-, vs, hvs, rfl⟩
  rcases forall₂_of_mapM_readElement hvs with ⟨hvalues, hplaces⟩
  have hsurvive : ∀ x ∈ vs, elem.Survives sets x := by
    intro x hx
    rcases hvalues x hx with ⟨a, ha, hax⟩
    exact helem a ha x hax
  have hindex : ∀ x ∈ vs.zipIdx 0, Nested.firstIndex zero + x.2 ≤ 0x3FFF := by
    intro x hx
    rcases hplaces x hx with ⟨a, ha, hax⟩
    rw [← hax]
    exact Attribute.type_le_of_mem_walk ha
  rw [Survives, encode_array sets rfl]
  refine UnlessTooLong.map ((unlessTooLong_mapM_element hindex hsurvive).imp ?_)
  rintro as ⟨bs, rfl, hbs, hfits⟩
  exact decode_array_stream hbs hfits

end Array

section Map

variable {elem : Payload}

theorem pairs_map (es : List (UInt16 × Value)) : pairs (.map es) = .ok es := by
  rw [pairs, Nested.entries, map_ok, List.map_map]
  exact congrArg Except.ok (List.attach_map_subtype_val es)

theorem typeOfKey_inj {x y : Int} {key : UInt16} (hx : Nested.typeOfKey x = .ok key)
    (hy : Nested.typeOfKey y = .ok key) : x = y := by
  have hval : ∀ z : Int, Nested.typeOfKey z = .ok key → (key.toNat : Int) = z := by
    intro z hz
    unfold Nested.typeOfKey at hz
    split at hz
    · cases hz
    · rename_i hrange
      cases hz
      have hle : ¬ (0x3FFF : Int) < z := fun h => hrange (Or.inr h)
      have hmod : z % 2 ^ 16 = z := Int.emod_eq_of_lt (by omega) (by omega)
      rw [UInt16.ofInt, hmod, UInt16.toNat_ofNat']
      omega
  rw [← hval x hx, ← hval y hy]

/-- What is known of the entries of a map whose keys are distinct. -/
theorem of_entries {v : Value} {es : List (Nested.Entry v)} (h : Nested.entries v = .ok es)
    (hv : v.KeysDistinct) :
    (es.map Nested.Entry.key).Nodup ∧ ∀ e ∈ es, e.value.KeysDistinct := by
  cases v with
  | map entries =>
      rw [Value.KeysDistinct, Value.entriesDistinct_iff] at hv
      cases h
      rw [List.map_map]
      refine ⟨?_, fun e he => ?_⟩
      · rw [← List.attach_map_subtype_val entries, List.map_map] at hv
        exact hv.1
      · rcases List.mem_map.1 he with ⟨x, -, rfl⟩
        exact hv.2 x.1 x.2
  | intMap entries =>
      rw [Value.KeysDistinct, Value.intEntriesDistinct_iff] at hv
      have hall : List.Forall₂ (fun (x : {x // x ∈ entries}) (e : Nested.Entry (.intMap entries)) =>
          Nested.typeOfKey x.1.1.toInt = .ok e.key ∧ e.value = x.1.2) entries.attach es := by
        refine (mapM_eq_ok_iff.1 h).imp fun x e hxe => ?_
        rcases bind_eq_ok_iff.1 hxe with ⟨key, hkey, he⟩
        cases he
        exact ⟨hkey, rfl⟩
      refine ⟨?_, fun e he => ?_⟩
      · rw [← List.attach_map_subtype_val entries, List.map_map] at hv
        refine nodup_of_forall₂ hall (fun x e y e' hxe hye heq => ?_) hv.1
        exact Int64.toInt_inj.1 (typeOfKey_inj hxe.1 (heq ▸ hye.1))
      · rcases forall₂_right hall he with ⟨x, -, -, hx⟩
        rw [hx]
        exact hv.2 x.1 x.2
  | object fields =>
      cases fields with
      | nil =>
          cases h
          exact ⟨List.nodup_nil, List.forall_mem_nil _⟩
      | cons _ _ => cases h
  | textMap entries =>
      cases entries with
      | nil =>
          cases h
          exact ⟨List.nodup_nil, List.forall_mem_nil _⟩
      | cons _ _ => cases h
  | _ => cases h

theorem ascending_iff {α : Type} {es : List (UInt16 × α)} :
    Nested.Ascending es ↔ (es.map Prod.fst).Pairwise (· < ·) := List.pairwise_map.symm

/-- Entries with distinct keys are in strict order once they are sorted. -/
theorem ascending_sortBy {es : List (UInt16 × Value)} (h : (es.map Prod.fst).Nodup) :
    Nested.Ascending (sortBy (fun a b => decide (a.1 ≤ b.1)) es) := by
  have hsorted : (sortBy (fun a b => decide (a.1 ≤ b.1)) es).Pairwise
      fun a b => decide (a.1 ≤ b.1) = true := by
    refine pairwise_sortBy (fun a b => ?_) (fun a b c hab hbc => ?_) es
    · simpa only [decide_eq_true_eq] using UInt16.le_total a.1 b.1
    · rw [decide_eq_true_eq] at hab hbc ⊢
      exact UInt16.le_trans hab hbc
  have hdistinct : ((sortBy (fun a b => decide (a.1 ≤ b.1)) es).map Prod.fst).Nodup :=
    ((sortBy_perm _ es).map Prod.fst).nodup_iff.2 h
  rw [List.Nodup, List.pairwise_map] at hdistinct
  refine (hsorted.and hdistinct).imp fun hab => ?_
  exact UInt16.lt_of_le_of_ne (of_decide_eq_true hab.1) hab.2

theorem entry_eq_ok_iff {e : UInt16 × Value} {a : UInt16 × Bytes} :
    entry sets elem e = .ok a ↔
      e.1 = a.1 ∧ elem.encode sets e.2 = .ok a.2 ∧ Writer.accept a.1 a.2 = .ok a := by
  unfold entry
  cases elem.encode sets e.2 with
  | error err =>
      constructor
      · intro h
        cases h
      · rintro ⟨-, h, -⟩
        cases h
  | ok b =>
      simp only [Except.mapError, ok_bind, Except.ok.injEq]
      constructor
      · intro h
        rcases Writer.accept_eq_ok_iff.1 h with ⟨-, -, rfl⟩
        exact ⟨rfl, rfl, h⟩
      · rintro ⟨hkey, hb, h⟩
        rw [hkey, hb]
        exact h

/-- The attribute of an entry fits its header and is read as the entry. -/
def EntryRead (sets : AttrSets) (elem : Payload) (e : UInt16 × Value) (a : UInt16 × Bytes) : Prop :=
  e.1 = a.1 ∧ elem.decode sets a.2 = .ok e.2 ∧ Writer.accept a.1 a.2 = .ok a

theorem decode_map_stream {es : List (UInt16 × Value)} {as : List (UInt16 × Bytes)}
    (h : List.Forall₂ (EntryRead sets elem) es as) (hes : Nested.Ascending es) :
    (map elem).decode sets (Writer.stream as) = .ok (.map es) := by
  have hwalk : Attribute.walk (Writer.stream as) = (as.map Attribute.plain, none) := by
    refine Attribute.walk_stream fun a ha => ?_
    rcases forall₂_right h ha with ⟨e, -, -, -, haccept⟩
    exact haccept
  have hread : (as.map Attribute.plain).mapM (readEntry sets elem) = .ok es := by
    rw [mapM_eq_ok_iff, List.forall₂_map_left_iff]
    refine h.flip.imp fun a e hae => ?_
    rcases e with ⟨k, v⟩
    rcases hae with ⟨hkey, hdec, -⟩
    simp only at hkey hdec
    simp [readEntry, Attribute.plain, hdec, Except.mapError, hkey]
  refine (decode_map sets).2 ?_
  rw [hwalk]
  exact ⟨rfl, es, hread, by rw [Nested.foldl_setEntry_of_ascending hes]⟩

theorem encode_map_of_ascending {es : List (UInt16 × Value)} (hes : Nested.Ascending es) :
    (map elem).encode sets (.map es) = (es.mapM (entry sets elem)).map Writer.stream := by
  have hsorted : sortBy (fun a b => decide (a.1 ≤ b.1)) es = es :=
    sortBy_of_pairwise (hes.imp fun hlt => decide_eq_true (UInt16.le_of_lt hlt))
  rw [encode_map, pairs_map, ok_bind, hsorted]

/-- A map that was encoded stands for some map, if its elements stand for some values. -/
theorem matches_of_encode_map {v : Value} (hv : v.KeysDistinct) {b : Bytes}
    (helem : ∀ x : Value, x.depth < v.depth → x.KeysDistinct → ∀ d, elem.encode sets x = .ok d →
      ∃ x', elem.Matches sets x' d)
    (h : (map elem).encode sets v = .ok b) : ∃ v', (map elem).Matches sets v' b := by
  rw [encode_map] at h
  rcases bind_eq_ok_iff.1 h with ⟨es, hes, hrest⟩
  rcases map_eq_ok_iff.1 hrest with ⟨as, has, rfl⟩
  rcases map_eq_ok_iff.1 hes with ⟨entries, hentries, rfl⟩
  rcases of_entries hentries hv with ⟨hdistinct, hkeys⟩
  have hall := mapM_eq_ok_iff.1 has
  -- The values found for the payloads, under the keys that the entries had.
  have hvalue : ∀ a ∈ as, ∃ e' : UInt16 × Value, e'.1 = a.1 ∧ elem.Matches sets e'.2 a.2 ∧
      Writer.accept a.1 a.2 = .ok a := by
    intro a ha
    rcases forall₂_right hall ha with ⟨e, he, hea⟩
    rcases entry_eq_ok_iff.1 hea with ⟨-, henc, haccept⟩
    rcases List.mem_map.1 (mem_sortBy.1 he) with ⟨x, hx, rfl⟩
    rcases helem x.value x.depth_lt (hkeys x hx) a.2 henc with ⟨x', hx'⟩
    exact ⟨(a.1, x'), rfl, hx', haccept⟩
  rcases exists_forall₂ hvalue with ⟨es', hes'⟩
  have hasc : Nested.Ascending es' := by
    have hnodup : ((entries.map fun e => (e.key, e.value)).map Prod.fst).Nodup := by
      rw [List.map_map]
      exact hdistinct
    have hsorted := ascending_iff.1 (ascending_sortBy hnodup)
    rw [map_eq_map_of_forall₂ (hall.imp fun e a hea => (entry_eq_ok_iff.1 hea).1)] at hsorted
    rw [ascending_iff, ← map_eq_map_of_forall₂ (hes'.imp fun a e hae => hae.1.symm)]
    exact hsorted
  refine ⟨.map es', Matches.of_read_written ?_ ?_⟩
  · refine decode_map_stream (hes'.flip.imp fun e a hea => ?_) hasc
    exact ⟨hea.1, hea.2.1.read, hea.2.2⟩
  · have hwritten : es'.mapM (entry sets elem) = .ok as := by
      rw [mapM_eq_ok_iff]
      refine hes'.flip.imp fun e a hea => ?_
      exact entry_eq_ok_iff.2 ⟨hea.1, hea.2.1.written, hea.2.2⟩
    rw [encode_map_of_ascending hasc, hwritten, map_ok]

theorem ascending_foldl_setEntry (es : List (UInt16 × Value)) {m : List (UInt16 × Value)}
    (h : Nested.Ascending m) :
    Nested.Ascending (es.foldl (fun m e => Nested.setEntry e.1 e.2 m) m) := by
  induction es generalizing m with
  | nil => exact h
  | cons e es ih => exact ih (Nested.ascending_setEntry h e.1 e.2)

theorem mem_of_mem_foldl_setEntry {es m : List (UInt16 × Value)} {x : UInt16 × Value}
    (h : x ∈ es.foldl (fun m e => Nested.setEntry e.1 e.2 m) m) : x ∈ es ∨ x ∈ m := by
  induction es generalizing m with
  | nil => exact Or.inr h
  | cons e es ih =>
      rcases ih h with hx | hx
      · exact Or.inl (List.mem_cons_of_mem _ hx)
      · rcases Nested.mem_setEntry hx with rfl | hx
        · exact Or.inl List.mem_cons_self
        · exact Or.inr hx

theorem readEntry_eq_ok {a : Attribute} {e : UInt16 × Value} (h : readEntry sets elem a = .ok e) :
    e.1 = a.type ∧ elem.decode sets a.payload = .ok e.2 := by
  unfold readEntry at h
  split at h
  · cases h
  · rcases bind_eq_ok_iff.1 h with ⟨v, hv, he⟩
    cases he
    cases hdec : elem.decode sets a.payload with
    | error err =>
        rw [hdec] at hv
        cases hv
    | ok x =>
        rw [hdec] at hv
        cases hv
        exact ⟨rfl, rfl⟩

-- An entry whose key is an attribute type is refused for its length only.
theorem unlessTooLong_entry {e : UInt16 × Value} (hkey : e.1.toNat ≤ 0x3FFF)
    (he : elem.Survives sets e.2) :
    UnlessTooLong (entry sets elem e) (EntryRead sets elem e) := by
  unfold entry
  refine UnlessTooLong.bind (he.mapError fun err herr => herr.element _) fun b hb => ?_
  refine (Writer.unlessTooLong_accept hkey b).imp fun a ha => ?_
  rcases Writer.accept_eq_ok_iff.1 ha with ⟨-, -, rfl⟩
  exact ⟨rfl, hb, ha⟩

/-- A map that was decoded can be encoded, if its elements can. -/
theorem survives_map {d : Bytes} {v : Value}
    (helem : ∀ a ∈ (Attribute.walk d).1, ∀ x, elem.decode sets a.payload = .ok x →
      elem.Survives sets x)
    (h : (map elem).decode sets d = .ok v) : (map elem).Survives sets v := by
  rcases (decode_map sets).1 h with ⟨-, es, hes, rfl⟩
  have hasc := ascending_foldl_setEntry es List.Pairwise.nil
  rw [Survives, encode_map_of_ascending hasc]
  refine UnlessTooLong.map ((UnlessTooLong.mapM fun e he => ?_).imp fun as has =>
    decode_map_stream has hasc)
  have hmem : e ∈ es := (mem_of_mem_foldl_setEntry he).resolve_right List.not_mem_nil
  rcases forall₂_right (mapM_eq_ok_iff.1 hes) hmem with ⟨a, ha, hae⟩
  rcases readEntry_eq_ok hae with ⟨hkey, hdec⟩
  exact unlessTooLong_entry (hkey ▸ Attribute.type_le_of_mem_walk ha) (helem a ha e.2 hdec)

end Map

end Payload

end NetlinkSchema
