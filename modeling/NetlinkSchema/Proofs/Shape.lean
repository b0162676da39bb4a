import NetlinkSchema.Proofs.Listing
import NetlinkSchema.Proofs.RoundTrip

/-!
# The shape of decoded values

Payloads, struct members and lowered integers are decoded to scalars, objects, lists and maps, and
maps come from attributes only. Where they end up is a matter of the schema: an array may have maps
as elements, and so has a repeated attribute that is a map. These are the values that a listing
has no notation for.

A message is decoded from the outside to the inside, and each payload is shorter than the stream
around it. `Payload.decode_induction` puts this into a rule by which what holds of the parts that
were decoded holds of the whole.

## Main definitions

* `Schema.MapsApart`: A schema without arrays of maps and repeated maps.
* `Schema.rack`: A schema with an attribute of some type, in racks within racks.

## Theorems

* `Payload.decode_induction`: Induction over what is decoded.
* `Payload.made_of_decode`: Decoding makes scalars, objects, lists and maps.
* `Payload.listable_of_decode`: Without arrays of maps it makes what can be listed.
* `Schema.listing_complete_iff`: Which messages are listed to the end.
-/

namespace NetlinkSchema

/-- What holds of a new value and of all values before holds of all values after. -/
theorem Object.forall_set {P : Value → Prop} {obj : Object} (hobj : ∀ e ∈ obj, P e.2) {name : Text}
    {v : Value} (hv : P v) : ∀ e ∈ Object.set obj name v, P e.2 := by
  intro e he
  rcases Object.mem_set he with rfl | he
  · exact hv
  · exact hobj e he

theorem Object.mem_of_get {obj : Object} {name : Text} {v : Value} (h : Object.get obj name = v)
    (hv : v ≠ .null) : ∃ e ∈ obj, e.2 = v := by
  unfold Object.get at h
  cases hfind : obj.find? (·.1 == name) with
  | none =>
      rw [hfind] at h
      exact absurd h.symm hv
  | some e =>
      rw [hfind] at h
      exact ⟨e, List.mem_of_find?_eq_some hfind, h⟩

theorem Number.scalar_read (num : Number) (buf : Bytes) :
    (Listing.scalar? (num.read buf)).isSome = true := by
  rcases num with ⟨kind, order⟩
  cases kind with
  | unsigned w =>
      cases w with
      | _ => rfl
  | signed w =>
      cases w with
      | _ => rfl
  | float32 => rfl
  | float64 => rfl

theorem FlagsType.made_decode (f : FlagsType) (bits : UInt64) :
    (Value.object (f.decode bits)).Made False := by
  have hset := f.marks_present bits
  have hflags : ∀ e ∈ (f.present bits).foldl
      (fun obj flag => Object.set obj flag.name (.bool true)) [], e.2.Made False := by
    rintro ⟨k, v⟩ he
    rw [((hset.mem_iff k v).1 he).2]
    exact .scalar rfl
  unfold decode
  simp only
  split
  · exact .object hflags
  · exact .object (Object.forall_set hflags (.scalar rfl))

theorem EnumType.made_decodeBitmask (e : EnumType) (bits : UInt64) :
    (Value.object (e.decodeBitmask bits)).Made False := by
  refine .object ?_
  rintro ⟨k, v⟩ hkv
  rw [((represents_decodeBitmask bits).mem_iff k v |>.1 hkv).2]
  exact .scalar rfl

theorem EnumType.made_decodeFlagList {e : EnumType} {buf : Bytes} {obj : Object}
    (h : e.decodeFlagList buf = .ok obj) : (Value.object obj).Made False := by
  rw [decodeFlagList_eq] at h
  refine .object (foldlM_invariant (fun _ obj => ∀ x ∈ obj, x.2.Made False)
    (fun x hx => absurd hx List.not_mem_nil) ?_ (Nested.foldAttributes_eq_ok_iff.1 h).2)
  intro passed a old new _ hold hstep
  rcases flagStep_eq_ok hstep with ⟨-, rfl⟩ | ⟨field, -, rfl⟩
  · exact hold
  · exact Object.forall_set hold (.scalar rfl)

theorem Lowering.made_read (l : Lowering) (num : Number) (buf : Bytes) :
    (l.read num buf).Made False := by
  cases l with
  | none => exact .scalar (num.scalar_read buf)
  | enum e =>
      rw [read, EnumType.decodeName]
      split
      · exact .scalar rfl
      · exact .scalar (num.scalar_read buf)
  | bitmask e => exact e.made_decodeBitmask _
  | flags f => exact f.made_decode _

namespace MemberType

theorem made_decodeMembers {members : Members}
    (h : ∀ m ∈ members, ∀ buf v, m.2.decode buf = .ok v → v.Made False) {type : Text} {buf : Bytes}
    {obj : Object} (hdecode : decodeMembers type members buf = .ok obj) :
    ∀ e ∈ obj, e.2.Made False := by
  induction members generalizing buf obj with
  | nil =>
      rw [decodeMembers] at hdecode
      cases hdecode
      exact fun e he => absurd he List.not_mem_nil
  | cons m rest ih =>
      rw [List.forall_mem_cons] at h
      rcases decodeMembers_cons_eq hdecode with ⟨v, others, hv, hothers, rfl⟩
      exact Object.forall_set (ih h.2 hothers) (h.1 _ v hv)

/-- A member of a struct holds no maps. -/
theorem made_decode (t : MemberType) :
    ∀ buf v, t.decode buf = .ok v → v.Made False := by
  induction t using inductionOn with
  | bytes count =>
      intro buf v h
      rw [decode] at h
      cases h
      exact .scalar rfl
  | bool =>
      intro buf v h
      rw [decode] at h
      rcases Scalar.readBool_eq_ok h with ⟨c, rfl, -⟩
      exact .scalar rfl
  | number num lower =>
      intro buf v h
      rw [decode] at h
      cases h
      exact lower.made_read num buf
  | struct name members ih =>
      intro buf v h
      rw [decode] at h
      rcases bind_eq_ok_iff.1 h with ⟨-, -, h⟩
      rcases bind_eq_ok_iff.1 h with ⟨obj, hobj, hv⟩
      cases hv
      exact .object (made_decodeMembers ih hobj)
  | array count elem ih =>
      intro buf v h
      rw [decode] at h
      rcases bind_eq_ok_iff.1 h with ⟨items, hitems, hv⟩
      cases hv
      refine .list fun item hitem => ?_
      rcases forall₂_right (mapM_eq_ok_iff.1 hitems) hitem with ⟨piece, -, hpiece⟩
      exact ih piece item hpiece

end MemberType

theorem Layout.made_decode {l : Layout} {buf : Bytes} {obj : Object} (h : l.decode buf = .ok obj) :
    (Value.object obj).Made False := by
  rw [decode] at h
  rcases bind_eq_ok_iff.1 h with ⟨-, -, h⟩
  rcases bind_eq_ok_iff.1 h with ⟨known, hknown, h⟩
  have hmade := MemberType.made_decodeMembers (fun m _ => m.2.made_decode) hknown
  split at h
  · cases h
    exact .object hmade
  · cases h
    split
    · exact .object (Object.forall_set hmade (.scalar rfl))
    · exact .object hmade

/-- What holds of all occurrences, and of lists of them as far as fields are repeated, holds of the
    values of the object. -/
theorem Field.forall_storeAll {P : Value → Prop} {os : List (Field × Value)}
    (hplain : ∀ o ∈ os, P o.2) (hnil : P (.list []))
    (hlist : ∀ o ∈ os, o.1.repeated = true →
      ∀ items, P (.list items) → P (.list (items ++ [o.2]))) :
    ∀ e ∈ storeAll os, P e.2 := by
  -- The last occurrence is stored last, so the induction takes occurrences from the end.
  induction os using List.reverseRecOn with
  | nil => exact fun e he => absurd he List.not_mem_nil
  | append_singleton os o ih =>
      have hprev := ih (fun x hx => hplain x (List.mem_append_left _ hx))
        fun x hx => hlist x (List.mem_append_left _ hx)
      have hlast : o ∈ os ++ [o] := List.mem_append_right _ List.mem_cons_self
      rw [storeAll_concat, store]
      by_cases hrep : o.1.repeated = true
      · rw [if_pos hrep]
        refine Object.forall_set hprev (hlist o hlast hrep _ ?_)
        cases hget : Object.get (storeAll os) o.1.name with
        | list items =>
            rcases Object.mem_of_get hget (fun h => by cases h) with ⟨e, he, hvalue⟩
            rw [← hvalue]
            exact hprev e he
        | _ => exact hnil
      · rw [if_neg hrep]
        exact Object.forall_set hprev (hplain o hlast)

namespace Payload

variable {sets : AttrSets}

/-- A payload that holds no other payloads holds no maps. -/
theorem made_leaf {p : Payload} (hp : p.IsLeaf) {d : Bytes} {v : Value}
    (h : p.decode sets d = .ok v) : v.Made False := by
  cases p with
  | number num lower =>
      rw [decode] at h
      rcases bind_eq_ok_iff.1 h with ⟨u, -, hv⟩
      cases hv
      exact lower.made_read num d
  | string maxLength =>
      rw [decode, Scalar.getString] at h
      rcases bind_eq_ok_iff.1 h with ⟨u, -, hv⟩
      split at hv
      · cases hv
        exact .scalar rfl
      · cases hv
  | data =>
      rw [decode] at h
      cases h
      exact .scalar rfl
  | bool =>
      rw [decode] at h
      rcases getBool_eq_ok h with ⟨c, rfl, -⟩
      exact .scalar rfl
  | flag =>
      rw [decode] at h
      cases d with
      | nil =>
          cases h
          exact .scalar rfl
      | cons x rest => cases h
  | flagList e =>
      rw [decode] at h
      rcases bind_eq_ok_iff.1 h with ⟨obj, hobj, hv⟩
      cases hv
      exact EnumType.made_decodeFlagList hobj
  | struct l =>
      rw [decode] at h
      rcases bind_eq_ok_iff.1 h with ⟨obj, hobj, hv⟩
      cases hv
      exact Layout.made_decode hobj
  | array zero elem => exact hp.elim
  | map elem => exact hp.elim
  | attrs name => exact hp.elim

/-- What holds of leaves, and of arrays, maps and objects if it holds of what was decoded for them,
    holds of everything that is decoded. -/
theorem decode_induction {P : Payload → Value → Prop}
    (leaf : ∀ p d v, p.IsLeaf → p.decode sets d = .ok v → P p v)
    (array : ∀ zero elem items, (∀ v ∈ items, P elem v) → P (array zero elem) (.list items))
    (map : ∀ elem entries, (∀ e ∈ entries, P elem e.2) → P (map elem) (.map entries))
    (attrs : ∀ name os, (∀ o ∈ os, o.1 ∈ sets.fields name ∧ P o.1.payload o.2) →
      P (attrs name) (.object (Field.storeAll os)))
    {p : Payload} {d : Bytes} {v : Value} (h : p.decode sets d = .ok v) : P p v := by
  -- The induction is on the length of the buffer, of which a payload is a shorter part.
  have key : ∀ n, ∀ (p : Payload) (d : Bytes) (v : Value), d.length = n →
      p.decode sets d = .ok v → P p v := by
    intro n
    induction n using Nat.strong_induction_on with
    | _ n ih =>
        intro p d v hlength h
        subst hlength
        have hshorter : ∀ q : Payload, ∀ a ∈ (Attribute.walk d).1, ∀ x,
            q.decode sets a.payload = .ok x → P q x := by
          intro q a ha x hx
          have hsize := Attribute.size_le_of_mem_walk ha
          have hheader : 0 < Attribute.headerSize := by decide
          exact ih a.payload.length (by omega) q a.payload x rfl hx
        cases p with
        | array zero elem =>
            rcases (decode_array sets).1 h with ⟨-, items, hitems, rfl⟩
            refine array zero elem items fun x hx => ?_
            rcases (forall₂_of_mapM_readElement hitems).1 x hx with ⟨a, ha, hdec⟩
            exact hshorter elem a ha x hdec
        | map elem =>
            rcases (decode_map sets).1 h with ⟨-, es, hes, rfl⟩
            refine map elem _ fun e he => ?_
            have hmem : e ∈ es := (mem_of_mem_foldl_setEntry he).resolve_right List.not_mem_nil
            rcases forall₂_right (mapM_eq_ok_iff.1 hes) hmem with ⟨a, ha, hread⟩
            exact hshorter elem a ha e.2 (readEntry_eq_ok hread).2
        | attrs name =>
            rcases (decode_attrs sets).1 h with ⟨-, found, hfound, rfl⟩
            refine attrs name _ fun o ho => ?_
            rcases List.mem_filterMap.1 ho with ⟨x, hx, rfl⟩
            rcases forall₂_right (mapM_eq_ok_iff.1 hfound) hx with ⟨a, ha, hread⟩
            rcases readField_eq_some_iff.1 hread with ⟨hfield, -, hdec⟩
            exact ⟨List.mem_of_find?_eq_some hfield, hshorter o.1.payload a ha o.2 hdec⟩
        | _ =>
            refine leaf _ d v ?_ h
            exact trivial
  exact key d.length p d v rfl h

/-- Decoding makes scalars, objects, lists and maps. -/
theorem made_of_decode {p : Payload} {d : Bytes} {v : Value} (h : p.decode sets d = .ok v) :
    v.Made True := by
  refine decode_induction (P := fun _ v => v.Made True) ?_ ?_ ?_ ?_ h
  · exact fun p d v hp hdec => (made_leaf hp hdec).mono False.elim
  · exact fun _ _ _ hitems => .list hitems
  · exact fun _ _ hentries => .map trivial hentries
  · intro name os hos
    refine .object (Field.forall_storeAll (fun o ho => (hos o ho).2)
      (.list fun v hv => absurd hv List.not_mem_nil) fun o ho _ items hitems => ?_)
    -- The list of a repeated field gets longer by one occurrence.
    cases hitems with
    | scalar h => cases h
    | list h =>
        refine .list fun v hv => ?_
        rcases List.mem_append.1 hv with hv | hv
        · exact h v hv
        · rw [List.mem_singleton.1 hv]
          exact (hos o ho).2

/-- Whether a payload is a map. -/
def isMap : Payload → Bool
  | map _ => true
  | _ => false

/-- No array in the payload has maps as elements. -/
def MapsApart : Payload → Prop
  | array _ elem => elem.isMap = false ∧ elem.MapsApart
  | map elem => elem.MapsApart
  | _ => True

/-- Without arrays of maps and repeated maps what is decoded is listable. -/
theorem listable_of_decode
    (hsets : ∀ name, ∀ f ∈ sets.fields name, f.payload.MapsApart ∧
      (f.repeated = true → f.payload.isMap = false))
    {p : Payload} (hp : p.MapsApart) {d : Bytes} {v : Value} (h : p.decode sets d = .ok v) :
    v.Listable := by
  -- An array asks of its elements that they are no maps, so that is carried along.
  refine (decode_induction (P := fun p v => (p.isMap = false → v.isMap = false) ∧
    (p.MapsApart → v.Listable)) ?_ ?_ ?_ ?_ h).2 hp
  · intro p d v hleaf hdec
    have hfree := (made_leaf hleaf hdec).listable
    exact ⟨fun _ => hfree.2, fun _ => hfree.1⟩
  · intro zero elem items hitems
    refine ⟨fun _ => rfl, fun helem => Value.listable_list.2 fun v hv => ?_⟩
    exact ⟨(hitems v hv).2 helem.2, (hitems v hv).1 helem.1⟩
  · intro elem entries hentries
    refine ⟨fun hmap => (by cases hmap), fun helem => Value.listable_map.2 fun e he => ?_⟩
    exact (hentries e he).2 helem
  · intro name os hos
    refine ⟨fun _ => rfl, fun _ => Value.listable_object.2 (Field.forall_storeAll ?_ ?_ ?_)⟩
    · exact fun o ho => (hos o ho).2.2 (hsets name o.1 (hos o ho).1).1
    · exact Value.listable_list.2 fun v hv => absurd hv List.not_mem_nil
    · intro o ho hrep items hitems
      rcases hos o ho with ⟨hfield, hmap, hlistable⟩
      rw [Value.listable_list] at hitems ⊢
      intro v hv
      rcases List.mem_append.1 hv with hv | hv
      · exact hitems v hv
      · rw [List.mem_singleton.1 hv]
        exact ⟨hlistable (hsets name o.1 hfield).1, hmap ((hsets name o.1 hfield).2 hrep)⟩

end Payload

namespace TypeExpr

/-- Whether an expression is a map. -/
def isMap : TypeExpr → Bool
  | map _ => true
  | _ => false

/-- Whether no array in the expression has maps as elements. -/
def mapsApart : TypeExpr → Bool
  | array elem _ => !elem.isMap && elem.mapsApart
  | map elem => elem.mapsApart
  | _ => true

end TypeExpr

namespace Schema

/-- No attribute is an array of maps, be it within other arrays and maps, or a repeated map. -/
def MapsApart (s : Schema) : Prop :=
  ∀ t ∈ s.types, ∀ a ∈ t.2.attrs, a.type.mapsApart = true ∧
    (a.options.repeated = true → a.type.isMap = false)

instance (s : Schema) : Decidable s.MapsApart :=
  inferInstanceAs (Decidable (∀ t ∈ s.types, ∀ a ∈ t.2.attrs, a.type.mapsApart = true ∧
    (a.options.repeated = true → a.type.isMap = false)))

variable {s : Schema}

/-- The payload of an expression has its arrays and maps where the expression has them. -/
theorem mapsApart_of_payload {o : AttributeOptions} {e : TypeExpr} {p : Payload}
    (h : (s.payload o e).result? = some p) :
    p.isMap = e.isMap ∧ (e.mapsApart = true → p.MapsApart) := by
  induction e generalizing p with
  | array elem zero ih =>
      rcases Check.result?_bind.1 h with ⟨q, hq, hp⟩
      cases (Check.result?_pure _ _).1 hp
      rcases ih hq with ⟨hmap, hapart⟩
      refine ⟨rfl, fun helem => ?_⟩
      rw [TypeExpr.mapsApart, Bool.and_eq_true, Bool.not_eq_true'] at helem
      exact ⟨hmap.trans helem.1, hapart helem.2⟩
  | map elem ih =>
      rcases Check.result?_bind.1 h with ⟨q, hq, hp⟩
      cases (Check.result?_pure _ _).1 hp
      exact ⟨rfl, (ih hq).2⟩
  | flags elem _ =>
      rcases flagListPayload_iff.1 h with ⟨-, n, d, -, -, -, rfl⟩
      exact ⟨rfl, fun _ => trivial⟩
  | _ =>
      rcases namedPayload_cases h with
        ⟨num, l, -, -, rfl⟩ | ⟨-, ⟨-, rfl⟩ | ⟨-, rfl⟩ | ⟨-, rfl⟩ | ⟨-, rfl⟩⟩ |
          ⟨-, d, -, ⟨-, rfl⟩ | ⟨-, rfl⟩⟩
      all_goals exact ⟨rfl, fun _ => trivial⟩

theorem attrSets_mapsApart (h : s.MapsApart) (name : Text) :
    ∀ f ∈ s.bundle.attrSets.fields name, f.payload.MapsApart ∧
      (f.repeated = true → f.payload.isMap = false) := by
  intro f hf
  rcases s.fields_attrSets name with ⟨d, ht, -, heq⟩ | ⟨-, heq⟩
  · rw [heq] at hf
    rcases mem_attrSet_fields hf with ⟨x, hx, hresult, -, -, hrepeated⟩
    rcases Check.result?_bind.1 hresult with ⟨-, -, hresult⟩
    rcases mapsApart_of_payload hresult with ⟨hmap, hapart⟩
    rcases h _ ht x.2 (mem_attrs_of_usable hx) with ⟨htype, hlist⟩
    rw [hmap, hrepeated]
    exact ⟨hapart htype, hlist⟩
  · rw [heq] at hf
    cases hf

/-- What a codec decodes is made of scalars, objects, lists and maps, and is listable if there are
    no arrays of maps and no repeated maps. -/
theorem codec_decode {name : Text} {c : Codec} (hcodec : s.bundle.codec? name = some c) {b : Bytes}
    {obj : Object} (hdecode : c.decode b = .ok obj) :
    (Value.object obj).Made True ∧ (s.MapsApart → (Value.object obj).Listable) := by
  rcases codec_cases hcodec with ⟨d, -, ⟨-, rfl⟩ | ⟨-, rfl⟩⟩
  · rw [Codec.decode_attrs_eq_ok_iff] at hdecode
    refine ⟨Payload.made_of_decode hdecode, fun h => ?_⟩
    exact Payload.listable_of_decode (attrSets_mapsApart h) (p := .attrs name) trivial hdecode
  · have hmade := Layout.made_decode hdecode
    exact ⟨hmade.mono False.elim, fun _ => hmade.listable.1⟩

/-- A message that is decoded is listed to the end if none of its lists has a map as an item, and
    only then. None has if the schema has no arrays of maps and no repeated maps. -/
theorem listing_complete_iff {o : CompileOptions} {compiled : Compiled}
    (hcompile : (s.compile o).output = some compiled) {name : Text} {c : Codec}
    (hcodec : compiled.bundle.codec? name = some c) {b : Bytes} {obj : Object}
    (hdecode : c.decode b = .ok obj) :
    ((Listing.ofObject obj none).error = none ↔
      ∀ items, (Value.list items).PartOf (.object obj) → ∀ entries, Value.map entries ∉ items) ∧
    (s.MapsApart → (Listing.ofObject obj none).error = none) := by
  rw [(accepted_of_compile hcompile).2] at hcodec
  rcases codec_decode hcodec hdecode with ⟨hmade, hlistable⟩
  have hcomplete := Listing.error_ofObject hmade
  exact ⟨hcomplete, fun h => hcomplete.2 (hlistable h)⟩

/-- A schema with an attribute of some type, and with a set that is repeated in itself. -/
def rack (shelf : TypeExpr) : Schema where
  types := [("rack", declare none [⟨"shelf", shelf, .empty⟩,
    ⟨"more", .name "rack", { AttributeOptions.empty with repeated := true }⟩] [])]
  distinct := by
    change [Text.ofString "rack"].Nodup
    decide +kernel
  named := by
    change ∀ name ∈ [Text.ofString "rack"], isTypeName name = true
    decide +kernel

/-- The codec of racks. -/
def rackCodec (shelf : TypeExpr) : Codec := .attrs (rack shelf).bundle.attrSets "rack"

theorem codec?_rack (shelf : TypeExpr) :
    (rack shelf).bundle.codec? "rack" = some (rackCodec shelf) :=
  codec?_attrs List.mem_cons_self rfl

/-- Maps whose elements are arrays of bytes. -/
def mapOfArrays : TypeExpr := .map (.array (.name "u8") false)

/-- Arrays whose elements are maps of bytes. -/
def arrayOfMaps : TypeExpr := .array (.map (.name "u8")) false

/-- A rack with a map of arrays, and with another such rack in it. -/
def shelves : Bytes :=
  [13, 0, 1, 0, 9, 0, 5, 0, 5, 0, 1, 0, 7, 0, 0, 0,
    20, 0, 2, 0, 13, 0, 1, 0, 9, 0, 5, 0, 5, 0, 1, 0, 7, 0, 0, 0]

theorem rack_listing_complete : (rack mapOfArrays).MapsApart ∧
    ∃ obj, (rackCodec mapOfArrays).decode shelves = .ok obj ∧
      (Listing.ofObject obj none).error = none := by
  have hcompile : ((rack mapOfArrays).compile .default).output = some _ :=
    output_of_errors (by decide +kernel)
  have hsome : ((rackCodec mapOfArrays).decode shelves).toOption.isSome = true := by
    decide +kernel
  have hapart : (rack mapOfArrays).MapsApart := by decide +kernel
  cases h : (rackCodec mapOfArrays).decode shelves with
  | error e =>
      rw [h] at hsome
      cases hsome
  | ok obj => exact ⟨hapart, obj, rfl, (listing_complete_iff hcompile (codec?_rack _) h).2 hapart⟩

/-- The listing of an array of maps ends after its first line. -/
theorem rack_listing_cut_short : ((rack arrayOfMaps).compile .default).output.isSome = true ∧
    ∃ obj, (rackCodec arrayOfMaps).decode [13, 0, 1, 0, 9, 0, 1, 0, 5, 0, 5, 0, 7] = .ok obj ∧
      (Listing.ofObject obj none).error.isSome = true ∧
      (Listing.ofObject obj none).text = "shelf = [\n" := by
  have hcompile : ((rack arrayOfMaps).compile .default).output = some _ :=
    output_of_errors (by decide +kernel)
  have hlisting : ((rackCodec arrayOfMaps).decode
      [13, 0, 1, 0, 9, 0, 1, 0, 5, 0, 5, 0, 7]).toOption.map (fun obj =>
        ((Listing.ofObject obj none).error.isSome, (Listing.ofObject obj none).text))
      = some (true, Text.ofString "shelf = [\n") := by
    decide +kernel
  refine ⟨by rw [hcompile]; rfl, ?_⟩
  cases h : (rackCodec arrayOfMaps).decode [13, 0, 1, 0, 9, 0, 1, 0, 5, 0, 5, 0, 7] with
  | error e =>
      rw [h] at hlisting
      cases hlisting
  | ok obj =>
      rw [h] at hlisting
      rcases Prod.mk.inj (Option.some.inj hlisting) with ⟨herror, htext⟩
      exact ⟨obj, rfl, herror, htext⟩

end Schema

end NetlinkSchema
