import NetlinkSchema.Proofs.Description
import NetlinkSchema.Proofs.Exact
import NetlinkSchema.Proofs.Placement

/-!
# The fields of a manifest and the bytes of a struct

A manifest gives an offset and a size for each member of a struct. The offsets are added up when the
manifest is made, apart from the codec, which has offsets of its own or none at all. Here the two
meet: the fields of the manifest cover the struct without gaps and overlaps, a member is decoded
from the bytes of its field alone, and setting it to another value changes no other bytes.

## Main definitions

* `ManifestField.Tile`: Fields follow each other from one offset to another.
* `ManifestField.bytes`: The bytes of a field.
* `ManifestField.SameAround`: Messages that differ in the bytes of a field only.

## Theorems

* `MemberType.get_decodeMembers`: A member is decoded from bytes of its own.
* `MemberType.writeMembers_around`: A member is written to bytes of its own.
* `Schema.describeFields_tile`, `Schema.exists_of_mem_describeFields`: Where fields are.
* `Schema.manifest_tiles_struct`: The fields of a manifest are where the members of a struct are.
-/

namespace NetlinkSchema

namespace ManifestField

/-- Fields follow each other without gaps, from one offset to another. -/
def Tile (start stop : Int) : List ManifestField → Prop
  | [] => start = stop
  | f :: rest => f.offset.toInt = start ∧ 0 ≤ f.size.toInt ∧ Tile (start + f.size.toInt) stop rest

/-- The bytes of a field in a message. -/
def bytes (f : ManifestField) (b : Bytes) : Bytes := b.slice f.offset f.size

/-- Messages of the same length have the same bytes before a field and after it. -/
def SameAround (f : ManifestField) (b b' : Bytes) : Prop :=
  b.length = b'.length ∧ b.take f.offset.toNatClampNeg = b'.take f.offset.toNatClampNeg ∧
    b.drop (f.offset.toNatClampNeg + f.size.toNatClampNeg)
      = b'.drop (f.offset.toNatClampNeg + f.size.toNatClampNeg)

end ManifestField

namespace MemberType

variable {type : Text}

theorem exactMembersSize_append (before after : Members) :
    exactMembersSize (before ++ after) = exactMembersSize before + exactMembersSize after := by
  induction before with
  | nil => rw [List.nil_append, exactMembersSize, Nat.zero_add]
  | cons m rest ih => rw [List.cons_append, exactMembersSize, exactMembersSize, ih, Nat.add_assoc]

/-- A member is decoded from the bytes after those of the members before it. -/
theorem get_decodeMembers {before after : Members} {name : Text} {t : MemberType}
    (hlength : ∀ m ∈ before, m.2.length = m.2.exactSize) (hname : name ∉ before.map Prod.fst)
    {buf : Bytes} {obj : Object}
    (h : decodeMembers type (before ++ (name, t) :: after) buf = .ok obj) :
    t.decode ((buf.drop (exactMembersSize before)).take t.length) = .ok (Object.get obj name) := by
  induction before generalizing buf obj with
  | nil =>
      rcases decodeMembers_cons_eq h with ⟨v, others, hv, -, rfl⟩
      rw [exactMembersSize, List.drop_zero, hv, Object.get_set, if_pos rfl]
  | cons m rest ih =>
      rcases m with ⟨first, u⟩
      rw [List.forall_mem_cons] at hlength
      rw [List.map_cons, List.mem_cons, not_or] at hname
      rcases decodeMembers_cons_eq h with ⟨v, others, -, hothers, rfl⟩
      have hrest := ih hlength.2 hname.2 hothers
      rw [List.drop_drop, hlength.1] at hrest
      rw [exactMembersSize, hrest, Object.get_set, if_neg (Ne.symm hname.1)]

/-- Some members in front of others are written on their own. -/
theorem writeMembers_split {before after : Members}
    (hlength : ∀ m ∈ before, m.2.length = m.2.exactSize) {obj : Object} {buf b : Bytes}
    (hbuf : exactMembersSize before ≤ buf.length)
    (h : writeMembers type (before ++ after) obj buf = (b, none)) :
    ∃ front back, b = front ++ back ∧
      writeMembers type before obj (buf.take (exactMembersSize before)) = (front, none) ∧
      writeMembers type after obj (buf.drop (exactMembersSize before)) = (back, none) := by
  induction before generalizing buf b with
  | nil =>
      refine ⟨[], b, rfl, ?_, h⟩
      rw [exactMembersSize, List.take_zero]
      rfl
  | cons m rest ih =>
      rcases m with ⟨name, t⟩
      rw [List.forall_mem_cons] at hlength
      rw [exactMembersSize] at hbuf ⊢
      have ht : t.length = t.exactSize := hlength.1
      -- The piece of the first member is the same in the whole buffer and in its first part.
      have htake : (buf.take (t.exactSize + exactMembersSize rest)).take t.length
          = buf.take t.length := by
        rw [List.take_take, Nat.min_eq_left (by omega)]
      have hdrop : (buf.take (t.exactSize + exactMembersSize rest)).drop t.length
          = (buf.drop t.length).take (exactMembersSize rest) := by
        rw [List.drop_take, ht, Nat.add_sub_cancel_left]
      rw [List.cons_append, writeMembers_cons] at h
      rw [writeMembers_cons, htake, hdrop]
      generalize (if (Object.get obj name).isNull = true
        then (Bytes.zeros (buf.take t.length).length, none)
        else t.write (Object.get obj name) (buf.take t.length) : Written) = written at h ⊢
      rcases written with ⟨piece, e⟩
      cases e with
      | some e => cases h
      | none =>
          rcases hwritten : writeMembers type (rest ++ after) obj (buf.drop t.length) with ⟨tail, e⟩
          rw [hwritten] at h
          cases h
          rcases ih hlength.2 (by rw [List.length_drop]; omega) hwritten with
            ⟨front, back, rfl, hfront, hback⟩
          refine ⟨piece ++ front, back, (List.append_assoc _ _ _).symm, ?_, ?_⟩
          · simp only [hfront]
          · rw [← hback, List.drop_drop, ht]

theorem length_of_writeMembers {members : Members} {obj : Object} {buf b : Bytes}
    (h : writeMembers type members obj buf = (b, none)) : b.length = buf.length := by
  have hlength : (writeMembers type members obj buf).1.length = buf.length :=
    length_writeMembers (fun m _ => m.2.length_write) obj buf
  rw [h] at hlength
  exact hlength

/-- A member is written after the bytes of the members before it, and changes no other bytes. -/
theorem writeMembers_around {before after : Members} {name : Text} {t : MemberType}
    (hlength : ∀ m ∈ before ++ (name, t) :: after, m.2.length = m.2.exactSize)
    (hnodup : ((before ++ (name, t) :: after).map Prod.fst).Nodup) {obj obj' : Object}
    (hsame : ∀ key, key ≠ name → Object.get obj key = Object.get obj' key) {buf b b' : Bytes}
    (hbuf : buf.length = exactMembersSize (before ++ (name, t) :: after))
    (h : writeMembers type (before ++ (name, t) :: after) obj buf = (b, none))
    (h' : writeMembers type (before ++ (name, t) :: after) obj' buf = (b', none)) :
    b.take (exactMembersSize before) = b'.take (exactMembersSize before) ∧
      b.drop (exactMembersSize before + t.exactSize)
        = b'.drop (exactMembersSize before + t.exactSize) := by
  rw [List.map_append, List.map_cons, List.nodup_append, List.nodup_cons] at hnodup
  rcases hnodup with ⟨-, ⟨hafter, -⟩, hbefore⟩
  rw [exactMembersSize_append, exactMembersSize] at hbuf
  -- The objects are the same on the members before this one, and on those after it.
  have hfronts : ∀ key ∈ before.map Prod.fst, Object.get obj key = Object.get obj' key :=
    fun key hkey => hsame key (hbefore key hkey name List.mem_cons_self)
  have hbacks : ∀ key ∈ after.map Prod.fst, Object.get obj key = Object.get obj' key :=
    fun key hkey => hsame key fun heq => hafter (heq ▸ hkey)
  have hlengths := fun m hm => hlength m (List.mem_append_left _ hm)
  rcases writeMembers_split hlengths (by omega) h with ⟨front, rest, rfl, hfront, hrest⟩
  rcases writeMembers_split hlengths (by omega) h' with ⟨front', rest', rfl, hfront', hrest'⟩
  rw [writeMembers_congr hfronts, hfront'] at hfront
  obtain rfl := (Prod.mk.inj hfront).1
  have hlen := length_of_writeMembers hfront'
  rw [List.length_take] at hlen
  -- The member itself is the first of the rest.
  have ht : ∀ m ∈ [(name, t)], m.2.length = m.2.exactSize := by
    intro m hm
    rw [List.mem_singleton.1 hm]
    exact hlength _ (List.mem_append_right _ List.mem_cons_self)
  have hone : exactMembersSize [(name, t)] = t.exactSize := by
    rw [exactMembersSize, exactMembersSize, Nat.add_zero]
  have hroom : exactMembersSize [(name, t)] ≤ (buf.drop (exactMembersSize before)).length := by
    rw [hone, List.length_drop]
    omega
  rcases writeMembers_split ht hroom hrest with ⟨piece, back, rfl, hpiece, hback⟩
  rcases writeMembers_split ht hroom hrest' with ⟨piece', back', rfl, hpiece', hback'⟩
  rw [writeMembers_congr hbacks, hback'] at hback
  obtain rfl := (Prod.mk.inj hback).1
  have hlen₁ := length_of_writeMembers hpiece
  have hlen₂ := length_of_writeMembers hpiece'
  rw [List.length_take, hone, List.length_drop] at hlen₁ hlen₂
  constructor
  · rw [List.take_left' (by omega), List.take_left' (by omega)]
  · rw [← List.append_assoc, ← List.append_assoc,
      List.drop_left' (by rw [List.length_append]; omega),
      List.drop_left' (by rw [List.length_append]; omega)]

end MemberType

namespace Layout

variable {l : Layout} {before after : Members} {name : Text} {t : MemberType}

-- The same for whole structs: beyond the members there is the tail, which has a field of its own.
theorem get_decode (h : l.Sized) (hmembers : l.members = before ++ (name, t) :: after) {b : Bytes}
    {obj : Object} (hdecode : l.decode b = .ok obj) :
    t.decode ((b.drop (MemberType.exactMembersSize before)).take t.exactSize)
      = .ok (Object.get obj name) := by
  have hmem : (name, t) ∈ l.members := by
    rw [hmembers]
    exact List.mem_append_right _ List.mem_cons_self
  have hlength := h.length_members
  have hnodup := h.distinct
  have hnot : name ≠ unparsedField := by
    intro heq
    exact h.unparsed (heq ▸ List.mem_map_of_mem hmem)
  rcases exists_of_decode h hdecode with ⟨front, tail, known, rfl, hfront, -, hknown, rfl⟩
  have ht : t.length = t.exactSize := hlength _ hmem
  rw [hmembers, MemberType.exactMembersSize_append, MemberType.exactMembersSize] at hfront
  rw [hmembers] at hknown hlength hnodup
  rw [List.map_append, List.map_cons, List.nodup_append] at hnodup
  rw [get_withTail hnot, ← MemberType.get_decodeMembers
    (fun m hm => hlength m (List.mem_append_left _ hm))
    (fun hname => hnodup.2.2 name hname name List.mem_cons_self rfl) hknown, ht,
    List.drop_append_of_le_length (by omega),
    List.take_append_of_le_length (by rw [List.length_drop]; omega)]

theorem encode_around (h : l.Sized) (hmembers : l.members = before ++ (name, t) :: after)
    {obj obj' : Object} (hsame : ∀ key, key ≠ name → Object.get obj key = Object.get obj' key)
    {b b' : Bytes} (hencode : l.encode obj = .ok b) (hencode' : l.encode obj' = .ok b') :
    b.length = b'.length ∧
      b.take (MemberType.exactMembersSize before) = b'.take (MemberType.exactMembersSize before) ∧
      b.drop (MemberType.exactMembersSize before + t.exactSize)
        = b'.drop (MemberType.exactMembersSize before + t.exactSize) := by
  have hmem : (name, t) ∈ l.members := by
    rw [hmembers]
    exact List.mem_append_right _ List.mem_cons_self
  have hlength := h.length_members
  have hnodup := h.distinct
  have htails : l.tail obj = l.tail obj' := by
    unfold Layout.tail
    rw [hsame unparsedField fun heq => h.unparsed (heq ▸ List.mem_map_of_mem hmem)]
  rcases exists_of_encode h hencode with ⟨known, tail, rfl, htail, hknown⟩
  rcases exists_of_encode h hencode' with ⟨known', tail', rfl, htail', hknown'⟩
  rw [htails, htail'] at htail
  obtain rfl := Except.ok.inj htail
  have hlen := MemberType.length_of_writeMembers hknown
  have hlen' := MemberType.length_of_writeMembers hknown'
  rw [Bytes.length_zeros] at hlen hlen'
  rw [hmembers] at hknown hknown' hlength hnodup hlen hlen'
  rcases MemberType.writeMembers_around hlength hnodup hsame (Bytes.length_zeros _) hknown hknown'
    with ⟨hfront, hback⟩
  rw [MemberType.exactMembersSize_append, MemberType.exactMembersSize] at hlen hlen'
  refine ⟨?_, ?_, ?_⟩
  · rw [List.length_append, List.length_append, hlen, hlen']
  · rw [List.take_append_of_le_length (by omega), List.take_append_of_le_length (by omega), hfront]
  · rw [List.drop_append_of_le_length (by omega), List.drop_append_of_le_length (by omega), hback]

end Layout

namespace Schema

variable {s : Schema} {name : Text} {d : TypeDef}

/-- Members by the names of their declarations. -/
def memberList (ms : List (AttributeDef × MemberType)) : Members := ms.map fun m => (m.1.name, m.2)

/-- The members that are described are those of the struct. -/
theorem members_eq_memberList (ht : (name, d) ∈ s.types) :
    s.members name = memberList (s.declaredMembers d) := by
  have hsize : s.size = s.size - 1 + 1 := by
    have hpos : 0 < s.size := List.length_pos_of_mem ht
    omega
  rw [members, hsize, membersTo, mem_types_iff.1 ht, memberList, declaredMembers,
    List.map_filterMap]
  refine List.filterMap_congr fun a _ => ?_
  rw [Option.map_map]
  rfl

-- The sum that is kept while the fields are described is exact at each of them.
theorem describeFields_tile {ms : List (AttributeDef × MemberType)}
    (h : ∀ m ∈ memberList ms, m.2.Sized) {offset : Int64} {n : Nat} (hoffset : offset.toInt = n)
    (hsize : n + MemberType.exactMembersSize (memberList ms) < 2 ^ 63) :
    ManifestField.Tile n (n + MemberType.exactMembersSize (memberList ms) : Nat)
      (describeFields offset ms) := by
  induction ms generalizing offset n with
  | nil => rfl
  | cons m rest ih =>
      rw [memberList, List.map_cons, ← memberList, MemberType.exactMembersSize] at hsize ⊢
      rw [memberList, List.map_cons, ← memberList, List.forall_mem_cons] at h
      have hfirst : m.2.Sized := h.1
      have hm : m.2.size.toInt = m.2.exactSize := MemberType.toInt_size hfirst (by omega)
      have hrest := ih h.2 (MemberType.toInt_add_size hfirst hoffset (by omega)) (by omega)
      rw [Nat.add_assoc, Int.natCast_add n m.2.exactSize, ← hm] at hrest
      refine ⟨hoffset, ?_, hrest⟩
      change 0 ≤ m.2.size.toInt
      omega

/-- A field is after the members before it, and has the size of its member. -/
theorem exists_of_mem_describeFields {ms : List (AttributeDef × MemberType)}
    (h : ∀ m ∈ memberList ms, m.2.Sized) {offset : Int64} {n : Nat} (hoffset : offset.toInt = n)
    (hsize : n + MemberType.exactMembersSize (memberList ms) < 2 ^ 63) {f : ManifestField}
    (hf : f ∈ describeFields offset ms) :
    ∃ before t after, memberList ms = before ++ (f.name, t) :: after ∧
      f.offset.toNatClampNeg = n + MemberType.exactMembersSize before ∧
      f.size.toNatClampNeg = t.exactSize := by
  induction ms generalizing offset n with
  | nil => cases hf
  | cons m rest ih =>
      rw [memberList, List.map_cons, ← memberList, MemberType.exactMembersSize] at hsize
      rw [memberList, List.map_cons, ← memberList, List.forall_mem_cons] at h
      have hfirst : m.2.Sized := h.1
      rcases List.mem_cons.1 hf with rfl | hf
      · refine ⟨[], m.2, memberList rest, rfl, ?_, ?_⟩
        · exact MemberType.toNatClampNeg_eq hoffset
        · exact MemberType.length_eq hfirst (by omega)
      · rcases ih h.2 (MemberType.toInt_add_size hfirst hoffset (by omega)) (by omega) hf with
          ⟨before, t, after, hnamed, hstart, hlength⟩
        refine ⟨(m.1.name, m.2) :: before, t, after, ?_, ?_, hlength⟩
        · rw [memberList, List.map_cons, ← memberList, hnamed, List.cons_append]
        · rw [hstart, MemberType.exactMembersSize, Nat.add_assoc]

theorem describeFields_names (offset : Int64) (ms : List (AttributeDef × MemberType)) :
    (describeFields offset ms).map ManifestField.name = (memberList ms).map Prod.fst := by
  induction ms generalizing offset with
  | nil => rfl
  | cons m rest ih => rw [describeFields, List.map_cons, ih]; rfl

theorem describeFields_offsets (offset : Int64) (ms : List (AttributeDef × MemberType)) :
    (describeFields offset ms).map ManifestField.offset
      = MemberType.offsets offset (memberList ms) := by
  induction ms generalizing offset with
  | nil => rfl
  | cons m rest ih => rw [describeFields, List.map_cons, ih]; rfl

/-- The fields of a manifest are where the members of a struct are. They have the names and the
    offsets of the members, whether these are fixed or found on the way, and cover the struct up to
    its length. A member is decoded from the bytes of its field alone, and messages of objects that
    differ in one member differ in the bytes of its field only. -/
theorem manifest_tiles_struct {o : CompileOptions} {compiled : Compiled}
    (hcompile : (s.compile o).output = some compiled) (hcounts : s.CountsNonneg) {l : Layout}
    (hcodec : compiled.bundle.codec? name = some (.struct l))
    (hsize : MemberType.exactMembersSize l.members < 2 ^ 63) :
    ∃ t m fields, compiled.manifest.type? name = some t ∧ t.struct = some m ∧
      m.fields.getD [] = fields ∧ m.length = (Codec.struct l).length.1 ∧
      ManifestField.Tile 0 m.length.toInt fields ∧
      fields.map ManifestField.name = l.memberNames ∧
      fields.map ManifestField.offset = MemberType.offsets 0 l.members ∧
      (∀ settled, l.Placed settled) ∧
      ∀ f ∈ fields,
        (∀ b b' obj obj', (Codec.struct l).decode b = .ok obj →
          (Codec.struct l).decode b' = .ok obj' → f.bytes b = f.bytes b' →
            Object.get obj f.name = Object.get obj' f.name) ∧
        ∀ obj obj' b b', (∀ key, key ≠ f.name → Object.get obj key = Object.get obj' key) →
          (Codec.struct l).encode obj = .ok b → (Codec.struct l).encode obj' = .ok b' →
            f.SameAround b b' := by
  obtain rfl := eq_of_compile hcompile
  have h := (accepted_of_compile hcompile).1
  rcases codec_cases hcodec with ⟨d, ht, ⟨-, hattrs⟩ | ⟨hkind, hstruct⟩⟩
  · cases hattrs
  cases hstruct
  have hsized := layout_sized h hcounts ht hkind hsize
  have hmembers : (s.layout name d).members = memberList (s.declaredMembers d) :=
    members_eq_memberList ht
  have hparts : ∀ m ∈ memberList (s.declaredMembers d), m.2.Sized := hmembers ▸ hsized.members
  have hzero : (0 : Int64).toInt = (0 : Nat) := rfl
  have hfit : 0 + MemberType.exactMembersSize (memberList (s.declaredMembers d)) < 2 ^ 63 := by
    rw [Nat.zero_add, ← hmembers]
    exact hsize
  have htype : s.describe.sign.type? name
      = some (s.describeType s.needs s.settledStructs name d) := by
    rw [type?_describe, mem_types_iff.1 ht, Option.map_some]
  have hdescribed : (s.describeType s.needs s.settledStructs name d).struct
      = some (s.describeStruct s.settledStructs name d) := by
    rw [describeType]
    simp only [hkind]
  refine ⟨_, _, describeFields 0 (s.declaredMembers d), htype, hdescribed, getD_presentList _, rfl,
    ?_, ?_, ?_, hsized.placed, fun f hf => ?_⟩
  · have htile := describeFields_tile hparts hzero hfit
    rw [Nat.zero_add, ← hmembers, ← hsized.toInt_size] at htile
    exact htile
  · rw [describeFields_names, Layout.memberNames, hmembers]
  · rw [describeFields_offsets, hmembers]
  · rcases exists_of_mem_describeFields hparts hzero hfit hf with
      ⟨before, t, after, hsplit, hstart, hlength⟩
    rw [Nat.zero_add] at hstart
    have hat : (s.layout name d).members = before ++ (f.name, t) :: after := hmembers.trans hsplit
    constructor
    · intro b b' obj obj' hdecode hdecode' hbytes
      have hvalue := Layout.get_decode hsized hat hdecode
      have hvalue' := Layout.get_decode hsized hat hdecode'
      rw [ManifestField.bytes, ManifestField.bytes, Bytes.slice, Bytes.slice, hstart, hlength]
        at hbytes
      rw [hbytes, hvalue'] at hvalue
      exact (Except.ok.inj hvalue).symm
    · intro obj obj' b b' hsame hencode hencode'
      rw [ManifestField.SameAround, hstart, hlength]
      exact Layout.encode_around hsized hat hsame hencode hencode'

theorem panel_tiled : ∃ t m fields, panel.describe.sign.type? "panel" = some t ∧
    t.struct = some m ∧ m.fields.getD [] = fields ∧ ManifestField.Tile 0 9 fields ∧
    fields.map ManifestField.offset = [0, 6, 8] ∧ ∀ f ∈ fields, ∀ obj obj',
      (panel.layout "panel" lamps).decode panelMessage = .ok obj →
      (panel.layout "panel" lamps).decode [0, 0, 0, 0, 0, 0, 7, 0, 1] = .ok obj' →
      f.bytes panelMessage = f.bytes [0, 0, 0, 0, 0, 0, 7, 0, 1] →
        Object.get obj f.name = Object.get obj' f.name := by
  have hmem : (Text.ofString "panel", lamps) ∈ panel.types := List.mem_cons_self
  have hcompile := output_of_errors (s := panel) (o := .default) (by decide +kernel)
  rcases manifest_tiles_struct hcompile (by decide +kernel) (codec?_struct hmem rfl)
    (by decide +kernel) with ⟨t, m, fields, ht, hm, hfields, hlength, htile, -, hoffsets, -, hfield⟩
  have hnine : (Codec.struct (panel.layout "panel" lamps)).length.1 = 9 := by decide +kernel
  have hstarts : MemberType.offsets 0 (panel.layout "panel" lamps).members = [0, 6, 8] := by
    decide +kernel
  rw [hlength, hnine] at htile
  refine ⟨t, m, fields, ht, hm, hfields, htile, hoffsets.trans hstarts, ?_⟩
  intro f hf obj obj' hobj hobj'
  exact (hfield f hf).1 _ _ obj obj' hobj hobj'

end Schema

end NetlinkSchema
