import NetlinkSchema.Proofs.Resolution

/-!
# Exact layouts

A struct is decoded from any bytes of its length, except that a boolean must be a zero or a one. For
this it does not matter what the integers of the struct mean: each of them has a value, if only a
number. Where no integer is a bitmask, the value holds all that was read, so that writing it gives
back every byte, those beyond the members of an expandable struct included.

## Main definitions

* `MemberType.boolOffsets`: Where the booleans of a member are.
* `Bytes.IsBool`: A byte is a zero or a one.
* `Lowering.Lossless`, `MemberType.Lossless`: Nothing is lost when bytes are read.

## Theorems

* `MemberType.exists_decode_iff`: What is decoded.
* `MemberType.matches_of_decode`: What is decoded is written as it was.
* `Layout.exists_decode_iff`, `Layout.encode_of_decode`: The same of structs.
* `Schema.struct_exact`: Struct codecs of accepted schemas are exact.
-/

namespace NetlinkSchema

namespace Bytes

/-- There is a byte at an offset, and it is a zero or a one. -/
def IsBool (b : Bytes) (i : Nat) : Prop := b[i]? = some 0 ∨ b[i]? = some 1

instance (b : Bytes) (i : Nat) : Decidable (b.IsBool i) :=
  inferInstanceAs (Decidable (b[i]? = some 0 ∨ b[i]? = some 1))

theorem isBool_take {b : Bytes} {n i : Nat} (h : i < n) : IsBool (b.take n) i ↔ b.IsBool i := by
  rw [IsBool, IsBool, List.getElem?_take_of_lt h]

theorem isBool_drop {b : Bytes} {n i : Nat} : IsBool (b.drop n) i ↔ b.IsBool (n + i) := by
  rw [IsBool, IsBool, List.getElem?_drop]

theorem isBool_append {b tail : Bytes} {i : Nat} (h : i < b.length) :
    IsBool (b ++ tail) i ↔ b.IsBool i := by
  rw [IsBool, IsBool, List.getElem?_append_left h]

end Bytes

theorem Scalar.exists_readBool_iff {x : UInt8} : (∃ v, readBool x = .ok v) ↔ x = 0 ∨ x = 1 := by
  unfold readBool
  by_cases hzero : x = 0
  · simp [hzero]
  · by_cases hone : x = 1
    · simp [hone]
    · simp [hzero, hone]

namespace Lowering

/-- The value of an integer can hold all of its bits: it is no bitmask, which shows the bits with a
    name only, and no flag takes the name of the bits without a name. -/
def KeepsBits : Lowering → Prop
  | none | enum _ => True
  | bitmask _ => False
  | flags f => unknownField ∉ f.flags.map FlagBits.name

instance (l : Lowering) : Decidable l.KeepsBits :=
  match l with
  | none | enum _ => inferInstanceAs (Decidable True)
  | bitmask _ => inferInstanceAs (Decidable False)
  | flags f => inferInstanceAs (Decidable (unknownField ∉ f.flags.map FlagBits.name))

/-- The value of an integer holds all of its bits: names stand for one number each, and bits without
    a name are kept. -/
def Lossless : Lowering → Prop
  | none => True
  | enum e => (e.values.map EnumValue.name).Nodup
  | bitmask _ => False
  | flags f => f.WellFormed

theorem canonical_of_lossless {l : Lowering} (h : l.Lossless) {num : Number} {b : Bytes}
    (hb : b.length = num.size) : l.Canonical num b := by
  cases l with
  | none => exact ⟨hb, num.put_read hb⟩
  | enum e => exact ⟨hb, toBytes_read_enum h hb⟩
  | bitmask e => cases h
  | flags f => exact ⟨hb, toBytes_read_flags h hb⟩

end Lowering

namespace MemberType

section Offsets

mutual

/-- Where the booleans of a member are, counted from its first byte. -/
def boolOffsets : MemberType → List Nat
  | bytes _ => []
  | bool => [0]
  | number _ _ => []
  | struct _ members => membersBoolOffsets members
  | array count elem => (List.range count.toNatClampNeg).flatMap fun i =>
    elem.boolOffsets.map (elem.exactSize * i + ·)

/-- Where the booleans of members that follow each other are. -/
def membersBoolOffsets : List (Text × MemberType) → List Nat
  | [] => []
  | (_, t) :: rest => t.boolOffsets ++ (membersBoolOffsets rest).map (t.exactSize + ·)

end

-- A member that lies within its struct lies after the members before it.
theorem membersBoolOffsets_lt {members : Members}
    (h : ∀ m ∈ members, ∀ i ∈ m.2.boolOffsets, i < m.2.exactSize) :
    ∀ i ∈ membersBoolOffsets members, i < exactMembersSize members := by
  induction members with
  | nil => exact fun i hi => absurd hi List.not_mem_nil
  | cons m rest ih =>
      rcases m with ⟨name, t⟩
      intro i hi
      rw [membersBoolOffsets, List.mem_append] at hi
      rw [exactMembersSize]
      rcases hi with hi | hi
      · have hlt : i < t.exactSize := h _ List.mem_cons_self i hi
        omega
      · rcases List.mem_map.1 hi with ⟨j, hj, rfl⟩
        have hlt := ih (fun x hx => h x (List.mem_cons_of_mem _ hx)) j hj
        omega

/-- The booleans of a member lie within it. -/
theorem boolOffsets_lt (t : MemberType) : ∀ i ∈ t.boolOffsets, i < t.exactSize := by
  induction t using inductionOn with
  | bytes count => exact fun i hi => absurd hi List.not_mem_nil
  | bool => simp [boolOffsets, exactSize]
  | number num lower => exact fun i hi => absurd hi List.not_mem_nil
  | struct name members ih => exact membersBoolOffsets_lt ih
  | array count elem ih =>
      intro i hi
      rw [boolOffsets, List.mem_flatMap] at hi
      rcases hi with ⟨k, hk, hi⟩
      rcases List.mem_map.1 hi with ⟨j, hj, rfl⟩
      have hlt := ih j hj
      rw [exactSize]
      calc elem.exactSize * k + j < elem.exactSize * k + elem.exactSize := by omega
        _ = elem.exactSize * (k + 1) := (Nat.mul_succ _ _).symm
        _ ≤ elem.exactSize * count.toNatClampNeg :=
          Nat.mul_le_mul_left _ (List.mem_range.1 hk)

/-- The booleans of a first member and of those after it. -/
theorem forall_membersBoolOffsets_cons {name : Text} {t : MemberType} {rest : Members} {b : Bytes} :
    (∀ i ∈ membersBoolOffsets ((name, t) :: rest), b.IsBool i) ↔
      (∀ i ∈ t.boolOffsets, Bytes.IsBool (b.take t.exactSize) i) ∧
        ∀ i ∈ membersBoolOffsets rest, Bytes.IsBool (b.drop t.exactSize) i := by
  rw [membersBoolOffsets, List.forall_mem_append, List.forall_mem_map]
  refine and_congr ?_ ?_
  · exact forall₂_congr fun i hi => (Bytes.isBool_take (t.boolOffsets_lt i hi)).symm
  · exact forall₂_congr fun i _ => Bytes.isBool_drop.symm

/-- The booleans of an array are those of its pieces. -/
theorem forall_boolOffsets_pieces {elem : MemberType} (count : Nat) (b : Bytes) :
    (∀ i < count, ∀ j ∈ elem.boolOffsets, b.IsBool (elem.exactSize * i + j)) ↔
      ∀ p ∈ pieces elem.exactSize count b, ∀ j ∈ elem.boolOffsets, Bytes.IsBool p j := by
  induction count generalizing b with
  | zero => simp [pieces]
  | succ count ih =>
      rw [pieces, List.forall_mem_cons, ← ih, Nat.forall_lt_succ_left]
      refine and_congr ?_ ?_
      · refine forall₂_congr fun j hj => ?_
        rw [Bytes.isBool_take (elem.boolOffsets_lt j hj), Nat.mul_zero, Nat.zero_add]
      · refine forall₂_congr fun i _ => forall₂_congr fun j _ => ?_
        rw [Bytes.isBool_drop, Nat.mul_succ]
        rw [show elem.exactSize * i + elem.exactSize + j = elem.exactSize + (elem.exactSize * i + j)
          by omega]

end Offsets

section Decoded

theorem exists_decodeMembers_iff {type : Text} {members : Members}
    (hlen : ∀ m ∈ members, m.2.length = m.2.exactSize)
    (hmember : ∀ m ∈ members, ∀ b : Bytes, b.length = m.2.exactSize →
      ((∃ v, m.2.decode b = .ok v) ↔ ∀ i ∈ m.2.boolOffsets, b.IsBool i))
    {b : Bytes} (hb : b.length = exactMembersSize members) :
    (∃ obj, decodeMembers type members b = .ok obj) ↔
      ∀ i ∈ membersBoolOffsets members, b.IsBool i := by
  induction members generalizing b with
  | nil => simp [decodeMembers, membersBoolOffsets]
  | cons m rest ih =>
      rcases m with ⟨name, t⟩
      rw [exactMembersSize] at hb
      have htake : (b.take t.exactSize).length = t.exactSize := by
        rw [List.length_take]
        omega
      have hdrop : (b.drop t.exactSize).length = exactMembersSize rest := by
        rw [List.length_drop]
        omega
      have hfirst := hmember _ List.mem_cons_self (b.take t.exactSize) htake
      have hothers := ih (fun x hx => hlen x (List.mem_cons_of_mem _ hx))
        (fun x hx => hmember x (List.mem_cons_of_mem _ hx)) hdrop
      rw [forall_membersBoolOffsets_cons, ← hfirst, ← hothers, decodeMembers,
        hlen _ List.mem_cons_self]
      cases t.decode (b.take t.exactSize) with
      | error e =>
          constructor
          · rintro ⟨obj, hobj⟩
            cases hobj
          · rintro ⟨⟨v, hv⟩, -⟩
            cases hv
      | ok v =>
          constructor
          · rintro ⟨obj, hobj⟩
            rcases bind_eq_ok_iff.1 hobj with ⟨others, hothers, -⟩
            exact ⟨⟨v, rfl⟩, others, hothers⟩
          · rintro ⟨-, others, hothers⟩
            exact ⟨Object.set others name v, bind_eq_ok_iff.2 ⟨others, hothers, rfl⟩⟩

/-- Bytes of the right length are decoded if the booleans among them are zeros and ones. -/
theorem exists_decode_iff {t : MemberType} (h : t.Sized) (hsize : t.exactSize < 2 ^ 63) {b : Bytes}
    (hb : b.length = t.exactSize) :
    (∃ v, t.decode b = .ok v) ↔ ∀ i ∈ t.boolOffsets, b.IsBool i := by
  induction t using inductionOn generalizing b with
  | bytes count => exact ⟨fun _ i hi => absurd hi List.not_mem_nil, fun _ => ⟨.bytes b, rfl⟩⟩
  | bool =>
      rcases List.length_eq_one_iff.1 hb with ⟨x, rfl⟩
      simp [decode, Scalar.exists_readBool_iff, boolOffsets, Bytes.IsBool]
  | number num lower =>
      exact ⟨fun _ i hi => absurd hi List.not_mem_nil, fun _ => ⟨lower.read num b, rfl⟩⟩
  | struct name members ih =>
      rw [exactSize] at hsize hb
      have hlt : ∀ m ∈ members, m.2.exactSize < 2 ^ 63 := fun m hm =>
        Nat.lt_of_le_of_lt (exactSize_le_of_mem hm) hsize
      have hcheck : checkSize name (membersSize members).toInt b = .ok () := by
        rw [checkSize, toInt_membersSize (fun m hm => h.member hm) hsize, if_pos (by rw [hb])]
      have hmembers : (∃ obj, decodeMembers name members b = .ok obj) ↔
          ∀ i ∈ membersBoolOffsets members, b.IsBool i :=
        exists_decodeMembers_iff (fun m hm => length_eq (h.member hm) (hlt m hm))
          (fun m hm b hb => ih m hm (h.member hm) (hlt m hm) hb) hb
      rw [boolOffsets, ← hmembers, decode, hcheck, ok_bind]
      constructor
      · rintro ⟨v, hv⟩
        rcases bind_eq_ok_iff.1 hv with ⟨obj, hobj, -⟩
        exact ⟨obj, hobj⟩
      · rintro ⟨obj, hobj⟩
        exact ⟨.object obj, bind_eq_ok_iff.2 ⟨obj, hobj, rfl⟩⟩
  | array count elem ih =>
      have hcount : 0 < count.toInt := h _ (.refl _)
      have hpos : 0 < count.toNatClampNeg := by
        have := toNatClampNeg_of_nonneg (Int.le_of_lt hcount)
        omega
      rw [exactSize] at hsize hb
      have hlt := Nat.lt_of_le_of_lt (Nat.le_mul_of_pos_right elem.exactSize hpos) hsize
      -- An array is decoded if each of its pieces is.
      have hpieces : (∀ p ∈ pieces elem.exactSize count.toNatClampNeg b, ∃ v, elem.decode p = .ok v)
          ↔ ∀ i ∈ (array count elem).boolOffsets, b.IsBool i := by
        have helem : ∀ p ∈ pieces elem.exactSize count.toNatClampNeg b,
            ((∃ v, elem.decode p = .ok v) ↔ ∀ j ∈ elem.boolOffsets, Bytes.IsBool p j) :=
          fun p hp => ih h.element hlt (length_of_mem_pieces hb hp)
        rw [forall₂_congr helem, ← forall_boolOffsets_pieces]
        simp only [boolOffsets, List.mem_flatMap, List.mem_range, List.mem_map]
        constructor
        · rintro hall i ⟨k, hk, j, hj, rfl⟩
          exact hall k hk j hj
        · exact fun hall k hk j hj => hall _ ⟨k, hk, j, hj, rfl⟩
      rw [← hpieces, decode, hb, Nat.mul_div_cancel _ hpos]
      constructor
      · rintro ⟨v, hv⟩ p hp
        rcases bind_eq_ok_iff.1 hv with ⟨vs, hvs, -⟩
        rcases forall₂_left (mapM_eq_ok_iff.1 hvs) hp with ⟨x, -, hx⟩
        exact ⟨x, hx⟩
      · intro hall
        rcases exists_forall₂ hall with ⟨vs, hvs⟩
        exact ⟨.list vs, bind_eq_ok_iff.2 ⟨vs, mapM_eq_ok_iff.2 hvs, rfl⟩⟩

end Decoded

section Lossless

/-- Nothing is lost in a type itself, apart from its parts. -/
def KeepsAll : MemberType → Prop
  | number _ lower => lower.Lossless
  | struct _ members => (members.map Prod.fst).Nodup
  | bytes _ | bool | array _ _ => True

/-- Nothing is lost in any part of a type. -/
def Lossless (t : MemberType) : Prop := ∀ part : MemberType, part.PartOf t → part.KeepsAll

namespace Lossless

variable {name : Text} {members : Members} {count : Int64} {elem : MemberType}

theorem member (h : (struct name members).Lossless) {m : Text × MemberType} (hm : m ∈ members) :
    m.2.Lossless := fun part hpart => h part (.member hm hpart)

theorem element (h : (array count elem).Lossless) : elem.Lossless :=
  fun part hpart => h part (.element hpart)

end Lossless

theorem membersMatch_of_decode {type : Text} {members : Members}
    (hnodup : (members.map Prod.fst).Nodup) (hlen : ∀ m ∈ members, m.2.length = m.2.exactSize)
    (hmember : ∀ m ∈ members, ∀ (b : Bytes) (v : Value), b.length = m.2.exactSize →
      m.2.decode b = .ok v → m.2.Matches v b)
    {b : Bytes} {obj : Object} (hb : b.length = exactMembersSize members)
    (hread : decodeMembers type members b = .ok obj) : MembersMatch type members obj b := by
  induction members generalizing b obj with
  | nil =>
      cases hread
      rw [List.eq_nil_of_length_eq_zero hb]
      exact MembersMatch.nil
  | cons m rest ih =>
      rcases m with ⟨name, t⟩
      rcases List.nodup_cons.1 hnodup with ⟨hname, hrest⟩
      have ht : t.length = t.exactSize := hlen _ List.mem_cons_self
      rw [exactMembersSize] at hb
      rcases decodeMembers_cons_eq hread with ⟨v, others, hv, hothers, rfl⟩
      have htake : (b.take t.length).length = t.exactSize := by
        rw [List.length_take]
        omega
      have hfirst := hmember _ List.mem_cons_self _ v htake hv
      have hafter := ih hrest (fun x hx => hlen x (List.mem_cons_of_mem _ hx))
        (fun x hx => hmember x (List.mem_cons_of_mem _ hx)) (by rw [List.length_drop]; omega)
        hothers
      have hcons := hafter.cons ht hfirst hname
      rwa [List.take_append_drop] at hcons

theorem flatten_pieces {size count : Nat} {b : Bytes} (hb : b.length = size * count) :
    (pieces size count b).flatten = b := by
  induction count generalizing b with
  | zero => exact (List.eq_nil_of_length_eq_zero hb).symm
  | succ count ih =>
      rw [Nat.mul_succ] at hb
      rw [pieces, List.flatten_cons, ih (by rw [List.length_drop]; omega), List.take_append_drop]

/-- What is decoded without loss is written as it was, over any buffer. -/
theorem matches_of_decode {t : MemberType} (h : t.Sized) (hsize : t.exactSize < 2 ^ 63)
    (hall : t.Lossless) {b : Bytes} {v : Value} (hb : b.length = t.exactSize)
    (hread : t.decode b = .ok v) : t.Matches v b := by
  induction t using inductionOn generalizing b v with
  | bytes count =>
      cases hread
      exact matches_bytes hb (h _ (.refl _))
  | bool =>
      rcases List.length_eq_one_iff.1 hb with ⟨x, rfl⟩
      rcases Scalar.readBool_eq_ok hread with ⟨c, rfl, rfl⟩
      exact matches_bool c
  | number num lower =>
      cases hread
      exact matches_number (Lowering.canonical_of_lossless (hall _ (.refl _)) hb)
  | struct name members ih =>
      rw [exactSize] at hsize hb
      have hlt : ∀ m ∈ members, m.2.exactSize < 2 ^ 63 := fun m hm =>
        Nat.lt_of_le_of_lt (exactSize_le_of_mem hm) hsize
      rcases bind_eq_ok_iff.1 hread with ⟨u, -, hrest⟩
      rcases bind_eq_ok_iff.1 hrest with ⟨obj, hobj, hv⟩
      cases hv
      refine matches_struct (toInt_membersSize (fun m hm => h.member hm) hsize) ?_
      refine membersMatch_of_decode (hall _ (.refl _))
        (fun m hm => length_eq (h.member hm) (hlt m hm)) (fun m hm b v hb hv => ?_) hb hobj
      exact ih m hm (h.member hm) (hlt m hm) (hall.member hm) hb hv
  | array count elem ih =>
      have hcount : 0 < count.toInt := h _ (.refl _)
      have hpos : 0 < count.toNatClampNeg := by
        have := toNatClampNeg_of_nonneg (Int.le_of_lt hcount)
        omega
      rw [exactSize] at hsize hb
      have hlt := Nat.lt_of_le_of_lt (Nat.le_mul_of_pos_right elem.exactSize hpos) hsize
      rw [decode] at hread
      rcases bind_eq_ok_iff.1 hread with ⟨vs, hvs, hv⟩
      cases hv
      rw [hb, Nat.mul_div_cancel _ hpos, mapM_eq_ok_iff] at hvs
      have hmatches : List.Forall₂ elem.Matches vs
          (pieces elem.exactSize count.toNatClampNeg b) := by
        have hboth := (List.forall₂_and_left _ _).2 ⟨fun p hp => length_of_mem_pieces hb hp, hvs⟩
        exact List.Forall₂.flip (hboth.imp fun p x hx => ih h.element hlt hall.element hx.1 hx.2)
      have hlen : vs.length = count.toNatClampNeg := by rw [← hvs.length_eq, length_pieces]
      have harray := matches_array hcount hmatches hlen
      rwa [flatten_pieces hb] at harray

end Lossless

section Lowerings

mutual

/-- What the integers of a member mean. -/
def lowerings : MemberType → List Lowering
  | bytes _ => []
  | bool => []
  | number _ lower => [lower]
  | struct _ members => membersLowerings members
  | array _ elem => elem.lowerings

/-- What the integers of some members mean. -/
def membersLowerings : List (Text × MemberType) → List Lowering
  | [] => []
  | (_, t) :: rest => t.lowerings ++ membersLowerings rest

end

theorem lowerings_subset {members : Members} {m : Text × MemberType} (hm : m ∈ members) :
    m.2.lowerings ⊆ membersLowerings members := by
  induction members with
  | nil => cases hm
  | cons first rest ih =>
      rcases List.mem_cons.1 hm with rfl | hm
      · exact List.subset_append_left _ _
      · exact List.subset_append_of_subset_right _ (ih hm)

theorem mem_lowerings_of_partOf {t : MemberType} {num : Number} {lower : Lowering}
    (h : (number num lower).PartOf t) : lower ∈ t.lowerings := by
  induction h with
  | refl => exact List.mem_singleton_self lower
  | member hm _ ih => exact lowerings_subset hm ih
  | element _ ih => exact ih

end Lowerings

end MemberType

namespace Layout

variable {l : Layout}

/-- Where the booleans of a struct are. -/
def boolOffsets (l : Layout) : List Nat := MemberType.membersBoolOffsets l.members

/-- What the integers of a struct mean, those of nested structs included. -/
def lowerings (l : Layout) : List Lowering := MemberType.membersLowerings l.members

/-- A struct is decoded from every buffer of the right length whose booleans are zeros and ones. -/
theorem exists_decode_iff (h : l.Sized) {b : Bytes} : (∃ obj, l.decode b = .ok obj) ↔
    l.checkLength b = .ok () ∧ ∀ i ∈ l.boolOffsets, b.IsBool i := by
  have hmembers : ∀ front : Bytes, front.length = MemberType.exactMembersSize l.members →
      ((∃ obj, MemberType.decodeMembers l.name l.members front = .ok obj) ↔
        ∀ i ∈ l.boolOffsets, front.IsBool i) := fun front hfront =>
    MemberType.exists_decodeMembers_iff h.length_members (fun m hm _ hb =>
      MemberType.exists_decode_iff (h.members m hm) (h.exactSize_lt m hm) hb) hfront
  -- The booleans are all among the members.
  have hfront : ∀ front tail : Bytes, front.length = MemberType.exactMembersSize l.members →
      ((∀ i ∈ l.boolOffsets, Bytes.IsBool (front ++ tail) i) ↔
        ∀ i ∈ l.boolOffsets, front.IsBool i) := by
    intro front tail hlen
    refine forall₂_congr fun i hi => Bytes.isBool_append ?_
    rw [hlen]
    exact MemberType.membersBoolOffsets_lt (fun m _ => m.2.boolOffsets_lt) i hi
  constructor
  · rintro ⟨obj, hdec⟩
    rcases bind_eq_ok_iff.1 hdec with ⟨u, hcheck, -⟩
    rcases exists_of_decode h hdec with ⟨front, tail, known, rfl, hlen, -, hknown, -⟩
    exact ⟨hcheck, (hfront front tail hlen).2 ((hmembers front hlen).1 ⟨known, hknown⟩)⟩
  · rintro ⟨hcheck, hbools⟩
    rcases split_of_checkLength h hcheck with ⟨front, tail, rfl, hlen, hnil⟩
    rcases (hmembers front hlen).2 ((hfront front tail hlen).1 hbools) with ⟨known, hknown⟩
    exact ⟨withTail known tail, decode_append h hlen hknown hnil⟩

/-- What is decoded without loss is encoded as it was. -/
theorem encode_of_decode (h : l.Sized) (hall : ∀ m ∈ l.members, m.2.Lossless) {b : Bytes}
    {obj : Object} (hdec : l.decode b = .ok obj) : l.encode obj = .ok b := by
  rcases exists_of_decode h hdec with ⟨front, tail, known, rfl, hlen, hnil, hknown, rfl⟩
  refine encode_withTail h ?_ hnil
  exact MemberType.membersMatch_of_decode h.distinct h.length_members (fun m hm _ _ hb hv =>
    MemberType.matches_of_decode (h.members m hm) (h.exactSize_lt m hm) (hall m hm) hb hv)
    hlen hknown

end Layout

namespace Codec

/-- A message has the length that a codec asks for: exactly that of a struct, or at least that if
    later versions may extend it. -/
def LengthFits (c : Codec) (b : Bytes) : Prop :=
  if c.length.2 then (b.length : Int) = c.length.1.toInt else c.length.1.toInt ≤ b.length

instance (c : Codec) (b : Bytes) : Decidable (c.LengthFits b) :=
  inferInstanceAs (Decidable
    (if c.length.2 then (b.length : Int) = c.length.1.toInt else c.length.1.toInt ≤ b.length))

theorem lengthFits_struct_iff {l : Layout} {b : Bytes} :
    (struct l).LengthFits b ↔ l.checkLength b = .ok () := by
  unfold LengthFits length Layout.checkLength
  cases hexp : l.expandable with
  | true => simp [hexp]
  | false => simp [hexp, MemberType.checkSize]

end Codec

namespace MemberType

/-- Without bitmasks nothing is lost, if no flag has the name of the unknown bits. -/
theorem lossless_of_checked {t : MemberType}
    (h : ∀ part : MemberType, part.PartOf t → part.Checked Lowering.Distinct)
    (hkeeps : ∀ lower ∈ t.lowerings, lower.KeepsBits) : t.Lossless := by
  intro part hpart
  have hchecked := h part hpart
  cases part with
  | bytes count => trivial
  | bool => trivial
  | number num lower =>
      have hkeep := hkeeps lower (mem_lowerings_of_partOf hpart)
      cases lower with
      | none => trivial
      | enum e => exact hchecked
      | bitmask e => cases hkeep
      | flags f => exact ⟨hchecked, hkeep⟩
  | struct name members => exact hchecked
  | array count elem => trivial

end MemberType

namespace Schema

variable {s : Schema} {name : Text} {d : TypeDef}

/-- Struct codecs are exact: a struct whose integers keep all their bits is decoded from every
    message of its length whose booleans are zeros and ones, and from no other, and what is decoded
    is encoded to the same bytes again. -/
theorem struct_exact {o : CompileOptions} {compiled : Compiled}
    (hcompile : (s.compile o).output = some compiled)
    (hcounts : s.CountsNonneg)
    {l : Layout} (hcodec : compiled.bundle.codec? name = some (.struct l))
    (hsize : MemberType.exactMembersSize l.members < 2 ^ 63)
    (hkeeps : ∀ lower ∈ l.lowerings, lower.KeepsBits) (b : Bytes) :
    ((∃ obj, (Codec.struct l).decode b = .ok obj) ↔
        (Codec.struct l).LengthFits b ∧ ∀ i ∈ l.boolOffsets, b.IsBool i) ∧
      ∀ obj, (Codec.struct l).decode b = .ok obj → (Codec.struct l).encode obj = .ok b := by
  rcases accepted_of_compile hcompile with ⟨h, hbundle⟩
  rw [hbundle] at hcodec
  rcases codec_cases hcodec with ⟨d, ht, ⟨-, hattrs⟩ | ⟨hkind, hstruct⟩⟩
  · cases hattrs
  · cases hstruct
    have hsized := layout_sized h hcounts ht hkind hsize
    have hparts := (layout_checked h hcounts ht hkind).2
    have hlossless : ∀ m ∈ (s.layout name d).members, m.2.Lossless := fun m hm =>
      MemberType.lossless_of_checked (hparts m hm) fun lower hlower =>
        hkeeps lower (MemberType.lowerings_subset hm hlower)
    constructor
    · rw [Codec.lengthFits_struct_iff]
      exact Layout.exists_decode_iff hsized
    · exact fun obj hdec => Layout.encode_of_decode hsized hlossless hdec

/-- Two lamps and a mode. Later versions of the struct have more members. -/
def lamps : TypeDef := declare (some .struct)
  [⟨"lamps", .name "lamp", { AttributeOptions.empty with count := 2 }⟩,
    ⟨"mode", .name "u16", { AttributeOptions.empty with type := some ⟨"mode", false⟩ }⟩,
    ⟨"pad", .name "data", { AttributeOptions.empty with count := 1, abi := "1.0.0" }⟩,
    ⟨"delay", .name "u32", { AttributeOptions.empty with abi := "2.0.0" }⟩] []

/-- The schema of an expandable struct with an array of structs, booleans, an enum and flags. -/
def panel : Schema where
  types := [
    ("panel", lamps),
    ("lamp", declare (some .struct)
      [⟨"on", .name "bool", { AttributeOptions.empty with count := 2 }⟩,
        ⟨"color", .name "u8", { AttributeOptions.empty with type := some ⟨"color", false⟩ }⟩] []),
    ("color", declare (some .enum) [] [⟨"red", 1, none, .empty⟩, ⟨"dark_red", 2, none, .empty⟩]),
    ("mode", declare (some .flags) [] [⟨"read", 1, none, .empty⟩, ⟨"write", 2, none, .empty⟩])]
  distinct := by decide +kernel
  named := by decide +kernel

/-- A message with a color and a mode that have no name, and bytes that the struct does not know. -/
def panelMessage : Bytes := [1, 0, 2, 0, 1, 9, 7, 0, 255, 5, 6]

theorem panelMessage_exact :
    ∃ obj, (Codec.struct (panel.layout "panel" lamps)).decode panelMessage = .ok obj ∧
      (Codec.struct (panel.layout "panel" lamps)).encode obj = .ok panelMessage := by
  have hmem : (Text.ofString "panel", lamps) ∈ panel.types := List.mem_cons_self
  have hcodec := codec?_struct hmem rfl
  have hcompile := output_of_errors (s := panel) (o := .default) (by decide +kernel)
  have hexact := struct_exact hcompile (by decide +kernel) hcodec (by decide +kernel)
    (by decide +kernel) panelMessage
  rcases hexact.1.2 ⟨by decide +kernel, by decide +kernel⟩ with ⟨obj, hobj⟩
  exact ⟨obj, hobj, hexact.2 obj hobj⟩

end Schema

end NetlinkSchema
