import NetlinkSchema.Proofs.Listing
import NetlinkSchema.Proofs.Placement
import NetlinkSchema.Proofs.Tiling
import NetlinkSchema.Proofs.Validity

/-!
# Sizes and slices of structs

The sizes and offsets of a struct are counted in signed 64-bit words, and no step looks whether a
sum or a product still fits. So a size is always the exact one up to multiples of `2 ^ 64`, and it
is the exact one as long as the whole struct has less than `2 ^ 63` bytes. Then every part of the
struct, however deep, has its exact size too, and begins where the parts before it end.

A struct is decoded and encoded through slices: a member is at its offset, and an element of an
array is one of as many equal pieces. In a struct of exact size these slices are within every buffer
whose length was accepted, each has the length of the part that it is for, and the part is decoded
from it.

## Main definitions

* `MemberType.Exact`: Sizes and offsets at all depths are exact.
* `MemberType.Slice`, `Layout.Slice`: Where a part is found.
* `Layout.AcceptsLength`: The lengths of buffers that are decoded, and of those written to.

## Theorems

* `MemberType.size_eq_ofNat`: Sizes are exact up to multiples of `2 ^ 64`.
* `MemberType.exact_iff`: They are exact if the size of the whole is a signed word.
* `MemberType.Slice.within`: A slice within another one.
* `MemberType.Slice.exists_decode`: What is decoded from a slice is in what is decoded from the
  whole.
* `Schema.sizes_exact_iff`: The sizes of compiled structs, and their slices.
-/

namespace NetlinkSchema

/-- The bytes from a position on. -/
def Bytes.span (buf : Bytes) (start len : Int) : Bytes := (buf.drop start.toNat).take len.toNat

theorem Bytes.length_span {buf : Bytes} {start len : Int} (hstart : 0 ≤ start) (hlen : 0 ≤ len)
    (h : start + len ≤ buf.length) : (buf.span start len).length = len.toNat := by
  rw [span, List.length_take, List.length_drop]
  omega

/-- A slice of a slice is a slice. -/
theorem Bytes.take_drop_span (buf : Bytes) {start len : Int} {offset size : Nat}
    (hstart : 0 ≤ start) (h : offset + size ≤ len) :
    ((buf.span start len).drop offset).take size = buf.span (start + offset) size := by
  have hdrop : start.toNat + offset = (start + offset).toNat := by omega
  rw [span, span, List.drop_take, List.take_take, List.drop_drop, hdrop, Int.toNat_natCast,
    Nat.min_eq_left (by omega)]

theorem Object.mem_of_value? {obj : Object} {name : Text} {v : Value}
    (h : obj.value? name = some v) : (name, v) ∈ obj := by
  rcases Option.map_eq_some_iff.1 h with ⟨e, hfind, rfl⟩
  have hname : e.1 = name := by simpa using List.find?_some hfind
  rw [← hname]
  exact List.mem_of_find?_eq_some hfind

namespace MemberType

section Exact

/-- Sizes and offsets at all depths are the sums and products that they stand for. -/
structure Exact (t : MemberType) : Prop where
  sizes : ∀ part : MemberType, part.PartOf t → part.size.toInt = part.exactSize
  offsets : ∀ name members, (struct name members).PartOf t → ∀ (k : Nat) (offset : Int64),
    (offsets 0 members)[k]? = some offset → offset.toInt = exactMembersSize (members.take k)

theorem Exact.member {name : Text} {members : Members} (h : (struct name members).Exact)
    {m : Text × MemberType} (hm : m ∈ members) : m.2.Exact :=
  ⟨fun p hp => h.sizes p (.member hm hp), fun nm ms hp => h.offsets nm ms (.member hm hp)⟩

theorem Exact.element {count : Int64} {elem : MemberType} (h : (array count elem).Exact) :
    elem.Exact :=
  ⟨fun p hp => h.sizes p (.element hp), fun nm ms hp => h.offsets nm ms (.element hp)⟩

theorem Sized.part {part t : MemberType} (h : t.Sized) (hpart : part.PartOf t) : part.Sized := by
  induction hpart with
  | refl => exact h
  | member hm _ ih => exact ih (h.member hm)
  | element _ ih => exact ih h.element

/-- No part is greater than the whole. -/
theorem exactSize_le_of_partOf {part t : MemberType} (h : t.Sized) (hpart : part.PartOf t) :
    part.exactSize ≤ t.exactSize := by
  induction hpart with
  | refl => exact Nat.le_refl _
  | member hm _ ih =>
      rw [exactSize]
      exact Nat.le_trans (ih (h.member hm)) (exactSize_le_of_mem hm)
  | @element count elem _ ih =>
      have hcount : 0 < count.toInt := h _ (.refl _)
      have hclamp := toNatClampNeg_of_nonneg (Int.le_of_lt hcount)
      rw [exactSize]
      exact Nat.le_trans (ih h.element) (Nat.le_mul_of_pos_right _ (by omega))

theorem ofNat_toNatClampNeg {x : Int64} (h : 0 ≤ x.toInt) : Int64.ofNat x.toNatClampNeg = x := by
  have hlt := x.toInt_lt
  have hclamp := toNatClampNeg_of_nonneg h
  rw [← Int64.toInt_inj, Int64.toInt_ofNat_of_lt (by omega), hclamp]

/-- Sizes are exact up to multiples of `2 ^ 64`. -/
theorem size_eq_ofNat {t : MemberType} (h : t.Sized) : t.size = Int64.ofNat t.exactSize := by
  induction t using inductionOn with
  | bytes count => exact (ofNat_toNatClampNeg (h _ (.refl _))).symm
  | bool => rfl
  | number num lower => rfl
  | struct name members ih =>
      -- The sum is by induction on the members, of whose sizes only this is used.
      have hmembers := fun m hm => ih m hm (h.member hm)
      clear ih h
      rw [size, exactSize]
      induction members with
      | nil => rfl
      | cons m rest ih =>
          rw [membersSize, exactMembersSize, Int64.ofNat_add, hmembers m List.mem_cons_self,
            ih fun x hx => hmembers x (List.mem_cons_of_mem _ hx)]
  | array count elem ih =>
      have hcount : 0 < count.toInt := h _ (.refl _)
      rw [size, exactSize, Int64.ofNat_mul, ih h.element,
        ofNat_toNatClampNeg (Int.le_of_lt hcount)]

/-- A member ends where the members up to it do. -/
theorem exactMembersSize_take_add {members : Members} {k : Nat} {m : Text × MemberType}
    (hm : members[k]? = some m) :
    exactMembersSize (members.take k) + m.2.exactSize ≤ exactMembersSize members := by
  rcases List.getElem?_eq_some_iff.1 hm with ⟨hk, rfl⟩
  have hsplit : members = members.take k ++ members[k] :: members.drop (k + 1) := by
    rw [List.getElem_cons_drop, List.take_append_drop]
  have hsum := congrArg exactMembersSize hsplit
  rw [exactMembersSize_append, exactMembersSize] at hsum
  omega

/-- An offset is the size of the members before it. -/
theorem toInt_offset {members : Members} (h : ∀ m ∈ members, m.2.Sized) {cursor : Int64} {n k : Nat}
    (hcursor : cursor.toInt = n) (hsize : n + exactMembersSize members < 2 ^ 63) {offset : Int64}
    (hoffset : (offsets cursor members)[k]? = some offset) :
    offset.toInt = (n + exactMembersSize (members.take k) : Nat) := by
  induction members generalizing cursor n k with
  | nil => cases hoffset
  | cons m rest ih =>
      rw [exactMembersSize] at hsize
      cases k with
      | zero =>
          cases hoffset
          rw [hcursor, List.take_zero, exactMembersSize, Nat.add_zero]
      | succ k =>
          have hnext := toInt_add_size (h m List.mem_cons_self) hcursor (by omega)
          rw [offsets, List.getElem?_cons_succ] at hoffset
          rw [ih (fun x hx => h x (List.mem_cons_of_mem _ hx)) hnext (by omega) hoffset,
            List.take_succ_cons, exactMembersSize, Nat.add_assoc]

/-- Sizes and offsets are exact at all depths if the size of the whole is a signed word. -/
theorem exact_iff {t : MemberType} (h : t.Sized) : t.Exact ↔ t.exactSize < 2 ^ 63 := by
  constructor
  · intro hexact
    have hsize := hexact.sizes t (.refl t)
    have hlt := t.size.toInt_lt
    omega
  · intro hsize
    have hlt : ∀ part : MemberType, part.PartOf t → part.exactSize < 2 ^ 63 := fun part hpart =>
      Nat.lt_of_le_of_lt (exactSize_le_of_partOf h hpart) hsize
    refine ⟨fun part hpart => toInt_size (h.part hpart) (hlt part hpart), ?_⟩
    intro name members hpart k offset hoffset
    have hmembers := hlt _ hpart
    rw [exactSize] at hmembers
    have hzero : (0 : Int64).toInt = (0 : Nat) := rfl
    rw [toInt_offset (fun m hm => (h.part hpart).member hm) hzero (by omega) hoffset, Nat.zero_add]

end Exact

section Slice

/-- A part of a type is found in a slice, when the type itself is in a slice of `len` bytes from
    `start` on. A member is at its offset, and an element is one of the pieces of an array. -/
inductive Slice : MemberType → Int → Int → MemberType → Int → Int → Prop
  | whole (t : MemberType) (start len : Int) : Slice t start len t start len
  | member {name : Text} {members : Members} {start len : Int} {k : Nat} {m : Text × MemberType}
      {offset : Int64} {part : MemberType} {a n : Int} (hm : members[k]? = some m)
      (hoffset : (offsets 0 members)[k]? = some offset)
      (h : Slice m.2 (start + offset.toInt) m.2.size.toInt part a n) :
      Slice (struct name members) start len part a n
  | element {count : Int64} {elem : MemberType} {start len : Int} {i : Nat} {part : MemberType}
      {a n : Int} (hi : i < count.toInt)
      (h : Slice elem (start + i * (len / count.toInt)) (len / count.toInt) part a n) :
      Slice (array count elem) start len part a n

-- The pieces of an array have the size of an element.
theorem piece_eq {count : Int64} {elem : MemberType} {len : Int} (hcount : 0 < count.toInt)
    (hlen : len = (array count elem).exactSize) : len / count.toInt = elem.exactSize := by
  have hclamp := toNatClampNeg_of_nonneg (Int.le_of_lt hcount)
  rw [hlen, exactSize, Int.natCast_mul, hclamp]
  exact Int.mul_ediv_cancel _ (Int.ne_of_gt hcount)

-- An element ends where the next one begins, or at the end of the array.
theorem element_within {count : Int64} (elem : MemberType) {i : Nat} (hi : i < count.toInt) :
    i * elem.exactSize + elem.exactSize ≤ (array count elem).exactSize := by
  have hclamp := toNatClampNeg_of_nonneg (x := count) (by omega)
  rw [exactSize, Nat.mul_comm elem.exactSize, ← Nat.succ_mul]
  exact Nat.mul_le_mul_right _ (by omega)

variable {t part : MemberType} {start len a n : Int}

/-- A slice of a type of exact size is within that of the type, and has the size of its part. -/
theorem Slice.within (hslice : Slice t start len part a n) (h : t.Exact) (hsized : t.Sized)
    (hlen : len = t.exactSize) : start ≤ a ∧ a + n ≤ start + len ∧ n = part.exactSize := by
  induction hslice with
  | whole t start len => exact ⟨Int.le_refl _, Int.le_refl _, hlen⟩
  | @member name members start len k m offset part a n hm hoffset _ ih =>
      have hmem := List.mem_of_getElem? hm
      have hoff := h.offsets name members (.refl _) k offset hoffset
      have hend := exactMembersSize_take_add hm
      rw [exactSize] at hlen
      have hsize := (h.member hmem).sizes m.2 (.refl _)
      rcases ih (h.member hmem) (hsized.member hmem) hsize with ⟨hle, hwithin, hn⟩
      exact ⟨by omega, by omega, hn⟩
  | @element count elem start len i part a n hi _ ih =>
      have hpiece := piece_eq (hsized _ (.refl _)) hlen
      have hend := element_within elem hi
      rcases ih h.element hsized.element hpiece with ⟨hle, hwithin, hn⟩
      rw [hpiece, ← Int.natCast_mul] at hle hwithin
      exact ⟨by omega, by omega, hn⟩

theorem mem_pieces (size : Nat) {count i : Nat} (hi : i < count) (b : Bytes) :
    (b.drop (i * size)).take size ∈ pieces size count b := by
  induction count generalizing i b with
  | zero => omega
  | succ count ih =>
      rw [pieces]
      cases i with
      | zero =>
          rw [Nat.zero_mul, List.drop_zero]
          exact List.mem_cons_self
      | succ i =>
          have hrest := ih (i := i) (by omega) (b.drop size)
          rw [List.drop_drop, Nat.add_comm, ← Nat.succ_mul] at hrest
          exact List.mem_cons_of_mem _ hrest

/-- A member is decoded from the bytes at its offset. -/
theorem value?_of_decodeMembers {type : Text} {members : Members}
    (hnames : (members.map Prod.fst).Nodup)
    (hlength : ∀ m ∈ members, m.2.length = m.2.exactSize) {b : Bytes} {obj : Object}
    (h : decodeMembers type members b = .ok obj) {k : Nat} {m : Text × MemberType}
    (hm : members[k]? = some m) : ∃ v, Object.value? obj m.1 = some v ∧
      m.2.decode ((b.drop (exactMembersSize (members.take k))).take m.2.exactSize) = .ok v := by
  induction members generalizing b obj k with
  | nil => cases hm
  | cons first rest ih =>
      rw [List.map_cons, List.nodup_cons] at hnames
      rcases decodeMembers_cons_eq h with ⟨v, others, hv, hothers, rfl⟩
      rw [hlength first List.mem_cons_self] at hv hothers
      cases k with
      | zero =>
          cases hm
          refine ⟨v, by rw [Object.value?_set, if_pos rfl], ?_⟩
          rw [List.take_zero, exactMembersSize, List.drop_zero]
          exact hv
      | succ k =>
          rw [List.getElem?_cons_succ] at hm
          rcases ih hnames.2 (fun x hx => hlength x (List.mem_cons_of_mem _ hx)) hothers hm with
            ⟨w, hw, hdecode⟩
          -- No later member has the name of the first one.
          have hne : first.1 ≠ m.1 := fun heq =>
            hnames.1 (heq ▸ List.mem_map_of_mem (List.mem_of_getElem? hm))
          refine ⟨w, by rw [Object.value?_set, if_neg hne, hw], ?_⟩
          rw [List.drop_drop] at hdecode
          rw [List.take_succ_cons, exactMembersSize]
          exact hdecode

/-- What is decoded from the slice of a part is in what is decoded from the slice of the whole. -/
theorem Slice.exists_decode {L : Lowering → Prop} (hslice : Slice t start len part a n)
    (hchecked : ∀ part : MemberType, part.PartOf t → part.Checked L) (h : t.Exact)
    (hlen : len = t.exactSize) (hstart : 0 ≤ start) {buf : Bytes} (hbuf : start + len ≤ buf.length)
    {v : Value} (hv : t.decode (buf.span start len) = .ok v) :
    ∃ w : Value, w.PartOf v ∧ part.decode (buf.span a n) = .ok w := by
  induction hslice generalizing v with
  | whole t start len => exact ⟨v, .refl, hv⟩
  | @member name members start len k m offset part a n hm hoffset _ ih =>
      have hmem := List.mem_of_getElem? hm
      have hoff := h.offsets name members (.refl _) k offset hoffset
      have hend := exactMembersSize_take_add hm
      rw [exactSize] at hlen
      have hsize := (h.member hmem).sizes m.2 (.refl _)
      have hlength : ∀ x ∈ members, x.2.length = x.2.exactSize := fun x hx =>
        toNatClampNeg_eq (h.sizes x.2 (.member hx (.refl _)))
      rw [decode] at hv
      rcases bind_eq_ok_iff.1 hv with ⟨-, -, hv⟩
      rcases bind_eq_ok_iff.1 hv with ⟨obj, hobj, hv⟩
      cases hv
      rcases value?_of_decodeMembers (hchecked _ (.refl _)) hlength hobj hm with ⟨w, hw, hdecode⟩
      rw [Bytes.take_drop_span buf hstart (by omega), ← hoff, ← hsize] at hdecode
      rcases ih (fun p hp => hchecked p (.member hmem hp)) (h.member hmem) hsize (by omega)
        (by omega) hdecode with ⟨x, hx, hxdecode⟩
      exact ⟨x, .field (Object.mem_of_value? hw) hx, hxdecode⟩
  | @element count elem start len i part a n hi _ ih =>
      have hcount : 0 < count.toInt := hchecked _ (.refl _)
      have hclamp := toNatClampNeg_of_nonneg (Int.le_of_lt hcount)
      have hpiece := piece_eq hcount hlen
      have hend := element_within elem hi
      -- The slice has the size of the array, so it is cut at the ends of elements.
      have hspan : (buf.span start len).length / count.toNatClampNeg = elem.exactSize := by
        rw [Bytes.length_span hstart (by omega) hbuf, hlen, Int.toNat_natCast, exactSize]
        exact Nat.mul_div_cancel _ (by omega)
      rw [decode] at hv
      rcases bind_eq_ok_iff.1 hv with ⟨items, hitems, hv⟩
      cases hv
      rw [hspan] at hitems
      have hi' : i < count.toNatClampNeg := by omega
      have hmem := mem_pieces elem.exactSize hi' (buf.span start len)
      rcases forall₂_left (mapM_eq_ok_iff.1 hitems) hmem with ⟨w, hw, hdecode⟩
      rw [Bytes.take_drop_span buf hstart (by omega)] at hdecode
      rw [hpiece, ← Int.natCast_mul] at ih
      rcases ih (fun p hp => hchecked p (.element hp)) h.element rfl (by omega) (by omega) hdecode
        with ⟨x, hx, hxdecode⟩
      exact ⟨x, .item hw hx, hxdecode⟩

end Slice

end MemberType

namespace Layout

/-- A part of a struct is found in a slice of a buffer. -/
def Slice (l : Layout) (part : MemberType) (a n : Int) : Prop :=
  ∃ (k : Nat) (m : Text × MemberType) (offset : Int64), l.members[k]? = some m ∧
    (MemberType.offsets 0 l.members)[k]? = some offset ∧
    MemberType.Slice m.2 offset.toInt m.2.size.toInt part a n

/-- The length of a buffer is accepted: by decoding, or by encoding some object into it. -/
def AcceptsLength (l : Layout) (buf : Bytes) : Prop :=
  l.checkLength buf = .ok () ∨
    ∃ obj tail, l.tail obj = .ok tail ∧ buf.length = l.size.toInt + tail.length

variable {l : Layout}

theorem AcceptsLength.le (h : l.Sized) {buf : Bytes} (hbuf : l.AcceptsLength buf) :
    MemberType.exactMembersSize l.members ≤ buf.length := by
  rcases hbuf with hcheck | ⟨obj, tail, -, hlength⟩
  · exact (length_of_checkLength h hcheck).1
  · have hsize := h.toInt_size
    omega

-- The members of a struct whose size is a signed word, and their offsets.
theorem Sized.exact_member (h : l.Sized) {k : Nat} {m : Text × MemberType} {offset : Int64}
    (hm : l.members[k]? = some m) (hoffset : (MemberType.offsets 0 l.members)[k]? = some offset) :
    m.2.Exact ∧ m.2.size.toInt = m.2.exactSize ∧
      offset.toInt = MemberType.exactMembersSize (l.members.take k) := by
  have hmem := List.mem_of_getElem? hm
  have hexact := (MemberType.exact_iff (h.members m hmem)).2 (h.exactSize_lt m hmem)
  have hsum := h.size_lt
  have hoff := MemberType.toInt_offset h.members (n := 0) rfl (by omega) hoffset
  rw [Nat.zero_add] at hoff
  exact ⟨hexact, hexact.sizes m.2 (.refl _), hoff⟩

/-- The slices of a struct of exact size are within every buffer of accepted length, and have the
    sizes of their parts. -/
theorem Slice.within (h : l.Sized) {buf : Bytes} (hbuf : l.AcceptsLength buf) {part : MemberType}
    {a n : Int} (hslice : l.Slice part a n) :
    0 ≤ a ∧ a + n ≤ buf.length ∧ n = part.exactSize := by
  rcases hslice with ⟨k, m, offset, hm, hoffset, hslice⟩
  rcases h.exact_member hm hoffset with ⟨hexact, hsize, hoff⟩
  have hend := MemberType.exactMembersSize_take_add hm
  have hle := hbuf.le h
  rcases hslice.within hexact (h.members m (List.mem_of_getElem? hm)) hsize with
    ⟨hstart, hwithin, hn⟩
  exact ⟨by omega, by omega, hn⟩

/-- What is decoded from a slice is in the decoded object. -/
theorem Slice.exists_decode {L : Lowering → Prop} (h : l.Sized)
    (hchecked : ∀ m ∈ l.members, ∀ part : MemberType, part.PartOf m.2 → part.Checked L)
    {part : MemberType} {a n : Int} (hslice : l.Slice part a n) {buf : Bytes} {obj : Object}
    (hobj : l.decode buf = .ok obj) :
    ∃ v : Value, v.PartOf (.object obj) ∧ part.decode (buf.span a n) = .ok v := by
  rcases hslice with ⟨k, m, offset, hm, hoffset, hslice⟩
  have hmem := List.mem_of_getElem? hm
  rcases h.exact_member hm hoffset with ⟨hexact, hsize, hoff⟩
  have hend := MemberType.exactMembersSize_take_add hm
  rcases exists_of_decode h hobj with ⟨front, tail, known, rfl, hfront, -, hknown, rfl⟩
  rw [← MemberType.decodeMembers_append h.length_members hfront tail] at hknown
  rcases MemberType.value?_of_decodeMembers h.distinct h.length_members hknown hm with
    ⟨v, hv, hdecode⟩
  -- The bytes beyond the members are stored under a name that no member has.
  have hkept : Object.value? (withTail known tail) m.1 = some v := by
    cases tail with
    | nil => exact hv
    | cons x rest =>
        have hne : unparsedField ≠ m.1 := fun heq =>
          h.unparsed (heq ▸ List.mem_map_of_mem hmem)
        rw [withTail, Object.value?_set, if_neg hne, hv]
  have hspan : ((front ++ tail).drop (MemberType.exactMembersSize (l.members.take k))).take
      m.2.exactSize = Bytes.span (front ++ tail) offset.toInt m.2.size.toInt := by
    rw [Bytes.span, hoff, hsize, Int.toNat_natCast, Int.toNat_natCast]
  rw [hspan] at hdecode
  rcases hslice.exists_decode (hchecked m hmem) hexact hsize (by omega)
    (by rw [List.length_append]; omega) hdecode with ⟨w, hw, hwdecode⟩
  exact ⟨w, .field (Object.mem_of_value? hkept) hw, hwdecode⟩

end Layout

namespace Schema

/-- The sizes of the structs of a compiled schema, with counts that are not negative. The length of
    a struct is the exact one up to multiples of `2 ^ 64`. All sizes and offsets in it are exact if
    and only if it has less than `2 ^ 63` bytes. Then in every buffer of accepted length the slices
    of all members and elements are within the buffer, each as long as its part, and what is decoded
    from them is in the decoded object. -/
theorem sizes_exact_iff {s : Schema} {o : CompileOptions} {compiled : Compiled}
    (hcompile : (s.compile o).output = some compiled) (hcounts : s.CountsNonneg) {name : Text}
    {l : Layout} (hcodec : compiled.bundle.codec? name = some (.struct l)) :
    l.size.toInt = (MemberType.exactMembersSize l.members : Int).bmod (2 ^ 64) ∧
    ((MemberType.struct l.name l.members).Exact ↔
      MemberType.exactMembersSize l.members < 2 ^ 63) ∧
    (MemberType.exactMembersSize l.members < 2 ^ 63 → ∀ buf, l.AcceptsLength buf →
      ∀ part a n, l.Slice part a n → 0 ≤ a ∧ a + n ≤ buf.length ∧ n = part.exactSize ∧
        ∀ obj, l.decode buf = .ok obj →
          ∃ v : Value, v.PartOf (.object obj) ∧ part.decode (buf.span a n) = .ok v) := by
  rcases accepted_of_compile hcompile with ⟨haccepted, hbundle⟩
  rw [hbundle] at hcodec
  rcases codec_cases hcodec with ⟨d, ht, ⟨-, hattrs⟩ | ⟨hkind, hstruct⟩⟩
  · cases hattrs
  cases hstruct
  rcases layout_checked haccepted hcounts ht hkind with ⟨-, hchecked⟩
  have hsized : (MemberType.struct name (s.layout name d).members).Sized := by
    intro part hpart
    cases hpart with
    | refl => trivial
    | member hm hpart => exact MemberType.sized_of_checked (hchecked _ hm) part hpart
  refine ⟨?_, MemberType.exact_iff hsized, fun hlt buf hbuf part a n hslice => ?_⟩
  · have hsize := MemberType.size_eq_ofNat hsized
    rw [MemberType.size, MemberType.exactSize] at hsize
    rw [Layout.size, hsize]
    exact Int64.toInt_ofNat'
  · have hlayout := layout_sized haccepted hcounts ht hkind hlt
    rcases hslice.within hlayout hbuf with ⟨ha, hwithin, hn⟩
    exact ⟨ha, hwithin, hn, fun obj hobj => hslice.exists_decode hlayout hchecked hobj⟩

/-- The sizes of a banner are exact. In a buffer of 40 bytes, all its slices are within the buffer,
    among them the `y` of its second corner. -/
theorem banner_sizes_exact :
    (MemberType.struct "banner" ((catalog 7).layout "banner" banner).members).Exact ∧
    (∃ part a n, ((catalog 7).layout "banner" banner).Slice part a n ∧ a = 14 ∧ n = 8) ∧
    ∀ part a n, ((catalog 7).layout "banner" banner).Slice part a n → 0 ≤ a ∧ a + n ≤ 40 := by
  have hcompile : ((catalog 7).compile .default).output
      = some ⟨(catalog 7).bundle, (catalog 7).describe.sign⟩ :=
    output_of_errors (by decide +kernel)
  have hbanner : (("banner" : Text), banner) ∈ (catalog 7).types := by simp [catalog]
  rcases sizes_exact_iff hcompile (by decide +kernel) (codec?_struct hbanner rfl) with
    ⟨-, hexact, hslices⟩
  have hlt : MemberType.exactMembersSize ((catalog 7).layout "banner" banner).members < 2 ^ 63 := by
    decide +kernel
  have hlength : ((catalog 7).layout "banner" banner).AcceptsLength (Bytes.zeros 40) :=
    Or.inl (by decide +kernel)
  refine ⟨hexact.2 hlt, ⟨_, _, _, ⟨1, _, _, rfl, rfl, .element (i := 1) (by decide +kernel)
    (.member (k := 1) rfl rfl (.whole _ _ _))⟩, by decide +kernel, by decide +kernel⟩, ?_⟩
  intro part a n hslice
  rcases hslices hlt _ hlength part a n hslice with ⟨ha, hwithin, -⟩
  exact ⟨ha, hwithin⟩

/-- A struct of `2 ^ 62` words and a byte. -/
def ledger : TypeDef := declare (some .struct)
  [⟨"words", .name "u32", { AttributeOptions.empty with count := 0x4000000000000000 }⟩,
    ⟨"mark", .name "u8", .empty⟩] []

/-- A schema with a struct whose size is not a signed word. -/
def ledgers : Schema where
  types := [("ledger", ledger)]
  distinct := by
    change (["ledger"].map Text.ofString).Nodup
    decide +kernel
  named := by
    change ∀ name ∈ ["ledger"].map Text.ofString, isTypeName name = true
    decide +kernel

/-- The size wraps around to a single byte, and a buffer of one byte is accepted. -/
theorem ledger_size_wraps :
    (ledgers.compile .default).output = some ⟨ledgers.bundle, ledgers.describe.sign⟩ ∧
    ledgers.CountsNonneg ∧
    ledgers.bundle.codec? "ledger" = some (.struct (ledgers.layout "ledger" ledger)) ∧
    MemberType.exactMembersSize (ledgers.layout "ledger" ledger).members = 2 ^ 64 + 1 ∧
    (ledgers.layout "ledger" ledger).size.toInt = 1 ∧
    (ledgers.layout "ledger" ledger).checkLength [0] = .ok () ∧
    ¬ (MemberType.struct "ledger" (ledgers.layout "ledger" ledger).members).Exact := by
  have hsize : (MemberType.struct "ledger" (ledgers.layout "ledger" ledger).members).size.toInt
      = 1 := by decide +kernel
  have hexact : (MemberType.struct "ledger" (ledgers.layout "ledger" ledger).members).exactSize
      = 2 ^ 64 + 1 := by decide +kernel
  refine ⟨output_of_errors (by decide +kernel), by decide +kernel,
    codec?_struct List.mem_cons_self rfl, hexact, hsize, by decide +kernel, fun h => ?_⟩
  have hsizes := h.sizes _ (.refl _)
  omega

end Schema

end NetlinkSchema
