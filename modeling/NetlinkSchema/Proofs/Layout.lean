import NetlinkSchema.Codec.Layout
import NetlinkSchema.Proofs.Lowering

/-!
# Round trips of struct layouts

A struct is written into a buffer piece by piece, and read from it piece by piece. `Matches` says
that a value and some bytes stand for each other: the bytes are read as the value, and the value is
written as the bytes, whatever the buffer held before. Matching pieces put together match, which is
the only place where the offsets of reading and writing meet.

Not all bytes match a value and not all values match bytes. A bitmask member may hold foreign bits,
a caller may leave members out. `RoundTrips` collects what is true of every type all the same: what
has been written matches some value, what has been read matches some bytes, and so do zeros, which
stand for a member that is left out.

Sizes are words in the code. They are exact as long as the true size is a signed word; beyond that
a struct would have another length than the sum of its members.

## Main definitions

* `MemberType.exactSize`: The number of bytes of a member, without wrapping around.
* `MemberType.WellFormed`, `Layout.WellFormed`: Counts and names are as the compiler checks them.
* `MemberType.PartOf`: The members of a struct and the elements of an array, and so on.
* `MemberType.Sized`, `Layout.Sized`: Sizes are as they are counted.
* `MemberType.Matches`, `MemberType.MembersMatch`: A value and bytes stand for each other.
* `MemberType.RoundTrips`: What is written, what is read, and zeros.

## Theorems

* `MemberType.toInt_size`: The size of a member is exact.
* `MemberType.MembersMatch.cons`, `MemberType.matches_array`: Matching pieces put together match.
* `MemberType.roundTrips`: Every well-formed member type makes the round trips.
* `Layout.encoded`, `Layout.decoded`: Both round trips of a struct.
-/

namespace NetlinkSchema

namespace Scalar

theorem readBool_eq_ok {x : UInt8} {v : Value} (h : readBool x = .ok v) :
    ∃ c : Bool, v = .bool c ∧ x = if c then 1 else 0 := by
  unfold readBool at h
  by_cases hzero : x = 0
  · rw [if_pos hzero] at h
    cases h
    exact ⟨false, rfl, hzero⟩
  · rw [if_neg hzero] at h
    by_cases hone : x = 1
    · rw [if_pos hone] at h
      cases h
      exact ⟨true, rfl, hone⟩
    · rw [if_neg hone] at h
      cases h

end Scalar

namespace MemberType

/-- What holds of a struct if it holds of its members, and of an array if it holds of its elements,
    holds of every member type. -/
theorem inductionOn {P : MemberType → Prop} (bytes : ∀ count, P (bytes count)) (bool : P bool)
    (number : ∀ num lower, P (number num lower))
    (struct : ∀ name members, (∀ m ∈ members, P m.2) → P (struct name members))
    (array : ∀ count elem, P elem → P (array count elem)) (t : MemberType) : P t :=
  @MemberType.rec P (fun members => ∀ m ∈ members, P m.2) (fun m => P m.2) bytes bool number struct
    array (fun _ hm => nomatch hm)
    (fun _ _ hhead htail m hm =>
      (List.mem_cons.1 hm).elim (fun heq => heq ▸ hhead) fun hmem => htail m hmem)
    (fun _ _ ht => ht) t

mutual

/-- The number of bytes of a member, without wrapping around. -/
def exactSize : MemberType → Nat
  | bytes count => count.toNatClampNeg
  | bool => 1
  | number num _ => num.size
  | struct _ members => exactMembersSize members
  | array count elem => elem.exactSize * count.toNatClampNeg

/-- The number of bytes of a list of members, without wrapping around. -/
def exactMembersSize : List (Text × MemberType) → Nat
  | [] => 0
  | (_, t) :: rest => t.exactSize + exactMembersSize rest

end

mutual

/-- Byte strings have no negative length and arrays are not empty, the members of a struct have
    distinct names, and lowered integers have a well-formed meaning. -/
def WellFormed : MemberType → Prop
  | bytes count => 0 ≤ count.toInt
  | bool => True
  | number _ lower => lower.WellFormed
  | struct _ members => (members.map Prod.fst).Nodup ∧ MembersWellFormed members
  | array count elem => 0 < count.toInt ∧ elem.WellFormed

/-- The same of each member of a list. -/
def MembersWellFormed : List (Text × MemberType) → Prop
  | [] => True
  | (_, t) :: rest => t.WellFormed ∧ MembersWellFormed rest

end

theorem membersWellFormed_iff {members : Members} :
    MembersWellFormed members ↔ ∀ m ∈ members, m.2.WellFormed := by
  induction members with
  | nil => simp [MembersWellFormed]
  | cons m rest ih => rw [MembersWellFormed, ih, List.forall_mem_cons]

/-- A type is a part of another one: the type itself, or a part of a member or of the elements. -/
inductive PartOf : MemberType → MemberType → Prop
  | refl (t : MemberType) : PartOf t t
  | member {part : MemberType} {name : Text} {members : Members} {m : Text × MemberType} :
      m ∈ members → PartOf part m.2 → PartOf part (struct name members)
  | element {part : MemberType} {count : Int64} {elem : MemberType} :
      PartOf part elem → PartOf part (array count elem)

/-- Byte strings have no negative length and arrays are not empty. -/
def CountFits : MemberType → Prop
  | bytes count => 0 ≤ count.toInt
  | array count _ => 0 < count.toInt
  | bool | number _ _ | struct _ _ => True

/-- The same of all parts. -/
def Sized (t : MemberType) : Prop := ∀ part : MemberType, part.PartOf t → part.CountFits

theorem WellFormed.sized {t : MemberType} (h : t.WellFormed) : t.Sized := by
  intro part hpart
  induction hpart with
  | refl =>
      cases part with
      | bytes count => exact h
      | bool => trivial
      | number num lower => trivial
      | struct name members => trivial
      | array count elem => exact h.1
  | member hm _ ih => exact ih (membersWellFormed_iff.1 h.2 _ hm)
  | element _ ih => exact ih h.2

namespace Sized

variable {name : Text} {members : Members} {count : Int64} {elem : MemberType}

theorem member (h : (struct name members).Sized) {m : Text × MemberType} (hm : m ∈ members) :
    m.2.Sized := fun part hpart => h part (.member hm hpart)

theorem element (h : (array count elem).Sized) : elem.Sized :=
  fun part hpart => h part (.element hpart)

end Sized

theorem exactSize_le_of_mem {members : Members} {m : Text × MemberType} (hm : m ∈ members) :
    m.2.exactSize ≤ exactMembersSize members := by
  induction members with
  | nil => cases hm
  | cons x rest ih =>
      rw [exactMembersSize]
      rcases List.mem_cons.1 hm with rfl | hm
      · exact Nat.le_add_right _ _
      · exact Nat.le_trans (ih hm) (Nat.le_add_left _ _)

section Size

theorem toNatClampNeg_of_nonneg {x : Int64} (h : 0 ≤ x.toInt) : (x.toNatClampNeg : Int) = x.toInt :=
  Int.toNat_of_nonneg h

theorem toNatClampNeg_eq {x : Int64} {n : Nat} (h : x.toInt = n) : x.toNatClampNeg = n := by
  have := toNatClampNeg_of_nonneg (x := x) (by omega)
  omega

-- No step of the sum wraps around, because the whole sum does not.
theorem toInt_membersSize_of {members : Members}
    (h : ∀ m ∈ members, m.2.size.toInt = m.2.exactSize)
    (hsize : exactMembersSize members < 2 ^ 63) :
    (membersSize members).toInt = exactMembersSize members := by
  induction members with
  | nil => rfl
  | cons m rest ih =>
      rw [exactMembersSize] at hsize ⊢
      have hhead := h m List.mem_cons_self
      have hrest := ih (fun x hx => h x (List.mem_cons_of_mem _ hx)) (by omega)
      rw [membersSize, Int64.toInt_add, hhead, hrest]
      exact Int.bmod_eq_of_le (by omega) (by omega)

/-- The size of a member is exact. -/
theorem toInt_size {t : MemberType} (h : t.Sized) (hsize : t.exactSize < 2 ^ 63) :
    t.size.toInt = t.exactSize := by
  induction t using inductionOn with
  | bytes count => exact (toNatClampNeg_of_nonneg (h _ (.refl _))).symm
  | bool => rfl
  | number num lower =>
      have hle := num.size_le
      rw [size, exactSize, Int64.toInt_ofNat_of_lt (by omega)]
  | struct name members ih =>
      rw [exactSize] at hsize ⊢
      rw [size]
      refine toInt_membersSize_of (fun m hm => ?_) hsize
      exact ih m hm (h.member hm) (Nat.lt_of_le_of_lt (exactSize_le_of_mem hm) hsize)
  | array count elem ih =>
      have hlt : 0 < count.toInt := h _ (.refl _)
      rw [exactSize] at hsize ⊢
      have hcount := toNatClampNeg_of_nonneg (Int.le_of_lt hlt)
      have hpos : 0 < count.toNatClampNeg := by omega
      have helem := ih h.element (Nat.lt_of_le_of_lt (Nat.le_mul_of_pos_right _ hpos) hsize)
      rw [size, Int64.toInt_mul, helem, ← hcount, ← Int.natCast_mul]
      exact Int.bmod_eq_of_le (by omega) (by omega)

theorem length_eq {t : MemberType} (h : t.Sized) (hsize : t.exactSize < 2 ^ 63) :
    t.length = t.exactSize := toNatClampNeg_eq (toInt_size h hsize)

theorem toInt_membersSize {members : Members} (h : ∀ m ∈ members, m.2.Sized)
    (hsize : exactMembersSize members < 2 ^ 63) :
    (membersSize members).toInt = exactMembersSize members :=
  toInt_membersSize_of (fun m hm => toInt_size (h m hm)
    (Nat.lt_of_le_of_lt (exactSize_le_of_mem hm) hsize)) hsize

end Size

/-- A value and bytes stand for each other: the bytes are read as the value, and the value is
    written as the bytes over any buffer of their length. -/
structure Matches (t : MemberType) (v : Value) (b : Bytes) : Prop where
  length : b.length = t.exactSize
  read : t.decode b = .ok v
  written : ∀ buf : Bytes, buf.length = t.exactSize → t.write v buf = (b, none)
  present : v.isNull = false

/-- The same of an object and the bytes of a list of members. -/
structure MembersMatch (type : Text) (members : Members) (obj : Object) (b : Bytes) : Prop where
  length : b.length = exactMembersSize members
  read : decodeMembers type members b = .ok obj
  written : ∀ buf : Bytes, buf.length = exactMembersSize members →
    writeMembers type members obj buf = (b, none)

/-- What has been written matches some value, what has been read matches some bytes, and zeros
    match some value. -/
structure RoundTrips (t : MemberType) : Prop where
  written : ∀ (v : Value) (buf b : Bytes), buf.length = t.exactSize → t.write v buf = (b, none) →
    ∃ v', t.Matches v' b
  read : ∀ (b : Bytes) (v : Value), b.length = t.exactSize → t.decode b = .ok v →
    ∃ b', t.Matches v b'
  blank : ∃ v, t.Matches v (Bytes.zeros t.exactSize)

section Leaves

theorem matches_bytes {count : Int64} {b : Bytes} (h : b.length = count.toNatClampNeg)
    (hpos : 0 ≤ count.toInt) : (bytes count).Matches (.bytes b) b := by
  have hcount := toNatClampNeg_of_nonneg hpos
  refine ⟨h, rfl, fun buf hbuf => ?_, rfl⟩
  rw [exactSize] at hbuf
  rw [write, Scalar.putData]
  simp only
  rw [if_pos (by omega), Bytes.overwrite_of_length_eq (by omega)]

theorem roundTrips_bytes {count : Int64} (h : 0 ≤ count.toInt) : (bytes count).RoundTrips where
  written := by
    intro v buf b hbuf hwrite
    rw [exactSize] at hbuf
    have hcount := toNatClampNeg_of_nonneg h
    rw [write] at hwrite
    cases hdata : Scalar.putData v with
    | error e => rw [hdata] at hwrite; cases hwrite
    | ok data =>
        rw [hdata] at hwrite
        simp only at hwrite
        by_cases hlen : (data.length : Int) = count.toInt
        · rw [if_pos hlen, Bytes.overwrite_of_length_eq (by omega)] at hwrite
          cases hwrite
          exact ⟨.bytes b, matches_bytes (by omega) h⟩
        · rw [if_neg hlen] at hwrite
          cases hwrite
  read := by
    intro b v hb hread
    cases hread
    exact ⟨b, matches_bytes hb h⟩
  blank := ⟨_, matches_bytes (Bytes.length_zeros _) h⟩

theorem matches_bool (x : Bool) : bool.Matches (.bool x) [if x then 1 else 0] := by
  refine ⟨rfl, ?_, fun buf hbuf => ?_, rfl⟩
  · cases x <;> rfl
  · rw [exactSize] at hbuf
    cases x <;> exact congrArg (·, none) (Bytes.overwrite_of_length_eq hbuf.symm)

theorem roundTrips_bool : bool.RoundTrips where
  written := by
    intro v buf b hbuf hwrite
    cases v with
    | bool x =>
        rw [(matches_bool x).written buf hbuf] at hwrite
        cases hwrite
        exact ⟨.bool x, matches_bool x⟩
    | _ => rw [write] at hwrite; cases hwrite
  read := by
    intro b v hb hread
    match b, hb with
    | [x], _ =>
        rcases Scalar.readBool_eq_ok hread with ⟨c, rfl, rfl⟩
        exact ⟨_, matches_bool c⟩
  blank := ⟨.bool false, matches_bool false⟩

theorem matches_number {num : Number} {lower : Lowering} {b : Bytes}
    (h : lower.Canonical num b) : (number num lower).Matches (lower.read num b) b := by
  refine ⟨h.1, rfl, fun buf hbuf => ?_, lower.isNull_read num b⟩
  rw [exactSize] at hbuf
  rw [write, h.2]
  simp only
  rw [Bytes.overwrite_of_length_eq (h.1.trans hbuf.symm)]

theorem roundTrips_number {num : Number} {lower : Lowering} (h : lower.WellFormed) :
    (number num lower).RoundTrips where
  written := by
    intro v buf b hbuf hwrite
    rw [exactSize] at hbuf
    rw [write] at hwrite
    cases hbytes : lower.toBytes num v with
    | error e => rw [hbytes] at hwrite; cases hwrite
    | ok data =>
        have hcanon := Lowering.canonical_of_toBytes h hbytes
        rw [hbytes] at hwrite
        simp only at hwrite
        rw [Bytes.overwrite_of_length_eq (hcanon.1.trans hbuf.symm)] at hwrite
        cases hwrite
        exact ⟨_, matches_number hcanon⟩
  read := by
    intro b v hb hread
    cases hread
    rcases Lowering.exists_canonical h hb with ⟨b', hcanon, hsame⟩
    exact ⟨b', hsame ▸ matches_number hcanon⟩
  blank := ⟨_, matches_number (Lowering.canonical_zeros h)⟩

end Leaves

section Struct

variable {type : Text}

/-- What reading members one after another comes down to. -/
theorem decodeMembers_cons_eq {name : Text} {t : MemberType} {rest : Members} {buf : Bytes}
    {obj : Object} (h : decodeMembers type ((name, t) :: rest) buf = .ok obj) :
    ∃ v others, t.decode (buf.take t.length) = .ok v ∧
      decodeMembers type rest (buf.drop t.length) = .ok others ∧
      obj = Object.set others name v := by
  rw [decodeMembers] at h
  split at h
  · cases h
  · rename_i v hv
    rcases bind_eq_ok_iff.1 h with ⟨others, hothers, hobj⟩
    cases hobj
    exact ⟨v, others, hv, hothers, rfl⟩

theorem key_mem_of_decodeMembers {members : Members} {b : Bytes} {obj : Object}
    (h : decodeMembers type members b = .ok obj) {e : Text × Value} (he : e ∈ obj) :
    e.1 ∈ members.map Prod.fst := by
  induction members generalizing b obj with
  | nil =>
      cases h
      cases he
  | cons m rest ih =>
      rcases decodeMembers_cons_eq h with ⟨v, others, -, hothers, rfl⟩
      rcases Object.mem_set he with rfl | he
      · exact List.mem_cons_self
      · exact List.mem_cons_of_mem _ (ih hothers he)

theorem firstUndeclared?_eq_none {obj : Object} {declared : List Text}
    (h : ∀ e ∈ obj, e.1 ∈ declared) : firstUndeclared? obj declared = none := by
  unfold firstUndeclared?
  rw [List.find?_eq_none.2, Option.map_none]
  intro e he
  simp [h e he]

/-- Writing looks at an object only at the names of the members. -/
theorem writeMembers_congr {members : Members} {obj obj' : Object}
    (h : ∀ name ∈ members.map Prod.fst, Object.get obj name = Object.get obj' name) (buf : Bytes) :
    writeMembers type members obj buf = writeMembers type members obj' buf := by
  induction members generalizing buf with
  | nil => rfl
  | cons m rest ih =>
      rcases m with ⟨name, t⟩
      have hhead := h name List.mem_cons_self
      have hrest := ih fun n hn => h n (List.mem_cons_of_mem _ hn)
      rw [writeMembers, writeMembers, hhead]
      simp only [hrest]

/-- Writing a first member and then the others. -/
theorem writeMembers_cons (name : Text) (t : MemberType) (rest : Members) (obj : Object)
    (buf : Bytes) :
    writeMembers type ((name, t) :: rest) obj buf =
      match (if (Object.get obj name).isNull then (Bytes.zeros (buf.take t.length).length, none)
        else t.write (Object.get obj name) (buf.take t.length) : Written) with
      | (piece, some e) => (piece ++ buf.drop t.length, some (.field type name e))
      | (piece, none) =>
        let (tail, e) := writeMembers type rest obj (buf.drop t.length)
        (piece ++ tail, e) := by
  rw [writeMembers]
  cases Object.get obj name <;> rfl

-- Where writing went well, the first member became zeros or was written, and the others followed.
theorem writeMembers_cons_eq {name : Text} {t : MemberType} {rest : Members} {obj : Object}
    {buf b : Bytes} (h : writeMembers type ((name, t) :: rest) obj buf = (b, none)) :
    ∃ piece tail, b = piece ++ tail ∧
      writeMembers type rest obj (buf.drop t.length) = (tail, none) ∧
      (piece = Bytes.zeros (buf.take t.length).length ∨
        t.write (Object.get obj name) (buf.take t.length) = (piece, none)) := by
  rw [writeMembers_cons] at h
  split at h
  · cases h
  · rename_i piece hpiece
    rcases hrest : writeMembers type rest obj (buf.drop t.length) with ⟨tail, e⟩
    rw [hrest] at h
    cases h
    refine ⟨piece, tail, rfl, rfl, ?_⟩
    by_cases hnull : (Object.get obj name).isNull = true
    · rw [if_pos hnull] at hpiece
      cases hpiece
      exact Or.inl rfl
    · rw [if_neg hnull] at hpiece
      exact Or.inr hpiece

theorem writeMembers_cons_of_present {name : Text} {t : MemberType} {rest : Members}
    {obj : Object} {v : Value} {buf piece tail : Bytes} (hget : Object.get obj name = v)
    (hv : v.isNull = false) (hpiece : t.write v (buf.take t.length) = (piece, none))
    (hrest : writeMembers type rest obj (buf.drop t.length) = (tail, none)) :
    writeMembers type ((name, t) :: rest) obj buf = (piece ++ tail, none) := by
  rw [writeMembers_cons, hget, hv, if_neg Bool.false_ne_true, hpiece]
  simp only [hrest]

namespace MembersMatch

theorem nil : MembersMatch type [] [] [] := by
  refine ⟨rfl, rfl, fun buf hbuf => ?_⟩
  rw [List.eq_nil_of_length_eq_zero hbuf]
  rfl

/-- A member in front of others: its bytes come first, and its name is none of theirs. -/
theorem cons {name : Text} {t : MemberType} {rest : Members} {v : Value} {others : Object}
    {b bs : Bytes} (hlen : t.length = t.exactSize) (ht : t.Matches v b)
    (hrest : MembersMatch type rest others bs) (hname : name ∉ rest.map Prod.fst) :
    MembersMatch type ((name, t) :: rest) (Object.set others name v) (b ++ bs) := by
  refine ⟨?_, ?_, fun buf hbuf => ?_⟩
  · rw [List.length_append, ht.length, hrest.length, exactMembersSize]
  · rw [decodeMembers, hlen, ← ht.length, List.take_left, List.drop_left, ht.read]
    simp only [hrest.read, ok_bind, pure_eq_ok]
  · rw [exactMembersSize] at hbuf
    have hget : Object.get (Object.set others name v) name = v := by
      rw [Object.get_set, if_pos rfl]
    have hsame : ∀ other ∈ rest.map Prod.fst,
        Object.get (Object.set others name v) other = Object.get others other := by
      intro other hother
      rw [Object.get_set, if_neg]
      rintro rfl
      exact hname hother
    refine writeMembers_cons_of_present hget ht.present ?_ ?_
    · exact ht.written _ (by rw [List.length_take]; omega)
    · rw [writeMembers_congr hsame]
      exact hrest.written _ (by rw [List.length_drop]; omega)

end MembersMatch

/-- Names are distinct, and each member has its exact size and makes the round trips. -/
structure Regular (members : Members) : Prop where
  distinct : (members.map Prod.fst).Nodup
  length_eq : ∀ m ∈ members, m.2.length = m.2.exactSize
  roundTrips : ∀ m ∈ members, m.2.RoundTrips

namespace Regular

theorem tail {m : Text × MemberType} {rest : Members} (h : Regular (m :: rest)) : Regular rest :=
  ⟨(List.nodup_cons.1 h.distinct).2, fun x hx => h.length_eq x (List.mem_cons_of_mem _ hx),
    fun x hx => h.roundTrips x (List.mem_cons_of_mem _ hx)⟩

theorem name_notMem {m : Text × MemberType} {rest : Members} (h : Regular (m :: rest)) :
    m.1 ∉ rest.map Prod.fst := (List.nodup_cons.1 h.distinct).1

/-- Members that have been written match some object. -/
theorem written {members : Members} (h : Regular members) {obj : Object} {buf b : Bytes}
    (hbuf : buf.length = exactMembersSize members)
    (hwrite : writeMembers type members obj buf = (b, none)) :
    ∃ obj', MembersMatch type members obj' b := by
  induction members generalizing buf b with
  | nil =>
      rw [List.eq_nil_of_length_eq_zero hbuf] at hwrite
      cases hwrite
      exact ⟨[], MembersMatch.nil⟩
  | cons m rest ih =>
      rcases m with ⟨name, t⟩
      have hlen : t.length = t.exactSize := h.length_eq _ List.mem_cons_self
      have htrips : t.RoundTrips := h.roundTrips _ List.mem_cons_self
      rw [exactMembersSize] at hbuf
      have htake : (buf.take t.length).length = t.exactSize := by
        rw [List.length_take]
        omega
      rcases writeMembers_cons_eq hwrite with ⟨piece, tail, rfl, hrest, hpiece⟩
      have hfirst : ∃ v, t.Matches v piece := by
        rcases hpiece with rfl | hpiece
        · rw [htake]
          exact htrips.blank
        · exact htrips.written _ _ _ htake hpiece
      rcases hfirst with ⟨v, hv⟩
      rcases ih h.tail (by rw [List.length_drop]; omega) hrest with ⟨others, hothers⟩
      exact ⟨_, hothers.cons hlen hv h.name_notMem⟩

/-- An object that has been read matches some bytes. -/
theorem read {members : Members} (h : Regular members) {obj : Object} {b : Bytes}
    (hb : b.length = exactMembersSize members) (hread : decodeMembers type members b = .ok obj) :
    ∃ b', MembersMatch type members obj b' := by
  induction members generalizing obj b with
  | nil =>
      cases hread
      exact ⟨[], MembersMatch.nil⟩
  | cons m rest ih =>
      rcases m with ⟨name, t⟩
      have hlen : t.length = t.exactSize := h.length_eq _ List.mem_cons_self
      have htrips : t.RoundTrips := h.roundTrips _ List.mem_cons_self
      rw [exactMembersSize] at hb
      rcases decodeMembers_cons_eq hread with ⟨v, others, hv, hothers, rfl⟩
      rcases htrips.read _ v (by rw [List.length_take]; omega) hv with ⟨piece, hpiece⟩
      rcases ih h.tail (by rw [List.length_drop]; omega) hothers with ⟨bs, hbs⟩
      exact ⟨_, hbs.cons hlen hpiece h.name_notMem⟩

theorem blank {members : Members} (h : Regular members) :
    ∃ obj, MembersMatch type members obj (Bytes.zeros (exactMembersSize members)) := by
  induction members with
  | nil => exact ⟨[], MembersMatch.nil⟩
  | cons m rest ih =>
      rcases m with ⟨name, t⟩
      rcases (h.roundTrips _ List.mem_cons_self).blank with ⟨v, hv⟩
      rcases ih h.tail with ⟨others, hothers⟩
      rw [exactMembersSize, Bytes.zeros_add]
      exact ⟨_, hothers.cons (h.length_eq _ List.mem_cons_self) hv h.name_notMem⟩

end Regular

theorem matches_struct {name : Text} {members : Members} {obj : Object} {b : Bytes}
    (hsize : (membersSize members).toInt = exactMembersSize members)
    (h : MembersMatch name members obj b) : (struct name members).Matches (.object obj) b := by
  have hcheck : ∀ buf : Bytes, buf.length = exactMembersSize members →
      checkSize name (membersSize members).toInt buf = .ok () := by
    intro buf hbuf
    rw [checkSize, hsize, if_pos (by rw [hbuf])]
  refine ⟨h.length, ?_, fun buf hbuf => ?_, rfl⟩
  · rw [decode, hcheck b h.length, ok_bind, h.read, ok_bind, pure_eq_ok]
  · rw [exactSize] at hbuf
    have hdeclared : firstUndeclared? obj (members.map (·.1)) = none :=
      firstUndeclared?_eq_none fun e he => key_mem_of_decodeMembers h.read he
    rw [write]
    simp only [hcheck buf hbuf, hdeclared]
    exact h.written buf hbuf

theorem roundTrips_struct {name : Text} {members : Members} (h : Regular members)
    (hsize : (membersSize members).toInt = exactMembersSize members) :
    (struct name members).RoundTrips where
  written := by
    intro v buf b hbuf hwrite
    rw [exactSize] at hbuf
    cases v with
    | object obj =>
        rw [write] at hwrite
        split at hwrite
        · cases hwrite
        · split at hwrite
          · cases hwrite
          · rcases h.written hbuf hwrite with ⟨obj', hobj'⟩
            exact ⟨.object obj', matches_struct hsize hobj'⟩
    | _ =>
        rw [write] at hwrite
        · cases hwrite
        · exact nofun
  read := by
    intro b v hb hread
    rw [decode] at hread
    rcases bind_eq_ok_iff.1 hread with ⟨u, -, hrest⟩
    rcases bind_eq_ok_iff.1 hrest with ⟨obj, hobj, hv⟩
    cases hv
    rcases h.read hb hobj with ⟨b', hb'⟩
    exact ⟨b', matches_struct hsize hb'⟩
  blank := by
    rcases h.blank with ⟨obj, hobj⟩
    exact ⟨.object obj, matches_struct hsize hobj⟩

end Struct

section Array

theorem length_pieces (size count : Nat) (buf : Bytes) :
    (pieces size count buf).length = count := by
  induction count generalizing buf with
  | zero => rfl
  | succ count ih => rw [pieces, List.length_cons, ih]

theorem length_of_mem_pieces {size count : Nat} {buf p : Bytes} (h : buf.length = size * count)
    (hp : p ∈ pieces size count buf) : p.length = size := by
  induction count generalizing buf with
  | zero => cases hp
  | succ count ih =>
      rw [Nat.mul_succ] at h
      rw [pieces] at hp
      rcases List.mem_cons.1 hp with rfl | hp
      · rw [List.length_take]
        omega
      · exact ih (by rw [List.length_drop]; omega) hp

/-- Pieces of equal size that were put together are found again. -/
theorem pieces_flatten {size : Nat} {bs : List Bytes} (h : ∀ b ∈ bs, b.length = size) :
    pieces size bs.length bs.flatten = bs := by
  induction bs with
  | nil => rfl
  | cons b bs ih =>
      rw [List.length_cons, List.flatten_cons, pieces, ← h b List.mem_cons_self, List.take_left,
        List.drop_left, h b List.mem_cons_self, ih fun x hx => h x (List.mem_cons_of_mem _ hx)]

theorem length_flatten {size : Nat} {bs : List Bytes} (h : ∀ b ∈ bs, b.length = size) :
    bs.flatten.length = size * bs.length := by
  induction bs with
  | nil => rfl
  | cons b bs ih =>
      rw [List.flatten_cons, List.length_append, h b List.mem_cons_self,
        ih fun x hx => h x (List.mem_cons_of_mem _ hx), List.length_cons, Nat.mul_succ,
        Nat.add_comm]

theorem writeItems_of_forall₂ {size : Nat} {write : Value → Bytes → Written} {vs : List Value}
    {bs : List Bytes} (h : List.Forall₂ (fun v b => ∀ buf : Bytes, buf.length = size →
      write v buf = (b, none)) vs bs) {buf : Bytes} (hbuf : buf.length = size * vs.length) :
    writeItems size write vs buf = (bs.flatten, none) := by
  induction h generalizing buf with
  | nil =>
      rw [List.eq_nil_of_length_eq_zero hbuf]
      rfl
  | cons hv _ ih =>
      rw [List.length_cons, Nat.mul_succ] at hbuf
      have hrest := ih (show (buf.drop size).length = _ by rw [List.length_drop]; omega)
      rw [writeItems, hv _ (by rw [List.length_take]; omega)]
      simp only [hrest, List.flatten_cons]

/-- What writing elements did, if it went well: each was written over a piece of the buffer. -/
theorem forall₂_of_writeItems {size : Nat} {write : Value → Bytes → Written} {vs : List Value}
    {buf b : Bytes} (hbuf : buf.length = size * vs.length)
    (h : writeItems size write vs buf = (b, none)) :
    ∃ bs, b = bs.flatten ∧ List.Forall₂ (fun v p => ∃ old : Bytes, old.length = size ∧
      write v old = (p, none)) vs bs := by
  induction vs generalizing buf b with
  | nil =>
      rw [List.eq_nil_of_length_eq_zero hbuf] at h
      cases h
      exact ⟨[], rfl, List.Forall₂.nil⟩
  | cons v vs ih =>
      rw [List.length_cons, Nat.mul_succ] at hbuf
      rw [writeItems] at h
      split at h
      · cases h
      · rename_i piece hpiece
        rcases hrest : writeItems size write vs (buf.drop size) with ⟨tail, e⟩
        rw [hrest] at h
        cases h
        rcases ih (by rw [List.length_drop]; omega) hrest with ⟨bs, rfl, hbs⟩
        exact ⟨piece :: bs, rfl, hbs.cons ⟨buf.take size, by rw [List.length_take]; omega, hpiece⟩⟩

variable {count : Int64} {elem : MemberType}

/-- Elements that match their bytes make up an array that matches all bytes. -/
theorem matches_array (hcount : 0 < count.toInt) {vs : List Value} {bs : List Bytes}
    (h : List.Forall₂ elem.Matches vs bs) (hlen : vs.length = count.toNatClampNeg) :
    (array count elem).Matches (.list vs) bs.flatten := by
  have hsizes : ∀ b ∈ bs, b.length = elem.exactSize := by
    intro b hb
    rcases forall₂_right h hb with ⟨v, -, hv⟩
    exact hv.length
  have hbs : bs.length = count.toNatClampNeg := h.length_eq.symm.trans hlen
  have hpos : 0 < count.toNatClampNeg := by
    have := toNatClampNeg_of_nonneg (Int.le_of_lt hcount)
    omega
  have hall := length_flatten hsizes
  refine ⟨?_, ?_, fun buf hbuf => ?_, rfl⟩
  · rw [hall, exactSize, hbs]
  · have hread : bs.mapM elem.decode = .ok vs :=
      mapM_eq_ok_iff.2 (List.Forall₂.flip (h.imp fun _ _ hm => hm.read))
    rw [decode, hall, hbs, Nat.mul_div_cancel _ hpos, ← hbs, pieces_flatten hsizes, hread, ok_bind,
      pure_eq_ok]
  · rw [exactSize] at hbuf
    rw [write]
    simp only [Value.items?]
    have hint := toNatClampNeg_of_nonneg (Int.le_of_lt hcount)
    rw [if_pos (by omega), hlen, hbuf, Nat.mul_div_cancel _ hpos]
    exact writeItems_of_forall₂ (h.imp fun _ _ hm => hm.written) (by rw [hbuf, hlen])

theorem roundTrips_array (hcount : 0 < count.toInt) (h : elem.RoundTrips) :
    (array count elem).RoundTrips where
  written := by
    intro v buf b hbuf hwrite
    rw [exactSize] at hbuf
    rw [write] at hwrite
    cases hitems : v.items? with
    | none => rw [hitems] at hwrite; cases hwrite
    | some items =>
        rw [hitems] at hwrite
        simp only at hwrite
        split at hwrite
        · rename_i hlen
          have hint := toNatClampNeg_of_nonneg (Int.le_of_lt hcount)
          have hnat : items.length = count.toNatClampNeg := by omega
          rw [hbuf, hnat, Nat.mul_div_cancel _ (by omega)] at hwrite
          rcases forall₂_of_writeItems (by rw [hbuf, hnat]) hwrite with ⟨bs, rfl, hbs⟩
          -- Each piece matches a value of its own, not necessarily the one that was written.
          have hvalue : ∀ p ∈ bs, ∃ v', elem.Matches v' p := by
            intro p hp
            rcases forall₂_right hbs hp with ⟨x, -, old, hold, hx⟩
            exact h.written x old p hold hx
          rcases exists_forall₂ hvalue with ⟨vs, hvs⟩
          have hvslen : vs.length = count.toNatClampNeg := by
            rw [← hvs.length_eq, ← hbs.length_eq, hnat]
          exact ⟨.list vs, matches_array hcount hvs.flip hvslen⟩
        · cases hwrite
  read := by
    intro b v hb hread
    rw [exactSize] at hb
    have hpos : 0 < count.toNatClampNeg := by
      have := toNatClampNeg_of_nonneg (Int.le_of_lt hcount)
      omega
    rw [decode] at hread
    rcases bind_eq_ok_iff.1 hread with ⟨vs, hvs, hv⟩
    cases hv
    rw [hb, Nat.mul_div_cancel _ hpos, mapM_eq_ok_iff] at hvs
    have hbytes : ∀ x ∈ vs, ∃ p, elem.Matches x p := by
      intro x hx
      rcases forall₂_right hvs hx with ⟨p, hp, hpx⟩
      exact h.read p x (length_of_mem_pieces hb hp) hpx
    rcases exists_forall₂ hbytes with ⟨bs, hbs⟩
    have hlen : vs.length = count.toNatClampNeg := by rw [← hvs.length_eq, length_pieces]
    exact ⟨bs.flatten, matches_array hcount hbs hlen⟩
  blank := by
    rcases h.blank with ⟨v, hv⟩
    have hall : List.Forall₂ elem.Matches (List.replicate count.toNatClampNeg v)
        (List.replicate count.toNatClampNeg (Bytes.zeros elem.exactSize)) := by
      induction count.toNatClampNeg with
      | zero => exact List.Forall₂.nil
      | succ n ih => exact ih.cons hv
    have hzeros : (List.replicate count.toNatClampNeg (Bytes.zeros elem.exactSize)).flatten
        = Bytes.zeros (array count elem).exactSize := by
      rw [Bytes.zeros, List.flatten_replicate_replicate, exactSize, Nat.mul_comm]
      rfl
    exact ⟨_, hzeros ▸ matches_array hcount hall List.length_replicate⟩

end Array

/-- Every well-formed member type makes the round trips. -/
theorem roundTrips {t : MemberType} (h : t.WellFormed) (hsize : t.exactSize < 2 ^ 63) :
    t.RoundTrips := by
  induction t using inductionOn with
  | bytes count => exact roundTrips_bytes (by rwa [WellFormed] at h)
  | bool => exact roundTrips_bool
  | number num lower => exact roundTrips_number (by rwa [WellFormed] at h)
  | struct name members ih =>
      rw [WellFormed] at h
      rw [exactSize] at hsize
      have hwf := membersWellFormed_iff.1 h.2
      have hlt : ∀ m ∈ members, m.2.exactSize < 2 ^ 63 := fun m hm =>
        Nat.lt_of_le_of_lt (exactSize_le_of_mem hm) hsize
      refine roundTrips_struct ⟨h.1, fun m hm => ?_, fun m hm => ?_⟩
        (toInt_membersSize (fun m hm => (hwf m hm).sized) hsize)
      · exact length_eq (hwf m hm).sized (hlt m hm)
      · exact ih m hm (hwf m hm) (hlt m hm)
  | array count elem ih =>
      rw [WellFormed] at h
      rw [exactSize] at hsize
      have hpos : 0 < count.toNatClampNeg := by
        have := toNatClampNeg_of_nonneg (Int.le_of_lt h.1)
        omega
      have helem := Nat.lt_of_le_of_lt (Nat.le_mul_of_pos_right elem.exactSize hpos) hsize
      exact roundTrips_array h.1 (ih h.2 helem)

-- Bytes beyond the members are not looked at.
theorem decodeMembers_append {type : Text} {members : Members}
    (h : ∀ m ∈ members, m.2.length = m.2.exactSize) {b : Bytes}
    (hb : b.length = exactMembersSize members) (tail : Bytes) :
    decodeMembers type members (b ++ tail) = decodeMembers type members b := by
  induction members generalizing b with
  | nil => rfl
  | cons m rest ih =>
      rcases m with ⟨name, t⟩
      have hlen : t.length = t.exactSize := h _ List.mem_cons_self
      rw [exactMembersSize] at hb
      have hle : t.length ≤ b.length := by omega
      have hrest : (b.drop t.length).length = exactMembersSize rest := by
        rw [List.length_drop]
        omega
      rw [decodeMembers, decodeMembers, List.take_append_of_le_length hle,
        List.drop_append_of_le_length hle, ih (fun x hx => h x (List.mem_cons_of_mem _ hx)) hrest]

end MemberType

namespace Layout

/-- Members have distinct names, none of which is the field for the bytes beyond them, and the sizes
    of all parts are as counted, so that the size of the struct is a signed word. -/
structure Sized (l : Layout) : Prop where
  distinct : (l.members.map Prod.fst).Nodup
  members : ∀ m ∈ l.members, m.2.Sized
  size_lt : MemberType.exactMembersSize l.members < 2 ^ 63
  unparsed : unparsedField ∉ l.members.map Prod.fst

/-- Members are well formed with distinct names, none of which is the field for the bytes beyond
    them, and the size of the struct is a signed word. -/
structure WellFormed (l : Layout) : Prop where
  distinct : (l.members.map Prod.fst).Nodup
  members : MemberType.MembersWellFormed l.members
  size_lt : MemberType.exactMembersSize l.members < 2 ^ 63
  unparsed : unparsedField ∉ l.members.map Prod.fst

variable {l : Layout}

namespace Sized

theorem exactSize_lt (h : l.Sized) : ∀ m ∈ l.members, m.2.exactSize < 2 ^ 63 := fun _ hm =>
  Nat.lt_of_le_of_lt (MemberType.exactSize_le_of_mem hm) h.size_lt

theorem length_members (h : l.Sized) : ∀ m ∈ l.members, m.2.length = m.2.exactSize := fun m hm =>
  MemberType.length_eq (h.members m hm) (h.exactSize_lt m hm)

theorem toInt_size (h : l.Sized) : l.size.toInt = MemberType.exactMembersSize l.members :=
  MemberType.toInt_membersSize h.members h.size_lt

theorem length_eq (h : l.Sized) :
    l.size.toNatClampNeg = MemberType.exactMembersSize l.members :=
  MemberType.toNatClampNeg_eq h.toInt_size

end Sized

namespace WellFormed

theorem sized (h : l.WellFormed) : l.Sized :=
  ⟨h.distinct, fun m hm => (MemberType.membersWellFormed_iff.1 h.members m hm).sized, h.size_lt,
    h.unparsed⟩

theorem regular (h : l.WellFormed) : MemberType.Regular l.members := by
  have hwf := MemberType.membersWellFormed_iff.1 h.members
  refine ⟨h.distinct, h.sized.length_members, fun m hm => MemberType.roundTrips (hwf m hm) ?_⟩
  exact Nat.lt_of_le_of_lt (MemberType.exactSize_le_of_mem hm) h.size_lt

end WellFormed

/-- An object of known members with the bytes beyond them. -/
def withTail (obj : Object) : Bytes → Object
  | [] => obj
  | b :: rest => Object.set obj unparsedField (.bytes (b :: rest))

-- What an expandable struct keeps beyond its members, and that a struct of fixed size keeps
-- nothing.
theorem decode_append (h : l.Sized) {obj : Object} {b tail : Bytes}
    (hb : b.length = MemberType.exactMembersSize l.members)
    (hread : MemberType.decodeMembers l.name l.members b = .ok obj)
    (htail : l.expandable = false → tail = []) :
    l.decode (b ++ tail) = .ok (withTail obj tail) := by
  have hcheck : l.checkLength (b ++ tail) = .ok () := by
    unfold checkLength
    have hlen : (b ++ tail).length = b.length + tail.length := List.length_append
    have hsize := h.toInt_size
    cases hexp : l.expandable with
    | true =>
        simp only [if_true]
        rw [if_neg (by omega)]
    | false =>
        have hnil : tail.length = 0 := by rw [htail hexp, List.length_nil]
        simp only [Bool.false_eq_true, if_false]
        rw [MemberType.checkSize, if_pos (by omega)]
  rw [decode, hcheck, ok_bind, MemberType.decodeMembers_append h.length_members hb, hread,
    ok_bind, h.length_eq, ← hb, List.drop_left]
  cases tail with
  | nil => rfl
  | cons x rest =>
      have hexp : l.expandable = true := by
        by_contra hfixed
        cases htail (Bool.not_eq_true _ ▸ hfixed)
      simp only [hexp, if_true, pure_eq_ok]
      rfl

theorem get_withTail {obj : Object} {name : Text} (hname : name ≠ unparsedField) (tail : Bytes) :
    Object.get (withTail obj tail) name = Object.get obj name := by
  cases tail with
  | nil => rfl
  | cons x rest => rw [withTail, Object.get_set, if_neg (Ne.symm hname)]

theorem tail_withTail {obj : Object} (hobj : ∀ e ∈ obj, e.1 ≠ unparsedField) {tail : Bytes}
    (htail : l.expandable = false → tail = []) : l.tail (withTail obj tail) = .ok tail := by
  unfold Layout.tail
  cases hexp : l.expandable with
  | false => rw [if_neg Bool.false_ne_true, htail hexp]
  | true =>
      rw [if_pos rfl]
      cases tail with
      | nil =>
          have hnone : Object.value? obj unparsedField = none := by
            unfold Object.value?
            rw [List.find?_eq_none.2 fun e he => by simpa using hobj e he, Option.map_none]
          rw [withTail, Object.get_eq_value?, hnone, Option.getD_none]
      | cons x rest => rw [withTail, Object.get_set, if_pos rfl]

theorem encode_withTail (h : l.Sized) {obj : Object} {b tail : Bytes}
    (hm : MemberType.MembersMatch l.name l.members obj b)
    (htail : l.expandable = false → tail = []) :
    l.encode (withTail obj tail) = .ok (b ++ tail) := by
  have hkeys : ∀ e ∈ obj, e.1 ∈ l.members.map Prod.fst := fun e he =>
    MemberType.key_mem_of_decodeMembers hm.read he
  have hown : ∀ e ∈ obj, e.1 ≠ unparsedField := by
    intro e he heq
    exact h.unparsed (heq ▸ hkeys e he)
  have hdeclared : MemberType.firstUndeclared? (withTail obj tail) l.declaredKeys = none := by
    refine MemberType.firstUndeclared?_eq_none fun e he => ?_
    unfold declaredKeys
    cases hexp : l.expandable with
    | false =>
        rw [htail hexp] at he
        exact hkeys e he
    | true =>
        rw [if_pos rfl]
        cases tail with
        | nil => exact List.mem_cons_of_mem _ (hkeys e he)
        | cons x rest =>
            rcases Object.mem_set he with rfl | he
            · exact List.mem_cons_self
            · exact List.mem_cons_of_mem _ (hkeys e he)
  have hsame : ∀ name ∈ l.members.map Prod.fst,
      Object.get (withTail obj tail) name = Object.get obj name := fun name hname =>
    get_withTail (fun heq => h.unparsed (heq ▸ hname)) tail
  have hlen := h.length_eq
  have hsize := h.toInt_size
  rw [encode, tail_withTail hown htail, ok_bind, encodeInto, tail_withTail hown htail]
  simp only [Bytes.length_zeros]
  rw [if_pos (by omega), writeChecked, hdeclared]
  simp only
  rw [MemberType.writeMembers_congr hsame, hm.written]
  · rfl
  · rw [List.length_take, Bytes.length_zeros]
    omega

theorem tail_eq_nil {obj : Object} {tail : Bytes} (h : l.tail obj = .ok tail)
    (hexp : l.expandable = false) : tail = [] := by
  rw [Layout.tail, hexp, if_neg Bool.false_ne_true] at h
  exact (Except.ok.inj h).symm

theorem length_of_checkLength (h : l.Sized) {b : Bytes} {u : Unit}
    (hcheck : l.checkLength b = .ok u) :
    MemberType.exactMembersSize l.members ≤ b.length ∧
      (l.expandable = false → b.length = MemberType.exactMembersSize l.members) := by
  have hsize := h.toInt_size
  unfold checkLength at hcheck
  cases hexp : l.expandable with
  | true =>
      rw [hexp] at hcheck
      simp only [if_true] at hcheck
      split at hcheck
      · cases hcheck
      · exact ⟨by omega, fun hfalse => by cases hfalse⟩
  | false =>
      rw [hexp] at hcheck
      simp only [Bool.false_eq_true, if_false, MemberType.checkSize] at hcheck
      split at hcheck
      · exact ⟨by omega, fun _ => by omega⟩
      · cases hcheck

-- The buffer is the bytes of the members and whatever comes after them.
theorem split_of_checkLength (h : l.Sized) {b : Bytes} {u : Unit}
    (hcheck : l.checkLength b = .ok u) :
    ∃ front tail, b = front ++ tail ∧ front.length = MemberType.exactMembersSize l.members ∧
      (l.expandable = false → tail = []) := by
  rcases length_of_checkLength h hcheck with ⟨hmin, hfixed⟩
  refine ⟨b.take (MemberType.exactMembersSize l.members), b.drop _,
    (List.take_append_drop _ b).symm, List.length_take_of_le hmin, fun hexp => ?_⟩
  exact List.drop_eq_nil_of_le (Nat.le_of_eq (hfixed hexp))

/-- What encoding an object comes down to: its members are written over zeros, and the bytes beyond
    them follow. -/
theorem exists_of_encode (h : l.Sized) {obj : Object} {b : Bytes} (henc : l.encode obj = .ok b) :
    ∃ known tail, b = known ++ tail ∧ l.tail obj = .ok tail ∧
      MemberType.writeMembers l.name l.members obj
        (Bytes.zeros (MemberType.exactMembersSize l.members)) = (known, none) := by
  rw [encode] at henc
  rcases bind_eq_ok_iff.1 henc with ⟨tail, htail, hrest⟩
  have hlen := h.length_eq
  have hsize := h.toInt_size
  split at hrest
  · rename_i buf hinto
    cases hrest
    rw [encodeInto, htail] at hinto
    simp only [Bytes.length_zeros] at hinto
    rw [if_pos (by omega), writeChecked] at hinto
    split at hinto
    · cases hinto
    · simp only [Bytes.zeros_add, List.take_left' (Bytes.length_zeros _), hlen] at hinto
      split at hinto
      · cases hinto
      · rename_i known hknown
        cases hinto
        exact ⟨known, tail, rfl, htail, hknown⟩
  · cases hrest

/-- A struct that was encoded is decoded, and encoded the same again. -/
theorem encoded (h : l.WellFormed) {obj : Object} {b : Bytes} (henc : l.encode obj = .ok b) :
    ∃ obj', l.decode b = .ok obj' ∧ l.encode obj' = .ok b := by
  rcases exists_of_encode h.sized henc with ⟨known, tail, rfl, htail, hknown⟩
  have hnil : l.expandable = false → tail = [] := tail_eq_nil htail
  rcases h.regular.written (Bytes.length_zeros _) hknown with ⟨obj', hobj'⟩
  exact ⟨_, decode_append h.sized hobj'.length hobj'.read hnil,
    encode_withTail h.sized hobj' hnil⟩

/-- What decoding a buffer comes down to: the bytes of the members are decoded, and what is beyond
    them is kept. -/
theorem exists_of_decode (h : l.Sized) {obj : Object} {b : Bytes} (hdec : l.decode b = .ok obj) :
    ∃ front tail known, b = front ++ tail ∧
      front.length = MemberType.exactMembersSize l.members ∧ (l.expandable = false → tail = []) ∧
      MemberType.decodeMembers l.name l.members front = .ok known ∧ obj = withTail known tail := by
  rcases bind_eq_ok_iff.1 hdec with ⟨u, hcheck, hrest⟩
  rcases bind_eq_ok_iff.1 hrest with ⟨known, hknown, -⟩
  rcases split_of_checkLength h hcheck with ⟨front, tail, rfl, hfront, hnil⟩
  rw [MemberType.decodeMembers_append h.length_members hfront] at hknown
  rw [decode_append h hfront hknown hnil] at hdec
  exact ⟨front, tail, known, rfl, hfront, hnil, hknown, (Except.ok.inj hdec).symm⟩

/-- An object that was decoded can be encoded, and is decoded the same again. -/
theorem decoded (h : l.WellFormed) {obj : Object} {b : Bytes} (hdec : l.decode b = .ok obj) :
    ∃ b', l.encode obj = .ok b' ∧ l.decode b' = .ok obj := by
  rcases exists_of_decode h.sized hdec with ⟨front, tail, known, -, hfront, hnil, hknown, rfl⟩
  rcases h.regular.read hfront hknown with ⟨b', hb'⟩
  exact ⟨b' ++ tail, encode_withTail h.sized hb' hnil,
    decode_append h.sized hb'.length hb'.read hnil⟩

end Layout

end NetlinkSchema
