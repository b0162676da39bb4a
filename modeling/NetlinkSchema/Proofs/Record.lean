import NetlinkSchema.Manifest.Binary
import NetlinkSchema.Proofs.Cbor

/-!
# Records told apart

A record is written as a map in which fields without a value are missing, so neither the number nor
the places of its entries are fixed. Still the bytes of a record determine the bytes of each field:
the entries are told apart by their keys, and the keys are the names. For values of a known type the
bytes determine the value, so records are compared field by field.

## Main definitions

* `Cbor.Fields`, `Cbor.ofFields`: The fields of a record, and the record of those with a value.
* `Cbor.SameBytes`: Values that are both absent or have the same bytes.
* `Cbor.IsRecord`: A type whose values are written as records of the same names.

## Theorems

* `Cbor.IsRecord.sameBytes`: Records of the same bytes have fields of the same bytes.
* `Cbor.SameBytes.text`, `Cbor.SameBytes.int`, `Cbor.SameBytes.array`: Values of the same bytes are
  the same.
-/

namespace NetlinkSchema

theorem Text.eq_empty {t : Text} (h : t.isEmpty = true) : t = .empty :=
  congrArg Text.mk (List.isEmpty_iff.1 h)

namespace Cbor

/-- The fields of a record: each name with its value, if it has one. -/
abbrev Fields := List (Text × Option Cbor)

/-- The record of the fields that have a value. -/
def ofFields (fs : Fields) : Record := fs.filterMap fun f => f.2.map (.text f.1, ·)

/-- The item of a text, unless it is empty. -/
def text? (t : Text) : Option Cbor := if t.isEmpty then none else some (.text t)

/-- The item of a boolean, unless it is false. -/
def bool? (b : Bool) : Option Cbor := if b then some (.bool true) else none

/-- The item of a number, unless it is zero. -/
def int? (n : Int64) : Option Cbor := if n = 0 then none else some (.int n)

/-- The item of a list, unless it is empty. -/
def list? (items : List Cbor) : Option Cbor := if items.isEmpty then none else some (.array items)

theorem ofFields_none (name : Text) (fs : Fields) : ofFields ((name, none) :: fs) = ofFields fs :=
  rfl

theorem ofFields_append (fs fs' : Fields) : ofFields (fs ++ fs') = ofFields fs ++ ofFields fs' :=
  List.filterMap_append

theorem entry_eq (name : Text) (c : Cbor) : entry name c = ofFields [(name, some c)] := rfl

theorem textEntry_eq (name t : Text) : textEntry name t = ofFields [(name, text? t)] := by
  unfold textEntry text?
  split_ifs <;> rfl

theorem boolEntry_eq (name : Text) (b : Bool) : boolEntry name b = ofFields [(name, bool? b)] := by
  unfold boolEntry bool?
  split_ifs <;> rfl

theorem intEntry_eq (name : Text) (n : Int64) : intEntry name n = ofFields [(name, int? n)] := by
  unfold intEntry int?
  split_ifs <;> rfl

theorem listEntry_eq (name : Text) (items : List Cbor) :
    listEntry name items = ofFields [(name, list? items)] := by
  unfold listEntry list?
  split_ifs <;> rfl

theorem mem_ofFields {fs : Fields} {e : Cbor × Cbor} :
    e ∈ ofFields fs ↔ ∃ name c, (name, some c) ∈ fs ∧ e = (.text name, c) := by
  rw [ofFields, List.mem_filterMap]
  constructor
  · rintro ⟨⟨name, v⟩, hf, he⟩
    obtain ⟨c, rfl, rfl⟩ := Option.map_eq_some_iff.1 he
    exact ⟨name, c, hf, rfl⟩
  · rintro ⟨name, c, hf, rfl⟩
    exact ⟨(name, some c), hf, rfl⟩

/-- The value, if there is one, is plain. -/
def PlainValue (levels : Nat) (v : Option Cbor) : Prop := ∀ c, v = some c → Plain levels c

section Plain

variable {levels : Nat}

theorem plain_int (n : Int64) : Plain levels (int n) := by
  unfold int
  split_ifs
  · exact Plain.negative _
  · exact Plain.unsigned _

theorem plain_array {α : Type} {toItem : α → Cbor} (h : ∀ x, Plain levels (toItem x))
    (xs : List α) : Plain (levels + 1) (.array (xs.map toItem)) := by
  refine Plain.array fun c hc => ?_
  obtain ⟨x, -, rfl⟩ := List.mem_map.1 hc
  exact h x

theorem plain_ofList? {α : Type} {toItem : α → Cbor} (h : ∀ x, Plain levels (toItem x))
    (xs : Option (List α)) : Plain (levels + 1) (ofList? (xs.map (·.map toItem))) := by
  cases xs with
  | none => exact Plain.simple (by decide)
  | some xs => exact plain_array h xs

theorem plainValue_none : PlainValue levels none := by
  intro c hc
  cases hc

theorem plainValue_some {c : Cbor} (h : Plain levels c) : PlainValue levels (some c) := by
  intro c' hc'
  obtain rfl := Option.some.inj hc'
  exact h

theorem plainValue_ite {p : Prop} [Decidable p] {c : Cbor} (h : Plain levels c) :
    PlainValue levels (if p then none else some c) := by
  split_ifs
  · exact plainValue_none
  · exact plainValue_some h

theorem plainValue_text? (t : Text) : PlainValue levels (text? t) := plainValue_ite (Plain.text t)

theorem plainValue_int? (n : Int64) : PlainValue levels (int? n) := plainValue_ite (plain_int n)

theorem plainValue_bool? (b : Bool) : PlainValue levels (bool? b) := by
  cases b with
  | false => exact plainValue_none
  | true => exact plainValue_some (Plain.simple (by decide))

theorem plainValue_list? {α : Type} {toItem : α → Cbor} (h : ∀ x, Plain levels (toItem x))
    (xs : List α) : PlainValue (levels + 1) (list? (xs.map toItem)) :=
  plainValue_ite (plain_array h xs)

/-- A record of plain values is plain. -/
theorem plain_ofFields {fs : Fields} (h : ∀ f ∈ fs, PlainValue levels f.2) :
    Plain (levels + 1) (.map (ofFields fs)) := by
  refine Plain.map (fun e he => ?_) fun e he => ?_
  · obtain ⟨name, c, -, rfl⟩ := mem_ofFields.1 he
    exact ⟨name, rfl⟩
  · obtain ⟨name, c, hf, rfl⟩ := mem_ofFields.1 he
    exact h _ hf c rfl

end Plain

/-- Two values that are both absent, or written as the same bytes. -/
structure SameBytes (v v' : Option Cbor) : Prop where
  bytes : v.map encode = v'.map encode
  size : ∀ c, v = some c → c.encode.length < 2 ^ 64

-- The pairs of a list in which they take turns.
theorem map_pair_of_flatMap {α β : Type} {f g : α → β} {xs ys : List α}
    (h : (xs.flatMap fun x => [f x, g x]) = ys.flatMap fun y => [f y, g y]) :
    (xs.map fun x => (f x, g x)) = ys.map fun y => (f y, g y) := by
  induction xs generalizing ys with
  | nil =>
      cases ys with
      | nil => rfl
      | cons y ys => cases h
  | cons x xs ih =>
      cases ys with
      | nil => cases h
      | cons y ys =>
          simp only [List.flatMap_cons, List.cons_append, List.nil_append, List.cons.injEq] at h
          rw [List.map_cons, List.map_cons, h.1, h.2.1, ih h.2.2]

namespace SameBytes

variable {c c' : Cbor} {levels levels' : Nat}

theorem encode_eq (h : SameBytes (some c) (some c')) : c.encode = c'.encode :=
  Option.some.inj h.bytes

theorem length_lt (h : SameBytes (some c) (some c')) : c.encode.length < 2 ^ 64 := h.size c rfl

theorem of_encode_eq (heq : c.encode = c'.encode) (hsize : c.encode.length < 2 ^ 64) :
    SameBytes (some c) (some c') := by
  refine ⟨congrArg some heq, fun x hx => ?_⟩
  obtain rfl := Option.some.inj hx
  exact hsize

theorem symm (h : SameBytes (some c) (some c')) : SameBytes (some c') (some c) :=
  of_encode_eq h.encode_eq.symm (h.encode_eq ▸ h.length_lt)

/-- What the heads of two items of the same bytes say. -/
theorem same_head (h : SameBytes (some c) (some c')) (hc : Plain levels c)
    (hc' : Plain levels' c') : c.major = c'.major ∧ c.number = c'.number ∧ c.body = c'.body := by
  have happend : c.encode ++ [] = c'.encode ++ [] := by rw [h.encode_eq]
  have hhead := hc.same_head h.length_lt hc' h.symm.length_lt happend
  rw [List.append_nil, List.append_nil] at hhead
  exact hhead

theorem text {t t' : Text} (h : SameBytes (some (.text t)) (some (.text t'))) : t = t' :=
  congrArg Text.mk (h.same_head (.text t : Plain 0 _) (.text t' : Plain 0 _)).2.2

section Records

variable {fs fs' : Fields} (h : SameBytes (some (.map (ofFields fs))) (some (.map (ofFields fs'))))
  (hplain : Plain levels (.map (ofFields fs))) (hplain' : Plain levels' (.map (ofFields fs')))

include h hplain hplain'

/-- Maps of the same bytes have the same entries, as bytes and up to order. -/
theorem perm_entries : ((ofFields fs).map fun e => (e.1.encode, e.2.encode)).Perm
    ((ofFields fs').map fun e => (e.1.encode, e.2.encode)) := by
  have hmembers := hplain.members_of_encode_eq h.length_lt rfl hplain' h.encode_eq
  simp only [members, List.map_flatMap, List.map_cons, List.map_nil] at hmembers
  have hsorted := map_pair_of_flatMap hmembers
  exact ((sortEntries_perm _).map _).symm.trans (hsorted ▸ (sortEntries_perm _).map _)

/-- A field of one record is found in the other one. -/
theorem exists_field {name : Text} {c : Cbor} (hmem : (name, some c) ∈ fs) :
    ∃ c', (name, some c') ∈ fs' ∧ SameBytes (some c) (some c') := by
  have hentry := mem_ofFields.2 ⟨name, c, hmem, rfl⟩
  have hkey := hplain.length_encode_member (mem_members_map.2 ⟨_, hentry, Or.inl rfl⟩)
  have hvalue := hplain.length_encode_member (mem_members_map.2 ⟨_, hentry, Or.inr rfl⟩)
  have hperm := (h.perm_entries hplain hplain').mem_iff.1 (List.mem_map_of_mem hentry)
  obtain ⟨e, he, hsame⟩ := List.mem_map.1 hperm
  obtain ⟨name', c', hmem', rfl⟩ := mem_ofFields.1 he
  obtain ⟨hname, hc⟩ := Prod.mk.inj hsame
  obtain rfl := (of_encode_eq hname.symm (Nat.lt_trans hkey h.length_lt)).text
  exact ⟨c', hmem', of_encode_eq hc.symm (Nat.lt_trans hvalue h.length_lt)⟩

/-- Records of the same names and the same bytes have values of the same bytes. -/
theorem fields (hnames : fs.map Prod.fst = fs'.map Prod.fst) (hnodup : (fs.map Prod.fst).Nodup) :
    List.Forall₂ (fun f f' => SameBytes f.2 f'.2) fs fs' := by
  have hnodup' : (fs'.map Prod.fst).Nodup := hnames ▸ hnodup
  refine forall₂_of_map_eq hnames fun f hf f' hf' hname => ?_
  obtain ⟨name, v⟩ := f
  obtain ⟨name', v'⟩ := f'
  obtain rfl : name = name' := hname
  cases v with
  | some c =>
      obtain ⟨c', hmem', hsame⟩ := h.exists_field hplain hplain' hf
      have hv' := List.inj_on_of_nodup_map hnodup' hf' hmem' rfl
      cases hv'
      exact hsame
  | none =>
      -- A value on the other side would have one of the same bytes here.
      cases v' with
      | none => exact ⟨rfl, fun x hx => by cases hx⟩
      | some c' =>
          obtain ⟨c, hmem, -⟩ := h.symm.exists_field hplain' hplain hf'
          have hv := List.inj_on_of_nodup_map hnodup hf hmem rfl
          cases hv

end Records

/-- Two values that may be left out are both left out, or have the same bytes. -/
theorem of_ite {p p' : Prop} [Decidable p] [Decidable p']
    (h : SameBytes (if p then none else some c) (if p' then none else some c')) :
    p ∧ p' ∨ SameBytes (some c) (some c') := by
  by_cases hp : p
  · by_cases hp' : p'
    · exact Or.inl ⟨hp, hp'⟩
    · rw [if_pos hp, if_neg hp'] at h
      cases h.bytes
  · by_cases hp' : p'
    · rw [if_neg hp, if_pos hp'] at h
      cases h.bytes
    · rw [if_neg hp, if_neg hp'] at h
      exact Or.inr h

theorem text? {t t' : Text} (h : SameBytes (text? t) (Cbor.text? t')) : t = t' := by
  rcases h.of_ite with ⟨ht, ht'⟩ | h
  · rw [Text.eq_empty ht, Text.eq_empty ht']
  · exact h.text

theorem bool? {b b' : Bool} (h : SameBytes (bool? b) (Cbor.bool? b')) : b = b' := by
  cases b with
  | false =>
      cases b' with
      | false => rfl
      | true => cases h.bytes
  | true =>
      cases b' with
      | false => cases h.bytes
      | true => rfl

theorem unsigned {n n' : UInt64} (h : SameBytes (some (.unsigned n)) (some (.unsigned n'))) :
    n = n' :=
  UInt64.toNat_inj.1 (h.same_head (.unsigned n : Plain 0 _) (.unsigned n' : Plain 0 _)).2.1

theorem negative {n n' : UInt64} (h : SameBytes (some (.negative n)) (some (.negative n'))) :
    n = n' :=
  UInt64.toNat_inj.1 (h.same_head (.negative n : Plain 0 _) (.negative n' : Plain 0 _)).2.1

theorem int {n n' : Int64} (h : SameBytes (some (.int n)) (some (.int n'))) : n = n' := by
  have hmajor := (h.same_head (plain_int n : Plain 0 _) (plain_int n' : Plain 0 _)).1
  unfold Cbor.int at h hmajor
  by_cases hn : n < 0
  · by_cases hn' : n' < 0
    · rw [if_pos hn, if_pos hn'] at h
      exact Int64.not_inj.1 (congrArg Int64.ofUInt64 h.negative)
    · rw [if_pos hn, if_neg hn'] at hmajor
      cases hmajor
  · by_cases hn' : n' < 0
    · rw [if_neg hn, if_pos hn'] at hmajor
      cases hmajor
    · rw [if_neg hn, if_neg hn'] at h
      exact congrArg Int64.ofUInt64 h.unsigned

theorem int? {n n' : Int64} (h : SameBytes (int? n) (Cbor.int? n')) : n = n' := by
  rcases h.of_ite with ⟨hn, hn'⟩ | h
  · rw [hn, hn']
  · exact h.int

section Lists

variable {α β : Type} {toItem : α → Cbor} {g : α → β} (hplain : ∀ x, Plain levels (toItem x))
  (hg : ∀ x y, SameBytes (some (toItem x)) (some (toItem y)) → g x = g y)

include hplain hg

/-- Lists of the same bytes are the same in what can be told from the bytes of their items. -/
theorem array {xs ys : List α}
    (h : SameBytes (some (.array (xs.map toItem))) (some (.array (ys.map toItem)))) :
    xs.map g = ys.map g := by
  have harray := plain_array hplain xs
  have hmembers := harray.members_of_encode_eq h.length_lt rfl (plain_array hplain ys) h.encode_eq
  rw [members, members, List.map_map, List.map_map] at hmembers
  refine map_eq_map_of_imp hmembers fun x hx y _ hxy => hg x y (of_encode_eq hxy ?_)
  exact Nat.lt_trans (harray.length_encode_member (List.mem_map_of_mem hx)) h.length_lt

theorem list? {xs ys : List α}
    (h : SameBytes (list? (xs.map toItem)) (Cbor.list? (ys.map toItem))) :
    xs.map g = ys.map g := by
  rcases h.of_ite with ⟨hx, hy⟩ | h
  · rw [List.isEmpty_iff, List.map_eq_nil_iff] at hx hy
    rw [hx, hy]
  · exact array hplain hg h

/-- The same for lists that may be absent. -/
theorem ofList? {xs ys : Option (List α)}
    (h : SameBytes (some (ofList? (xs.map (·.map toItem))))
      (some (Cbor.ofList? (ys.map (·.map toItem))))) :
    xs.map (·.map g) = ys.map (·.map g) := by
  have hmajor := (h.same_head (plain_ofList? hplain xs) (plain_ofList? hplain ys)).1
  cases xs with
  | none =>
      cases ys with
      | none => rfl
      | some ys => cases hmajor
  | some xs =>
      cases ys with
      | none => cases hmajor
      | some ys => exact congrArg some (array hplain hg h)

end Lists

/-- The same for one value that may be absent. -/
theorem map {α β : Type} {toItem : α → Cbor} {g : α → β} {x y : Option α}
    (h : SameBytes (x.map toItem) (y.map toItem))
    (hg : ∀ x y, SameBytes (some (toItem x)) (some (toItem y)) → g x = g y) :
    x.map g = y.map g := by
  cases x with
  | none =>
      cases y with
      | none => rfl
      | some y => cases h.bytes
  | some x =>
      cases y with
      | none => cases h.bytes
      | some y => exact congrArg some (hg x y h)

end SameBytes

/-- The names are distinct, and each is found as it is written. -/
structure Keyed (names : List Text) : Prop where
  nodup : names.Nodup
  plain : ∀ name ∈ names, name.isValid = true ∧ Record.lowerAscii name = name

instance (names : List Text) : Decidable (Keyed names) :=
  decidable_of_iff (names.Nodup ∧ ∀ name ∈ names, name.isValid = true
    ∧ Record.lowerAscii name = name) ⟨fun h => ⟨h.1, h.2⟩, fun h => ⟨h.1, h.2⟩⟩

/-- The values of a type are written as records of the same names. -/
structure IsRecord {α : Type} (levels : Nat) (names : List Text) (toItem : α → Cbor)
    (fields : α → Fields) : Prop where
  keyed : Keyed names
  names_eq : ∀ x, (fields x).map Prod.fst = names
  item_eq : ∀ x, toItem x = .map (ofFields (fields x))
  plain_value : ∀ x, ∀ f ∈ fields x, PlainValue levels f.2

namespace IsRecord

variable {α : Type} {levels : Nat} {names : List Text} {toItem : α → Cbor} {fields : α → Fields}
  (h : IsRecord levels names toItem fields)

include h

theorem plain (x : α) : Plain (levels + 1) (toItem x) := by
  rw [h.item_eq]
  exact plain_ofFields (h.plain_value x)

/-- Records of the same bytes have fields of the same bytes. -/
theorem sameBytes {x y : α} (hsame : SameBytes (some (toItem x)) (some (toItem y))) :
    List.Forall₂ (fun f f' => SameBytes f.2 f'.2) (fields x) (fields y) := by
  have hx := h.plain x
  have hy := h.plain y
  rw [h.item_eq] at hx hy
  rw [h.item_eq x, h.item_eq y] at hsame
  refine hsame.fields hx hy ?_ ?_
  · rw [h.names_eq, h.names_eq]
  · rw [h.names_eq]
    exact h.keyed.nodup

end IsRecord

end Cbor

end NetlinkSchema
