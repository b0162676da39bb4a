import NetlinkSchema.Wire.Nested
import NetlinkSchema.Proofs.Bytes
import Mathlib.Data.List.Nodup

/-!
# Objects and maps as finite functions

Decoding builds objects by `Object.set` and maps by `Nested.setEntry`, which keep the entries in
the order of the keys. An object in that order is determined by what its names look up to, so two
decodings that agree at every name are the same value. What callers hand in need not be in order;
of it only the look-ups are used, and that no map has a key twice.

## Main definitions

* `Object.value?`: The value of a field, if the field is there.
* `Object.Ordered`, `Nested.Ascending`: The entries are in the strict order of their keys.
* `Object.Marks`: The fields of a set of names, all of them true.
* `Value.KeysDistinct`: No object or map inside the value has a key twice.

## Theorems

* `find?_key`: Where keys are distinct, an element is found under its key.
* `forall₂_of_map_eq`: Lists with the same keys are compared key by key.
* `foldl_distinct`, `mem_foldl_distinct`: Keeping the first occurrence of each key.
* `Object.value?_set`: What a field looks up to after one was set.
* `Object.eq_of_value?_eq`: Ordered objects with the same look-ups are equal.
* `Nested.setEntry_of_lt`: An entry with the greatest key goes to the end.
* `mem_sortBy`, `sortBy_of_pairwise`: Sorting keeps the elements, and an ordered list as it is.
-/

namespace NetlinkSchema

/-- Where keys are distinct, an element is what is found under its key. -/
theorem find?_key {α κ : Type} [BEq κ] [LawfulBEq κ] {key : α → κ} {xs : List α}
    (h : (xs.map key).Nodup) {x : α} (hx : x ∈ xs) : xs.find? (key · == key x) = some x := by
  cases hfound : xs.find? (key · == key x) with
  | none =>
      have := List.find?_eq_none.1 hfound x hx
      simp at this
  | some y =>
      have hkey : key y = key x := by simpa using List.find?_some hfound
      rw [List.inj_on_of_nodup_map h (List.mem_of_find?_eq_some hfound) hx hkey]

/-- Lists with the same keys are related if the elements with the same key are. -/
theorem forall₂_of_map_eq {α β γ : Type} {f : α → γ} {f' : β → γ} {r : α → β → Prop} {xs : List α}
    {ys : List β} (h : xs.map f = ys.map f') (hr : ∀ x ∈ xs, ∀ y ∈ ys, f x = f' y → r x y) :
    List.Forall₂ r xs ys := by
  induction xs generalizing ys with
  | nil =>
      cases ys with
      | nil => exact List.Forall₂.nil
      | cons y ys => cases h
  | cons x xs ih =>
      cases ys with
      | nil => cases h
      | cons y ys =>
          rcases List.cons.inj h with ⟨hfirst, hrest⟩
          refine List.Forall₂.cons (hr x List.mem_cons_self y List.mem_cons_self hfirst) ?_
          exact ih hrest fun a ha b hb =>
            hr a (List.mem_cons_of_mem _ ha) b (List.mem_cons_of_mem _ hb)

-- What is a function of the elements of two lists is the same along the lists.
theorem map_eq_map_of_imp {α β γ δ : Type} {f : α → γ} {f' : β → γ} {g : α → δ} {g' : β → δ}
    {xs : List α} {ys : List β} (h : xs.map f = ys.map f')
    (himp : ∀ x ∈ xs, ∀ y ∈ ys, f x = f' y → g x = g' y) : xs.map g = ys.map g' := by
  have hall := forall₂_of_map_eq h himp
  rwa [← List.forall₂_eq_eq_eq, List.forall₂_map_left_iff, List.forall₂_map_right_iff]

/-- Going through a list and keeping each key that is new drops the repetitions. -/
theorem foldl_distinct {α κ : Type} [BEq κ] [LawfulBEq κ] (key : α → κ) (xs : List α)
    (seen : List κ) :
    xs.foldl (fun seen x => if seen.contains (key x) then seen else seen ++ [key x]) seen
      = seen ++ ((xs.map key).filter fun k => !seen.contains k).eraseDups := by
  induction xs generalizing seen with
  | nil => simp
  | cons x xs ih =>
      rw [List.foldl_cons, ih, List.map_cons]
      by_cases hx : seen.contains (key x) = true
      · rw [if_pos hx, List.filter_cons_of_neg (by rw [hx]; exact Bool.false_ne_true)]
      · rw [if_neg hx, List.filter_cons_of_pos (by simpa using hx), List.eraseDups_cons,
          List.append_assoc, List.singleton_append, List.filter_filter]
        congr 3
        refine List.filter_congr fun k _ => ?_
        simp only [List.contains_append, List.contains_cons, List.contains_nil, Bool.or_false,
          Bool.not_or]
        rw [Bool.and_comm]

/-- Keeping the first occurrence of each key keeps all keys. -/
theorem mem_foldl_distinct {α κ : Type} [BEq κ] [LawfulBEq κ] (key : α → κ) {k : κ} (xs : List α)
    (seen : List κ) :
    k ∈ xs.foldl (fun seen x => if seen.contains (key x) then seen else seen ++ [key x]) seen ↔
      k ∈ seen ∨ ∃ x ∈ xs, key x = k := by
  rw [foldl_distinct, List.mem_append, List.mem_eraseDups, List.mem_filter, List.mem_map,
    Bool.not_eq_true', ← Bool.not_eq_true, List.contains_iff_mem]
  tauto

namespace Text

theorem le_total (a b : Text) : a.le b = true ∨ b.le a = true := Bytes.le_total a.utf8 b.utf8

theorem le_antisymm {a b : Text} (hab : a.le b = true) (hba : b.le a = true) : a = b := by
  cases a
  cases b
  exact congrArg Text.mk (Bytes.le_antisymm hab hba)

theorem le_trans {a b c : Text} (hab : a.le b = true) (hbc : b.le c = true) : a.le c = true :=
  Bytes.le_trans hab hbc

/-- The strict order of names. -/
def Before (a b : Text) : Prop := a.le b = true ∧ a ≠ b

theorem Before.trans {a b c : Text} (hab : a.Before b) (hbc : b.Before c) : a.Before c := by
  refine ⟨le_trans hab.1 hbc.1, ?_⟩
  rintro rfl
  exact hab.2 (le_antisymm hab.1 hbc.1)

theorem Before.ne {a b : Text} (h : a.Before b) : a ≠ b := h.2

theorem before_of_not_le {a b : Text} (h : ¬ a.le b = true) : b.Before a := by
  rcases le_total a b with hab | hba
  · exact absurd hab h
  · refine ⟨hba, ?_⟩
    rintro rfl
    exact h hba

end Text

namespace Object

/-- The value of a field, if the field is there. -/
def value? (obj : Object) (name : Text) : Option Value := (obj.find? (·.1 == name)).map (·.2)

@[simp] theorem value?_nil (name : Text) : value? [] name = none := rfl

theorem value?_cons (k : Text) (v : Value) (rest : Object) (name : Text) :
    value? ((k, v) :: rest) name = if k = name then some v else value? rest name := by
  unfold value?
  by_cases h : k = name
  · rw [List.find?_cons_of_pos (by simpa using h), if_pos h]
    rfl
  · rw [List.find?_cons_of_neg (by simpa using h), if_neg h]

theorem get_eq_value? (obj : Object) (name : Text) :
    Object.get obj name = (value? obj name).getD .null := by
  unfold Object.get value?
  cases obj.find? (·.1 == name) with
  | none => rfl
  | some e => rfl

/-- Setting a field changes what its own name looks up to and nothing else. -/
theorem value?_set (obj : Object) (name : Text) (v : Value) (other : Text) :
    value? (Object.set obj name v) other = if name = other then some v else value? obj other := by
  induction obj with
  | nil => rw [Object.set, value?_cons]
  | cons e rest ih =>
      rcases e with ⟨k, old⟩
      rw [Object.set]
      by_cases hk : k = name
      · subst hk
        rw [if_pos (beq_self_eq_true k), value?_cons, value?_cons]
        by_cases hko : k = other
        · rw [if_pos hko, if_pos hko]
        · rw [if_neg hko, if_neg hko, if_neg hko]
      · rw [if_neg (by simpa using hk)]
        by_cases hle : k.le name = true
        · rw [if_pos hle, value?_cons, value?_cons, ih]
          by_cases hko : k = other
          · rw [if_pos hko, if_pos hko, if_neg (fun h => hk (hko.trans h.symm))]
          · rw [if_neg hko, if_neg hko]
        · rw [if_neg hle, value?_cons]

theorem get_set (obj : Object) (name : Text) (v : Value) (other : Text) :
    Object.get (Object.set obj name v) other
      = if name = other then v else Object.get obj other := by
  rw [get_eq_value?, get_eq_value?, value?_set]
  by_cases h : name = other
  · rw [if_pos h, if_pos h, Option.getD_some]
  · rw [if_neg h, if_neg h]

/-- The fields are in the strict order of their names. -/
def Ordered (obj : Object) : Prop := obj.Pairwise fun a b => a.1.Before b.1

theorem ordered_nil : Ordered [] := List.Pairwise.nil

theorem mem_set {obj : Object} {name : Text} {v : Value} {e : Text × Value}
    (h : e ∈ Object.set obj name v) : e = (name, v) ∨ e ∈ obj := by
  induction obj with
  | nil => exact Or.inl (List.mem_singleton.1 h)
  | cons x rest ih =>
      rcases x with ⟨k, old⟩
      rw [Object.set] at h
      split at h
      · rename_i hk
        rcases List.mem_cons.1 h with rfl | h
        · exact Or.inl (by rw [eq_of_beq hk])
        · exact Or.inr (List.mem_cons_of_mem _ h)
      · split at h
        · rcases List.mem_cons.1 h with rfl | h
          · exact Or.inr List.mem_cons_self
          · rcases ih h with h | h
            · exact Or.inl h
            · exact Or.inr (List.mem_cons_of_mem _ h)
        · rcases List.mem_cons.1 h with rfl | h
          · exact Or.inl rfl
          · exact Or.inr h

theorem ordered_set {obj : Object} (h : Ordered obj) (name : Text) (v : Value) :
    Ordered (Object.set obj name v) := by
  induction obj with
  | nil => exact List.pairwise_singleton _ _
  | cons e rest ih =>
      rcases e with ⟨k, old⟩
      have hhead := (List.pairwise_cons.1 h).1
      have hrest := (List.pairwise_cons.1 h).2
      rw [Object.set]
      split
      · exact List.pairwise_cons.2 ⟨hhead, hrest⟩
      · rename_i hk
        have hkn : k ≠ name := by simpa using hk
        split
        · rename_i hle
          refine List.pairwise_cons.2 ⟨fun x hx => ?_, ih hrest⟩
          rcases mem_set hx with rfl | hx
          · exact ⟨hle, hkn⟩
          · exact hhead x hx
        · rename_i hle
          -- The new field comes before the head, and so before everything.
          have hbefore : name.Before k := Text.before_of_not_le hle
          refine List.pairwise_cons.2 ⟨fun x hx => ?_, h⟩
          rcases List.mem_cons.1 hx with rfl | hx
          · exact hbefore
          · exact hbefore.trans (hhead x hx)

/-- In an ordered object an entry is found under its name. -/
theorem mem_iff_value? {obj : Object} (h : Ordered obj) (k : Text) (v : Value) :
    (k, v) ∈ obj ↔ value? obj k = some v := by
  induction obj with
  | nil => simp
  | cons e rest ih =>
      rcases e with ⟨k', v'⟩
      have hhead := (List.pairwise_cons.1 h).1
      have hrest := (List.pairwise_cons.1 h).2
      rw [value?_cons, List.mem_cons, ih hrest]
      by_cases hk : k' = k
      · subst hk
        rw [if_pos rfl]
        constructor
        · rintro (he | hm)
          · cases he
            rfl
          · exact absurd rfl (hhead _ ((ih hrest).2 hm)).ne
        · intro hv
          rw [Option.some.inj hv]
          exact Or.inl rfl
      · rw [if_neg hk]
        constructor
        · rintro (he | hm)
          · cases he
            exact absurd rfl hk
          · exact hm
        · exact Or.inr

theorem value?_of_forall_before {obj : Object} {name : Text}
    (h : ∀ e ∈ obj, name.Before e.1) : value? obj name = none := by
  unfold value?
  rw [List.find?_eq_none.2 fun e he => by simpa using (h e he).ne.symm]
  rfl

/-- Ordered objects are equal if every name looks up to the same in both. -/
theorem eq_of_value?_eq {a b : Object} (ha : Ordered a) (hb : Ordered b)
    (h : ∀ name, value? a name = value? b name) : a = b := by
  induction a generalizing b with
  | nil =>
      cases b with
      | nil => rfl
      | cons e rest =>
          have := h e.1
          rw [show e = (e.1, e.2) from rfl, value?_cons, if_pos rfl] at this
          exact absurd this (by simp)
  | cons x xs ih =>
      rcases x with ⟨k, v⟩
      cases b with
      | nil =>
          have := h k
          rw [value?_cons, if_pos rfl] at this
          exact absurd this (by simp)
      | cons y ys =>
          rcases y with ⟨k', v'⟩
          have hx := (List.pairwise_cons.1 ha).1
          have hy := (List.pairwise_cons.1 hb).1
          -- The least name of one object is the least name of the other.
          have hkk : k = k' := by
            by_contra hne
            rcases Text.le_total k k' with hle | hle
            · have hk := h k
              rw [value?_cons, if_pos rfl, value?_cons, if_neg (Ne.symm hne),
                value?_of_forall_before fun e he => Text.Before.trans ⟨hle, hne⟩ (hy e he)] at hk
              exact absurd hk (by simp)
            · have hk := h k'
              rw [value?_cons, if_neg hne, value?_cons, if_pos rfl,
                value?_of_forall_before fun e he =>
                  Text.Before.trans ⟨hle, Ne.symm hne⟩ (hx e he)] at hk
              exact absurd hk (by simp)
          subst hkk
          have hv : v = v' := by
            have hk := h k
            rw [value?_cons, if_pos rfl, value?_cons, if_pos rfl] at hk
            exact Option.some.inj hk
          subst hv
          have htail : xs = ys := by
            refine ih (List.pairwise_cons.1 ha).2 (List.pairwise_cons.1 hb).2 fun name => ?_
            have hn := h name
            rw [value?_cons, value?_cons] at hn
            by_cases hname : k = name
            · subst hname
              rw [value?_of_forall_before hx, value?_of_forall_before hy]
            · rwa [if_neg hname, if_neg hname] at hn
          rw [htail]

theorem mem_set_iff {obj : Object} (h : Ordered obj) {name k : Text} {x v : Value} :
    (k, v) ∈ Object.set obj name x ↔ (k = name ∧ v = x) ∨ (k ≠ name ∧ (k, v) ∈ obj) := by
  rw [mem_iff_value? (ordered_set h name x), value?_set, mem_iff_value? h]
  by_cases hk : name = k
  · rw [if_pos hk, Option.some.injEq]
    exact ⟨fun hv => Or.inl ⟨hk.symm, hv.symm⟩,
      fun hor => hor.elim (fun hv => hv.2.symm) fun hv => absurd hk.symm hv.1⟩
  · rw [if_neg hk]
    exact ⟨fun hv => Or.inr ⟨fun hkn => hk hkn.symm, hv⟩,
      fun hor => hor.elim (fun hv => absurd hv.1.symm hk) fun hv => hv.2⟩

theorem eq_of_mem_iff {a b : Object} (ha : Ordered a) (hb : Ordered b)
    (h : ∀ k v, (k, v) ∈ a ↔ (k, v) ∈ b) : a = b := by
  refine eq_of_value?_eq ha hb fun name => Option.ext fun v => ?_
  exact (mem_iff_value? ha name v).symm.trans ((h name v).trans (mem_iff_value? hb name v))

/-- The object has the fields of a set of names, all of them true. -/
structure Marks (obj : Object) (names : Text → Prop) : Prop where
  ordered : Ordered obj
  mem_iff : ∀ k v, (k, v) ∈ obj ↔ names k ∧ v = .bool true

namespace Marks

theorem nil : Marks [] fun _ => False := ⟨ordered_nil, by simp⟩

theorem congr {obj : Object} {names others : Text → Prop} (h : Marks obj names)
    (hsame : ∀ k, names k ↔ others k) : Marks obj others :=
  ⟨h.ordered, fun k v => by rw [h.mem_iff, hsame]⟩

theorem set {obj : Object} {names : Text → Prop} (h : Marks obj names) (name : Text) :
    Marks (Object.set obj name (.bool true)) fun k => k = name ∨ names k := by
  refine ⟨ordered_set h.ordered name _, fun k v => ?_⟩
  rw [mem_set_iff h.ordered, h.mem_iff]
  by_cases hk : k = name
  · simp [hk]
  · simp [hk]

/-- Marking the names of a list one after another, those that pass a test. -/
theorem foldl {α : Type} {obj : Object} {names : Text → Prop} (h : Marks obj names)
    (name : α → Text) (test : α → Prop) [DecidablePred test] (xs : List α) :
    Marks (xs.foldl (fun obj x => if test x then Object.set obj (name x) (.bool true) else obj) obj)
      fun k => (∃ x ∈ xs, test x ∧ name x = k) ∨ names k := by
  induction xs generalizing obj names with
  | nil => exact h.congr fun k => by simp
  | cons x xs ih =>
      rw [List.foldl_cons]
      by_cases hx : test x
      · rw [if_pos hx]
        refine (ih (h.set (name x))).congr fun k => ?_
        simp only [List.mem_cons, or_and_right, exists_or, exists_eq_left, hx, true_and]
        rw [eq_comm, or_left_comm, or_assoc]
      · rw [if_neg hx]
        refine (ih h).congr fun k => ?_
        simp only [List.mem_cons, or_and_right, exists_or, exists_eq_left, hx, false_and, false_or]

theorem unique {a b : Object} {names : Text → Prop} (ha : Marks a names) (hb : Marks b names) :
    a = b :=
  eq_of_mem_iff ha.ordered hb.ordered fun k v => (ha.mem_iff k v).trans (hb.mem_iff k v).symm

end Marks

end Object

theorem insertOrdered_perm {α : Type _} (le : α → α → Bool) (x : α) (xs : List α) :
    (insertOrdered le x xs).Perm (x :: xs) := by
  induction xs with
  | nil => exact List.Perm.refl _
  | cons y ys ih =>
      rw [insertOrdered]
      split
      · exact List.Perm.refl _
      · exact (ih.cons y).trans (List.Perm.swap x y ys)

theorem sortBy_perm {α : Type _} (le : α → α → Bool) (xs : List α) : (sortBy le xs).Perm xs := by
  induction xs with
  | nil => exact List.Perm.refl _
  | cons x xs ih => exact (insertOrdered_perm le x _).trans (ih.cons x)

@[simp] theorem mem_sortBy {α : Type _} {le : α → α → Bool} {x : α} {xs : List α} :
    x ∈ sortBy le xs ↔ x ∈ xs := (sortBy_perm le xs).mem_iff

theorem sortBy_map {α β : Type _} (le : β → β → Bool) (f : α → β) (xs : List α) :
    sortBy le (xs.map f) = (sortBy (fun a b => le (f a) (f b)) xs).map f := by
  have hinsert : ∀ (x : α) (ys : List α), insertOrdered le (f x) (ys.map f)
      = (insertOrdered (fun a b => le (f a) (f b)) x ys).map f := by
    intro x ys
    induction ys with
    | nil => rfl
    | cons y ys ih =>
        rw [List.map_cons, insertOrdered, insertOrdered]
        split
        · rfl
        · rw [ih, List.map_cons]
  induction xs with
  | nil => rfl
  | cons x xs ih => rw [List.map_cons, sortBy, ih, hinsert, sortBy]

/-- A list in order is not changed by sorting. -/
theorem sortBy_of_pairwise {α : Type _} {le : α → α → Bool} {xs : List α}
    (h : xs.Pairwise fun a b => le a b = true) : sortBy le xs = xs := by
  induction xs with
  | nil => rfl
  | cons x xs ih =>
      have hhead := (List.pairwise_cons.1 h).1
      rw [sortBy, ih (List.pairwise_cons.1 h).2]
      cases xs with
      | nil => rfl
      | cons y ys => rw [insertOrdered, if_pos (hhead y List.mem_cons_self)]

theorem pairwise_sortBy {α : Type _} {le : α → α → Bool}
    (htotal : ∀ a b, le a b = true ∨ le b a = true)
    (htrans : ∀ a b c, le a b = true → le b c = true → le a c = true) (xs : List α) :
    (sortBy le xs).Pairwise fun a b => le a b = true := by
  have hinsert : ∀ (x : α) (ys : List α), ys.Pairwise (fun a b => le a b = true) →
      (insertOrdered le x ys).Pairwise fun a b => le a b = true := by
    intro x ys
    induction ys with
    | nil => exact fun _ => List.pairwise_singleton _ _
    | cons y ys ih =>
        intro h
        have hhead := (List.pairwise_cons.1 h).1
        rw [insertOrdered]
        split
        · rename_i hxy
          refine List.pairwise_cons.2 ⟨fun z hz => ?_, h⟩
          rcases List.mem_cons.1 hz with rfl | hz
          · exact hxy
          · exact htrans x y z hxy (hhead z hz)
        · rename_i hxy
          refine List.pairwise_cons.2 ⟨fun z hz => ?_, ih (List.pairwise_cons.1 h).2⟩
          rcases List.mem_cons.1 ((insertOrdered_perm le x ys).mem_iff.1 hz) with rfl | hz
          · exact (htotal y z).resolve_right hxy
          · exact hhead z hz
  induction xs with
  | nil => exact List.Pairwise.nil
  | cons x xs ih => exact hinsert x _ ih

namespace Nested

/-- The entries are in the strict order of their keys. -/
def Ascending {α : Type} (entries : List (UInt16 × α)) : Prop :=
  entries.Pairwise fun a b => a.1 < b.1

theorem mem_setEntry {key : UInt16} {v : Value} {entries : List (UInt16 × Value)}
    {e : UInt16 × Value} (h : e ∈ setEntry key v entries) : e = (key, v) ∨ e ∈ entries := by
  induction entries with
  | nil => exact Or.inl (List.mem_singleton.1 h)
  | cons x rest ih =>
      rcases x with ⟨k, old⟩
      rw [setEntry] at h
      split at h
      · rename_i hk
        rcases List.mem_cons.1 h with rfl | h
        · exact Or.inl (by rw [hk])
        · exact Or.inr (List.mem_cons_of_mem _ h)
      · split at h
        · rcases List.mem_cons.1 h with rfl | h
          · exact Or.inr List.mem_cons_self
          · rcases ih h with h | h
            · exact Or.inl h
            · exact Or.inr (List.mem_cons_of_mem _ h)
        · rcases List.mem_cons.1 h with rfl | h
          · exact Or.inl rfl
          · exact Or.inr h

theorem ascending_setEntry {entries : List (UInt16 × Value)} (h : Ascending entries)
    (key : UInt16) (v : Value) : Ascending (setEntry key v entries) := by
  induction entries with
  | nil => exact List.pairwise_singleton _ _
  | cons e rest ih =>
      rcases e with ⟨k, old⟩
      have hhead := (List.pairwise_cons.1 h).1
      have hrest := (List.pairwise_cons.1 h).2
      rw [setEntry]
      split
      · exact List.pairwise_cons.2 ⟨hhead, hrest⟩
      · rename_i hk
        split
        · rename_i hlt
          refine List.pairwise_cons.2 ⟨fun x hx => ?_, ih hrest⟩
          rcases mem_setEntry hx with rfl | hx
          · exact hlt
          · exact hhead x hx
        · rename_i hlt
          have hbefore : key < k := by
            rcases UInt16.lt_or_lt_of_ne hk with hl | hl
            · exact absurd hl hlt
            · exact hl
          refine List.pairwise_cons.2 ⟨fun x hx => ?_, h⟩
          rcases List.mem_cons.1 hx with rfl | hx
          · exact hbefore
          · exact UInt16.lt_trans hbefore (hhead x hx)

/-- An entry whose key is greater than all others goes to the end. -/
theorem setEntry_of_lt {key : UInt16} (v : Value) {entries : List (UInt16 × Value)}
    (h : ∀ e ∈ entries, e.1 < key) : setEntry key v entries = entries ++ [(key, v)] := by
  induction entries with
  | nil => rfl
  | cons e rest ih =>
      rcases e with ⟨k, old⟩
      have hk : k < key := h (k, old) List.mem_cons_self
      rw [setEntry, if_neg (UInt16.ne_of_lt hk), if_pos hk,
        ih fun x hx => h x (List.mem_cons_of_mem _ hx), List.cons_append]

/-- Setting ascending entries one after another gives them back. -/
theorem foldl_setEntry_of_ascending {entries : List (UInt16 × Value)} (h : Ascending entries) :
    entries.foldl (fun es e => setEntry e.1 e.2 es) [] = entries := by
  have key : ∀ (later earlier : List (UInt16 × Value)), Ascending (earlier ++ later) →
      later.foldl (fun es e => setEntry e.1 e.2 es) earlier = earlier ++ later := by
    intro later
    induction later with
    | nil => intro earlier _; rw [List.append_nil, List.foldl_nil]
    | cons e rest ih =>
        intro earlier hasc
        have hlt : ∀ x ∈ earlier, x.1 < e.1 := fun x hx =>
          (List.pairwise_append.1 hasc).2.2 x hx e List.mem_cons_self
        rw [List.foldl_cons, setEntry_of_lt e.2 hlt, ih, List.append_assoc, List.singleton_append]
        rwa [List.append_assoc, List.singleton_append]
  exact key entries [] h

end Nested

namespace Value

mutual

/-- No object or map inside the value has a key twice. -/
def KeysDistinct : Value → Prop
  | object fields => (fields.map Prod.fst).Nodup ∧ FieldsDistinct fields
  | list items => ItemsDistinct items
  | map entries => (entries.map Prod.fst).Nodup ∧ EntriesDistinct entries
  | intMap entries => (entries.map Prod.fst).Nodup ∧ IntEntriesDistinct entries
  | textMap entries => (entries.map Prod.fst).Nodup
  | _ => True

/-- The same of each value of a list. -/
def ItemsDistinct : List Value → Prop
  | [] => True
  | v :: rest => v.KeysDistinct ∧ ItemsDistinct rest

/-- The same of each value of an object. -/
def FieldsDistinct : List (Text × Value) → Prop
  | [] => True
  | (_, v) :: rest => v.KeysDistinct ∧ FieldsDistinct rest

/-- The same of each value of a map. -/
def EntriesDistinct : List (UInt16 × Value) → Prop
  | [] => True
  | (_, v) :: rest => v.KeysDistinct ∧ EntriesDistinct rest

/-- The same of each value of a map. -/
def IntEntriesDistinct : List (Int64 × Value) → Prop
  | [] => True
  | (_, v) :: rest => v.KeysDistinct ∧ IntEntriesDistinct rest

end

theorem itemsDistinct_iff {items : List Value} :
    ItemsDistinct items ↔ ∀ v ∈ items, v.KeysDistinct := by
  induction items with
  | nil => simp [ItemsDistinct]
  | cons v rest ih => simp [ItemsDistinct, ih]

theorem fieldsDistinct_iff {fields : List (Text × Value)} :
    FieldsDistinct fields ↔ ∀ e ∈ fields, e.2.KeysDistinct := by
  induction fields with
  | nil => simp [FieldsDistinct]
  | cons e rest ih => rw [FieldsDistinct, ih, List.forall_mem_cons]

theorem entriesDistinct_iff {entries : List (UInt16 × Value)} :
    EntriesDistinct entries ↔ ∀ e ∈ entries, e.2.KeysDistinct := by
  induction entries with
  | nil => simp [EntriesDistinct]
  | cons e rest ih => rw [EntriesDistinct, ih, List.forall_mem_cons]

theorem intEntriesDistinct_iff {entries : List (Int64 × Value)} :
    IntEntriesDistinct entries ↔ ∀ e ∈ entries, e.2.KeysDistinct := by
  induction entries with
  | nil => simp [IntEntriesDistinct]
  | cons e rest ih => rw [IntEntriesDistinct, ih, List.forall_mem_cons]

theorem KeysDistinct.of_mem_items {v x : Value} {items : List Value} (h : v.KeysDistinct)
    (hi : v.items? = some items) (hx : x ∈ items) : x.KeysDistinct := by
  cases v <;> simp only [items?, Option.some.injEq, reduceCtorEq] at hi
  case list xs =>
    subst hi
    rw [KeysDistinct] at h
    exact itemsDistinct_iff.1 h x hx
  -- The elements of the other sequences are texts and integers.
  all_goals
    subst hi
    rcases List.mem_map.1 hx with ⟨y, -, rfl⟩
    simp [ofInt, KeysDistinct]

theorem KeysDistinct.get {obj : Object} (h : (Value.object obj).KeysDistinct) (name : Text) :
    (Object.get obj name).KeysDistinct := by
  unfold Object.get
  split
  · rename_i e he
    rw [KeysDistinct] at h
    exact fieldsDistinct_iff.1 h.2 _ (List.mem_of_find?_eq_some he)
  · simp [KeysDistinct]

end Value

end NetlinkSchema
