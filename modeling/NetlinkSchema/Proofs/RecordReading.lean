import NetlinkSchema.Compilation.Description
import NetlinkSchema.Proofs.Record

/-!
# Records read back

A written record is read field by field: each name is found, whatever the order of the entries, and
its value is read as the value that was written. Only texts may be refused, where they are not
UTF-8. An empty list is left out, so it is read as none.

## Main definitions

* `Gives`: A result that is there on a condition.
* `Cbor.Keyed`: Names that are found as they are written.

## Theorems

* `Cbor.Keyed.value?`: A field is found under its name.
* `Cbor.Record.text_gives`, `Cbor.Record.int_gives`, `Cbor.Record.members_gives`: What is read from
  a field.
-/

namespace NetlinkSchema

/-- The result is `a` if `p` holds, and there is none otherwise. -/
structure Gives {α : Type} (o : Option α) (p : Prop) (a : α) : Prop where
  result : p → o = some a
  nothing : ¬ p → o = none

namespace Gives

variable {α β : Type} {o : Option α} {p q : Prop} {a : α}

theorem some (a : α) : Gives (some a) True a := ⟨fun _ => rfl, fun h => absurd trivial h⟩

theorem congr (h : Gives o p a) {a' : α} (hp : p ↔ q) (ha : a = a') : Gives o q a' := by
  subst ha
  exact ⟨fun hq => h.result (hp.2 hq), fun hq => h.nothing fun hp' => hq (hp.1 hp')⟩

theorem bind (h : Gives o p a) {f : α → Option β} {b : β} (hf : Gives (f a) q b) :
    Gives (o >>= f) (p ∧ q) b := by
  constructor
  · rintro ⟨hp, hq⟩
    rw [h.result hp]
    exact hf.result hq
  · intro hpq
    by_cases hp : p
    · rw [h.result hp]
      exact hf.nothing fun hq => hpq ⟨hp, hq⟩
    · rw [h.nothing hp]
      rfl

theorem map (h : Gives o p a) (f : α → β) : Gives (o.map f) p (f a) := by
  constructor
  · intro hp
    rw [h.result hp]
    rfl
  · intro hp
    rw [h.nothing hp]
    rfl

theorem bind_pure (h : Gives o p a) (f : α → β) : Gives (o >>= fun x => pure (f x)) p (f a) :=
  (h.bind (Gives.some (f a))).congr (and_iff_left trivial) rfl

/-- Of a list there is a result if there is one of each element. -/
theorem mapM {γ : Type} {xs : List α} {toInput : α → γ} {f : γ → Option β} {p : α → Prop}
    {g : α → β} (h : ∀ x ∈ xs, Gives (f (toInput x)) (p x) (g x)) :
    Gives ((xs.map toInput).mapM f) (∀ x ∈ xs, p x) (xs.map g) := by
  induction xs with
  | nil => exact (Gives.some []).congr (by simp) rfl
  | cons x xs ih =>
      rw [List.map_cons, List.mapM_cons]
      have hfirst := h x List.mem_cons_self
      have hrest := ih fun y hy => h y (List.mem_cons_of_mem _ hy)
      refine (hfirst.bind (hrest.bind (Gives.some (g x :: xs.map g)))).congr ?_ rfl
      simp

end Gives

namespace Cbor

/-- The key of an entry is taken for a name. -/
def HasName (name : Text) (key : Cbor) : Prop :=
  ((plainText? key).any fun t => Record.lowerAscii t == name) = true

-- The value of a name is the one of some entry with that name, if there is any.
theorem find?_cases {α β : Type} (p : α → Bool) (f : α → β) (xs : List α) :
    ((xs.find? p).map f = none ∧ ∀ x ∈ xs, ¬ p x = true)
      ∨ ∃ x ∈ xs, p x = true ∧ (xs.find? p).map f = some (f x) := by
  cases hfound : xs.find? p with
  | none => exact Or.inl ⟨rfl, List.find?_eq_none.1 hfound⟩
  | some x => exact Or.inr ⟨x, List.mem_of_find?_eq_some hfound, List.find?_some hfound, rfl⟩

theorem value?_cases (r : Record) (name : Text) :
    (r.value? name = none ∧ ∀ e ∈ r, ¬ HasName name e.1)
      ∨ ∃ e ∈ r, HasName name e.1 ∧ r.value? name = some e.2 := find?_cases _ _ r

/-- The record of fields in the order in which it is written. -/
def arrangedRecord (fs : Fields) : Record :=
  (sortEntries (ofFields fs)).map fun e => (e.1.arranged, e.2.arranged)

theorem mem_arrangedRecord {fs : Fields} {e : Cbor × Cbor} :
    e ∈ arrangedRecord fs ↔ ∃ name c, (name, some c) ∈ fs ∧ e = (.text name, c.arranged) := by
  simp only [arrangedRecord, List.mem_map, (sortEntries_perm _).mem_iff, mem_ofFields]
  constructor
  · rintro ⟨e, ⟨name, c, hf, rfl⟩, rfl⟩
    exact ⟨name, c, hf, rfl⟩
  · rintro ⟨name, c, hf, rfl⟩
    exact ⟨(.text name, c), ⟨name, c, hf, rfl⟩, rfl⟩

namespace Keyed

variable {fs : Fields}

theorem hasName_iff (h : Keyed (fs.map Prod.fst)) {name : Text} {v : Option Cbor}
    (hmem : (name, v) ∈ fs) (wanted : Text) : HasName wanted (.text name) ↔ name = wanted := by
  obtain ⟨hvalid, hlower⟩ := h.plain name (List.mem_map_of_mem hmem)
  rw [HasName, plainText?, if_pos hvalid, Option.any_some, hlower, beq_iff_eq]

/-- A field is found under its name. -/
theorem value? (h : Keyed (fs.map Prod.fst)) {name : Text} {v : Option Cbor}
    (hmem : (name, v) ∈ fs) :
    (arrangedRecord fs).value? name = v.map arranged := by
  rcases value?_cases (arrangedRecord fs) name with ⟨hnone, hall⟩ | ⟨e, he, hkey, hsome⟩
  · -- A value would have been written under a key that is taken for the name.
    cases v with
    | none => exact hnone
    | some c =>
        have hentry := mem_arrangedRecord.2 ⟨name, c, hmem, rfl⟩
        exact absurd ((h.hasName_iff hmem name).2 rfl) (hall _ hentry)
  · -- The entry that is found is that of the name, because no name occurs twice.
    obtain ⟨name', c, hmem', rfl⟩ := mem_arrangedRecord.1 he
    obtain rfl := (h.hasName_iff hmem' name).1 hkey
    have hv : v = some c := congrArg Prod.snd (List.inj_on_of_nodup_map h.nodup hmem hmem' rfl)
    rw [hsome, hv, Option.map_some]

theorem hasKeys (h : Keyed (fs.map Prod.fst)) : Record.hasKeys (arrangedRecord fs) = true := by
  rw [Record.hasKeys, List.all_eq_true]
  intro e he
  obtain ⟨name, c, hmem, rfl⟩ := mem_arrangedRecord.1 he
  have hvalid := (h.plain name (List.mem_map_of_mem hmem)).1
  show (plainText? (.text name)).isSome = true
  rw [plainText?, if_pos hvalid, Option.isSome_some]

/-- A written record is read from its fields. -/
theorem toRecord? (h : Keyed (fs.map Prod.fst)) {α : Type} (read : Record → Option α) :
    toRecord? read (Cbor.map (ofFields fs)).arranged = read (arrangedRecord fs) := by
  rw [arranged_map]
  show (if Record.hasKeys (arrangedRecord fs) then read (arrangedRecord fs) else none) = _
  rw [if_pos h.hasKeys]

end Keyed

section Values

-- Scalars are written as they are, and lists item by item.
theorem map_arranged_text? (t : Text) : (text? t).map arranged = text? t := by
  unfold text?
  split_ifs <;> rfl

theorem arranged_int (n : Int64) : (int n).arranged = int n := by
  unfold int
  split_ifs <;> rfl

theorem map_arranged_int? (n : Int64) : (int? n).map arranged = int? n := by
  unfold int?
  split_ifs
  · rfl
  · rw [Option.map_some, arranged_int]

theorem map_arranged_bool? (b : Bool) : (bool? b).map arranged = bool? b := by
  cases b <;> rfl

theorem arranged_array (items : List Cbor) :
    (Cbor.array items).arranged = .array (items.map arranged) := by
  rw [arranged, arrangedItems_eq]

theorem map_arranged_list? (items : List Cbor) :
    (list? items).map arranged = list? (items.map arranged) := by
  unfold list?
  rw [List.isEmpty_map]
  split_ifs
  · rfl
  · rw [Option.map_some, arranged_array]

theorem toInt_of_toUInt64 {n : Int64} (h : ¬ n < 0) : (n.toUInt64.toNat : Int) = n.toInt := by
  have hle : 0 ≤ n.toInt := by
    rw [Int64.lt_iff_toInt_lt] at h
    simpa using h
  rw [Int64.toNat_toUInt64_of_le (Int64.le_iff_toInt_le.2 hle)]
  exact Int.toNat_of_nonneg hle

/-- The item of an integer is read as that integer. -/
theorem plainInt?_int (n : Int64) : plainInt? (int n) = some n.toInt := by
  unfold int
  by_cases hn : n < 0
  · -- A negative number `n` is written as the complement `-1 - n`.
    have hnot : (~~~n).toInt = -1 - n.toInt := by
      have hlow := n.le_toInt
      have hneg : n.toInt < 0 := by simpa using Int64.lt_iff_toInt_lt.1 hn
      rw [Int64.toInt_not, Int.bmod_eq_of_le (by omega) (by omega)]
      omega
    have hpos : ¬ ~~~n < 0 := by
      have hneg : n.toInt < 0 := by simpa using Int64.lt_iff_toInt_lt.1 hn
      rw [Int64.lt_iff_toInt_lt, hnot]
      simp
      omega
    have hval := toInt_of_toUInt64 hpos
    rw [if_pos hn, plainInt?]
    simp only [Int.ofNat_eq_natCast, hval, hnot]
    congr 1
    omega
  · rw [if_neg hn, plainInt?, toInt_of_toUInt64 hn]

theorem toInt64?_int (n : Int64) : toInt64? (int n) = some n := by
  have hread : toInt? (-0x8000000000000000) 0x7FFFFFFFFFFFFFFF (int n) = some n.toInt := by
    have huntag : untag? (int n) = some (int n) := by
      unfold int
      split_ifs <;> rfl
    have hsome : (int n).isNothing = false := by
      unfold int
      split_ifs <;> rfl
    have hlow := n.le_toInt
    have hhigh := n.toInt_lt
    rw [toInt?, readOr, huntag]
    simp [hsome, plainInt?_int]
    omega
  rw [toInt64?, hread, Option.map_some, Int64.ofInt_toInt]

theorem toText?_text (t : Text) : Gives (toText? (.text t)) (t.isValid = true) t := by
  constructor
  · intro hvalid
    simp [toText?, readOr, untag?, isNothing, plainText?, hvalid]
  · intro hvalid
    simp [toText?, readOr, untag?, isNothing, plainText?, hvalid]

theorem toTexts?_array (ts : List Text) :
    Gives (toTexts? (.array (ts.map .text))) (∀ t ∈ ts, t.isValid = true) (some ts) := by
  have hall := (Gives.mapM fun t (_ : t ∈ ts) => toText?_text t).map some
  rw [List.map_id'] at hall
  exact hall

/-- The members of a list are read one by one. -/
theorem toMembers?_array {α β : Type} {toItem : α → Cbor} {read : Cbor → Option β} {p : α → Prop}
    {g : α → β} {xs : List α} (hitem : ∀ x, (toItem x).isNothing = false)
    (h : ∀ x ∈ xs, Gives (read (toItem x)) (p x) (g x)) :
    Gives (toMembers? read (.array (xs.map toItem))) (∀ x ∈ xs, p x) (some (xs.map g)) := by
  have hkept : (xs.map toItem).filter (fun i => !i.isNothing) = xs.map toItem := by
    rw [List.filter_eq_self]
    intro c hc
    obtain ⟨x, -, rfl⟩ := List.mem_map.1 hc
    rw [hitem x]
    rfl
  have hall := (Gives.mapM h).map some
  rw [← hkept] at hall
  exact hall

end Values

namespace Record

variable {r : Record} {name : Text}

section Field

variable {α : Type} {old a : α} {read : Cbor → Option α} {p : Prop}

/-- A field with a value is read from it. -/
theorem present_gives {c : Cbor} (hvalue : r.value? name = some c) (hread : Gives (read c) p a) :
    Gives (r.field name old read) p a := by
  rw [field, hvalue]
  exact hread

/-- For a field without a value there is a substitute. -/
theorem absent_gives (hvalue : r.value? name = none) (hp : p) :
    Gives (r.field name old read) p old := by
  rw [field, hvalue]
  exact (Gives.some old).congr (iff_of_true trivial hp) rfl

end Field

theorem text_gives {t : Text} (h : r.value? name = some (.text t)) :
    Gives (r.text name) (t.isValid = true) t := present_gives h (toText?_text t)

theorem text?_gives {t : Text} (h : r.value? name = text? t) :
    Gives (r.text name) (t.isValid = true) t := by
  unfold text? at h
  by_cases ht : t.isEmpty = true
  · rw [if_pos ht] at h
    obtain rfl := Text.eq_empty ht
    exact absent_gives h rfl
  · rw [if_neg ht] at h
    exact text_gives h

theorem bool?_gives {b : Bool} (h : r.value? name = bool? b) : Gives (r.bool name) True b := by
  cases b with
  | false => exact absent_gives h trivial
  | true => exact present_gives h (Gives.some true)

theorem int_gives {n : Int64} (h : r.value? name = some (.int n)) : Gives (r.int name) True n := by
  refine present_gives h ?_
  rw [toInt64?_int]
  exact Gives.some n

theorem int?_gives {n : Int64} (h : r.value? name = int? n) : Gives (r.int name) True n := by
  unfold int? at h
  by_cases hn : n = 0
  · rw [if_pos hn] at h
    subst hn
    exact absent_gives h trivial
  · rw [if_neg hn] at h
    exact int_gives h

/-- A list is read from its items; an empty one was left out, and is read as none. -/
theorem list?_gives {α : Type} {read : Cbor → Option (Option (List α))} {xs : List α}
    {items : List Cbor} {p : Prop} (h : r.value? name = list? items)
    (hempty : items = [] → p ∧ xs = [])
    (hread : items ≠ [] → xs ≠ [] ∧ Gives (read (.array items)) p (some xs)) :
    Gives (r.field name none read) p (Schema.presentList xs) := by
  unfold list? at h
  by_cases hitems : items = []
  · obtain ⟨hp, rfl⟩ := hempty hitems
    rw [if_pos (List.isEmpty_iff.2 hitems)] at h
    exact absent_gives h hp
  · obtain ⟨hxs, hgives⟩ := hread hitems
    rw [if_neg (fun hnil => hitems (List.isEmpty_iff.1 hnil))] at h
    have hpresent : Schema.presentList xs = some xs := by
      rw [Schema.presentList, if_neg (fun hnil => hxs (List.isEmpty_iff.1 hnil))]
    rw [hpresent]
    exact present_gives h hgives

theorem texts_gives {ts : List Text} (h : r.value? name = list? (ts.map .text)) :
    Gives (r.texts name) (∀ t ∈ ts, t.isValid = true) (Schema.presentList ts) := by
  refine list?_gives h (fun hnil => ?_) fun hne => ⟨fun hnil => hne ?_, toTexts?_array ts⟩
  · rw [List.map_eq_nil_iff] at hnil
    subst hnil
    exact ⟨List.forall_mem_nil _, rfl⟩
  · rw [hnil, List.map_nil]

theorem members_gives {α β : Type} {toItem : α → Cbor} {read : Cbor → Option β} {p : α → Prop}
    {g : α → β} {xs : List α} (h : r.value? name = list? (xs.map toItem))
    (hitem : ∀ x, (toItem x).isNothing = false)
    (hread : ∀ x ∈ xs, Gives (read (toItem x)) (p x) (g x)) :
    Gives (r.field name none (toMembers? read)) (∀ x ∈ xs, p x)
      (Schema.presentList (xs.map g)) := by
  refine list?_gives h (fun hnil => ?_) fun hne =>
    ⟨fun hnil => hne ?_, toMembers?_array hitem hread⟩
  · rw [List.map_eq_nil_iff] at hnil
    subst hnil
    exact ⟨List.forall_mem_nil _, rfl⟩
  · rw [List.map_eq_nil_iff] at hnil ⊢
    exact hnil

theorem ofList?_gives {α β : Type} {toItem : α → Cbor} {read : Cbor → Option β} {p : α → Prop}
    {g : α → β} {xs : Option (List α)} (h : r.value? name = some (ofList? (xs.map (·.map toItem))))
    (hitem : ∀ x, (toItem x).isNothing = false)
    (hread : ∀ x ∈ xs.getD [], Gives (read (toItem x)) (p x) (g x)) :
    Gives (r.field name none (toMembers? read)) (∀ x ∈ xs.getD [], p x) (xs.map (·.map g)) := by
  -- Here no list is written too, as an item of its own.
  refine present_gives h ?_
  cases xs with
  | none => exact (Gives.some none).congr (by simp) rfl
  | some xs => exact toMembers?_array hitem hread

end Record

/-- The value, if there is one, has no collection with too many members. -/
def ReadableValue (v : Option Cbor) : Prop := ∀ c, v = some c → c.isReadable = true

section Readable

theorem isReadable_array (items : List Cbor) : (Cbor.array items).isReadable = true
    ↔ items.length ≤ maxMembers ∧ ∀ c ∈ items, c.isReadable = true := by
  rw [isReadable, itemsReadable_eq, Bool.and_eq_true, decide_eq_true_eq, List.all_eq_true]

theorem readableValue_none : ReadableValue none := by
  intro c hc
  cases hc

theorem readableValue_some {c : Cbor} : ReadableValue (some c) ↔ c.isReadable = true := by
  constructor
  · intro h
    exact h c rfl
  · intro h c' hc'
    obtain rfl := Option.some.inj hc'
    exact h

theorem readableValue_text? (t : Text) : ReadableValue (text? t) := by
  unfold text?
  split_ifs
  · exact readableValue_none
  · exact readableValue_some.2 rfl

theorem isReadable_int (n : Int64) : (Cbor.int n).isReadable = true := by
  unfold int
  split_ifs <;> rfl

theorem readableValue_int? (n : Int64) : ReadableValue (int? n) := by
  unfold int?
  split_ifs
  · exact readableValue_none
  · exact readableValue_some.2 (isReadable_int n)

theorem readableValue_bool? (b : Bool) : ReadableValue (bool? b) := by
  cases b with
  | false => exact readableValue_none
  | true => exact readableValue_some.2 rfl

theorem readableValue_list? {α : Type} {toItem : α → Cbor} (xs : List α) :
    ReadableValue (list? (xs.map toItem))
      ↔ xs.length ≤ maxMembers ∧ ∀ x ∈ xs, (toItem x).isReadable = true := by
  cases xs with
  | nil => exact iff_of_true readableValue_none ⟨Nat.zero_le _, List.forall_mem_nil _⟩
  | cons x xs =>
      have hsome : list? ((x :: xs).map toItem) = some (.array ((x :: xs).map toItem)) := rfl
      rw [hsome, readableValue_some, isReadable_array, List.length_map, List.forall_mem_map]

theorem isReadable_ofList? {α : Type} {toItem : α → Cbor} (xs : Option (List α)) :
    (Cbor.ofList? (xs.map (·.map toItem))).isReadable = true
      ↔ (xs.getD []).length ≤ maxMembers ∧ ∀ x ∈ xs.getD [], (toItem x).isReadable = true := by
  cases xs with
  | none => exact iff_of_true rfl ⟨Nat.zero_le _, List.forall_mem_nil _⟩
  | some xs =>
      show (Cbor.array (xs.map toItem)).isReadable = true ↔ _
      rw [isReadable_array, List.length_map, List.forall_mem_map]
      rfl

end Readable

namespace IsRecord

variable {α : Type} {levels : Nat} {names : List Text} {toItem : α → Cbor} {fields : α → Fields}
  (h : IsRecord levels names toItem fields)

include h

theorem isNothing_arranged (x : α) : (toItem x).arranged.isNothing = false := by
  rw [h.item_eq, arranged_map]
  rfl

/-- A written record is read from its fields. -/
theorem toRecord?_arranged {β : Type} (read : Record → Option β) (x : α) :
    Cbor.toRecord? read (toItem x).arranged = read (arrangedRecord (fields x)) := by
  have hkeyed : Keyed ((fields x).map Prod.fst) := h.names_eq x ▸ h.keyed
  rw [h.item_eq, hkeyed.toRecord?]

theorem values (x : α) :
    ∀ f ∈ fields x, (arrangedRecord (fields x)).value? f.1 = f.2.map arranged := by
  have hkeyed : Keyed ((fields x).map Prod.fst) := h.names_eq x ▸ h.keyed
  exact fun f hf => hkeyed.value? hf

/-- A record is readable if its values are. -/
theorem isReadable_iff (hnames : names.length ≤ maxMembers) (x : α) :
    (toItem x).isReadable = true ↔ ∀ f ∈ fields x, ReadableValue f.2 := by
  have hlen : (ofFields (fields x)).length ≤ maxMembers := by
    refine Nat.le_trans (List.length_filterMap_le _ _) ?_
    rw [← List.length_map Prod.fst, h.names_eq]
    exact hnames
  rw [h.item_eq, isReadable, entriesReadable_eq, Bool.and_eq_true, decide_eq_true_eq,
    List.all_eq_true, and_iff_right hlen]
  constructor
  · intro hall f hf c hc
    have hentry := hall (.text f.1, c) (mem_ofFields.2 ⟨f.1, c, hc ▸ hf, rfl⟩)
    exact (Bool.and_eq_true_iff.1 hentry).2
  · intro hall e he
    obtain ⟨name, c, hmem, rfl⟩ := mem_ofFields.1 he
    exact Bool.and_eq_true_iff.2 ⟨rfl, hall _ hmem c rfl⟩

end IsRecord

end Cbor

end NetlinkSchema
