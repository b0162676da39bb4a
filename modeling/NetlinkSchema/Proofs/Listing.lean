import NetlinkSchema.Listing
import NetlinkSchema.Proofs.Object

/-!
# Complete listings

A listing stops at a value that has no notation. Fields and items of lists are written by different
functions, and they know different values: a field may be a map, an item of a list may not. So
among the values that decoding makes, which are scalars, objects, lists and maps, those are listed
to the end that have no list with a map in it.

Without a limit on its length a listing is written piece by piece, and each piece adds a condition
under which there is still no error afterwards. `Listing.Writes` says which condition it is, and
the pieces are put together in the way the functions put them together.

## Main definitions

* `Value.Made`: A value made of scalars, objects and lists, and of maps if they are allowed.
* `Value.PartOf`: A value is somewhere in another.
* `Value.Listable`: No list in a value has a map as an item.
* `Listing.Writes`: A function writes without error under a condition.

## Theorems

* `Listing.writes_field`: Fields and items are written without error if they are listable.
* `Listing.error_ofObject`: The listing of an object is complete if the object is listable.
-/

namespace NetlinkSchema

namespace Value

/-- A value that is made of scalars, objects and lists, and of maps if they are allowed. -/
inductive Made (maps : Prop) : Value → Prop
  | scalar {v : Value} (h : (Listing.scalar? v).isSome = true) : Made maps v
  | object {fields : List (Text × Value)} (h : ∀ e ∈ fields, Made maps e.2) :
      Made maps (.object fields)
  | list {items : List Value} (h : ∀ v ∈ items, Made maps v) : Made maps (.list items)
  | map {entries : List (UInt16 × Value)} (hmaps : maps) (h : ∀ e ∈ entries, Made maps e.2) :
      Made maps (.map entries)

/-- A value is another one, or is somewhere in it. -/
inductive PartOf (part : Value) : Value → Prop
  | refl : PartOf part part
  | field {fields : List (Text × Value)} {e : Text × Value} (he : e ∈ fields)
      (h : PartOf part e.2) : PartOf part (.object fields)
  | item {items : List Value} {v : Value} (hv : v ∈ items) (h : PartOf part v) :
      PartOf part (.list items)
  | entry {entries : List (UInt16 × Value)} {e : UInt16 × Value} (he : e ∈ entries)
      (h : PartOf part e.2) : PartOf part (.map entries)

/-- No list in the value has a map as an item. -/
def Listable (v : Value) : Prop :=
  ∀ items, (list items).PartOf v → ∀ entries, map entries ∉ items

/-- Whether the value is a map. -/
def isMap : Value → Bool
  | map _ => true
  | _ => false

theorem isMap_eq_false_iff {v : Value} : v.isMap = false ↔ ∀ entries, v ≠ map entries := by
  cases v with
  | map entries => simp [isMap]
  | _ => simp [isMap]

theorem listable_scalar {v : Value} (h : (Listing.scalar? v).isSome = true) : v.Listable := by
  intro items hpart
  cases hpart with
  | refl => cases h
  | field _ _ => cases h
  | item _ _ => cases h
  | entry _ _ => cases h

theorem listable_object {fields : List (Text × Value)} :
    (object fields).Listable ↔ ∀ e ∈ fields, e.2.Listable := by
  constructor
  · exact fun h e he items hpart => h items (.field he hpart)
  · intro h items hpart
    cases hpart with
    | field he hpart => exact h _ he items hpart

theorem listable_map {entries : List (UInt16 × Value)} :
    (map entries).Listable ↔ ∀ e ∈ entries, e.2.Listable := by
  constructor
  · exact fun h e he items hpart => h items (.entry he hpart)
  · intro h items hpart
    cases hpart with
    | entry he hpart => exact h _ he items hpart

theorem listable_list {items : List Value} :
    (list items).Listable ↔ ∀ v ∈ items, v.Listable ∧ v.isMap = false := by
  constructor
  · intro h v hv
    refine ⟨fun others hpart => h others (.item hv hpart), ?_⟩
    rw [isMap_eq_false_iff]
    rintro entries rfl
    exact h items .refl entries hv
  · intro h others hpart
    cases hpart with
    | refl => exact fun entries hmem => isMap_eq_false_iff.1 (h _ hmem).2 entries rfl
    | item hv hpart => exact (h _ hv).1 others hpart

/-- Without maps every value is listable, and is no map itself. -/
theorem Made.listable {v : Value} (h : v.Made False) : v.Listable ∧ v.isMap = false := by
  induction h with
  | @scalar v h =>
      refine ⟨listable_scalar h, isMap_eq_false_iff.2 ?_⟩
      rintro entries rfl
      cases h
  | object _ ih => exact ⟨listable_object.2 fun e he => (ih e he).1, rfl⟩
  | list _ ih => exact ⟨listable_list.2 ih, rfl⟩
  | map hmaps _ _ => exact hmaps.elim

theorem Made.mono {maps maps' : Prop} (himp : maps → maps') {v : Value} (h : v.Made maps) :
    v.Made maps' := by
  induction h with
  | scalar h => exact .scalar h
  | object _ ih => exact .object ih
  | list _ ih => exact .list ih
  | map hmaps _ ih => exact .map (himp hmaps) ih

end Value

namespace Listing

/-- A function that writes to a listing without limit leaves no error exactly if there was none and
    a condition holds. -/
def Writes (f : Listing → Listing) (P : Prop) : Prop :=
  ∀ l, l.room = none → (f l).room = none ∧ ((f l).error = none ↔ l.error = none ∧ P)

namespace Writes

variable {f g : Listing → Listing} {P Q : Prop}

theorem congr (h : Writes f P) (hPQ : P ↔ Q) : Writes f Q := propext hPQ ▸ h

theorem comp (hf : Writes f P) (hg : Writes g Q) : Writes (fun l => g (f l)) (P ∧ Q) := by
  intro l hl
  rcases hf l hl with ⟨hroom, herror⟩
  rcases hg (f l) hroom with ⟨hroom', herror'⟩
  exact ⟨hroom', by rw [herror', herror, and_assoc]⟩

theorem put (t : Text) : Writes (Listing.put t) True := by
  intro l hl
  unfold Listing.put
  cases herror : l.error with
  | some e => exact ⟨hl, by simp [herror]⟩
  | none => simp [hl]

theorem line (indent : Nat) (t : Text) : Writes (Listing.line indent t) True :=
  (((put _).comp (put t)).comp (put _)).congr (by simp)

theorem fail (e : ListingError) : Writes (Listing.fail e) False := by
  intro l hl
  exact ⟨hl, by simp [Listing.fail]⟩

/-- What stands between two lines adds the only condition. -/
theorem block {body : Listing → Listing} (h : Writes body P) (indent : Nat)
    (opening closing : Text) : Writes (Listing.block indent opening closing body) P :=
  (((line indent opening).comp h).comp (line indent closing)).congr (by simp)

/-- A sequence of pieces adds the conditions of all of them. -/
theorem foldl {α : Type} {step : Listing → α → Listing} {P : α → Prop} {xs : List α}
    (h : ∀ x ∈ xs, Writes (fun l => step l x) (P x)) :
    Writes (fun l => xs.foldl step l) (∀ x ∈ xs, P x) := by
  induction xs with
  | nil => exact fun l hl => ⟨hl, by simp⟩
  | cons x xs ih =>
      rw [List.forall_mem_cons] at h
      exact (h.1.comp (ih h.2)).congr (by rw [List.forall_mem_cons])

-- The fields of an object stop at an error, and then there is one at the end as well.
theorem runFields {α : Type} {name : α → Text} {write : α → Listing → Listing} {P : α → Prop}
    {xs : List α} (h : ∀ x ∈ xs, Writes (write x) (P x)) :
    Writes (Listing.runFields (xs.map fun x => (name x, write x))) (∀ x ∈ xs, P x) := by
  unfold Listing.runFields
  rw [sortBy_map]
  simp only [List.foldl_map]
  refine (foldl (P := P) fun x hx l hl => ?_).congr (by simp only [mem_sortBy])
  by_cases herror : l.error.isSome = true
  · simp only [if_pos herror]
    refine ⟨hl, fun hnone => ?_, And.left⟩
    rw [hnone] at herror
    cases herror
  · simp only [if_neg herror]
    exact h x (mem_sortBy.1 hx) l hl

theorem runEntries {α : Type} {key : α → UInt16} {write : α → Listing → Listing} {P : α → Prop}
    {xs : List α} (h : ∀ x ∈ xs, Writes (write x) (P x)) :
    Writes (Listing.runEntries (xs.map fun x => (key x, write x))) (∀ x ∈ xs, P x) := by
  unfold Listing.runEntries
  rw [sortBy_map]
  simp only [List.foldl_map]
  exact (foldl (P := P) fun x hx => h x (mem_sortBy.1 hx)).congr (by simp only [mem_sortBy])

end Writes

theorem fieldWriters_eq (indent : Nat) (fields : List (Text × Value)) :
    fieldWriters indent fields = fields.map fun e => (e.1, field indent e.1 e.2) := by
  induction fields with
  | nil => rw [fieldWriters, List.map_nil]
  | cons e rest ih => rw [fieldWriters, ih, List.map_cons]

theorem entryWriters_eq (indent : Nat) (entries : List (UInt16 × Value)) :
    entryWriters indent entries
      = entries.map fun e => (e.1, field indent (Text.ofNat e.1.toNat) e.2) := by
  induction entries with
  | nil => rw [entryWriters, List.map_nil]
  | cons e rest ih => rw [entryWriters, ih, List.map_cons]

theorem runItems_eq (indent : Nat) (items : List Value) :
    runItems indent items = fun l => items.foldl (fun l v => item indent v l) l := by
  funext l
  induction items generalizing l with
  | nil => rw [runItems, List.foldl_nil]
  | cons v rest ih => rw [runItems, ih, List.foldl_cons]

-- What is written, as a function of the listing so far, by the kind of value.
section Equations

variable (indent : Nat) (name : Text)

theorem field_scalar {v : Value} {t : Text} (h : scalar? v = some t) :
    field indent name v = line indent (name ++ " = " ++ t) := by
  funext l
  unfold field
  simp only [h]

theorem field_object (fields : List (Text × Value)) : field indent name (.object fields) = fun l =>
    if fields.isEmpty then l.line indent (name ++ " = \x7b\x7d")
    else l.block indent (name ++ " = \x7b") "\x7d"
      (runFields (fieldWriters (indent + 1) fields)) := by
  funext l
  rw [field]
  rfl

theorem field_list (items : List Value) : field indent name (.list items) = fun l =>
    if items.isEmpty then l.line indent (name ++ " = []")
    else l.block indent (name ++ " = [") "]" (runItems (indent + 1) items) := by
  funext l
  rw [field]
  rfl

theorem field_map (entries : List (UInt16 × Value)) : field indent name (.map entries) = fun l =>
    if entries.isEmpty then l.line indent (name ++ " = \x7b\x7d")
    else l.block indent (name ++ " = \x7b") "\x7d"
      (runEntries (entryWriters (indent + 1) entries)) := by
  funext l
  rw [field]
  rfl

theorem item_scalar {v : Value} {t : Text} (h : scalar? v = some t) :
    item indent v = line indent t := by
  funext l
  unfold item
  simp only [h]

theorem item_object (fields : List (Text × Value)) : item indent (.object fields) = fun l =>
    if fields.isEmpty then l.line indent "\x7b\x7d"
    else l.block indent "\x7b" "\x7d" (runFields (fieldWriters (indent + 1) fields)) := by
  funext l
  rw [item]
  rfl

theorem item_list (items : List Value) :
    item indent (.list items) = block indent "[" "]" (runItems (indent + 1) items) := by
  funext l
  rw [item]
  rfl

theorem item_map (entries : List (UInt16 × Value)) : item indent (.map entries)
    = fail (.item (Value.map entries).plain (Value.map entries).typeName) := by
  funext l
  unfold item
  rfl

end Equations

-- An empty object, list or map is written on one line.
theorem writes_ite {α : Type} {xs : List α} {P : α → Prop} {f g : Listing → Listing}
    (hempty : Writes f True) (h : Writes g (∀ x ∈ xs, P x)) :
    Writes (fun l => if xs.isEmpty then f l else g l) (∀ x ∈ xs, P x) := by
  cases xs with
  | nil => exact hempty.congr (by simp)
  | cons x xs => exact h

/-- Fields are written without error if they are listable, and items if they are no maps besides. -/
theorem writes_field {v : Value} (h : v.Made True) :
    (∀ indent name, Writes (field indent name v) v.Listable) ∧
      ∀ indent, Writes (item indent v) (v.Listable ∧ v.isMap = false) := by
  induction h with
  | @scalar v h =>
      rcases Option.isSome_iff_exists.1 h with ⟨t, ht⟩
      have hfree : v.Listable ∧ v.isMap = false := Value.Made.listable (.scalar h)
      constructor
      · intro indent name
        rw [field_scalar indent name ht]
        exact (Writes.line indent _).congr (by simp [hfree.1])
      · intro indent
        rw [item_scalar indent ht]
        exact (Writes.line indent _).congr (by simp [hfree])
  | @object fields h ih =>
      have hbody : ∀ indent, Writes (runFields (fieldWriters indent fields))
          (∀ e ∈ fields, e.2.Listable) := by
        intro indent
        rw [fieldWriters_eq]
        exact Writes.runFields fun e he => (ih e he).1 indent e.1
      constructor
      · intro indent name
        rw [field_object, Value.listable_object]
        exact writes_ite (Writes.line indent _) ((hbody (indent + 1)).block indent _ _)
      · intro indent
        have hnoMap : (Value.object fields).isMap = false := rfl
        rw [item_object, Value.listable_object, and_iff_left hnoMap]
        exact writes_ite (Writes.line indent _) ((hbody (indent + 1)).block indent _ _)
  | @list items h ih =>
      have hbody : ∀ indent, Writes (runItems indent items)
          (∀ v ∈ items, v.Listable ∧ v.isMap = false) := by
        intro indent
        rw [runItems_eq]
        exact Writes.foldl fun v hv => (ih v hv).2 indent
      constructor
      · intro indent name
        rw [field_list, Value.listable_list]
        exact writes_ite (Writes.line indent _) ((hbody (indent + 1)).block indent _ _)
      · intro indent
        have hnoMap : (Value.list items).isMap = false := rfl
        rw [item_list, Value.listable_list, and_iff_left hnoMap]
        exact (hbody (indent + 1)).block indent _ _
  | @map entries _ h ih =>
      have hbody : ∀ indent, Writes (runEntries (entryWriters indent entries))
          (∀ e ∈ entries, e.2.Listable) := by
        intro indent
        rw [entryWriters_eq]
        exact Writes.runEntries fun e he => (ih e he).1 indent _
      constructor
      · intro indent name
        rw [field_map, Value.listable_map]
        exact writes_ite (Writes.line indent _) ((hbody (indent + 1)).block indent _ _)
      · -- There is no notation for a map as an item.
        intro indent
        rw [item_map]
        exact (Writes.fail _).congr (by simp [Value.isMap])

/-- The listing of an object is complete if the object is listable, and only then. -/
theorem error_ofObject {obj : Object} (h : (Value.object obj).Made True) :
    (ofObject obj none).error = none ↔ (Value.object obj).Listable := by
  have hfields : ∀ e ∈ obj, e.2.Made True := by
    cases h with
    | scalar h => cases h
    | object h => exact h
  rw [ofObject, fieldWriters_eq, Value.listable_object]
  have hwrites : Writes (runFields (obj.map fun e => (e.1, field 0 e.1 e.2)))
      (∀ e ∈ obj, e.2.Listable) :=
    Writes.runFields fun e he => (writes_field (hfields e he)).1 0 e.1
  rw [(hwrites (empty none) rfl).2]
  exact and_iff_right rfl

end Listing

end NetlinkSchema
