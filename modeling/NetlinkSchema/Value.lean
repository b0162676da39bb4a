import NetlinkSchema.Integer
import NetlinkSchema.Float.Notation

/-!
# Values

The dynamic values that are encoded and decoded: scalars, objects with named fields, lists, and
maps keyed by attribute type. Decoding makes only some of them; encoding also accepts sequences of
one element type and maps with other keys, which callers hand in as they have them.

The entries of objects and maps are kept in a list. Callers may hand them in in any order; keys are
distinct by convention, a look-up finds the first entry, and nothing that is printed or encoded
depends on the order. What decoding makes has its entries in the order of the keys, so that two
decoded objects with the same entries are equal.

## Main definitions

* `Value`: A dynamic value.
* `Value.typeName`: The name of a value's type in messages.
* `Value.items?`: The elements of any kind of sequence.
* `Value.depth`: How deeply sequences, objects and maps are nested.
* `Value.plain`: A value as messages show it.
-/

namespace NetlinkSchema

/-- A dynamic value. Floating-point numbers are their bit patterns. -/
inductive Value
  | null
  | bool (b : Bool)
  | int (i : Integer)
  | float32 (bits : UInt32)
  | float64 (bits : UInt64)
  | text (t : Text)
  | bytes (b : Bytes)
  /-- Values by field name. -/
  | object (fields : List (Text × Value))
  | list (items : List Value)
  /-- Values by attribute type. -/
  | map (entries : List (UInt16 × Value))
  /-- Values by number. -/
  | intMap (entries : List (Int64 × Value))
  /-- Texts by name. -/
  | textMap (entries : List (Text × Text))
  | texts (items : List Text)
  /-- Integers of one type; the number of them is part of the type if it is fixed. -/
  | ints (type : IntType) (fixed : Bool) (items : List Int)

/-- The named fields of an object. -/
abbrev Object := List (Text × Value)

namespace Value

instance : Inhabited Value := ⟨null⟩

/-- An integer of a given type, reduced to its range. -/
def ofInt (t : IntType) (x : Int) : Value := int (Integer.wrap t x)

/-- Whether the value is absent. -/
def isNull : Value → Bool
  | null => true
  | _ => false

/-- The name of the value's type in messages. -/
def typeName : Value → Text
  | null => "<nil>"
  | bool _ => "bool"
  | int i => i.type.name
  | float32 _ => "float32"
  | float64 _ => "float64"
  | text _ => "string"
  | bytes _ => "[]uint8"
  | object _ => "map[string]interface {}"
  | list _ => "[]interface {}"
  | map _ => "map[uint16]interface {}"
  | intMap _ => "map[int]interface {}"
  | textMap _ => "map[string]string"
  | texts _ => "[]string"
  | ints type fixed items =>
    let length : Text := if fixed then Text.ofNat items.length else ""
    "[" ++ length ++ "]" ++ type.name

/-- The elements of a sequence. The elements of a byte string are small integers. -/
def items? : Value → Option (List Value)
  | list items => some items
  | bytes b => some (b.map fun x => ofInt .uint8 x.toNat)
  | texts items => some (items.map text)
  | ints type _ items => some (items.map (ofInt type))
  | _ => none

/-- The number as a signed word, if the value is an integer that fits one. -/
def toInt64? : Value → Option Int64
  | int i => i.toInt64?
  | _ => none

/-- The number as an unsigned word, if the value is an integer that is not negative. -/
def toUInt64? : Value → Option UInt64
  | int i => i.toUInt64?
  | _ => none

mutual

/-- How deeply sequences, objects and maps are nested in the value. -/
def depth : Value → Nat
  | object fields => fieldsDepth fields + 1
  | list items => itemsDepth items + 1
  | map entries => entriesDepth entries + 1
  | intMap entries => intEntriesDepth entries + 1
  | bytes _ | textMap _ | texts _ | ints _ _ _ => 1
  | _ => 0

/-- The greatest depth of a list of values. -/
def itemsDepth : List Value → Nat
  | [] => 0
  | v :: rest => max v.depth (itemsDepth rest)

/-- The greatest depth of the values of an object. -/
def fieldsDepth : List (Text × Value) → Nat
  | [] => 0
  | (_, v) :: rest => max v.depth (fieldsDepth rest)

/-- The greatest depth of the values of a map. -/
def entriesDepth : List (UInt16 × Value) → Nat
  | [] => 0
  | (_, v) :: rest => max v.depth (entriesDepth rest)

/-- The greatest depth of the values of a map. -/
def intEntriesDepth : List (Int64 × Value) → Nat
  | [] => 0
  | (_, v) :: rest => max v.depth (intEntriesDepth rest)

end

theorem depth_le_itemsDepth {v : Value} {items : List Value} (h : v ∈ items) :
    v.depth ≤ itemsDepth items := by
  induction items with
  | nil => cases h
  | cons x rest ih =>
    rcases List.mem_cons.1 h with rfl | h
    · exact Nat.le_max_left _ _
    · exact Nat.le_trans (ih h) (Nat.le_max_right _ _)

theorem depth_le_fieldsDepth {k : Text} {v : Value} {fields : List (Text × Value)}
    (h : (k, v) ∈ fields) : v.depth ≤ fieldsDepth fields := by
  induction fields with
  | nil => cases h
  | cons x rest ih =>
    rcases List.mem_cons.1 h with rfl | h
    · exact Nat.le_max_left _ _
    · exact Nat.le_trans (ih h) (Nat.le_max_right _ _)

theorem depth_le_entriesDepth {k : UInt16} {v : Value} {entries : List (UInt16 × Value)}
    (h : (k, v) ∈ entries) : v.depth ≤ entriesDepth entries := by
  induction entries with
  | nil => cases h
  | cons x rest ih =>
    rcases List.mem_cons.1 h with rfl | h
    · exact Nat.le_max_left _ _
    · exact Nat.le_trans (ih h) (Nat.le_max_right _ _)

theorem depth_le_intEntriesDepth {k : Int64} {v : Value} {entries : List (Int64 × Value)}
    (h : (k, v) ∈ entries) : v.depth ≤ intEntriesDepth entries := by
  induction entries with
  | nil => cases h
  | cons x rest ih =>
    rcases List.mem_cons.1 h with rfl | h
    · exact Nat.le_max_left _ _
    · exact Nat.le_trans (ih h) (Nat.le_max_right _ _)

/-- An element of a sequence is nested less deeply than the sequence. -/
theorem depth_lt_of_mem_items {v item : Value} {items : List Value} (h : v.items? = some items)
    (hm : item ∈ items) : item.depth < v.depth := by
  cases v <;> simp only [items?, Option.some.injEq, reduceCtorEq] at h
  case list xs =>
    subst h
    exact Nat.lt_succ_of_le (depth_le_itemsDepth hm)
  all_goals
    subst h
    obtain ⟨x, -, rfl⟩ := List.mem_map.1 hm
    simp [depth, ofInt]

mutual

/-- The value as messages show it: sequences in brackets, maps sorted by key. -/
def plain : Value → Text
  | null => "<nil>"
  | bool b => if b then "true" else "false"
  | int i => i.toText
  | float32 bits => FloatNotation.plain.write .single bits.toNat
  | float64 bits => FloatNotation.plain.write .double bits.toNat
  | text t => t
  | bytes b => plainList (b.map fun x => Text.ofNat x.toNat)
  | object fields => plainMap id Text.le (plainFields fields)
  | list items => plainList (plainItems items)
  | map entries => plainMap (fun k => Text.ofNat k.toNat) (fun a b => a ≤ b) (plainEntries entries)
  | intMap entries =>
    plainMap (fun k => Text.ofInt k.toInt) (fun a b => a ≤ b) (plainIntEntries entries)
  | textMap entries => plainMap id Text.le entries
  | texts items => plainList items
  | ints type _ items => plainList (items.map fun x => Text.ofInt (type.reduce x))
where
  /-- Elements in brackets, with blanks between them. -/
  plainList (items : List Text) : Text := "[" ++ Text.join " " items ++ "]"
  /-- Entries after their keys, in the order of the keys. -/
  plainMap {κ : Type} (key : κ → Text) (le : κ → κ → Bool) (entries : List (κ × Text)) : Text :=
    let sorted := sortBy (fun a b => le a.1 b.1) entries
    "map[" ++ Text.join " " (sorted.map fun e => key e.1 ++ ":" ++ e.2) ++ "]"

/-- The elements of a list as messages show them. -/
def plainItems : List Value → List Text
  | [] => []
  | v :: rest => v.plain :: plainItems rest

/-- The fields of an object as messages show them. -/
def plainFields : List (Text × Value) → List (Text × Text)
  | [] => []
  | (k, v) :: rest => (k, v.plain) :: plainFields rest

/-- The entries of a map as messages show them. -/
def plainEntries : List (UInt16 × Value) → List (UInt16 × Text)
  | [] => []
  | (k, v) :: rest => (k, v.plain) :: plainEntries rest

/-- The entries of a map as messages show them. -/
def plainIntEntries : List (Int64 × Value) → List (Int64 × Text)
  | [] => []
  | (k, v) :: rest => (k, v.plain) :: plainIntEntries rest

end

end Value

namespace Object

/-- The value of a field; a field that is not there is absent. -/
def get (obj : Object) (name : Text) : Value :=
  match obj.find? (·.1 == name) with
  | some (_, v) => v
  | none => .null

/-- A field's value is nested less deeply than the object. -/
theorem depth_get_lt (obj : Object) (name : Text) :
    (Object.get obj name).depth < (Value.object obj).depth := by
  unfold get
  split
  · rename_i h
    exact Nat.lt_succ_of_le (Value.depth_le_fieldsDepth (List.mem_of_find?_eq_some h))
  · simp [Value.depth]

/-- Sets a field: the old value is replaced, a new field goes to its place in the order of
    names. -/
def set (obj : Object) (name : Text) (v : Value) : Object :=
  match obj with
  | [] => [(name, v)]
  | (k, old) :: rest =>
    if k == name then (k, v) :: rest
    else if k.le name then (k, old) :: set rest name v
    else (name, v) :: (k, old) :: rest

/-- The fields sorted by name. -/
def sorted (obj : Object) : Object := sortBy (fun a b => a.1.le b.1) obj

end Object

end NetlinkSchema
