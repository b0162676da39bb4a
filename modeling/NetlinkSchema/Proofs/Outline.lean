import NetlinkSchema.Codec.Payload
import NetlinkSchema.Proofs.Object
import NetlinkSchema.Proofs.Stream

/-!
# Payloads as lists of attributes

The codecs of arrays, maps and attribute sets, stated as equations between streams and lists. An
encoder makes a list of attributes, one element after another, and the payload is the stream of
that list; a decoder walks over the stream, decodes each attribute on its own, and puts the results
together. The equations carry none of the evidence by which the codecs of recursive types end.

Decoding an attribute does not depend on those before it, except that an array counts. So a fold
over the attributes is split into a part that may fail, attribute by attribute, and a part that
only collects: the elements of a list, the entries of a map, the occurrences of fields.

## Main definitions

* `Payload.element`, `Payload.entry`, `Field.occurrence`: One attribute of an array, of a map and of
  an attribute set.
* `Field.attributes`: All attributes of a field of an object.
* `Payload.readElement`, `Payload.readEntry`, `Payload.readField`: What one attribute is decoded to.

## Theorems

* `Payload.encode_array`, `Payload.encode_map`, `Payload.encode_attrs`: The encoders.
* `Payload.decode_array`, `Payload.decode_map`, `Payload.decode_attrs`: The decoders.
-/

namespace NetlinkSchema

theorem mapM_attach {ε α β : Type} (xs : List α) (f : α → Except ε β) :
    xs.attach.mapM (fun x => f x.1) = xs.mapM f := by
  rw [List.mapM_subtype (g := f) fun _ _ => rfl, List.unattach_attach]

/-- A fold whose steps fail without regard to what was collected is a traversal, after which
    everything is collected. -/
theorem foldlM_eq_mapM {ε α β σ : Type} (read : α → Except ε β) (collect : σ → β → σ)
    (xs : List α) (init : σ) :
    xs.foldlM (fun s x => (read x).map (collect s)) init
      = (xs.mapM read).map fun ys => ys.foldl collect init := by
  induction xs generalizing init with
  | nil => rfl
  | cons x xs ih =>
      rw [List.foldlM_cons, List.mapM_cons]
      cases read x with
      | error e => rfl
      | ok y =>
          rw [map_ok, ok_bind, ok_bind, ih]
          cases xs.mapM read with
          | error e => rfl
          | ok ys => rfl

namespace Payload

variable (sets : AttrSets)

section Array

/-- The attribute of an element of an array, given with its place. -/
def element (zero : Bool) (elem : Payload) (item : Value × Nat) :
    Except WireError (UInt16 × Bytes) := do
  let payload ← (elem.encode sets item.1).mapError (.element item.2)
  if Attribute.typeMask < Nested.firstIndex zero + item.2 then
    throw (.bound .attributeType Attribute.typeMask (Nested.firstIndex zero + item.2 : Nat))
  Writer.accept (UInt16.ofNat (Nested.firstIndex zero + item.2)) payload

theorem encode_array {zero : Bool} {elem : Payload} {v : Value} {items : List Value}
    (h : v.items? = some items) :
    (array zero elem).encode sets v
      = (items.zipIdx.mapM (element sets zero elem)).map Writer.stream := by
  have hplain : items.zipIdx = items.attach.zipIdx.map (Prod.map Subtype.val id) := by
    rw [List.map_zipIdx, List.attach_map_subtype_val]
  rw [encode, hplain, List.mapM_map]
  unfold Nested.putArray
  split
  · rename_i hnone
    rw [h] at hnone
    cases hnone
  · rename_i items' hitems
    obtain rfl : items' = items := Option.some.inj (hitems.symm.trans h)
    refine (Write.Yields.forM_single ?_).toBytes
    rintro ⟨item, i⟩ -
    simp only [Function.comp_apply, Prod.map_apply, id_eq, element]
    cases elem.encode sets item.1 with
    | error e => exact Write.Yields.failure_bind _ _
    | ok payload =>
        simp only [Except.mapError, ok_bind, pure_bind]
        by_cases hi : Attribute.typeMask < Nested.firstIndex zero + i
        · rw [if_pos hi, if_pos hi]
          exact Write.Yields.failure_bind _ _
        · rw [if_neg hi, if_neg hi]
          exact Write.Yields.put _ _

theorem items?_of_encode_array {zero : Bool} {elem : Payload} {v : Value} {b : Bytes}
    (h : (array zero elem).encode sets v = .ok b) : ∃ items, v.items? = some items := by
  cases hitems : v.items? with
  | some items => exact ⟨items, rfl⟩
  | none =>
      rw [encode] at h
      unfold Nested.putArray at h
      split at h
      · cases h
      · rename_i hsome
        rw [hitems] at hsome
        cases hsome

/-- What an attribute of an array is decoded to, given with its place. -/
def readElement (zero : Bool) (elem : Payload) (a : Attribute × Nat) : Except WireError Value := do
  if a.1.type.toNat ≠ Nested.firstIndex zero + a.2 then
    throw (.bound .sequence (Nested.firstIndex zero + a.2 : Nat) a.1.type.toNat)
  if a.1.netByteOrder then throw .netByteOrder
  (elem.decode sets a.1.payload).mapError (.element a.2)

-- The array that is collected so far is as long as the number of attributes that were passed.
theorem foldlM_readElement (zero : Bool) (elem : Payload) (as : List Attribute)
    (items : Array Value) :
    as.foldlM (fun (items : Array Value) a =>
        (readElement sets zero elem (a, items.size)).map items.push) items
      = ((as.zipIdx items.size).mapM (readElement sets zero elem)).map
          fun vs => items ++ vs.toArray := by
  induction as generalizing items with
  | nil => simp
  | cons a as ih =>
      rw [List.foldlM_cons, List.zipIdx_cons, List.mapM_cons]
      cases readElement sets zero elem (a, items.size) with
      | error e => rfl
      | ok v =>
          rw [map_ok, ok_bind, ok_bind, ih, Array.size_push]
          cases (as.zipIdx (items.size + 1)).mapM (readElement sets zero elem) with
          | error e => rfl
          | ok vs => simp

theorem getArray_eq (zero : Bool) (elem : Payload) (data : Bytes) :
    Nested.getArray data zero (fun d _ => elem.decode sets d)
      = (Nested.foldAttributes data #[] fun items a _ =>
          (readElement sets zero elem (a, items.size)).map items.push).map Array.toList := by
  have hlist : ∀ {x y : Except WireError (Array Value)}, x = y →
      (x >>= fun items => pure items.toList) = y.map Array.toList := by
    rintro x y rfl
    cases x with
    | error e => rfl
    | ok items => rfl
  unfold Nested.getArray
  refine hlist ?_
  congr 1
  funext items a _
  unfold readElement
  beta_reduce
  by_cases hindex : a.type.toNat ≠ Nested.firstIndex zero + items.size
  · simp only [if_pos hindex]
    rfl
  · simp only [if_neg hindex]
    cases a.netByteOrder with
    | true => rfl
    | false =>
        cases elem.decode sets a.payload with
        | error e => rfl
        | ok v => rfl

theorem decode_array {zero : Bool} {elem : Payload} {data : Bytes} {v : Value} :
    (array zero elem).decode sets data = .ok v ↔ (Attribute.walk data).2 = none ∧
      ∃ vs, (Attribute.walk data).1.zipIdx.mapM (readElement sets zero elem) = .ok vs ∧
        v = .list vs := by
  rw [decode, getArray_eq, bind_eq_ok_iff]
  simp only [map_eq_ok_iff, pure_eq_ok, Except.ok.injEq, Nested.foldAttributes_eq_ok_iff,
    foldlM_readElement]
  constructor
  · rintro ⟨items, ⟨arr, ⟨hend, vs, hvs, rfl⟩, rfl⟩, rfl⟩
    exact ⟨hend, vs, hvs, by simp⟩
  · rintro ⟨hend, vs, hvs, rfl⟩
    exact ⟨vs, ⟨#[] ++ vs.toArray, ⟨hend, vs, hvs, rfl⟩, by simp⟩, rfl⟩

end Array

section Map

/-- The attribute of an entry of a map. -/
def entry (elem : Payload) (e : UInt16 × Value) : Except WireError (UInt16 × Bytes) := do
  let payload ← (elem.encode sets e.2).mapError (.element e.1.toNat)
  Writer.accept e.1 payload

/-- The keys and values of any kind of map. -/
def pairs (v : Value) : Except WireError (List (UInt16 × Value)) :=
  (Nested.entries v).map (List.map fun e => (e.key, e.value))

theorem encode_map (elem : Payload) (v : Value) :
    (map elem).encode sets v = (do
      let es ← pairs v
      ((sortBy (fun a b => decide (a.1 ≤ b.1)) es).mapM (entry sets elem)).map Writer.stream) := by
  have hyields : Write.Yields (Nested.putMap v fun item _ => elem.encode sets item)
      (Nested.entries v >>= fun es =>
        (sortBy (fun a b => decide (a.key ≤ b.key)) es).mapM fun e =>
          entry sets elem (e.key, e.value)) := by
    refine Write.Yields.lift_bind fun es => Write.Yields.forM_single fun e _ => ?_
    simp only [entry]
    cases elem.encode sets e.value with
    | error err => exact Write.Yields.failure_bind _ _
    | ok payload => exact Write.Yields.put _ _
  rw [encode, hyields.toBytes, pairs]
  cases Nested.entries v with
  | error e => rfl
  | ok es =>
      rw [ok_bind, map_ok, ok_bind, sortBy_map, List.mapM_map]
      rfl

/-- What an attribute of a map is decoded to. -/
def readEntry (elem : Payload) (a : Attribute) : Except WireError (UInt16 × Value) := do
  if a.netByteOrder then throw .netByteOrder
  let v ← (elem.decode sets a.payload).mapError (.element a.type.toNat)
  return (a.type, v)

theorem getMap_eq (elem : Payload) (data : Bytes) :
    Nested.getMap data (fun d _ => elem.decode sets d)
      = Nested.foldAttributes data [] fun m a _ =>
          (readEntry sets elem a).map fun e => Nested.setEntry e.1 e.2 m := by
  unfold Nested.getMap
  congr 1
  funext m a _
  unfold readEntry
  beta_reduce
  cases a.netByteOrder with
  | true => rfl
  | false =>
      cases elem.decode sets a.payload with
      | error e => rfl
      | ok v => rfl

theorem decode_map {elem : Payload} {data : Bytes} {v : Value} :
    (map elem).decode sets data = .ok v ↔ (Attribute.walk data).2 = none ∧
      ∃ es, (Attribute.walk data).1.mapM (readEntry sets elem) = .ok es ∧
        v = .map (es.foldl (fun m e => Nested.setEntry e.1 e.2 m) []) := by
  rw [decode, getMap_eq, bind_eq_ok_iff]
  simp only [Nested.foldAttributes_eq_ok_iff, pure_eq_ok, Except.ok.injEq]
  have hfold := foldlM_eq_mapM (readEntry sets elem)
    (fun m e => Nested.setEntry e.1 e.2 m) (Attribute.walk data).1 []
  simp only [hfold, map_eq_ok_iff]
  constructor
  · rintro ⟨m, ⟨hend, es, hes, rfl⟩, rfl⟩
    exact ⟨hend, es, hes, rfl⟩
  · rintro ⟨hend, es, hes, rfl⟩
    exact ⟨_, ⟨hend, es, hes, rfl⟩, rfl⟩

end Map

end Payload

namespace Field

/-- The attribute of one occurrence of a field, or none if the value is left out. -/
def occurrence (sets : AttrSets) (type : Text) (f : Field) (x : Value) :
    Except WireError (List (UInt16 × Bytes)) :=
  if f.payload.omits x then .ok []
  else ((f.payload.encode sets x >>= Writer.accept f.index).mapError
    (WireError.field type f.name)).map fun a => [a]

/-- The attributes of all occurrences of a field, given its value. -/
def valueAttributes (sets : AttrSets) (type : Text) (f : Field) (v : Value) :
    Except WireError (List (UInt16 × Bytes)) :=
  if f.repeated then
    match v.items? with
    | none => .error (.field type f.name (.unexpectedType "list of repeated values" v.typeName))
    | some items => (items.mapM (f.occurrence sets type)).map List.flatten
  else f.occurrence sets type v

/-- The attributes of a field of an object. -/
def attributes (sets : AttrSets) (type : Text) (obj : Object) (f : Field) :
    Except WireError (List (UInt16 × Bytes)) :=
  if (Object.get obj f.name).isNull then .ok []
  else f.valueAttributes sets type (Object.get obj f.name)

/-- The object of occurrences that are stored one after another. -/
def storeAll (occurrences : List (Field × Value)) : Object :=
  occurrences.foldl (fun obj o => o.1.store obj o.2) []

end Field

namespace Nested

/-- Writing an object appends the attributes of its fields in the order of the declarations. -/
theorem yields_putObject {α : Type} {obj : Object} {fields : List α} {writer : α → FieldWriter obj}
    {r : α → Value → Except WireError (List (UInt16 × Bytes))}
    (h : ∀ f v hv, Write.Yields ((writer f).write v hv) (r f v)) :
    Write.Yields (putObject obj (fields.map writer))
      (match firstUndeclared? obj (fields.map fun f => (writer f).name) with
        | some key => .error (.undeclaredKey key)
        | none => (fields.mapM fun f =>
            if (Object.get obj (writer f).name).isNull then .ok []
            else r f (Object.get obj (writer f).name)).map List.flatten) := by
  have hnames : (fields.map writer).map (·.name) = fields.map fun f => (writer f).name :=
    List.map_map
  unfold putObject
  rw [hnames]
  cases firstUndeclared? obj (fields.map fun f => (writer f).name) with
  | some key => exact Write.Yields.failure_bind _ _
  | none =>
      have hforM : ∀ (fs : List α) (g : FieldWriter obj → Write Unit),
          (fs.map writer).forM g = fs.forM fun f => g (writer f) := by
        intro fs g
        induction fs with
        | nil => rfl
        | cons f fs ih => exact congrArg (g (writer f) >>= ·) (funext fun _ => ih)
      simp only [hforM]
      refine Write.Yields.forM fun f _ => ?_
      split
      · exact Write.Yields.nothing
      · exact h f _ _

end Nested

namespace Payload

variable (sets : AttrSets)

theorem yields_occurrence (type : Text) (f : Field) (x : Value) :
    Write.Yields
      (if f.payload.omits x then pure ()
        else Write.mapError (.field type f.name) do
          let data ← Write.lift (f.payload.encode sets x)
          Write.put f.index data)
      (f.occurrence sets type x) := by
  unfold Field.occurrence
  split
  · exact Write.Yields.nothing
  · have hput : Write.Yields (do
        let data ← Write.lift (f.payload.encode sets x)
        Write.put f.index data)
        ((f.payload.encode sets x >>= Writer.accept f.index).map fun a => [a]) := by
      have hbind := Write.Yields.lift_bind (x := f.payload.encode sets x)
        fun data => Write.Yields.put f.index data
      cases hdata : f.payload.encode sets x with
      | error e =>
          rw [hdata] at hbind
          exact hbind
      | ok data =>
          rw [hdata] at hbind
          exact hbind
    have hplace := hput.mapError (WireError.field type f.name)
    cases hr : f.payload.encode sets x >>= Writer.accept f.index with
    | error e =>
        rw [hr] at hplace
        exact hplace
    | ok a =>
        rw [hr] at hplace
        exact hplace

theorem encode_attrs (name : Text) (obj : Object) :
    (attrs name).encode sets (.object obj) =
      match Nested.firstUndeclared? obj ((sets.fields name).map Field.name) with
      | some key => .error (.undeclaredKey key)
      | none => ((sets.fields name).mapM (Field.attributes sets name obj)).map
          fun ass => Writer.stream ass.flatten := by
  rw [encode]
  refine (Write.Yields.toBytes (Nested.yields_putObject (r := Field.valueAttributes sets name)
    fun f v hv => ?_)).trans ?_
  · unfold Field.valueAttributes
    simp only
    split
    · split
      · rename_i hitems
        rw [hitems]
        exact Write.Yields.failure _
      · rename_i items hitems
        simp only [hitems]
        rw [← mapM_attach]
        exact Write.Yields.forM fun item _ => yields_occurrence sets name f item.1
    · exact yields_occurrence sets name f v
  · simp only
    cases Nested.firstUndeclared? obj ((sets.fields name).map Field.name) with
    | some key => rfl
    | none =>
        change Except.map _ (Except.map _ ((sets.fields name).mapM
          (Field.attributes sets name obj))) = _
        cases (sets.fields name).mapM (Field.attributes sets name obj) with
        | error e => rfl
        | ok ass => rfl

/-- The field of an attribute type. -/
def fieldOf? (name : Text) (type : UInt16) : Option Field :=
  (AttrSets.fields sets name).find? (·.index == type)

/-- What an attribute of a set is decoded to; an attribute that is not declared is skipped. -/
def readField (name : Text) (a : Attribute) : Except WireError (Option (Field × Value)) :=
  match fieldOf? sets name a.type with
  | none => .ok none
  | some f =>
    if a.netByteOrder then .error .netByteOrder
    else ((f.payload.decode sets a.payload).mapError (WireError.field name f.name)).map
      fun v => some (f, v)

/-- Stores what an attribute was decoded to. -/
def collect (obj : Object) : Option (Field × Value) → Object
  | none => obj
  | some (f, v) => f.store obj v

theorem foldl_collect (os : List (Option (Field × Value))) (obj : Object) :
    os.foldl collect obj = (os.filterMap id).foldl (fun obj o => o.1.store obj o.2) obj := by
  induction os generalizing obj with
  | nil => rfl
  | cons o os ih =>
      cases o with
      | none => exact ih obj
      | some o => exact ih (o.1.store obj o.2)

theorem getObject_eq (name : Text) (data : Bytes) :
    (Nested.getObject data fun type =>
      ((sets.fields name).find? (·.index == type)).map fun f => fun obj d _ =>
        match f.payload.decode sets d with
        | .ok v => .ok (f.store obj v)
        | .error e => .error (.field name f.name e))
      = Nested.foldAttributes data [] fun obj a _ => (readField sets name a).map (collect obj) := by
  refine (Nested.getObject_eq data (fieldOf? sets name) fun f obj d =>
    match f.payload.decode sets d with
    | .ok v => .ok (f.store obj v)
    | .error e => .error (.field name f.name e)).trans ?_
  congr 1
  funext obj a _
  unfold Nested.fieldStep readField
  cases fieldOf? sets name a.type with
  | none => rfl
  | some f =>
      cases a.netByteOrder with
      | true => rfl
      | false =>
          simp only [Bool.false_eq_true, if_false]
          cases f.payload.decode sets a.payload with
          | error e => rfl
          | ok v => rfl

theorem decode_attrs {name : Text} {data : Bytes} {v : Value} :
    (attrs name).decode sets data = .ok v ↔ (Attribute.walk data).2 = none ∧
      ∃ os, (Attribute.walk data).1.mapM (readField sets name) = .ok os ∧
        v = .object (Field.storeAll (os.filterMap id)) := by
  have hfold : (attrs name).decode sets data = (do
      let obj ← Nested.foldAttributes data [] fun obj a _ =>
        (readField sets name a).map (collect obj)
      return .object obj) := by
    rw [decode]
    exact congrArg (· >>= fun obj => pure (Value.object obj)) (getObject_eq sets name data)
  rw [hfold, bind_eq_ok_iff]
  simp only [Nested.foldAttributes_eq_ok_iff, pure_eq_ok, Except.ok.injEq, foldlM_eq_mapM,
    map_eq_ok_iff, foldl_collect]
  constructor
  · rintro ⟨obj, ⟨hend, os, hos, rfl⟩, rfl⟩
    exact ⟨hend, os, hos, rfl⟩
  · rintro ⟨hend, os, hos, rfl⟩
    exact ⟨_, ⟨hend, os, hos, rfl⟩, rfl⟩

end Payload

end NetlinkSchema
