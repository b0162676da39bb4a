import NetlinkSchema.Proofs.Bytes
import NetlinkSchema.Proofs.Outcome
import NetlinkSchema.Wire.Nested

/-!
# Streams of attributes

A walk over a stream gives back the attributes that were written to it, in order and without
flags. The padding in front of an attribute depends only on the size of the attribute before it,
so a stream is its first attribute, some padding, and the stream of the rest; the walk follows the
same split.

Writing is a state transformer that may fail. Each writer of this library either appends a list of
attributes, whatever was written before, or fails with one error. `Write.Yields` says which, and is
closed under the ways in which writers are put together, so that later proofs deal with lists of
attributes and not with streams under construction.

## Main definitions

* `Writer.addAll`, `Writer.stream`: Several attributes at once, and a stream made of them alone.
* `Attribute.plain`: The attribute that a type and a payload are read as.
* `Writer.accept`: A type and a payload that fit a header.
* `Write.Yields`: What a writer appends, or how it fails.

## Theorems

* `Writer.stream_cons_cons`: A stream is its first attribute, padding, and the rest.
* `Attribute.walk_stream`: A walk gives back what was written.
* `Attribute.size_le_of_mem_walk`: An attribute lies within the stream, its header included.
* `Write.Yields.toBytes`: The bytes of a writer are the stream of what it appends.
* `Nested.foldAttributes_eq`: Folding over a stream is folding over its walk.
-/

namespace NetlinkSchema

namespace Writer

/-- Appends attributes one after another. -/
def addAll (w : Writer) (as : List (UInt16 × Bytes)) : Writer :=
  as.foldl (fun w a => w.add a.1 a.2) w

/-- The stream of attributes. -/
def stream (as : List (UInt16 × Bytes)) : Bytes := (empty.addAll as).bytes

/-- The bytes of an attribute without flags. -/
def chunk (a : UInt16 × Bytes) : Bytes :=
  Attribute.header a.1 (Attribute.headerSize + a.2.length) ++ a.2

/-- The padding after `n` bytes. -/
def gap (n : Nat) : Bytes := Bytes.zeros ((4 - n % 4) % 4)

theorem length_chunk (a : UInt16 × Bytes) : (chunk a).length = 4 + a.2.length := by
  rw [chunk, Attribute.header, List.length_append, List.length_append, Bytes.length_ofNatLittle,
    Bytes.length_ofNatLittle]

theorem length_gap (n : Nat) : (gap n).length = (4 - n % 4) % 4 := Bytes.length_zeros _

theorem addAll_cons (w : Writer) (a : UInt16 × Bytes) (rest : List (UInt16 × Bytes)) :
    w.addAll (a :: rest) = (w.add a.1 a.2).addAll rest := List.foldl_cons ..

theorem addAll_append (w : Writer) (as bs : List (UInt16 × Bytes)) :
    w.addAll (as ++ bs) = (w.addAll as).addAll bs := List.foldl_append

theorem size_eq_length (w : Writer) : w.size = w.bytes.length := by
  simp [size, bytes]

theorem bytes_add (w : Writer) (a : UInt16 × Bytes) :
    (w.add a.1 a.2).bytes = w.bytes ++ w.padding ++ chunk a := by
  rw [add, bytes_append, bytes_append, bytes_append, chunk, List.append_assoc _ _ a.2]

/-- The padding after an attribute does not depend on what was written before it. -/
theorem padding_add (w : Writer) (a : UInt16 × Bytes) :
    (w.add a.1 a.2).padding = gap (4 + a.2.length) := by
  have hsize : (w.add a.1 a.2).size % 4 = (4 + a.2.length) % 4 := by
    rw [size_eq_length, bytes_add, List.length_append, List.length_append, length_chunk,
      padding, Bytes.length_zeros, size_eq_length]
    omega
  rw [padding, gap, hsize]

theorem bytes_empty_add (a : UInt16 × Bytes) : (empty.add a.1 a.2).bytes = chunk a := by
  rw [bytes_add]
  rfl

theorem stream_singleton (a : UInt16 × Bytes) : stream [a] = chunk a := by
  rw [stream, addAll_cons]
  exact bytes_empty_add a

theorem bytes_addAll_cons (w : Writer) (a : UInt16 × Bytes) (rest : List (UInt16 × Bytes)) :
    (w.addAll (a :: rest)).bytes = w.bytes ++ w.padding ++ stream (a :: rest) := by
  induction rest generalizing w a with
  | nil =>
      rw [stream_singleton]
      exact bytes_add w a
  | cons b rest ih =>
      have hleft : (w.addAll (a :: b :: rest)).bytes
          = (w.add a.1 a.2).bytes ++ (w.add a.1 a.2).padding ++ stream (b :: rest) := by
        rw [addAll_cons, ih]
      have hright : stream (a :: b :: rest)
          = (empty.add a.1 a.2).bytes ++ (empty.add a.1 a.2).padding ++ stream (b :: rest) := by
        rw [stream, addAll_cons, ih]
      rw [hleft, hright, bytes_empty_add, padding_add, padding_add, bytes_add]
      simp only [List.append_assoc]

/-- A stream is its first attribute, the padding after that, and the stream of the rest. -/
theorem stream_cons_cons (a b : UInt16 × Bytes) (rest : List (UInt16 × Bytes)) :
    stream (a :: b :: rest) = chunk a ++ gap (4 + a.2.length) ++ stream (b :: rest) := by
  rw [stream, addAll_cons, bytes_addAll_cons, bytes_empty_add, padding_add]

/-- Attributes without payload follow each other without padding. -/
theorem stream_empty (types : List UInt16) :
    stream (types.map fun type => (type, []))
      = types.flatMap fun type => Attribute.header type Attribute.headerSize := by
  induction types with
  | nil => rfl
  | cons type rest ih =>
      have hchunk : chunk (type, []) = Attribute.header type Attribute.headerSize := by simp [chunk]
      cases rest with
      | nil => rw [List.map_singleton, stream_singleton, hchunk, List.flatMap_singleton]
      | cons next rest =>
          rw [List.map_cons] at ih
          rw [List.map_cons, List.map_cons, stream_cons_cons, ih, hchunk, List.flatMap_cons]
          simp [gap, Bytes.zeros]

/-- A type and a payload, if they fit a header. -/
def accept (type : UInt16) (payload : Bytes) : Except WireError (UInt16 × Bytes) :=
  match refusal? type payload with
  | some e => .error e
  | none => .ok (type, payload)

theorem accept_eq_ok_iff {type : UInt16} {payload : Bytes} {a : UInt16 × Bytes} :
    accept type payload = .ok a ↔
      type.toNat ≤ 0x3FFF ∧ 4 + payload.length ≤ 0xFFFF ∧ a = (type, payload) := by
  unfold accept refusal?
  by_cases htype : Attribute.typeMask < type.toNat
  · rw [if_pos htype]
    constructor
    · intro h
      cases h
    · rintro ⟨h, -, -⟩
      exact absurd htype (Nat.not_lt.2 h)
  · rw [if_neg htype]
    by_cases hsize : Attribute.maxSize < Attribute.headerSize + payload.length
    · rw [if_pos hsize]
      constructor
      · intro h
        cases h
      · rintro ⟨-, h, -⟩
        exact absurd hsize (Nat.not_lt.2 h)
    · rw [if_neg hsize]
      constructor
      · intro h
        cases h
        exact ⟨Nat.not_lt.1 htype, Nat.not_lt.1 hsize, rfl⟩
      · rintro ⟨-, -, rfl⟩
        rfl

/-- A type that fits its field leaves one reason to refuse an attribute. -/
theorem unlessTooLong_accept {type : UInt16} (h : type.toNat ≤ 0x3FFF) (payload : Bytes) :
    UnlessTooLong (accept type payload) fun a => accept type payload = .ok a := by
  have htype : ¬ Attribute.typeMask < type.toNat := Nat.not_lt.2 h
  unfold accept refusal?
  rw [if_neg htype]
  by_cases hsize : Attribute.maxSize < Attribute.headerSize + payload.length
  · rw [if_pos hsize]
    exact ⟨_, _, rfl⟩
  · rw [if_neg hsize]
    rfl

end Writer

namespace Attribute

/-- The attribute that a type and a payload are read as. -/
def plain (a : UInt16 × Bytes) : Attribute := ⟨a.1, false, false, a.2⟩

theorem ofRawType_toNat {type : UInt16} (h : type.toNat ≤ 0x3FFF) (payload : Bytes) :
    ofRawType type.toNat payload = plain (type, payload) := by
  have hmod : type.toNat % 0x4000 = type.toNat := Nat.mod_eq_of_lt (by omega)
  have hnested : type.toNat / 0x8000 = 0 := Nat.div_eq_of_lt (by omega)
  have horder : type.toNat / 0x4000 = 0 := Nat.div_eq_of_lt (by omega)
  rw [ofRawType, hmod, hnested, horder, UInt16.ofNat_toNat]
  rfl

/-- An attribute that fits its header is read back, whatever follows it. -/
theorem parse_chunk {type : UInt16} {payload : Bytes} (htype : type.toNat ≤ 0x3FFF)
    (hsize : 4 + payload.length ≤ 0xFFFF) (rest : Bytes) :
    parse (Writer.chunk (type, payload) ++ rest)
      = .ok (plain (type, payload), 4 + payload.length) := by
  have hlen : Bytes.toNatLittle (Bytes.ofNatLittle 2 (4 + payload.length))
      = 4 + payload.length := by
    rw [Bytes.toNatLittle_ofNatLittle]
    exact Nat.mod_eq_of_lt (by omega)
  have hraw : Bytes.toNatLittle (Bytes.ofNatLittle 2 type.toNat) = type.toNat := by
    rw [Bytes.toNatLittle_ofNatLittle]
    exact Nat.mod_eq_of_lt (by omega)
  have hpayload : (payload ++ rest).take (4 + payload.length - headerSize) = payload := by
    rw [headerSize, Nat.add_sub_cancel_left, List.take_left]
  have hfit : ¬ (4 + payload.length < headerSize ∨
      payload.length < 4 + payload.length - headerSize) := by
    rw [headerSize]
    omega
  have hbytes : Writer.chunk (type, payload) ++ rest
      = UInt8.ofNat (4 + payload.length) :: UInt8.ofNat ((4 + payload.length) / 256)
        :: UInt8.ofNat type.toNat :: UInt8.ofNat (type.toNat / 256) :: (payload ++ rest) := rfl
  simp only [Bytes.ofNatLittle] at hlen hraw
  rw [hbytes, parse]
  simp only [hlen, hraw, hpayload]
  rw [if_neg hfit, ofRawType_toNat htype]

theorem walk_nil : walk [] = ([], none) := by
  rw [walk]
  rfl

/-- One step of a walk over a buffer that starts with an attribute. -/
theorem walk_of_parse {buf : Bytes} {a : Attribute} {n : Nat} (h : parse buf = .ok (a, n)) :
    walk buf = (a :: (walk (buf.drop (paddedSize n))).1, (walk (buf.drop (paddedSize n))).2) := by
  have hpos : buf.isEmpty = false := by
    cases buf with
    | nil => cases h
    | cons b rest => rfl
  rw [walk, hpos, if_neg Bool.false_ne_true]
  split
  · rename_i e he
    rw [h] at he
    cases he
  · rename_i a' n' ha
    rw [h] at ha
    cases ha
    rfl

/-- A walk gives back the attributes that were written to a stream. -/
theorem walk_stream {as : List (UInt16 × Bytes)} (h : ∀ a ∈ as, Writer.accept a.1 a.2 = .ok a) :
    walk (Writer.stream as) = (as.map plain, none) := by
  induction as with
  | nil => exact walk_nil
  | cons a rest ih =>
      rcases a with ⟨type, payload⟩
      rcases Writer.accept_eq_ok_iff.1 (h _ List.mem_cons_self) with ⟨htype, hsize, -⟩
      have hrest := ih fun b hb => h b (List.mem_cons_of_mem _ hb)
      cases rest with
      | nil =>
          -- The last attribute is followed by nothing, not even padding.
          have hparse := parse_chunk htype hsize []
          rw [List.append_nil] at hparse
          rw [Writer.stream_singleton, walk_of_parse hparse]
          have hdrop : (Writer.chunk (type, payload)).drop (paddedSize (4 + payload.length))
              = [] := by
            apply List.drop_eq_nil_of_le
            simp only [Writer.length_chunk, paddedSize]
            omega
          rw [hdrop, walk_nil]
          rfl
      | cons b rest =>
          rw [Writer.stream_cons_cons, List.append_assoc,
            walk_of_parse (parse_chunk htype hsize _), ← List.append_assoc]
          have hlen : (Writer.chunk (type, payload) ++ Writer.gap (4 + payload.length)).length
              = paddedSize (4 + payload.length) := by
            simp only [List.length_append, Writer.length_chunk, Writer.length_gap, paddedSize]
            omega
          rw [← hlen, List.drop_left, hrest]
          rfl

/-- An attribute lies within the stream that it comes from, its header included. -/
theorem size_le_of_mem_walk {buf : Bytes} {a : Attribute} (h : a ∈ (walk buf).1) :
    a.payload.length + headerSize ≤ buf.length := by
  fun_induction walk buf with
  | case1 => cases h
  | case2 => cases h
  | case3 buf _ b length hp rest e hw ih =>
    have hlen := parse_length hp
    rcases List.mem_cons.1 h with rfl | h
    · omega
    · rw [hw] at ih
      have := ih h
      simp only [List.length_drop] at this
      omega

/-- The type of an attribute that was read has 14 bits. -/
theorem type_le_of_mem_walk {buf : Bytes} {a : Attribute} (h : a ∈ (walk buf).1) :
    a.type.toNat ≤ 0x3FFF := by
  fun_induction walk buf with
  | case1 => cases h
  | case2 => cases h
  | case3 buf _ b length hp rest e hw ih =>
    rcases List.mem_cons.1 h with rfl | h
    · rcases buf with _ | ⟨l0, _ | ⟨l1, _ | ⟨t0, _ | ⟨t1, rest⟩⟩⟩⟩
      · cases hp
      · cases hp
      · cases hp
      · cases hp
      · simp only [parse] at hp
        split at hp
        · cases hp
        · cases hp
          simp only [ofRawType, UInt16.toNat_ofNat']
          omega
    · rw [hw] at ih
      exact ih h

end Attribute

namespace Write

/-- What a writer appends to any stream, or the error with which it fails on any stream. -/
def Yields (x : Write Unit) (r : Except WireError (List (UInt16 × Bytes))) : Prop :=
  match r with
  | .ok as => ∀ w, x w = .ok () (w.addAll as)
  | .error e => ∀ w, ∃ w', x w = .error e w'

namespace Yields

theorem nothing : Yields (pure ()) (.ok []) := fun _ => rfl

theorem failure (e : WireError) : Yields (throw e) (.error e) := fun w => ⟨w, rfl⟩

theorem failure_bind {α : Type} (e : WireError) (f : α → Write Unit) :
    Yields (throw e >>= f) (.error e) := fun w => ⟨w, rfl⟩

theorem put (type : UInt16) (payload : Bytes) :
    Yields (Write.put type payload) ((Writer.accept type payload).map fun a => [a]) := by
  unfold Writer.accept
  cases h : Writer.refusal? type payload with
  | some e =>
      intro w
      refine ⟨w, ?_⟩
      rw [Write.put, Writer.put, h]
  | none =>
      intro w
      rw [Write.put, Writer.put, h]
      rfl

/-- Two writers one after the other append what both append. -/
theorem seq {x y : Write Unit} {r s : Except WireError (List (UInt16 × Bytes))} (hx : Yields x r)
    (hy : Yields y s) :
    Yields (x >>= fun _ => y) (r >>= fun as => s.map fun bs => as ++ bs) := by
  cases r with
  | error e =>
      intro w
      rcases hx w with ⟨w', hw⟩
      refine ⟨w', ?_⟩
      change EStateM.bind x (fun _ => y) w = _
      rw [EStateM.bind, hw]
  | ok as =>
      have hbind : ∀ w, (x >>= fun _ => y) w = y (w.addAll as) := by
        intro w
        change EStateM.bind x (fun _ => y) w = _
        rw [EStateM.bind, hx w]
      cases s with
      | error e =>
          intro w
          rw [hbind]
          exact hy _
      | ok bs =>
          intro w
          rw [hbind, Writer.addAll_append]
          exact hy _

theorem lift_bind {α : Type} {x : Except WireError α} {f : α → Write Unit}
    {r : α → Except WireError (List (UInt16 × Bytes))} (h : ∀ a, Yields (f a) (r a)) :
    Yields (Write.lift x >>= f) (x >>= r) := by
  cases x with
  | error e => exact fun w => ⟨w, rfl⟩
  | ok a => exact h a

theorem mapError {x : Write Unit} {r : Except WireError (List (UInt16 × Bytes))}
    (place : WireError → WireError) (h : Yields x r) :
    Yields (Write.mapError place x) (r.mapError place) := by
  cases r with
  | error e =>
      intro w
      rcases h w with ⟨w', hw⟩
      refine ⟨w', ?_⟩
      rw [Write.mapError, hw]
  | ok as =>
      intro w
      rw [Write.mapError, h w]

/-- A writer for each element of a list appends all that they append. -/
theorem forM {α : Type} {g : α → Write Unit} {r : α → Except WireError (List (UInt16 × Bytes))}
    {xs : List α} (h : ∀ x ∈ xs, Yields (g x) (r x)) :
    Yields (xs.forM g) ((xs.mapM r).map List.flatten) := by
  induction xs with
  | nil => exact nothing
  | cons x xs ih =>
      have hrest := ih fun y hy => h y (List.mem_cons_of_mem _ hy)
      have hboth := (h x List.mem_cons_self).seq hrest
      have hflat : (List.mapM r (x :: xs)).map List.flatten
          = r x >>= fun as => ((xs.mapM r).map List.flatten).map fun bs => as ++ bs := by
        rw [List.mapM_cons]
        cases r x with
        | error e => rfl
        | ok as =>
            cases xs.mapM r with
            | error e => rfl
            | ok ass => rfl
      rw [hflat]
      exact hboth

/-- A writer of one attribute for each element of a list appends these attributes. -/
theorem forM_single {α : Type} {g : α → Write Unit} {r : α → Except WireError (UInt16 × Bytes)}
    {xs : List α} (h : ∀ x ∈ xs, Yields (g x) ((r x).map fun a => [a])) :
    Yields (xs.forM g) (xs.mapM r) := by
  have hflat : (xs.mapM fun x => (r x).map fun a => [a]).map List.flatten = xs.mapM r := by
    clear h
    induction xs with
    | nil => rfl
    | cons x xs ih =>
        rw [List.mapM_cons, List.mapM_cons, ← ih]
        cases r x with
        | error e => rfl
        | ok a =>
            cases xs.mapM fun x => (r x).map fun a => [a] with
            | error e => rfl
            | ok ass => rfl
  rw [← hflat]
  exact forM h

/-- The bytes of a writer are the stream of what it appends. -/
theorem toBytes {x : Write Unit} {r : Except WireError (List (UInt16 × Bytes))} (h : Yields x r) :
    x.toBytes = r.map Writer.stream := by
  cases r with
  | error e =>
      rcases h Writer.empty with ⟨w', hw⟩
      rw [Write.toBytes, EStateM.run, hw]
      rfl
  | ok as =>
      rw [Write.toBytes, EStateM.run, h Writer.empty]
      rfl

end Yields

end Write

namespace Nested

/-- Folding over a stream is folding over the attributes of its walk, with the error of the walk
    at the end. -/
theorem foldAttributes_eq {σ : Type} (buf : Bytes) (init : σ)
    (step : σ → Attribute → Except WireError σ) :
    foldAttributes buf init (fun s a _ => step s a) = (do
      let s ← (Attribute.walk buf).1.foldlM step init
      match (Attribute.walk buf).2 with
      | some e => throw e
      | none => return s) := by
  rw [foldAttributes]
  congr 1
  rw [List.foldlM_subtype (g := step) fun _ _ _ => rfl, List.unattach_attach]

/-- Folding over a stream succeeds exactly if its walk ends well and the fold over the attributes
    succeeds. -/
theorem foldAttributes_eq_ok_iff {σ : Type} {buf : Bytes} {init s : σ}
    {step : σ → Attribute → Except WireError σ} :
    foldAttributes buf init (fun s a _ => step s a) = .ok s ↔
      (Attribute.walk buf).2 = none ∧ (Attribute.walk buf).1.foldlM step init = .ok s := by
  rw [foldAttributes_eq, bind_eq_ok_iff]
  cases (Attribute.walk buf).2 with
  | some e =>
      constructor
      · rintro ⟨a, -, h⟩
        cases h
      · rintro ⟨h, -⟩
        cases h
  | none =>
      constructor
      · rintro ⟨a, ha, h⟩
        cases h
        exact ⟨rfl, ha⟩
      · rintro ⟨-, h⟩
        exact ⟨s, h, rfl⟩

/-- What one attribute does to an object whose fields are found by attribute type. -/
def fieldStep {α : Type} (find : UInt16 → Option α)
    (decode : α → Object → Bytes → Except WireError Object) (obj : Object) (a : Attribute) :
    Except WireError Object :=
  match find a.type with
  | none => .ok obj
  | some f => if a.netByteOrder then .error .netByteOrder else decode f obj a.payload

theorem getObject_eq {α : Type} (buf : Bytes) (find : UInt16 → Option α)
    (decode : α → Object → Bytes → Except WireError Object) :
    getObject buf (fun type => (find type).map fun f => fun obj d _ => decode f obj d)
      = foldAttributes buf [] fun obj a _ => fieldStep find decode obj a := by
  unfold getObject fieldStep
  congr 1
  funext obj a h
  beta_reduce
  cases find a.type with
  | none => rfl
  | some f => rfl

end Nested

end NetlinkSchema
