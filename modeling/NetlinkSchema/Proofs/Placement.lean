import NetlinkSchema.Proofs.Layout

/-!
# Where the members of a struct are

There are two ways to find the members of a struct in a buffer. If their sizes are known where the
struct is declared, their offsets can be computed once and kept. Otherwise they are walked over with
a cursor that is moved on by the size of each. Both take slices of the whole buffer, and a nested
struct is found in its own way, whatever the way of the struct around it.

Here the two ways are spelled out, for any choice of the structs with fixed offsets, and shown to
come to the same as taking one member after another off the front of the buffer.

## Main definitions

* `MemberType.offsets`: The offsets of members that follow each other.
* `MemberType.decodePlaced`, `MemberType.writePlaced`: Decoding and writing at offsets, which are
  fixed or found on the way.
* `Layout.decodePlaced`, `Layout.encodeIntoPlaced`: The same of structs.

## Theorems

* `MemberType.length_write`: Writing does not change the length of a buffer.
* `MemberType.decodePlaced_congr`, `MemberType.writePlaced_congr`: It does not matter which structs
  have fixed offsets.
* `MemberType.decodePlaced_eq`, `MemberType.writePlaced_eq`: Members are the same at their offsets
  as one after another.
* `Layout.samePlaced`, `Layout.Sized.placed`: The same of structs.
-/

namespace NetlinkSchema

namespace Bytes

/-- The bytes of a buffer from an offset on. -/
def slice (buf : Bytes) (offset size : Int64) : Bytes :=
  (buf.drop offset.toNatClampNeg).take size.toNatClampNeg

/-- A buffer in which the bytes from an offset on are replaced. -/
def splice (buf : Bytes) (offset : Int64) (piece : Bytes) : Bytes :=
  buf.take offset.toNatClampNeg ++ piece ++ buf.drop (offset.toNatClampNeg + piece.length)

theorem length_overwrite (buf new : Bytes) : (overwrite buf new).length = buf.length := by
  rw [overwrite, List.length_append, List.length_take, List.length_drop]
  omega

end Bytes

namespace MemberType

section Definitions

/-- The offsets of members that follow each other from an offset on. -/
def offsets (offset : Int64) : Members → List Int64
  | [] => []
  | (_, t) :: rest => offset :: offsets (offset + t.size) rest

/-- Where a member begins: at its offset if the struct has fixed ones, and else at the cursor. -/
def start (fixed : Bool) (offsets : List Int64) (cursor : Int64) : Int64 :=
  if fixed then offsets.headD 0 else cursor

variable (settled : List Text)

mutual

/-- Decodes the bytes of a member, in which settled structs have fixed offsets. -/
def decodePlaced : MemberType → Bytes → Except WireError Value
  | bytes count, buf => (bytes count).decode buf
  | bool, buf => bool.decode buf
  | number num lower, buf => (number num lower).decode buf
  | struct name members, buf => do
    checkSize name (membersSize members).toInt buf
    return .object (← decodeFrom name members (offsets 0 members) 0 buf)
  | array count elem, buf => do
    let n := count.toNatClampNeg
    return .list (← (pieces (buf.length / n) n buf).mapM elem.decodePlaced)

/-- Decodes members from a cursor on, each from its slice of the buffer. -/
def decodeFrom (type : Text) :
    List (Text × MemberType) → List Int64 → Int64 → Bytes → Except WireError Object
  | [], _, _, _ => .ok []
  | (name, t) :: rest, fixed, cursor, buf =>
    let offset := start (settled.contains type) fixed cursor
    match t.decodePlaced (buf.slice offset t.size) with
    | .error e => throw (.field type name e)
    | .ok v => do
      let others ← decodeFrom type rest fixed.tail (offset + t.size) buf
      return Object.set others name v

end

mutual

/-- Writes a value over the bytes of a member, in which settled structs have fixed offsets. -/
def writePlaced : MemberType → Value → Bytes → Written
  | bytes count, v, buf => (bytes count).write v buf
  | bool, v, buf => bool.write v buf
  | number num lower, v, buf => (number num lower).write v buf
  | struct name members, v, buf =>
    match v with
    | .object obj =>
      match checkSize name (membersSize members).toInt buf with
      | .error e => (buf, some e)
      | .ok () =>
        match firstUndeclared? obj (members.map (·.1)) with
        | some key => (buf, some (.field name key .undeclared))
        | none => writeFrom name members (offsets 0 members) 0 obj buf
    | _ => (buf, some (.unexpectedType name v.typeName))
  | array count elem, v, buf =>
    match v.items? with
    | none => (buf, some (.unexpectedType "array" v.typeName))
    | some items =>
      if items.length = count.toInt then
        writeItems (buf.length / items.length) elem.writePlaced items buf
      else (buf, some (.bound .count count.toInt items.length))

/-- Writes members from a cursor on, each over its slice of the buffer. -/
def writeFrom (type : Text) :
    List (Text × MemberType) → List Int64 → Int64 → Object → Bytes → Written
  | [], _, _, _, buf => (buf, none)
  | (name, t) :: rest, fixed, cursor, obj, buf =>
    let offset := start (settled.contains type) fixed cursor
    let piece := buf.slice offset t.size
    let written := if (Object.get obj name).isNull then (Bytes.zeros piece.length, none)
      else t.writePlaced (Object.get obj name) piece
    match written with
    | (piece', some e) => (buf.splice offset piece', some (.field type name e))
    | (piece', none) =>
      writeFrom type rest fixed.tail (offset + t.size) obj (buf.splice offset piece')

end

end Definitions

variable {settled settled' : List Text}

section Length

theorem length_writeItems {size : Nat} {write : Value → Bytes → Written}
    (h : ∀ v b, (write v b).1.length = b.length) (vs : List Value) (buf : Bytes) :
    (writeItems size write vs buf).1.length = buf.length := by
  induction vs generalizing buf with
  | nil => rfl
  | cons v rest ih =>
      have hpiece := h v (buf.take size)
      have hrest := ih (buf.drop size)
      have hsplit := congrArg List.length (List.take_append_drop size buf)
      rw [List.length_append] at hsplit
      rw [writeItems]
      rcases hwrite : write v (buf.take size) with ⟨piece, e⟩
      rw [hwrite] at hpiece
      cases e with
      | some e => simp only [List.length_append, hpiece, hsplit]
      | none => simp only [List.length_append, hpiece, hrest, hsplit]

theorem length_writeMembers {type : Text} {members : Members}
    (h : ∀ m ∈ members, ∀ v b, (m.2.write v b).1.length = b.length) (obj : Object) (buf : Bytes) :
    (writeMembers type members obj buf).1.length = buf.length := by
  induction members generalizing buf with
  | nil => rfl
  | cons m rest ih =>
      rcases m with ⟨name, t⟩
      have hrest := ih (fun x hx => h x (List.mem_cons_of_mem _ hx)) (buf.drop t.length)
      have hsplit := congrArg List.length (List.take_append_drop t.length buf)
      rw [List.length_append] at hsplit
      rw [writeMembers_cons]
      generalize hwritten : (if (Object.get obj name).isNull = true
        then (Bytes.zeros (buf.take t.length).length, none)
        else t.write (Object.get obj name) (buf.take t.length) : Written) = written
      have hpiece : written.1.length = (buf.take t.length).length := by
        rw [← hwritten]
        split
        · exact Bytes.length_zeros _
        · exact h _ List.mem_cons_self _ _
      rcases written with ⟨piece, e⟩
      cases e with
      | some e => simp only [List.length_append, hpiece, hsplit]
      | none => simp only [List.length_append, hpiece, hrest, hsplit]

/-- Writing does not change the length of a buffer, even if it stops early. -/
theorem length_write (t : MemberType) (v : Value) (buf : Bytes) :
    (t.write v buf).1.length = buf.length := by
  induction t using inductionOn generalizing v buf with
  | bytes count =>
      rw [write]
      cases Scalar.putData v with
      | error e => rfl
      | ok data =>
          simp only
          split
          · exact Bytes.length_overwrite buf data
          · rfl
  | bool =>
      rw [write]
      cases Scalar.writeBool v with
      | error e => exact Bytes.length_overwrite buf _
      | ok b => exact Bytes.length_overwrite buf _
  | number num lower =>
      rw [write]
      cases lower.toBytes num v with
      | error e => rfl
      | ok b => exact Bytes.length_overwrite buf b
  | struct name members ih =>
      unfold write
      cases v with
      | object obj =>
          simp only
          cases checkSize name (membersSize members).toInt buf with
          | error e => rfl
          | ok u =>
              simp only
              cases firstUndeclared? obj (members.map (·.1)) with
              | some key => rfl
              | none => exact length_writeMembers ih obj buf
      | _ => rfl
  | array count elem ih =>
      rw [write]
      cases v.items? with
      | none => rfl
      | some items =>
          simp only
          split
          · exact length_writeItems ih items buf
          · rfl

end Length

section Decode

-- Fixed offsets are where the cursor comes by.
theorem start_offsets (fixed : Bool) (cursor : Int64) (m : Text × MemberType) (rest : Members) :
    start fixed (offsets cursor (m :: rest)) cursor = cursor := by
  cases fixed with
  | true => rfl
  | false => rfl

theorem decodeFrom_congr {type : Text} {members : Members}
    (h : ∀ m ∈ members, ∀ b, m.2.decodePlaced settled b = m.2.decodePlaced settled' b)
    (cursor : Int64) (buf : Bytes) :
    decodeFrom settled type members (offsets cursor members) cursor buf
      = decodeFrom settled' type members (offsets cursor members) cursor buf := by
  induction members generalizing cursor with
  | nil => rfl
  | cons m rest ih =>
      rcases m with ⟨name, t⟩
      have hrest := ih (fun x hx => h x (List.mem_cons_of_mem _ hx)) (cursor + t.size)
      rw [decodeFrom, decodeFrom, start_offsets, start_offsets, h _ List.mem_cons_self]
      simp only [offsets, List.tail_cons, hrest]

/-- It does not matter which structs have fixed offsets, be their sizes exact or not. -/
theorem decodePlaced_congr (settled settled' : List Text) (t : MemberType) (buf : Bytes) :
    t.decodePlaced settled buf = t.decodePlaced settled' buf := by
  induction t using inductionOn generalizing buf with
  | bytes count => rfl
  | bool => rfl
  | number num lower => rfl
  | struct name members ih => rw [decodePlaced, decodePlaced, decodeFrom_congr ih]
  | array count elem ih => rw [decodePlaced, decodePlaced, funext ih]

theorem toInt_add_size {t : MemberType} (h : t.Sized) {cursor : Int64} {n : Nat}
    (hcursor : cursor.toInt = n) (hsize : n + t.exactSize < 2 ^ 63) :
    (cursor + t.size).toInt = (n + t.exactSize : Nat) := by
  rw [Int64.toInt_add, hcursor, toInt_size h (by omega)]
  exact Int.bmod_eq_of_le (by omega) (by omega)

theorem decodeFrom_eq {type : Text} {members : Members} (h : ∀ m ∈ members, m.2.Sized)
    (hdecode : ∀ m ∈ members, ∀ b, m.2.decodePlaced settled b = m.2.decode b) {cursor : Int64}
    {n : Nat} (hcursor : cursor.toInt = n) (hsize : n + exactMembersSize members < 2 ^ 63)
    (buf : Bytes) :
    decodeFrom settled type members (offsets cursor members) cursor buf
      = decodeMembers type members (buf.drop n) := by
  induction members generalizing cursor n with
  | nil => rfl
  | cons m rest ih =>
      rcases m with ⟨name, t⟩
      rw [exactMembersSize] at hsize
      have ht : t.Sized := h _ List.mem_cons_self
      have hslice : buf.slice cursor t.size = (buf.drop n).take t.length := by
        rw [Bytes.slice, toNatClampNeg_eq hcursor]
        rfl
      have hrest := ih (fun x hx => h x (List.mem_cons_of_mem _ hx))
        (fun x hx => hdecode x (List.mem_cons_of_mem _ hx))
        (toInt_add_size ht hcursor (by omega)) (by omega)
      have hdrop : buf.drop (n + t.exactSize) = (buf.drop n).drop t.length := by
        rw [List.drop_drop, length_eq ht (by omega)]
      rw [decodeFrom, decodeMembers, start_offsets, hslice, hdecode _ List.mem_cons_self,
        ← hdrop, ← hrest]
      rfl

/-- Decoding comes to the same, however the members of structs are found. -/
theorem decodePlaced_eq {t : MemberType} (h : t.Sized) (hsize : t.exactSize < 2 ^ 63)
    (buf : Bytes) : t.decodePlaced settled buf = t.decode buf := by
  induction t using inductionOn generalizing buf with
  | bytes count => rfl
  | bool => rfl
  | number num lower => rfl
  | struct name members ih =>
      rw [exactSize] at hsize
      have hzero : (0 : Int64).toInt = (0 : Nat) := rfl
      have hmembers : decodeFrom settled name members (offsets 0 members) 0 buf
          = decodeMembers name members (buf.drop 0) :=
        decodeFrom_eq (fun m hm => h.member hm) (fun m hm b => ih m hm (h.member hm)
          (Nat.lt_of_le_of_lt (exactSize_le_of_mem hm) hsize) b) hzero (by omega) buf
      rw [decodePlaced, decode, hmembers, List.drop_zero]
  | array count elem ih =>
      have hcount : 0 < count.toInt := h _ (.refl _)
      have hpos : 0 < count.toNatClampNeg := by
        have := toNatClampNeg_of_nonneg (Int.le_of_lt hcount)
        omega
      rw [exactSize] at hsize
      have hlt := Nat.lt_of_le_of_lt (Nat.le_mul_of_pos_right elem.exactSize hpos) hsize
      have helem : elem.decodePlaced settled = elem.decode := funext fun b => ih h.element hlt b
      rw [decodePlaced, decode, helem]

end Decode

section Write

-- After a piece was replaced by one of the same length, the bytes on both sides are as before.
theorem take_splice {buf piece : Bytes} {offset : Int64} {n : Nat} (hoffset : offset.toInt = n)
    (hn : n ≤ buf.length) :
    (buf.splice offset piece).take (n + piece.length) = buf.take n ++ piece := by
  rw [Bytes.splice, toNatClampNeg_eq hoffset]
  refine List.take_left' ?_
  rw [List.length_append, List.length_take, Nat.min_eq_left hn]

theorem drop_splice {buf piece : Bytes} {offset : Int64} {n : Nat} (hoffset : offset.toInt = n)
    (hn : n ≤ buf.length) :
    (buf.splice offset piece).drop (n + piece.length) = buf.drop (n + piece.length) := by
  rw [Bytes.splice, toNatClampNeg_eq hoffset]
  refine List.drop_left' ?_
  rw [List.length_append, List.length_take, Nat.min_eq_left hn]

theorem length_splice {buf piece : Bytes} {offset : Int64} {n : Nat} (hoffset : offset.toInt = n)
    (hn : n + piece.length ≤ buf.length) : (buf.splice offset piece).length = buf.length := by
  rw [Bytes.splice, toNatClampNeg_eq hoffset, List.length_append, List.length_append,
    List.length_take, List.length_drop]
  omega

theorem writeFrom_eq {type : Text} {members : Members} (h : ∀ m ∈ members, m.2.Sized)
    (hwrite : ∀ m ∈ members, ∀ v b, m.2.writePlaced settled v b = m.2.write v b) {cursor : Int64}
    {n : Nat} (hcursor : cursor.toInt = n) (hsize : n + exactMembersSize members < 2 ^ 63)
    (obj : Object) {buf : Bytes} (hbuf : n + exactMembersSize members ≤ buf.length) :
    writeFrom settled type members (offsets cursor members) cursor obj buf
      = (buf.take n ++ (writeMembers type members obj (buf.drop n)).1,
        (writeMembers type members obj (buf.drop n)).2) := by
  induction members generalizing cursor n buf with
  | nil => rw [writeFrom, writeMembers, List.take_append_drop]
  | cons m rest ih =>
      rcases m with ⟨name, t⟩
      rw [exactMembersSize] at hsize hbuf
      have ht : t.Sized := h _ List.mem_cons_self
      have hlength := length_eq ht (by omega)
      have hslice : buf.slice cursor t.size = (buf.drop n).take t.length := by
        rw [Bytes.slice, toNatClampNeg_eq hcursor]
        rfl
      have hfield : ((buf.drop n).take t.length).length = t.exactSize := by
        rw [List.length_take, List.length_drop]
        omega
      rw [writeFrom, start_offsets, writeMembers_cons, hslice, hwrite _ List.mem_cons_self]
      generalize hwritten : (if (Object.get obj name).isNull = true
        then (Bytes.zeros ((buf.drop n).take t.length).length, none)
        else t.write (Object.get obj name) ((buf.drop n).take t.length) : Written) = written
      have hpiece : written.1.length = t.exactSize := by
        rw [← hwritten, ← hfield]
        split
        · exact Bytes.length_zeros _
        · exact length_write _ _ _
      rcases written with ⟨piece, e⟩
      simp only at hpiece
      have hdrop : (buf.drop n).drop t.length = buf.drop (n + piece.length) := by
        rw [List.drop_drop, hlength, hpiece]
      cases e with
      | some e =>
          simp only [hdrop, Bytes.splice, toNatClampNeg_eq hcursor, List.append_assoc]
      | none =>
          have hn : n ≤ buf.length := by omega
          have hspliced : (buf.splice cursor piece).length = buf.length :=
            length_splice hcursor (by omega)
          have hbuf' : n + t.exactSize + exactMembersSize rest
              ≤ (buf.splice cursor piece).length := by omega
          have hrest := ih (fun x hx => h x (List.mem_cons_of_mem _ hx))
            (fun x hx => hwrite x (List.mem_cons_of_mem _ hx))
            (toInt_add_size ht hcursor (by omega)) (by omega) hbuf'
          rw [← hpiece, take_splice hcursor hn, drop_splice hcursor hn, ← hdrop] at hrest
          simp only [offsets, List.tail_cons, hrest, List.append_assoc]

/-- Writing comes to the same, however the members of structs are found. -/
theorem writePlaced_eq {t : MemberType} (h : t.Sized) (hsize : t.exactSize < 2 ^ 63) (v : Value)
    (buf : Bytes) : t.writePlaced settled v buf = t.write v buf := by
  induction t using inductionOn generalizing v buf with
  | bytes count => rfl
  | bool => rfl
  | number num lower => rfl
  | struct name members ih =>
      rw [exactSize] at hsize
      cases v with
      | object obj =>
          rw [writePlaced, write]
          cases hcheck : checkSize name (membersSize members).toInt buf with
          | error e => rfl
          | ok u =>
              have hlen : buf.length = exactMembersSize members := by
                rw [checkSize, toInt_membersSize (fun m hm => h.member hm) hsize] at hcheck
                split at hcheck
                · omega
                · cases hcheck
              have hzero : (0 : Int64).toInt = (0 : Nat) := rfl
              have hmembers : writeFrom settled name members (offsets 0 members) 0 obj buf = _ :=
                writeFrom_eq (fun m hm => h.member hm) (fun m hm v b => ih m hm (h.member hm)
                  (Nat.lt_of_le_of_lt (exactSize_le_of_mem hm) hsize) v b) hzero (by omega) obj
                  (by omega)
              simp only [hmembers]
              rfl
      | _ => rfl
  | array count elem ih =>
      have hcount : 0 < count.toInt := h _ (.refl _)
      have hpos : 0 < count.toNatClampNeg := by
        have := toNatClampNeg_of_nonneg (Int.le_of_lt hcount)
        omega
      rw [exactSize] at hsize
      have hlt := Nat.lt_of_le_of_lt (Nat.le_mul_of_pos_right elem.exactSize hpos) hsize
      have helem : elem.writePlaced settled = elem.write :=
        funext fun v => funext fun b => ih h.element hlt v b
      unfold writePlaced write
      cases v.items? with
      | none => rfl
      | some items => simp only [helem]

theorem writeFrom_congr {type : Text} {members : Members}
    (h : ∀ m ∈ members, ∀ v b, m.2.writePlaced settled v b = m.2.writePlaced settled' v b)
    (cursor : Int64) (obj : Object) (buf : Bytes) :
    writeFrom settled type members (offsets cursor members) cursor obj buf
      = writeFrom settled' type members (offsets cursor members) cursor obj buf := by
  induction members generalizing cursor buf with
  | nil => rfl
  | cons m rest ih =>
      rcases m with ⟨name, t⟩
      have hrest := ih (fun x hx => h x (List.mem_cons_of_mem _ hx)) (cursor + t.size)
      rw [writeFrom, writeFrom, start_offsets, start_offsets, h _ List.mem_cons_self]
      simp only [offsets, List.tail_cons, hrest]

/-- It does not matter which structs have fixed offsets, be their sizes exact or not. -/
theorem writePlaced_congr (settled settled' : List Text) (t : MemberType) (v : Value)
    (buf : Bytes) : t.writePlaced settled v buf = t.writePlaced settled' v buf := by
  induction t using inductionOn generalizing v buf with
  | bytes count => rfl
  | bool => rfl
  | number num lower => rfl
  | struct name members ih =>
      cases v with
      | object obj => simp only [writePlaced, writeFrom_congr ih]
      | _ => rfl
  | array count elem ih =>
      have helem : elem.writePlaced settled = elem.writePlaced settled' :=
        funext fun v => funext fun b => ih v b
      rw [writePlaced, writePlaced, helem]

-- Bytes beyond the members are left alone.
theorem writeMembers_append {type : Text} {members : Members}
    (hlen : ∀ m ∈ members, m.2.length = m.2.exactSize) (obj : Object) {b : Bytes}
    (hb : exactMembersSize members ≤ b.length) (extra : Bytes) :
    writeMembers type members obj (b ++ extra)
      = ((writeMembers type members obj b).1 ++ extra, (writeMembers type members obj b).2) := by
  induction members generalizing b with
  | nil => rfl
  | cons m rest ih =>
      rcases m with ⟨name, t⟩
      have ht : t.length = t.exactSize := hlen _ List.mem_cons_self
      rw [exactMembersSize] at hb
      have htake : (b ++ extra).take t.length = b.take t.length :=
        List.take_append_of_le_length (by omega)
      have hdrop : (b ++ extra).drop t.length = b.drop t.length ++ extra :=
        List.drop_append_of_le_length (by omega)
      have hle : exactMembersSize rest ≤ (b.drop t.length).length := by
        rw [List.length_drop]
        omega
      have hrest := ih (fun x hx => hlen x (List.mem_cons_of_mem _ hx)) hle
      rw [writeMembers_cons, writeMembers_cons, htake, hdrop]
      generalize (if (Object.get obj name).isNull = true
        then (Bytes.zeros (b.take t.length).length, none)
        else t.write (Object.get obj name) (b.take t.length) : Written) = written
      rcases written with ⟨piece, e⟩
      cases e with
      | some e => simp only [List.append_assoc]
      | none => simp only [hrest, List.append_assoc]

end Write

end MemberType

namespace Layout

section Definitions

variable (settled : List Text) (l : Layout)

/-- Decodes a struct, given the structs with fixed offsets. -/
def decodePlaced (buf : Bytes) : Except WireError Object := do
  l.checkLength buf
  let obj ← MemberType.decodeFrom settled l.name l.members (MemberType.offsets 0 l.members) 0 buf
  let tail := buf.drop l.size.toNatClampNeg
  return if l.expandable && !tail.isEmpty then Object.set obj unparsedField (.bytes tail) else obj

/-- Writes an object into a buffer that has been checked, given the structs with fixed offsets. -/
def writeCheckedPlaced (obj : Object) (tail buf : Bytes) : MemberType.Written :=
  match MemberType.firstUndeclared? obj l.declaredKeys with
  | some key => (buf, some (.field l.name key .undeclared))
  | none =>
    match MemberType.writeFrom settled l.name l.members (MemberType.offsets 0 l.members) 0 obj buf
      with
    | (buf', some e) => (buf', some e)
    | (buf', none) => (buf'.splice l.size tail, none)

/-- Encodes an object into a buffer, given the structs with fixed offsets. -/
def encodeIntoPlaced (obj : Object) (buf : Bytes) : MemberType.Written :=
  match l.tail obj with
  | .error e => (buf, some e)
  | .ok tail =>
    let want := l.size.toInt + tail.length
    if buf.length = want then l.writeCheckedPlaced settled obj tail buf
    else (buf, some (.within l.name (.bound .length want buf.length)))

/-- Encodes an object, given the structs with fixed offsets. -/
def encodePlaced (obj : Object) : Except WireError Bytes := do
  let tail ← l.tail obj
  match l.encodeIntoPlaced settled obj (Bytes.zeros (l.size.toNatClampNeg + tail.length)) with
  | (buf, none) => return buf
  | (_, some e) => throw e

end Definitions

/-- It makes no difference for a struct which structs have fixed offsets. -/
structure SamePlaced (l : Layout) (settled settled' : List Text) : Prop where
  decode : ∀ buf, l.decodePlaced settled buf = l.decodePlaced settled' buf
  encode : ∀ obj, l.encodePlaced settled obj = l.encodePlaced settled' obj
  encodeInto : ∀ obj buf, l.encodeIntoPlaced settled obj buf = l.encodeIntoPlaced settled' obj buf

/-- At its offsets, a struct is decoded and encoded as it is member by member. -/
structure Placed (l : Layout) (settled : List Text) : Prop where
  decode : ∀ buf, l.decodePlaced settled buf = l.decode buf
  encode : ∀ obj, l.encodePlaced settled obj = l.encode obj
  encodeInto : ∀ obj buf, l.encodeIntoPlaced settled obj buf = l.encodeInto obj buf

theorem samePlaced (l : Layout) (settled settled' : List Text) : l.SamePlaced settled settled' := by
  have hread : ∀ buf, l.decodePlaced settled buf = l.decodePlaced settled' buf := by
    intro buf
    rw [decodePlaced, decodePlaced, MemberType.decodeFrom_congr fun m _ =>
      MemberType.decodePlaced_congr settled settled' m.2]
  have hinto : ∀ obj buf,
      l.encodeIntoPlaced settled obj buf = l.encodeIntoPlaced settled' obj buf := by
    intro obj buf
    simp only [encodeIntoPlaced, writeCheckedPlaced, MemberType.writeFrom_congr fun m _ =>
      MemberType.writePlaced_congr settled settled' m.2]
  refine ⟨hread, fun obj => ?_, hinto⟩
  simp only [encodePlaced, hinto]

variable {settled : List Text} {l : Layout}

/-- Decoding a struct comes to the same, however its members are found. -/
theorem decodePlaced_eq (h : l.Sized) (buf : Bytes) :
    l.decodePlaced settled buf = l.decode buf := by
  have hzero : (0 : Int64).toInt = (0 : Nat) := rfl
  have hsize := h.size_lt
  have hmembers : MemberType.decodeFrom settled l.name l.members
      (MemberType.offsets 0 l.members) 0 buf
        = MemberType.decodeMembers l.name l.members (buf.drop 0) :=
    MemberType.decodeFrom_eq h.members (fun m hm b =>
      MemberType.decodePlaced_eq (h.members m hm) (h.exactSize_lt m hm) b) hzero (by omega) buf
  rw [decodePlaced, decode, hmembers, List.drop_zero]
  cases buf.drop l.size.toNatClampNeg with
  | nil => simp only [List.isEmpty_nil, Bool.not_true, Bool.and_false]; rfl
  | cons x rest => simp only [List.isEmpty_cons, Bool.not_false, Bool.and_true]

theorem writeCheckedPlaced_eq (h : l.Sized) (obj : Object) {tail buf : Bytes}
    (hbuf : (buf.length : Int) = l.size.toInt + tail.length) :
    l.writeCheckedPlaced settled obj tail buf = l.writeChecked obj tail buf := by
  have hzero : (0 : Int64).toInt = (0 : Nat) := rfl
  have hsize := h.size_lt
  have htoInt := h.toInt_size
  have hlength := h.length_eq
  -- The buffer is that of the members and the bytes beyond them.
  rcases hsplit : (buf.take l.size.toNatClampNeg, buf.drop l.size.toNatClampNeg) with ⟨known, extra⟩
  rcases Prod.mk.inj hsplit with ⟨hknown, hextra⟩
  have heq : buf = known ++ extra := by rw [← hknown, ← hextra, List.take_append_drop]
  have hlen : known.length = MemberType.exactMembersSize l.members := by
    rw [← hknown, List.length_take]
    omega
  rcases hwritten : MemberType.writeMembers l.name l.members obj known with ⟨known', e⟩
  have hplaced : MemberType.writeFrom settled l.name l.members (MemberType.offsets 0 l.members) 0
      obj buf = (known' ++ extra, e) := by
    rw [MemberType.writeFrom_eq h.members (fun m hm v b =>
      MemberType.writePlaced_eq (h.members m hm) (h.exactSize_lt m hm) v b) hzero (by omega) obj
      (by omega), List.take_zero, List.drop_zero, List.nil_append, heq,
      MemberType.writeMembers_append h.length_members obj (by omega), hwritten]
  rw [writeCheckedPlaced, writeChecked]
  cases MemberType.firstUndeclared? obj l.declaredKeys with
  | some key => rfl
  | none =>
      cases e with
      | some e => simp only [hplaced, hknown, hwritten, hextra]
      | none =>
          have hfst : known' = (MemberType.writeMembers l.name l.members obj known).1 := by
            rw [hwritten]
          have hkept : known'.length = known.length := by
            rw [hfst]
            exact MemberType.length_writeMembers (fun m _ => m.2.length_write) obj known
          have hfull : (known' ++ extra).length = l.size.toNatClampNeg + tail.length := by
            have htotal : buf.length = known.length + extra.length := by
              rw [heq, List.length_append]
            rw [List.length_append]
            omega
          have hspliced : Bytes.splice (known' ++ extra) l.size tail = known' ++ tail := by
            rw [Bytes.splice, List.take_left' (by omega), List.drop_eq_nil_of_le (by omega),
              List.append_nil]
          simp only [hplaced, hknown, hwritten, hspliced]

/-- Encoding a struct into a buffer comes to the same, however its members are found. -/
theorem encodeIntoPlaced_eq (h : l.Sized) (obj : Object) (buf : Bytes) :
    l.encodeIntoPlaced settled obj buf = l.encodeInto obj buf := by
  rw [encodeIntoPlaced, encodeInto]
  cases l.tail obj with
  | error e => rfl
  | ok tail =>
      by_cases hbuf : (buf.length : Int) = l.size.toInt + tail.length
      · simp only [if_pos hbuf]
        exact writeCheckedPlaced_eq h obj hbuf
      · simp only [if_neg hbuf]

theorem encodePlaced_eq (h : l.Sized) (obj : Object) :
    l.encodePlaced settled obj = l.encode obj := by
  rw [encodePlaced, encode]
  cases l.tail obj with
  | error e => rfl
  | ok tail =>
      have hinto : l.encodeIntoPlaced settled obj _ = _ := encodeIntoPlaced_eq h obj
        (Bytes.zeros (l.size.toNatClampNeg + tail.length))
      rcases hwritten : l.encodeInto obj (Bytes.zeros (l.size.toNatClampNeg + tail.length)) with
        ⟨buf, e⟩
      rw [hwritten] at hinto
      cases e with
      | none => simp only [ok_bind, hinto, hwritten]
      | some e => simp only [ok_bind, hinto, hwritten]

theorem Sized.placed (h : l.Sized) (settled : List Text) : l.Placed settled :=
  ⟨decodePlaced_eq h, encodePlaced_eq h, encodeIntoPlaced_eq h⟩

end Layout

end NetlinkSchema
