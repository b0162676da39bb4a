import NetlinkSchema.Proofs.Stream

/-!
# Framing

Which buffers are streams of attributes. A buffer is one if it can be cut into frames, an attribute
and its padding each, of which only the last may lack some or all of its padding. There is never
more than one way to do so, since every header tells where its attribute ends, and a walk finds it.
Where there is none, the walk stops at the first place that should hold a header and does not.

A stream under construction is such a buffer at all times, whatever was put to it and whether or not
that was refused. Its padding is written late, in front of the next attribute, so the last frame
has none.

## Main definitions

* `Attribute.Frame`: An attribute on the wire and the padding after it.
* `Attribute.Splits`: The frames that make up a buffer.
* `Attribute.Malformed`, `Attribute.Breaks`: Bytes that start with no attribute, and the frames that
  come before them.
* `Writer.afterPut`, `Writer.afterPuts`: A stream after attributes were put to it, successfully or
  not.

## Theorems

* `Attribute.splits_or_breaks`: Every buffer is made up of frames, or of frames and a malformed
  rest.
* `Attribute.Splits.unique`: There is one way at most to cut a buffer into frames.
* `Attribute.walk_exact`: A walk accepts what can be cut into frames, and nothing else.
* `Writer.puts_walked`: A walk gives back the attributes that were put to a stream.
-/

namespace NetlinkSchema

namespace Attribute

/-- An attribute on the wire and the padding after it. The header counts all bytes of the attribute,
    and there is no more padding than the alignment asks for. -/
structure Frame where
  block : Bytes
  padding : Bytes
  header_le : headerSize ≤ block.length
  counted : Bytes.toNatLittle (block.take 2) = block.length
  padding_le : padding.length ≤ paddedSize block.length - block.length

namespace Frame

/-- The bytes of a frame. -/
def bytes (f : Frame) : Bytes := f.block ++ f.padding

/-- Whether a frame has all of its padding. -/
def IsFull (f : Frame) : Prop := f.padding.length = paddedSize f.block.length - f.block.length

/-- The type field, flags included. -/
def rawType (f : Frame) : Nat := Bytes.toNatLittle ((f.block.drop 2).take 2)

/-- The attribute of a frame. The two high bits of the type field are flags. -/
def content (f : Frame) : Attribute where
  type := UInt16.ofNat (f.rawType &&& typeMask)
  nested := f.rawType.testBit 15
  netByteOrder := f.rawType.testBit 14
  payload := f.block.drop headerSize

theorem length_bytes (f : Frame) : f.bytes.length = f.block.length + f.padding.length :=
  List.length_append

theorem bytes_ne_nil (f : Frame) : f.bytes ≠ [] := by
  intro h
  have hlen := f.length_bytes
  have hheader := f.header_le
  simp only [h, List.length_nil, headerSize] at hlen hheader
  omega

end Frame

/-- The frames that make up a buffer. All but the last have all of their padding. -/
def Splits (fs : List Frame) (buf : Bytes) : Prop :=
  (∀ f ∈ fs.dropLast, f.IsFull) ∧ fs.flatMap Frame.bytes = buf

/-- Whether bytes that should start with an attribute do not: they are too short for a header, or
    the length in the header is shorter than the header or reaches beyond the bytes. -/
def Malformed (buf : Bytes) : Prop :=
  buf ≠ [] ∧ (buf.length < headerSize ∨ Bytes.toNatLittle (buf.take 2) < headerSize ∨
    buf.length < Bytes.toNatLittle (buf.take 2))

/-- The frames of a buffer before a rest that is malformed. -/
def Breaks (fs : List Frame) (rest buf : Bytes) : Prop :=
  (∀ f ∈ fs, f.IsFull) ∧ Malformed rest ∧ fs.flatMap Frame.bytes ++ rest = buf

/-- What is wrong with malformed bytes. -/
def truncation (rest : Bytes) : WireError :=
  .bound .truncated
    (if rest.length < headerSize then headerSize else Bytes.toNatLittle (rest.take 2)) rest.length

/-- What is read from a buffer that is long enough for a header. -/
theorem parse_of_le {buf : Bytes} (h : headerSize ≤ buf.length) :
    parse buf = if Bytes.toNatLittle (buf.take 2) < headerSize ∨
        buf.length < Bytes.toNatLittle (buf.take 2) then
      .error (.bound .truncated (Bytes.toNatLittle (buf.take 2)) buf.length)
    else .ok (ofRawType (Bytes.toNatLittle ((buf.drop 2).take 2))
      ((buf.take (Bytes.toNatLittle (buf.take 2))).drop headerSize),
      Bytes.toNatLittle (buf.take 2)) := by
  rcases buf with _ | ⟨l0, _ | ⟨l1, _ | ⟨t0, _ | ⟨t1, rest⟩⟩⟩⟩
  · simp [headerSize] at h
  · simp [headerSize] at h
  · simp [headerSize] at h
  · simp [headerSize] at h
  · have hlength : (l0 :: l1 :: t0 :: t1 :: rest).take 2 = [l0, l1] := rfl
    have htype : ((l0 :: l1 :: t0 :: t1 :: rest).drop 2).take 2 = [t0, t1] := rfl
    rw [parse, hlength, htype]
    generalize Bytes.toNatLittle [l0, l1] = n
    -- The payload is short exactly if the length in the header goes beyond the buffer.
    have hshort : (rest.take (n - headerSize)).length < n - headerSize ↔
        (l0 :: l1 :: t0 :: t1 :: rest).length < n := by
      simp only [List.length_take, List.length_cons, headerSize]
      omega
    have hpayload : ((l0 :: l1 :: t0 :: t1 :: rest).take n).drop headerSize
        = rest.take (n - headerSize) := by
      rw [List.drop_take]
      rfl
    have hsize : headerSize + rest.length = (l0 :: l1 :: t0 :: t1 :: rest).length := by
      simp only [List.length_cons, headerSize]
      omega
    simp only [hshort, hpayload, ← hsize]
    rfl

theorem ofRawType_eq (raw : Nat) (payload : Bytes) : ofRawType raw payload =
    ⟨UInt16.ofNat (raw &&& typeMask), raw.testBit 15, raw.testBit 14, payload⟩ := by
  have hmask : raw &&& typeMask = raw % 0x4000 := Nat.and_two_pow_sub_one_eq_mod raw 14
  rw [ofRawType, hmask, Nat.testBit_eq_decide_div_mod_eq, Nat.testBit_eq_decide_div_mod_eq]
  rfl

/-- The attribute of a frame is read, whatever follows it. -/
theorem parse_frame (f : Frame) (rest : Bytes) :
    parse (f.block ++ rest) = .ok (f.content, f.block.length) := by
  have hheader := f.header_le
  have hfour : 2 + 2 ≤ f.block.length := hheader
  have hlength : (f.block ++ rest).take 2 = f.block.take 2 :=
    List.take_append_of_le_length (by omega)
  have htype : ((f.block ++ rest).drop 2).take 2 = (f.block.drop 2).take 2 := by
    rw [List.drop_append_of_le_length (by omega), List.take_append_of_le_length]
    rw [List.length_drop]
    omega
  have hfit : ¬ (f.block.length < headerSize ∨ (f.block ++ rest).length < f.block.length) := by
    rw [List.length_append]
    omega
  have hlong : headerSize ≤ (f.block ++ rest).length := by
    rw [List.length_append]
    omega
  rw [parse_of_le hlong, hlength, htype, f.counted, if_neg hfit, List.take_left, ofRawType_eq]
  rfl

theorem parse_of_malformed {rest : Bytes} (h : Malformed rest) :
    parse rest = .error (truncation rest) := by
  obtain ⟨hne, hbad⟩ := h
  by_cases hshort : rest.length < headerSize
  · rw [truncation, if_pos hshort]
    rcases rest with _ | ⟨l0, _ | ⟨l1, _ | ⟨t0, _ | ⟨t1, rest⟩⟩⟩⟩
    · exact absurd rfl hne
    · rfl
    · rfl
    · rfl
    · simp only [List.length_cons, headerSize] at hshort
      omega
  · rw [parse_of_le (Nat.not_lt.1 hshort), if_pos (hbad.resolve_left hshort), truncation,
      if_neg hshort]

/-- Bytes that are not malformed start with a frame, and its padding is complete unless nothing
    follows. -/
theorem exists_frame {buf : Bytes} (hne : buf ≠ []) (h : ¬ Malformed buf) :
    ∃ (f : Frame) (rest : Bytes), f.bytes ++ rest = buf ∧ (f.IsFull ∨ rest = []) := by
  simp only [Malformed, not_and, not_or, Nat.not_lt] at h
  obtain ⟨-, hheader, hfit⟩ := h hne
  have hblock : (buf.take (Bytes.toNatLittle (buf.take 2))).length
      = Bytes.toNatLittle (buf.take 2) := by
    rw [List.length_take]
    omega
  have htwo : (buf.take (Bytes.toNatLittle (buf.take 2))).take 2 = buf.take 2 := by
    rw [List.take_take, Nat.min_eq_left]
    exact Nat.le_trans (by decide) hheader
  generalize hn : Bytes.toNatLittle (buf.take 2) = n at hheader hfit hblock htwo
  refine ⟨⟨buf.take n, (buf.drop n).take (paddedSize n - n), ?_, ?_, ?_⟩,
    (buf.drop n).drop (paddedSize n - n), ?_, ?_⟩
  · rw [hblock]
    exact hheader
  · rw [htwo, hn, hblock]
  · rw [hblock, List.length_take]
    exact Nat.min_le_left _ _
  · rw [Frame.bytes, List.append_assoc, List.take_append_drop, List.take_append_drop]
  · by_cases hlong : paddedSize n - n ≤ (buf.drop n).length
    · left
      simp only [Frame.IsFull, hblock, List.length_take, Nat.min_eq_left hlong]
    · right
      exact List.drop_eq_nil_of_le (by omega)

/-- A walk goes on after a frame that is padded in full. -/
theorem walk_full {f : Frame} (h : f.IsFull) (rest : Bytes) :
    walk (f.bytes ++ rest) = (f.content :: (walk rest).1, (walk rest).2) := by
  have hpadded : paddedSize f.block.length = f.bytes.length := by
    rw [f.length_bytes, h, paddedSize]
    omega
  have hparse := parse_frame f (f.padding ++ rest)
  rw [← List.append_assoc] at hparse
  rw [Frame.bytes] at hpadded ⊢
  rw [walk_of_parse hparse, hpadded, List.drop_left]

/-- A walk ends with the last frame, padded or not. -/
theorem walk_last (f : Frame) : walk f.bytes = ([f.content], none) := by
  have hpadded : f.bytes.length ≤ paddedSize f.block.length := by
    have hpadding := f.padding_le
    rw [f.length_bytes]
    simp only [paddedSize] at hpadding ⊢
    omega
  rw [Frame.bytes] at hpadded ⊢
  rw [walk_of_parse (parse_frame f f.padding), List.drop_eq_nil_of_le hpadded, walk_nil]

theorem walk_of_malformed {rest : Bytes} (h : Malformed rest) :
    walk rest = ([], some (truncation rest)) := by
  have hne : rest.isEmpty = false := List.isEmpty_eq_false_iff.2 h.1
  have hparse := parse_of_malformed h
  rw [walk, hne, if_neg Bool.false_ne_true]
  split
  · rename_i e he
    rw [hparse] at he
    cases he
    rfl
  · rename_i a n ha
    rw [hparse] at ha
    cases ha

theorem splits_cons_cons {f g : Frame} {fs : List Frame} {buf : Bytes} :
    Splits (f :: g :: fs) buf ↔
      f.IsFull ∧ ∃ rest, Splits (g :: fs) rest ∧ f.bytes ++ rest = buf := by
  simp only [Splits, List.dropLast_cons_cons, List.forall_mem_cons, List.flatMap_cons]
  constructor
  · rintro ⟨⟨hf, hfs⟩, rfl⟩
    exact ⟨hf, _, ⟨hfs, rfl⟩, rfl⟩
  · rintro ⟨hf, _, ⟨hfs, rfl⟩, rfl⟩
    exact ⟨⟨hf, hfs⟩, rfl⟩

theorem Splits.eq_nil {fs : List Frame} (h : Splits fs []) : fs = [] := by
  cases fs with
  | nil => rfl
  | cons f fs => exact absurd (List.append_eq_nil_iff.1 h.2).1 f.bytes_ne_nil

theorem splits_singleton (f : Frame) : Splits [f] f.bytes := by
  simp [Splits]

/-- Every buffer is made up of frames, or of frames and a malformed rest. -/
theorem splits_or_breaks (buf : Bytes) :
    (∃ fs, Splits fs buf) ∨ ∃ fs rest, Breaks fs rest buf := by
  -- By induction on the length: a frame is at least as long as a header.
  induction hn : buf.length using Nat.strong_induction_on generalizing buf with
  | h n ih =>
    by_cases hne : buf = []
    · left
      exact ⟨[], by simp [Splits, hne]⟩
    by_cases hbad : Malformed buf
    · right
      exact ⟨[], buf, by simp [Breaks, hbad]⟩
    obtain ⟨f, rest, rfl, hend⟩ := exists_frame hne hbad
    by_cases hrest : rest = []
    · left
      rw [hrest, List.append_nil]
      exact ⟨[f], splits_singleton f⟩
    have hfull : f.IsFull := hend.resolve_right hrest
    have hshorter : rest.length < n := by
      have hpos := List.length_pos_iff.2 f.bytes_ne_nil
      rw [List.length_append] at hn
      omega
    rcases ih rest.length hshorter rest rfl with ⟨fs, hfs⟩ | ⟨fs, bad, hfs, hbad, hjoin⟩
    · left
      cases fs with
      | nil => exact absurd hfs.2.symm hrest
      | cons g fs => exact ⟨f :: g :: fs, splits_cons_cons.2 ⟨hfull, rest, hfs, rfl⟩⟩
    · right
      refine ⟨f :: fs, bad, List.forall_mem_cons.2 ⟨hfull, hfs⟩, hbad, ?_⟩
      rw [List.flatMap_cons, List.append_assoc, hjoin]

theorem Splits.walk {fs : List Frame} {buf : Bytes} (h : Splits fs buf) :
    walk buf = (fs.map Frame.content, none) := by
  induction fs generalizing buf with
  | nil =>
      rw [← h.2]
      exact walk_nil
  | cons f fs ih =>
      cases fs with
      | nil =>
          rw [← h.2, List.flatMap_singleton]
          exact walk_last f
      | cons g fs =>
          obtain ⟨hfull, rest, hrest, rfl⟩ := splits_cons_cons.1 h
          rw [walk_full hfull, ih hrest]
          rfl

theorem Breaks.walk {fs : List Frame} {rest buf : Bytes} (h : Breaks fs rest buf) :
    walk buf = (fs.map Frame.content, some (truncation rest)) := by
  obtain ⟨hfull, hbad, rfl⟩ := h
  induction fs with
  | nil => exact walk_of_malformed hbad
  | cons f fs ih =>
      obtain ⟨hf, hfs⟩ := List.forall_mem_cons.1 hfull
      rw [List.flatMap_cons, List.append_assoc, walk_full hf, ih hfs]
      rfl

/-- The length in its header tells where an attribute ends. -/
theorem Frame.block_eq {f g : Frame} {rest rest' : Bytes} (h : f.block ++ rest = g.block ++ rest') :
    f.block = g.block := by
  have hf := parse_frame f rest
  have hg := parse_frame g rest'
  rw [← h, hf] at hg
  simp only [Except.ok.injEq, Prod.mk.injEq] at hg
  exact (List.append_inj h hg.2).1

theorem Splits.tail {f : Frame} {fs : List Frame} {buf : Bytes} (h : Splits (f :: fs) buf) :
    Splits fs (fs.flatMap Frame.bytes) := by
  cases fs with
  | nil => simp [Splits]
  | cons g fs =>
      obtain ⟨-, rest, hrest, -⟩ := splits_cons_cons.1 h
      exact ⟨hrest.1, rfl⟩

/-- The padding of a frame goes as far as the alignment asks for and the buffer reaches. -/
theorem Splits.length_padding {f : Frame} {fs : List Frame} {buf : Bytes}
    (h : Splits (f :: fs) buf) : f.padding.length
      = min (paddedSize f.block.length - f.block.length) (buf.length - f.block.length) := by
  have hbuf := congrArg List.length h.2
  rw [List.flatMap_cons, List.length_append, f.length_bytes] at hbuf
  have hpadding := f.padding_le
  cases fs with
  | nil =>
      rw [List.flatMap_nil, List.length_nil] at hbuf
      omega
  | cons g fs =>
      obtain ⟨hfull, -⟩ := splits_cons_cons.1 h
      rw [Frame.IsFull] at hfull
      omega

/-- There is one way at most to cut a buffer into frames. -/
theorem Splits.unique {fs gs : List Frame} {buf : Bytes} (hfs : Splits fs buf)
    (hgs : Splits gs buf) : fs = gs := by
  induction fs generalizing gs buf with
  | nil =>
      obtain rfl : [] = buf := hfs.2
      exact hgs.eq_nil.symm
  | cons f fs ih =>
      cases gs with
      | nil =>
          obtain rfl : [] = buf := hgs.2
          exact hfs.eq_nil
      | cons g gs =>
          have hbytes : f.block ++ (f.padding ++ fs.flatMap Frame.bytes)
              = g.block ++ (g.padding ++ gs.flatMap Frame.bytes) := by
            rw [← List.append_assoc, ← List.append_assoc]
            exact hfs.2.trans hgs.2.symm
          have hblock : f.block = g.block := Frame.block_eq hbytes
          have hlength : f.padding.length = g.padding.length := by
            rw [hfs.length_padding, hgs.length_padding, hblock]
          rw [hblock, List.append_cancel_left_eq] at hbytes
          obtain ⟨hpadding, hrest⟩ := List.append_inj hbytes hlength
          have hframe : f = g := by
            cases f
            cases g
            cases hblock
            cases hpadding
            rfl
          have htail := hfs.tail
          rw [hrest] at htail
          rw [hframe, ih htail hgs.tail]

/-- A walk accepts exactly the buffers that can be cut into frames. There is one way to do so, and
    the walk gives the attributes of the frames in order. All other buffers have a malformed part
    after some frames with full padding; there the walk gives the attributes of these frames and
    reports a truncated attribute. -/
theorem walk_exact (buf : Bytes) :
    ((walk buf).2 = none ↔ ∃ fs, Splits fs buf) ∧
      (∀ fs, Splits fs buf →
        walk buf = (fs.map Frame.content, none) ∧ ∀ gs, Splits gs buf → gs = fs) ∧
      ((walk buf).2 ≠ none ↔ ∃ fs rest, Breaks fs rest buf) ∧
      ∀ fs rest, Breaks fs rest buf →
        walk buf = (fs.map Frame.content, some (truncation rest)) := by
  have hsplits : ∀ fs, Splits fs buf → (walk buf).2 = none := fun fs h => by rw [h.walk]
  have hbreaks : ∀ fs rest, Breaks fs rest buf → (walk buf).2 ≠ none := by
    intro fs rest h
    rw [h.walk]
    exact Option.some_ne_none _
  refine ⟨⟨fun hend => ?_, fun ⟨fs, h⟩ => hsplits fs h⟩,
    fun fs h => ⟨h.walk, fun gs hgs => hgs.unique h⟩,
    ⟨fun hend => ?_, fun ⟨fs, rest, h⟩ => hbreaks fs rest h⟩, fun fs rest h => h.walk⟩
  · rcases splits_or_breaks buf with h | ⟨fs, rest, h⟩
    · exact h
    · exact absurd hend (hbreaks fs rest h)
  · rcases splits_or_breaks buf with ⟨fs, h⟩ | h
    · exact absurd (hsplits fs h) hend
    · exact h

end Attribute

namespace Writer

/-- What becomes of a stream when an attribute is put to it, whether or not that is refused. -/
def afterPut (w : Writer) (a : UInt16 × Bytes) : Writer :=
  match Write.put a.1 a.2 w with
  | .ok _ w' => w'
  | .error _ w' => w'

/-- A stream after attributes were put to it, of which some may have been refused. -/
def afterPuts (w : Writer) (as : List (UInt16 × Bytes)) : Writer := as.foldl afterPut w

/-- Whether an attribute fits a header: its type has 14 bits, and its size 16. -/
def fits (a : UInt16 × Bytes) : Bool := a.1.toNat ≤ 0x3FFF && a.2.length + 4 ≤ 0xFFFF

theorem fits_iff {a : UInt16 × Bytes} :
    fits a = true ↔ a.1.toNat ≤ 0x3FFF ∧ a.2.length + 4 ≤ 0xFFFF := by
  simp only [fits, Bool.and_eq_true, decide_eq_true_eq]

theorem fits_eq_false_iff {a : UInt16 × Bytes} :
    fits a = false ↔ 0x3FFF < a.1.toNat ∨ 0xFFFF < a.2.length + 4 := by
  rw [← Bool.not_eq_true, fits_iff]
  omega

theorem accept_of_fits {a : UInt16 × Bytes} (h : fits a = true) : accept a.1 a.2 = .ok a := by
  have hfits := fits_iff.1 h
  exact accept_eq_ok_iff.2 ⟨hfits.1, by omega, rfl⟩

/-- Putting an attribute appends it if it fits, and changes nothing otherwise. -/
theorem put_eq (w : Writer) (a : UInt16 × Bytes) :
    if fits a then Write.put a.1 a.2 w = .ok () (w.add a.1 a.2)
    else ∃ e, Write.put a.1 a.2 w = .error e w := by
  unfold Write.put Writer.put refusal?
  by_cases htype : Attribute.typeMask < a.1.toNat
  · have hfits : fits a = false := fits_eq_false_iff.2 (Or.inl htype)
    simp [hfits, htype]
  · by_cases hsize : Attribute.maxSize < Attribute.headerSize + a.2.length
    · have hfits : fits a = false := by
        simp only [Attribute.maxSize, Attribute.headerSize] at hsize
        exact fits_eq_false_iff.2 (Or.inr (by omega))
      simp [hfits, htype, hsize]
    · have hfits : fits a = true := by
        simp only [Attribute.typeMask, Attribute.maxSize, Attribute.headerSize] at htype hsize
        exact fits_iff.2 ⟨by omega, by omega⟩
      simp [hfits, htype, hsize]

theorem afterPut_eq (w : Writer) (a : UInt16 × Bytes) :
    w.afterPut a = if fits a then w.add a.1 a.2 else w := by
  have h := put_eq w a
  by_cases hfits : fits a = true
  · rw [if_pos hfits] at h ⊢
    rw [afterPut, h]
  · rw [if_neg hfits] at h ⊢
    obtain ⟨e, he⟩ := h
    rw [afterPut, he]

/-- A stream holds the attributes that fit. -/
theorem afterPuts_eq (w : Writer) (as : List (UInt16 × Bytes)) :
    w.afterPuts as = w.addAll (as.filter fits) := by
  induction as generalizing w with
  | nil => rfl
  | cons a as ih =>
      have hstep : w.afterPuts (a :: as) = (w.afterPut a).afterPuts as := rfl
      rw [hstep, ih, afterPut_eq]
      by_cases hfits : fits a = true
      · rw [if_pos hfits, List.filter_cons_of_pos hfits]
        rfl
      · rw [if_neg hfits, List.filter_cons_of_neg hfits]

/-- An attribute is refused exactly if it does not fit. -/
theorem put_error_iff {w : Writer} {a : UInt16 × Bytes} :
    (∃ e w', Write.put a.1 a.2 w = .error e w') ↔
      0x3FFF < a.1.toNat ∨ 0xFFFF < a.2.length + 4 := by
  have h := put_eq w a
  rw [← fits_eq_false_iff]
  by_cases hfits : fits a = true
  · rw [if_pos hfits] at h
    simp [h, hfits]
  · rw [if_neg hfits] at h
    obtain ⟨e, he⟩ := h
    exact iff_of_true ⟨e, w, he⟩ (Bool.not_eq_true _ ▸ hfits)

theorem put_error_unchanged {w w' : Writer} {a : UInt16 × Bytes} {e : WireError}
    (h : Write.put a.1 a.2 w = .error e w') : w' = w := by
  have hput := put_eq w a
  by_cases hfits : fits a = true
  · rw [if_pos hfits, h] at hput
    cases hput
  · rw [if_neg hfits] at hput
    obtain ⟨e', he⟩ := hput
    rw [h] at he
    cases he
    rfl

theorem length_padding (w : Writer) : w.padding.length < 4 ∧ 4 ∣ (w.bytes ++ w.padding).length := by
  simp only [padding, List.length_append, Bytes.length_zeros, size_eq_length]
  omega

/-- What is appended later stands behind padding, or there is none. -/
theorem exists_bytes_addAll (w : Writer) (as : List (UInt16 × Bytes)) :
    ∃ tail, (w.addAll as).bytes = w.bytes ++ tail ∧ (as = [] → tail = []) := by
  cases as with
  | nil => exact ⟨[], (List.append_nil _).symm, fun _ => rfl⟩
  | cons a as =>
      refine ⟨w.padding ++ stream (a :: as), ?_, fun h => absurd h (List.cons_ne_nil _ _)⟩
      rw [bytes_addAll_cons, List.append_assoc]

/-- Where an attribute that fits is found in the stream: right after what was there before it and
    the padding that was due. -/
theorem bytes_afterPuts {before after : List (UInt16 × Bytes)} {a : UInt16 × Bytes}
    (h : fits a = true) : ∃ tail, (empty.afterPuts (before ++ a :: after)).bytes
      = (empty.afterPuts before).bytes ++ (empty.afterPuts before).padding ++ chunk a ++ tail ∧
      (after.filter fits = [] → tail = []) := by
  obtain ⟨tail, htail, hend⟩ :=
    exists_bytes_addAll ((empty.afterPuts before).add a.1 a.2) (after.filter fits)
  have hsplit : empty.afterPuts (before ++ a :: after)
      = ((empty.afterPuts before).add a.1 a.2).addAll (after.filter fits) := by
    rw [afterPuts_eq, List.filter_append, List.filter_cons_of_pos h, addAll_append, afterPuts_eq]
    rfl
  exact ⟨tail, by rw [hsplit, htail, bytes_add], hend⟩

/-- A walk gives back the attributes that were put to a stream and not refused. An attribute is
    refused exactly if it does not fit, and then nothing is written. The header of each of the
    others starts at a multiple of four, behind less than four zero bytes, and the last one ends the
    stream. -/
theorem puts_walked (as : List (UInt16 × Bytes)) :
    (∀ (w : Writer) (a : UInt16 × Bytes),
      ((∃ e w', Write.put a.1 a.2 w = .error e w') ↔
        0x3FFF < a.1.toNat ∨ 0xFFFF < a.2.length + 4) ∧
      ∀ e w', Write.put a.1 a.2 w = .error e w' → w' = w) ∧
    Attribute.walk (empty.afterPuts as).bytes = ((as.filter fits).map Attribute.plain, none) ∧
    (∀ before a after, as = before ++ a :: after → fits a = true → ∃ n tail, n < 4 ∧
      4 ∣ ((empty.afterPuts before).bytes ++ Bytes.zeros n).length ∧
      (empty.afterPuts as).bytes
        = (empty.afterPuts before).bytes ++ Bytes.zeros n ++ chunk a ++ tail ∧
      (after.filter fits = [] → tail = [])) ∧
    (as.filter fits = [] → (empty.afterPuts as).bytes = []) := by
  refine ⟨fun w a => ⟨put_error_iff, fun e w' => put_error_unchanged⟩, ?_, ?_, fun hnone => ?_⟩
  · rw [afterPuts_eq]
    exact Attribute.walk_stream fun a ha => accept_of_fits (List.mem_filter.1 ha).2
  · rintro before a after rfl hfits
    obtain ⟨tail, hbytes, hend⟩ := bytes_afterPuts hfits
    obtain ⟨hshort, haligned⟩ := length_padding (empty.afterPuts before)
    rw [padding, Bytes.length_zeros] at hshort
    exact ⟨_, tail, hshort, haligned, hbytes, hend⟩
  · rw [afterPuts_eq, hnone]
    rfl

end Writer

end NetlinkSchema
