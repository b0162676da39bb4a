import NetlinkSchema.Proofs.Identifier

/-!
# Code and comments

Without its comments, a source text is the same if other comments are put in their place. For this
it does not matter what is written in a comment, as long as the comment ends where it should: a line
comment ends with its line, so that the text in it must not have line breaks. Whatever stands in
front of it must not hide the slashes either, as the mark of a literal or of a general comment would
do. Names and numbers are made of bytes that do neither.

The code of many lines is put together from that of each line. A line leaves the place where the
next one starts in code, if it is code and then a comment or nothing.

## Main definitions

* `GoSource.Place`, `GoSource.uncomment`: Reads a source text byte by byte and leaves out comments.
* `GoSource.codeLines`: The lines of a source text without comments.
* `GoSource.HasCode`: A line is some code and then a comment or nothing.
* `GoSource.Yields`: The code of lines, whatever follows them.
* `GoSource.IsValue`: What names and numbers look like.

## Theorems

* `GoSource.codeLines_append`: The code of a line comes before that of the lines after it.
* `GoSource.isToken_of_isIdentifier`, `GoSource.isValue_ofInt`, `GoSource.isValue_hexText`: Names
  and numbers are free of white space and start neither comments nor literals.
* `GoSource.yields_docLines`: Documentation has no code, line breaks or not.
* `GoSource.yields_headLines`: The comment of a block has no code if the text put into it has no
  line breaks.
-/

namespace NetlinkSchema

namespace GoSource

open Text

/-- Where a byte of a source text stands. -/
inductive Place
  | code
  | lineComment
  /-- At the second byte of the mark that opens a general comment. -/
  | opening
  | generalComment
  /-- At the second byte of the mark that closes a general comment. -/
  | closing
  /-- In a literal, which ends at a mark. -/
  | literal (mark : UInt8)
  /-- In a literal, after a backslash. -/
  | escape (mark : UInt8)
deriving DecidableEq

namespace Place

/-- Where the byte after `b` stands, and what `b` is without comments, given the byte ahead. A line
    comment ends with its line. A general comment counts as a blank, its line breaks are kept. There
    are no comments in literals, and no escapes in those between backquotes. -/
def next (p : Place) (b : UInt8) (ahead : Option UInt8) : Place × Bytes :=
  match p with
  | code =>
    if b = 47 ∧ ahead = some 47 then (lineComment, [])
    else if b = 47 ∧ ahead = some 42 then (opening, [32])
    else if b = 34 ∨ b = 39 ∨ b = 96 then (literal b, [b])
    else (code, [b])
  | lineComment => if b = 10 then (code, [b]) else (lineComment, [])
  | opening => (generalComment, [])
  | generalComment =>
    if b = 42 ∧ ahead = some 47 then (closing, [])
    else (generalComment, if b = 10 then [b] else [])
  | closing => (code, [])
  | literal mark =>
    if b = mark then (code, [b])
    else if b = 92 ∧ mark ≠ 96 then (escape mark, [b])
    else (literal mark, [b])
  | escape mark => (literal mark, [b])

end Place

/-- What is left of a source text without its comments. -/
def uncomment : Place → Bytes → Bytes
  | _, [] => []
  | p, b :: rest => (p.next b rest.head?).2 ++ uncomment (p.next b rest.head?).1 rest

/-- The lines of a source text without comments, empty lines and blanks at the ends of lines. -/
def codeLines (t : Text) : List Text :=
  ((Text.mk (uncomment .code t.utf8)).lines.map trimBlanks).filter (!·.isEmpty)

/-- Lines one after another. -/
def unlines (lines : List Text) : Text := concat (lines.map (· ++ "\n"))

section Lines

/-- Whether a byte is neither a line break nor the start of a comment or a literal. -/
def isPlainByte (b : UInt8) : Bool := b != 10 && b != 34 && b != 39 && b != 47 && b != 96

theorem uncomment_plain {a : Bytes} (h : ∀ b ∈ a, isPlainByte b = true) (rest : Bytes) :
    uncomment .code (a ++ rest) = a ++ uncomment .code rest := by
  induction a with
  | nil => rfl
  | cons b a ih =>
      obtain ⟨hb, ha⟩ := List.forall_mem_cons.1 h
      have hnext : ∀ ahead, Place.next .code b ahead = (.code, [b]) := by
        intro ahead
        simp only [isPlainByte, Bool.and_eq_true, bne_iff_ne] at hb
        simp [Place.next, hb]
      rw [List.cons_append, uncomment, hnext, ih ha]
      rfl

theorem uncomment_lineComment {a : Bytes} (h : 10 ∉ a) (rest : Bytes) :
    uncomment .lineComment (a ++ 10 :: rest) = 10 :: uncomment .code rest := by
  induction a with
  | nil => rfl
  | cons b a ih =>
      rw [List.mem_cons, not_or] at h
      have hnext : ∀ ahead, Place.next .lineComment b ahead = (.lineComment, []) := by
        intro ahead
        exact if_neg fun hb => h.1 hb.symm
      rw [List.cons_append, uncomment, hnext, ih h.2]
      rfl

theorem uncomment_comment {a : Bytes} (h : 10 ∉ a) (rest : Bytes) :
    uncomment .code (47 :: 47 :: a ++ 10 :: rest) = 10 :: uncomment .code rest := by
  have hopen : uncomment .code (47 :: 47 :: a ++ 10 :: rest)
      = uncomment .lineComment ((47 :: a) ++ 10 :: rest) := rfl
  rw [hopen, uncomment_lineComment]
  rw [List.mem_cons, not_or]
  exact ⟨by decide, h⟩

/-- Whether all bytes of a text are of a sort. -/
def Every (p : UInt8 → Bool) (t : Text) : Prop := ∀ b ∈ t.utf8, p b = true

instance (p : UInt8 → Bool) (t : Text) : Decidable (Every p t) :=
  inferInstanceAs (Decidable (∀ b ∈ _, _))

theorem Every.append {p : UInt8 → Bool} {t u : Text} (ht : Every p t) (hu : Every p u) :
    Every p (t ++ u) := by
  intro b hb
  rcases List.mem_append.1 hb with hb | hb
  · exact ht b hb
  · exact hu b hb

/-- Whether a text has no line breaks. -/
def IsLine (t : Text) : Prop := 10 ∉ t.utf8

instance (t : Text) : Decidable (IsLine t) := inferInstanceAs (Decidable (_ ∉ _))

/-- A line is some code and then a comment or nothing. -/
def HasCode (line code : Text) : Prop :=
  Every isPlainByte code ∧
    (line = code ∨ ∃ comment : Text, IsLine comment ∧ line = code ++ "//" ++ comment)

theorem uncomment_line {line code : Text} (h : HasCode line code) (rest : Bytes) :
    uncomment .code (line.utf8 ++ 10 :: rest) = code.utf8 ++ 10 :: uncomment .code rest := by
  obtain ⟨hplain, rfl | ⟨comment, hcomment, rfl⟩⟩ := h
  · rw [uncomment_plain hplain]
    rfl
  · have hslashes : (ofString "//").utf8 = [47, 47] := by decide +kernel
    rw [utf8_append, utf8_append, hslashes, List.append_assoc, List.append_assoc,
      uncomment_plain hplain]
    exact congrArg _ (uncomment_comment hcomment rest)

/-- The code of a line, unless there is none. -/
def codeLine (code : Text) : List Text := [trimBlanks code].filter (!·.isEmpty)

theorem splitBytes_break (sep : UInt8) (rest : Bytes) :
    splitBytes sep (sep :: rest) = [] :: splitBytes sep rest := by
  rw [splitBytes]
  cases h : splitBytes sep rest with
  | nil => exact absurd h (splitBytes_ne_nil sep rest)
  | cons piece pieces => exact if_pos (beq_self_eq_true sep)

/-- The code of a source text begins with the code of its first line. -/
theorem codeLines_append {line code : Text} (h : HasCode line code) (rest : Text) :
    codeLines (line ++ "\n" ++ rest) = codeLine code ++ codeLines rest := by
  have hbytes : (line ++ "\n" ++ rest).utf8 = line.utf8 ++ 10 :: rest.utf8 := by
    rw [utf8_append, utf8_append, List.append_assoc]
    rfl
  -- The break at the end of the line is the first one in what is left of the text.
  have hbreak : (10 : UInt8) ∉ code.utf8 := fun hmem => absurd (h.1 10 hmem) (by decide)
  have hsplit := splitBytes_append hbreak (splitBytes_break 10 (uncomment .code rest.utf8))
  rw [List.append_nil] at hsplit
  have hlines : (Text.mk (uncomment .code (line ++ "\n" ++ rest).utf8)).lines
      = code :: (Text.mk (uncomment .code rest.utf8)).lines := by
    rw [hbytes, uncomment_line h]
    exact congrArg _ hsplit
  rw [codeLines, hlines, List.map_cons, ← List.singleton_append, List.filter_append]
  rfl

theorem codeLines_empty : codeLines .empty = [] := by decide +kernel

theorem unlines_cons (line : Text) (lines : List Text) :
    unlines (line :: lines) = line ++ "\n" ++ unlines lines := rfl

theorem unlines_append (a b : List Text) : unlines (a ++ b) = unlines a ++ unlines b := by
  simp only [unlines, concat, List.map_append, List.flatMap_append]
  rfl

/-- The code of lines, whatever follows them. -/
def Yields (lines code : List Text) : Prop :=
  ∀ rest, codeLines (unlines lines ++ rest) = code ++ codeLines rest

namespace Yields

theorem nil : Yields [] [] := fun _ => rfl

theorem append {a b code code' : List Text} (ha : Yields a code) (hb : Yields b code') :
    Yields (a ++ b) (code ++ code') := by
  intro rest
  have hassoc : unlines a ++ unlines b ++ rest = unlines a ++ (unlines b ++ rest) :=
    congrArg Text.mk (List.append_assoc _ _ _)
  rw [unlines_append, hassoc, ha, hb, List.append_assoc]

theorem line {line code : Text} (h : HasCode line code) : Yields [line] (codeLine code) := by
  intro rest
  have hassoc : unlines [line] ++ rest = line ++ "\n" ++ rest := by
    rw [unlines_cons]
    exact congrArg Text.mk (congrArg (· ++ rest.utf8) (List.append_nil _))
  rw [hassoc, codeLines_append h]

theorem flatMap {α : Type} {xs : List α} {f g : α → List Text} (h : ∀ x ∈ xs, Yields (f x) (g x)) :
    Yields (xs.flatMap f) (xs.flatMap g) := by
  induction xs with
  | nil => exact nil
  | cons x xs ih =>
      obtain ⟨hx, hxs⟩ := List.forall_mem_cons.1 h
      rw [List.flatMap_cons, List.flatMap_cons]
      exact hx.append (ih hxs)

/-- Lines without code. -/
theorem comments {lines : List Text} (h : ∀ l ∈ lines, Yields [l] []) : Yields lines [] := by
  induction lines with
  | nil => exact nil
  | cons l lines ih =>
      obtain ⟨hl, hlines⟩ := List.forall_mem_cons.1 h
      exact hl.append (ih hlines)

theorem codeLines_eq {lines code : List Text} (h : Yields lines code) :
    codeLines (unlines lines) = code := by
  have hwhole : unlines lines ++ .empty = unlines lines := congrArg Text.mk (List.append_nil _)
  rw [← hwhole, h, codeLines_empty, List.append_nil]

end Yields

end Lines

section Tokens

/-- Whether a byte can be part of a name or a number: it is neither white space nor starts a comment
    or a literal. -/
def isTokenByte (b : UInt8) : Bool := 32 < b && isPlainByte b

theorem isTokenByte_iff {b : UInt8} : isTokenByte b = true ↔ 32 < b.toNat ∧ b.toNat ≠ 34 ∧
    b.toNat ≠ 39 ∧ b.toNat ≠ 47 ∧ b.toNat ≠ 96 := by
  simp only [isTokenByte, isPlainByte, Bool.and_eq_true, decide_eq_true_eq, bne_iff_ne, ne_eq,
    UInt8.lt_iff_toNat_lt, ← UInt8.toNat_inj, UInt8.reduceToNat]
  omega

theorem ne_of_isTokenByte {b c : UInt8} (hb : isTokenByte b = true) (hc : isTokenByte c = false) :
    b ≠ c := by
  rintro rfl
  exact Bool.false_ne_true (hc.symm.trans hb)

theorem Every.plain {t : Text} (h : Every isTokenByte t) : Every isPlainByte t := by
  intro b hb
  have hb' := h b hb
  rw [isTokenByte, Bool.and_eq_true] at hb'
  exact hb'.2

/-- A byte of ASCII is a character wherever it occurs. -/
theorem mem_chars_of_ascii {t : Text} {b : UInt8} (h : b ∈ t.utf8) (hb : b < 0x80) :
    Char.ofNat b.toNat ∈ t.chars := by
  obtain ⟨before, after, hsplit⟩ := List.append_of_mem h
  rw [chars, runes, hsplit, decode_append_ascii _ hb, Rune.decode_one _ hb]
  simp [Rune.toChar]

theorem isToken_of_chars {t : Text}
    (h : ∀ c ∈ t.chars, c.toNat < 0x80 → isTokenByte (UInt8.ofNat c.toNat) = true) :
    Every isTokenByte t := by
  intro b hmem
  by_cases hb : b < 0x80
  · have hlt : b.toNat < 0x80 := hb
    have hvalid : b.toNat.isValidChar := Or.inl (by omega)
    have hbyte := h _ (mem_chars_of_ascii hmem hb)
    rw [toNat_charOfNat hvalid, UInt8.ofNat_toNat] at hbyte
    exact hbyte hlt
  · simp only [UInt8.not_lt, UInt8.le_iff_toNat_le, UInt8.reduceToNat] at hb
    rw [isTokenByte_iff]
    omega

theorem wordRanges_visible :
    ∀ r ∈ letterRanges ++ decimalDigitRanges, 0x30 ≤ r.1 ∧ (r.2 < 0x60 ∨ 0x60 < r.1) := by
  decide +kernel

theorem isTokenByte_of_isWordChar {c : Char} (h : isWordChar c = true) (hlt : c.toNat < 0x80) :
    isTokenByte (UInt8.ofNat c.toNat) = true := by
  have hvisible : 0x30 ≤ c.toNat ∧ c.toNat ≠ 0x60 := by
    rw [isWordChar, Bool.or_assoc, Bool.or_eq_true, isLetter, isDecimalDigit, inRanges, inRanges,
      ← List.any_append, beq_iff_eq] at h
    rcases h with rfl | h
    · decide
    · obtain ⟨r, hr, hin⟩ := List.any_eq_true.1 h
      have := wordRanges_visible r hr
      simp only [Bool.and_eq_true, decide_eq_true_eq] at hin
      omega
  have hbyte : (UInt8.ofNat c.toNat).toNat = c.toNat :=
    UInt8.toNat_ofNat_of_lt (Nat.lt_trans hlt (by decide))
  rw [isTokenByte_iff, hbyte]
  omega

theorem isToken_of_isIdentifier {t : Text} (h : isIdentifier t = true) : Every isTokenByte t := by
  refine isToken_of_chars fun c hc hlt => ?_
  have hword : isWordChar c = true := by
    unfold isIdentifier at h
    cases hchars : t.chars with
    | nil => rw [hchars] at hc; cases hc
    | cons d rest =>
        rw [hchars] at h hc
        simp only [Bool.and_eq_true, Bool.or_eq_true] at h
        rcases List.mem_cons.1 hc with rfl | hc
        · simp only [isWordChar, Bool.or_eq_true]
          exact Or.inl h.1.1
        · exact List.all_eq_true.1 h.1.2 c hc
  exact isTokenByte_of_isWordChar hword hlt

theorem isToken_ofChars {cs : List Char}
    (h : ∀ c ∈ cs, isTokenByte (UInt8.ofNat c.toNat) = true) : Every isTokenByte (ofChars cs) := by
  refine isToken_of_chars fun c hc _ => ?_
  rw [chars_ofChars] at hc
  exact h c hc

theorem exists_digit_of_mem_toDigits {base n : Nat} (hbase : 1 < base) (hmax : base ≤ 16) {c : Char}
    (h : c ∈ Nat.toDigits base n) : ∃ d < 16, c = Nat.digitChar d := by
  induction n using Nat.strong_induction_on with
  | h n ih =>
    by_cases hn : n < base
    · rw [Nat.toDigits_of_lt_base hn, List.mem_singleton] at h
      exact ⟨n, by omega, h⟩
    · rw [Nat.toDigits_of_base_le hbase (Nat.not_lt.1 hn), List.mem_append,
        List.mem_singleton] at h
      rcases h with h | h
      · exact ih (n / base) (Nat.div_lt_self (by omega) hbase) h
      · exact ⟨n % base, Nat.lt_of_lt_of_le (Nat.mod_lt _ (by omega)) hmax, h⟩

theorem isTokenByte_digitChar :
    ∀ d < 16, isTokenByte (UInt8.ofNat (Nat.digitChar d).toNat) = true := by
  decide

theorem isToken_digits {base : Nat} (hbase : 1 < base) (hmax : base ≤ 16) (n : Nat) :
    Every isTokenByte (ofChars (Nat.toDigits base n)) := by
  refine isToken_ofChars fun c hc => ?_
  obtain ⟨d, hd, rfl⟩ := exists_digit_of_mem_toDigits hbase hmax hc
  exact isTokenByte_digitChar d hd

theorem ofNat_eq (n : Nat) : Text.ofNat n = ofChars (Nat.toDigits 10 n) := by
  rw [Text.ofNat, ofString_eq, Nat.toString_eq_repr, Nat.repr_eq_ofList_toDigits,
    String.toList_ofList]

/-- A number in decimal is a sign or nothing, and then digits. -/
theorem ofInt_eq (n : Int) : ∃ sign : Text, (sign = "" ∨ sign = "-") ∧
    Text.ofInt n = sign ++ ofChars (Nat.toDigits 10 n.natAbs) := by
  cases n with
  | ofNat n => exact ⟨"", Or.inl rfl, ofNat_eq n⟩
  | negSucc n =>
      refine ⟨"-", Or.inr rfl, ?_⟩
      have hrepr : ToString.toString (Int.negSucc n) = "-" ++ ToString.toString (n + 1) := rfl
      rw [Text.ofInt, hrepr, ofString_eq, ofString_eq, String.toList_append, Nat.toString_eq_repr,
        Nat.repr_eq_ofList_toDigits, String.toList_ofList, String.toList_ofList, ofChars,
        List.flatMap_append]
      rfl

/-- Whether a text can be the value of a constant: a token that is not empty. -/
def IsValue (t : Text) : Prop := Every isTokenByte t ∧ t.utf8 ≠ []

theorem isValue_digits {sign : Text} (hsign : Every isTokenByte sign) {base : Nat}
    (hbase : 1 < base) (hmax : base ≤ 16) (n : Nat) :
    IsValue (sign ++ ofChars (Nat.toDigits base n)) := by
  refine ⟨hsign.append (isToken_digits hbase hmax n), fun hempty => ?_⟩
  have hdigits : ofChars (Nat.toDigits base n) = ofChars [] :=
    congrArg Text.mk (List.append_eq_nil_iff.1 hempty).2
  exact Nat.toDigits_ne_nil (ofChars_injective hdigits)

theorem isToken_sign {sign : Text} (h : sign = "" ∨ sign = "-") : Every isTokenByte sign := by
  rcases h with rfl | rfl
  · decide +kernel
  · decide +kernel

theorem isValue_ofInt (n : Int) : IsValue (Text.ofInt n) := by
  obtain ⟨sign, hsign, hn⟩ := ofInt_eq n
  rw [hn]
  exact isValue_digits (isToken_sign hsign) (by decide) (by decide) _

theorem isValue_ofNat (n : Nat) : IsValue (Text.ofNat n) := isValue_ofInt n

theorem isValue_hexText (n : Int64) : IsValue (hexText n) := by
  have hmark : Every isTokenByte "0x" := by decide +kernel
  have hsign : Every isTokenByte (ofString (if n < 0 then "-" else "")) := by
    by_cases h : n < 0
    · rw [if_pos h]
      exact isToken_sign (Or.inr rfl)
    · rw [if_neg h]
      exact isToken_sign (Or.inl rfl)
  have hassoc : hexText n = ofString (if n < 0 then "-" else "") ++ "0x"
      ++ ofChars (Nat.toDigits 16 n.toInt.natAbs) := congrArg Text.mk (List.append_assoc _ _ _).symm
  have hbase : 1 < 16 := by decide
  rw [hassoc]
  exact isValue_digits (hsign.append hmark) hbase (Nat.le_refl 16) _

end Tokens

section Comments

theorem notMem_of_mem_splitBytes {sep : UInt8} {b piece : Bytes} (h : piece ∈ splitBytes sep b) :
    sep ∉ piece := by
  induction b generalizing piece with
  | nil =>
      rw [splitBytes, List.mem_singleton] at h
      rw [h]
      exact List.not_mem_nil
  | cons x rest ih =>
      rw [splitBytes] at h
      cases hpieces : splitBytes sep rest with
      | nil => exact absurd hpieces (splitBytes_ne_nil sep rest)
      | cons first pieces =>
          rw [hpieces] at h ih
          by_cases hx : x = sep
          · simp only [hx, beq_self_eq_true, if_true] at h
            rcases List.mem_cons.1 h with rfl | h
            · exact List.not_mem_nil
            · exact ih h
          · simp only [beq_iff_eq, hx, if_false] at h
            rcases List.mem_cons.1 h with rfl | h
            · rw [List.mem_cons, not_or]
              exact ⟨fun hsep => hx hsep.symm, ih List.mem_cons_self⟩
            · exact ih (List.mem_cons_of_mem _ h)

theorem isLine_of_mem_lines {t line : Text} (h : line ∈ t.lines) : IsLine line := by
  obtain ⟨piece, hpiece, rfl⟩ := List.mem_map.1 h
  exact notMem_of_mem_splitBytes hpiece

theorem IsLine.append {t u : Text} (ht : IsLine t) (hu : IsLine u) : IsLine (t ++ u) := by
  intro hmem
  exact (List.mem_append.1 hmem).elim ht hu

theorem IsLine.trimBlanks {t : Text} (h : IsLine t) : IsLine (trimBlanks t) := by
  intro hmem
  have hkept := (List.dropWhile_sublist _).subset (List.mem_reverse.1 hmem)
  exact h (List.mem_reverse.1 hkept)

theorem startsWith_append {t start : Text} (h : t.startsWith start = true) (rest : Text) :
    (t ++ rest).startsWith start = true :=
  List.isPrefixOf_iff_prefix.2 ((List.isPrefixOf_iff_prefix.1 h).trans (List.prefix_append _ _))

/-- Whether a line begins as a comment. -/
def isCommentStart (t : Text) : Bool := t.startsWith "//" || t.startsWith "\t//"

theorem isCommentStart_append {t : Text} (h : isCommentStart t = true) (rest : Text) :
    isCommentStart (t ++ rest) = true := by
  rw [isCommentStart, Bool.or_eq_true] at h ⊢
  exact h.imp (startsWith_append · rest) (startsWith_append · rest)

theorem yields_comment {t : Text} (hstart : isCommentStart t = true) (h : IsLine t) :
    Yields [t] [] := by
  have hsplit : ∃ indent comment : Text, (indent = "" ∨ indent = "\t") ∧
      t = indent ++ "//" ++ comment := by
    rw [isCommentStart, Bool.or_eq_true] at hstart
    rcases hstart with hstart | hstart
    · obtain ⟨comment, hcomment⟩ := List.isPrefixOf_iff_prefix.1 hstart
      exact ⟨"", ⟨comment⟩, Or.inl rfl, congrArg Text.mk hcomment.symm⟩
    · obtain ⟨comment, hcomment⟩ := List.isPrefixOf_iff_prefix.1 hstart
      have htab : ofString "\t//" = "\t" ++ "//" := by decide +kernel
      rw [htab] at hcomment
      exact ⟨"\t", ⟨comment⟩, Or.inr rfl, congrArg Text.mk hcomment.symm⟩
  obtain ⟨indent, comment, hindent, rfl⟩ := hsplit
  have hcode : HasCode (indent ++ "//" ++ comment) indent := by
    refine ⟨?_, Or.inr ⟨comment, fun hmem => h (List.mem_append_right _ hmem), rfl⟩⟩
    rcases hindent with rfl | rfl
    · decide +kernel
    · decide +kernel
  have hnone : codeLine indent = [] := by
    rcases hindent with rfl | rfl
    · decide +kernel
    · decide +kernel
  have hyields := Yields.line hcode
  rw [hnone] at hyields
  exact hyields

/-- Documentation is split into lines, each of which is a comment. -/
theorem yields_docLines {indent : Text} (hindent : indent = "" ∨ indent = "\t") (docs : List Text) :
    Yields (docLines indent docs) [] := by
  refine Yields.comments fun l hl => ?_
  obtain ⟨line, hline, rfl⟩ := List.mem_map.1 hl
  obtain ⟨doc, -, hdoc⟩ := List.mem_flatMap.1 hline
  have hmark : isCommentStart (indent ++ "// ") = true ∧ IsLine (indent ++ "// ") := by
    rcases hindent with rfl | rfl
    · decide +kernel
    · decide +kernel
  exact yields_comment (isCommentStart_append hmark.1 _)
    (hmark.2.append (isLine_of_mem_lines hdoc).trimBlanks)

theorem yields_headLines {b : Block} (h : IsLine b.orig) : Yields b.headLines [] := by
  have horig : Yields (if b.orig.isEmpty then [] else ["//", "// C: " ++ b.orig]) [] := by
    by_cases hempty : b.orig.isEmpty = true
    · rw [if_pos hempty]
      exact Yields.nil
    · rw [if_neg hempty]
      have hfirst : Yields ["//"] [] := yields_comment (by decide +kernel) (by decide +kernel)
      have hmark : isCommentStart "// C: " = true ∧ IsLine "// C: " := by decide +kernel
      exact hfirst.append (yields_comment (isCommentStart_append hmark.1 _) (hmark.2.append h))
  exact (yields_docLines (Or.inl rfl) b.docs).append horig

theorem yields_banner {m : Manifest} (h : IsLine m.fingerprint) : Yields [banner m] [] := by
  unfold banner
  by_cases hempty : m.fingerprint.isEmpty = true
  · rw [if_pos hempty]
    exact yields_comment (by decide +kernel) (by decide +kernel)
  · rw [if_neg hempty]
    have hmark : isCommentStart "// Code generated by nlgen from schema " = true
        ∧ IsLine "// Code generated by nlgen from schema " ∧ IsLine ". DO NOT EDIT." := by
      decide +kernel
    exact yields_comment (isCommentStart_append (isCommentStart_append hmark.1 _) _)
      ((hmark.2.1.append h).append hmark.2.2)

end Comments

end GoSource

end NetlinkSchema
