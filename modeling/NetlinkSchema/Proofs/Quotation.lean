import NetlinkSchema.Listing
import NetlinkSchema.Proofs.Utf8

/-!
# Quoted texts in listings

A text in a listing stands between quotation marks on one line. Marks and backslashes in it are
escaped, and so are control characters, so that neither can end the quotation or the line. What is
written can be read back: the first mark that no backslash escapes ends the quotation, and in front
of it each character has one of three forms, which a reader tells apart by what follows a backslash.

A backslash in the text is always doubled, so a backslash that is read always begins an escape. This
is why a text that looks like an escape is not taken for one.

## Main definitions

* `Listing.readQuoted`: Reads up to the mark that ends a quotation.
* `Listing.unquote?`: The text that a quotation stands for.
* `Listing.bareMarks`: Where the marks are that no backslash escapes.
* `Listing.IsPrinting`: A character other than a control character of ASCII.

## Theorems

* `Listing.escape_cases`: The forms that a character has in a quotation.
* `Listing.readQuoted_escape`, `Listing.readQuoted_flatMap_escape`: A character and many of them are
  read back, whatever follows.
* `Listing.bareMarks_flatMap_escape`: No mark within a quotation is bare.
* `Listing.quote_unambiguous`: A quotation is one line that can be read back.
-/

namespace NetlinkSchema

namespace Listing

open Text

/-- The character that a letter after a backslash stands for. -/
def ofLetter? (l : Char) : Option Char :=
  if l == '\\' || l == '"' then some l
  else if l == 't' then some '\t'
  else if l == 'n' then some '\n'
  else none

/-- The value of a hexadecimal digit in capitals. -/
def digitValue? (c : Char) : Option Nat :=
  if '0' ≤ c && c ≤ '9' then some (c.toNat - 48)
  else if 'A' ≤ c && c ≤ 'F' then some (c.toNat - 55)
  else none

/-- The character whose code two hexadecimal digits give. -/
def ofCode? (high low : Char) : Option Char := do
  let h ← digitValue? high
  let l ← digitValue? low
  return Char.ofNat (16 * h + l)

/-- Reads the characters in front of the first mark that no backslash escapes, and what follows
    the mark. -/
def readQuoted : List Char → Option (List Char × List Char)
  | [] => none
  | c :: rest =>
    if c == '"' then some ([], rest)
    else if c != '\\' then (readQuoted rest).map fun r => (c :: r.1, r.2)
    else
      match rest with
      | [] => none
      | l :: rest =>
        if l != 'x' then do
          let c ← ofLetter? l
          (readQuoted rest).map fun r => (c :: r.1, r.2)
        else
          match rest with
          | high :: low :: rest => do
            let c ← ofCode? high low
            (readQuoted rest).map fun r => (c :: r.1, r.2)
          | _ => none

/-- The text that a quotation stands for, if the quotation is all there is. -/
def unquote? (t : Text) : Option Text := do
  let mark ← t.chars.head?
  let (cs, rest) ← readQuoted t.chars.tail
  if mark == '"' && rest.isEmpty then some (ofChars cs) else none

/-- The positions of the marks that no backslash escapes, counted from `index`. -/
def bareMarks (index : Nat) (escaped : Bool) : List Char → List Nat
  | [] => []
  | c :: rest =>
    if escaped then bareMarks (index + 1) false rest
    else if c == '"' then index :: bareMarks (index + 1) false rest
    else bareMarks (index + 1) (c == '\\') rest

/-- A character other than a control character of ASCII. -/
def IsPrinting (c : Char) : Prop := 0x20 ≤ c.toNat ∧ c.toNat ≠ 0x7F

instance (c : Char) : Decidable (IsPrinting c) := inferInstanceAs (Decidable (_ ∧ _))

section Forms

/-- A character that stands for nothing but itself between two marks. -/
def IsPlain (c : Char) : Prop := IsPrinting c ∧ c ≠ '"' ∧ c ≠ '\\'

instance (c : Char) : Decidable (IsPlain c) := inferInstanceAs (Decidable (_ ∧ _))

theorem digit_plain : ∀ d < 16, digitValue? (Nat.digitChar d).toUpper = some d
    ∧ IsPlain (Nat.digitChar d).toUpper := by decide +kernel

/-- The code of a character is read back from its digits. -/
theorem exists_code {c : Char} (h : c.toNat < 0x80) : ∃ high low,
    (hexDigits 2 c.toNat).map Char.toUpper = [high, low] ∧ ofCode? high low = some c
      ∧ IsPlain high ∧ IsPlain low := by
  obtain ⟨hhigh, hplain⟩ := digit_plain (c.toNat / 16 % 16) (by omega)
  obtain ⟨hlow, hplain'⟩ := digit_plain (c.toNat % 16) (by omega)
  refine ⟨_, _, rfl, ?_, hplain, hplain'⟩
  rw [ofCode?, hhigh, hlow]
  change some (Char.ofNat (16 * (c.toNat / 16 % 16) + c.toNat % 16)) = some c
  rw [show 16 * (c.toNat / 16 % 16) + c.toNat % 16 = c.toNat by omega, Char.ofNat_toNat]

/-- A character is quoted as it is, by a letter after a backslash, or by its code. -/
theorem escape_cases (c : Char) :
    (escape c = [c] ∧ IsPlain c)
      ∨ (∃ l, escape c = ['\\', l] ∧ ofLetter? l = some c ∧ l ≠ 'x' ∧ IsPrinting l)
      ∨ ∃ high low, escape c = ['\\', 'x', high, low] ∧ ofCode? high low = some c
        ∧ IsPlain high ∧ IsPlain low := by
  unfold escape
  split_ifs with hmark htab hbreak hcontrol
  · rw [Bool.or_eq_true, beq_iff_eq, beq_iff_eq] at hmark
    refine Or.inr (Or.inl ⟨c, rfl, ?_⟩)
    rcases hmark with rfl | rfl <;> decide
  · rw [beq_iff_eq] at htab
    exact Or.inr (Or.inl ⟨'t', rfl, htab ▸ by decide⟩)
  · rw [beq_iff_eq] at hbreak
    exact Or.inr (Or.inl ⟨'n', rfl, hbreak ▸ by decide⟩)
  · rw [Bool.or_eq_true, decide_eq_true_eq, beq_iff_eq] at hcontrol
    obtain ⟨high, low, hdigits, hcode⟩ := exists_code (c := c) (by omega)
    exact Or.inr (Or.inr ⟨high, low, by rw [hdigits], hcode⟩)
  · simp only [Bool.or_eq_true, beq_iff_eq, not_or, decide_eq_true_eq] at hmark hcontrol
    exact Or.inl ⟨rfl, ⟨by omega, hcontrol.2⟩, hmark.2, hmark.1⟩

end Forms

section Reading

/-- A character is read back, whatever follows it. -/
theorem readQuoted_escape (c : Char) (rest : List Char) :
    readQuoted (escape c ++ rest) = (readQuoted rest).map fun r => (c :: r.1, r.2) := by
  rcases escape_cases c with ⟨hform, -, hmark, hslash⟩ | ⟨l, hform, hc, hx, -⟩
    | ⟨high, low, hform, hc, -⟩
  · rw [hform, readQuoted.eq_def]
    simp [hmark, hslash]
  · rw [hform, readQuoted.eq_def]
    simp [hx, hc]
  · rw [hform, readQuoted.eq_def]
    simp [hc]

/-- The characters in front of a mark are read back, and the mark ends the quotation. -/
theorem readQuoted_flatMap_escape (cs rest : List Char) :
    readQuoted (cs.flatMap escape ++ '"' :: rest) = some (cs, rest) := by
  induction cs with
  | nil =>
      rw [List.flatMap_nil, List.nil_append, readQuoted.eq_def]
      rfl
  | cons c cs ih =>
      rw [List.flatMap_cons, List.append_assoc, readQuoted_escape, ih, Option.map_some]

end Reading

section Marks

variable {index : Nat}

theorem bareMarks_plain {c : Char} (h : IsPlain c) (rest : List Char) :
    bareMarks index false (c :: rest) = bareMarks (index + 1) false rest := by
  obtain ⟨-, hmark, hslash⟩ := h
  simp [bareMarks, hmark, beq_eq_false_iff_ne.2 hslash]

theorem bareMarks_slash (c : Char) (rest : List Char) :
    bareMarks index false ('\\' :: c :: rest) = bareMarks (index + 2) false rest := rfl

theorem bareMarks_escape (c : Char) (rest : List Char) :
    bareMarks index false (escape c ++ rest)
      = bareMarks (index + (escape c).length) false rest := by
  rcases escape_cases c with ⟨hform, hplain⟩ | ⟨l, hform, -⟩
    | ⟨high, low, hform, -, hhigh, hlow⟩
  · rw [hform, List.singleton_append, bareMarks_plain hplain, List.length_singleton]
  · rw [hform, List.cons_append, List.singleton_append, bareMarks_slash]
    rfl
  · rw [hform]
    change bareMarks index false ('\\' :: 'x' :: high :: low :: rest) = _
    rw [bareMarks_slash, bareMarks_plain hhigh, bareMarks_plain hlow]
    rfl

/-- No mark within a quotation is bare. -/
theorem bareMarks_flatMap_escape (cs rest : List Char) :
    bareMarks index false (cs.flatMap escape ++ rest)
      = bareMarks (index + (cs.flatMap escape).length) false rest := by
  induction cs generalizing index with
  | nil => rfl
  | cons c cs ih =>
      rw [List.flatMap_cons, List.append_assoc, bareMarks_escape, ih, List.length_append,
        Nat.add_assoc]

end Marks

theorem isPrinting_of_mem_escape {c d : Char} (h : d ∈ escape c) : IsPrinting d := by
  have hslash : IsPrinting '\\' := by decide
  rcases escape_cases c with ⟨hform, hplain⟩ | ⟨l, hform, -, -, hl⟩
    | ⟨high, low, hform, -, hhigh, hlow⟩
  · rw [hform, List.mem_singleton] at h
    exact h ▸ hplain.1
  · rw [hform, List.mem_cons, List.mem_singleton] at h
    rcases h with rfl | rfl
    · exact hslash
    · exact hl
  · rw [hform] at h
    simp only [List.mem_cons, List.not_mem_nil, or_false] at h
    rcases h with rfl | rfl | rfl | rfl
    · exact hslash
    · decide
    · exact hhigh.1
    · exact hlow.1

theorem chars_quote (t : Text) :
    (quote t).chars = '"' :: (t.chars.flatMap escape ++ ['"']) := by
  rw [quote, chars_ofChars, List.cons_append]

/-- The characters of a text are read back from its quotation. -/
theorem unquote?_quote (t : Text) : unquote? (quote t) = some (ofChars t.chars) := by
  rw [unquote?, chars_quote, List.head?_cons, List.tail_cons, readQuoted_flatMap_escape]
  rfl

/-- A quoted text is one line that cannot be mistaken. It begins and ends with a mark, has no
    control characters, and no other mark in it is without a backslash. Reading its escapes gives
    the text, so that different texts are quoted differently. -/
theorem quote_unambiguous {t : Text} (ht : t.isValid = true) :
    (quote t).isValid = true ∧
    (∃ body, (quote t).chars = '"' :: (body ++ ['"'])) ∧
    (∀ c ∈ (quote t).chars, 0x20 ≤ c.toNat ∧ c.toNat ≠ 0x7F) ∧
    bareMarks 0 false (quote t).chars = [0, (quote t).chars.length - 1] ∧
    unquote? (quote t) = some t ∧
    ∀ u : Text, u.isValid = true → quote t = quote u → t = u := by
  refine ⟨isValid_ofChars _, ⟨_, chars_quote t⟩, fun c hc => ?_, ?_, ?_, fun u hu heq => ?_⟩
  · rw [chars_quote, List.mem_cons, List.mem_append, List.mem_singleton, List.mem_flatMap] at hc
    rcases hc with rfl | ⟨d, -, hd⟩ | rfl
    · decide
    · exact isPrinting_of_mem_escape hd
    · decide
  · rw [chars_quote]
    change 0 :: bareMarks 1 false (t.chars.flatMap escape ++ ['"']) = _
    rw [bareMarks_flatMap_escape, List.length_cons, List.length_append, Nat.add_sub_cancel,
      Nat.add_comm 1]
    rfl
  · rw [unquote?_quote, ofChars_chars ht]
  · have hread := congrArg unquote? heq
    rw [unquote?_quote, unquote?_quote, ofChars_chars ht, ofChars_chars hu] at hread
    exact Option.some.inj hread

/-- A text that looks like an escape is told apart from the line break that it stands for. -/
theorem escapes_told_apart :
    (ofString "\\n\n\x7F\"é").isValid = true
      ∧ quote "\\n\n\x7F\"é" = "\"\\\\n\\n\\x7F\\\"é\""
      ∧ unquote? (quote "\\n\n\x7F\"é") = some "\\n\n\x7F\"é" :=
  ⟨by decide +kernel, by decide +kernel, (quote_unambiguous (by decide +kernel)).2.2.2.2.1⟩

end Listing

end NetlinkSchema
