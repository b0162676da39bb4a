import NetlinkSchema.Codec.Enum
import Mathlib.Tactic.SplitIfs

/-!
# Texts in UTF-8

The encoding of a character is read as that character, whatever follows it, so a text made of
characters has no stray bytes. Texts that are put together from characters are UTF-8, the field
names of enum values alone excepted. There a capital is made of the first byte of each word but the
first, and where that byte only starts a character the other bytes of the character stray.

## Main definitions

* `Text.laterWords`: The words of a value name that get a capital.
* `Text.StartsAscii`: A text that does not begin with a character beyond ASCII.

## Theorems

* `Rune.decode_utf8EncodeChar`: A character is read back from its encoding.
* `Text.decode_append_ascii`: Reading starts anew at an ASCII character.
* `Text.chars_ofChars`: A text of characters has these characters.
* `Text.ofChars_chars`: A text in UTF-8 is made of its characters.
* `Text.isValid_append`: Texts in UTF-8 can be put together.
* `Text.isValid_ofChars`, `Text.isValid_ofString`: Texts of characters are UTF-8.
* `Text.isValid_camelCase`: When a field name is UTF-8.
-/

namespace NetlinkSchema

namespace Rune

section Steps

variable {b b1 b2 b3 : UInt8} (rest : Bytes)

-- One step of reading for each length of a character, and one for a byte that starts none.
theorem decode_one (h : b < 0x80) :
    decode (b :: rest) = char (Char.ofNat b.toNat) :: decode rest := by
  rw [decode.eq_def]
  simp only [if_pos h]

theorem decode_two (h : ¬ b < 0x80) (hb : (0xC2 ≤ b && b ≤ 0xDF) = true)
    (h1 : isContinuation b1 = true) : decode (b :: b1 :: rest)
      = char (Char.ofNat (b.toNat % 32 * 64 + payload b1)) :: decode rest := by
  rw [decode.eq_def]
  simp only [if_neg h, if_pos hb, if_pos h1]

theorem decode_three (h : ¬ b < 0x80) (h' : ¬ (0xC2 ≤ b && b ≤ 0xDF) = true)
    (hb : (0xE0 ≤ b && b ≤ 0xEF) = true) (h1 : (isSecond b b1 && isContinuation b2) = true) :
    decode (b :: b1 :: b2 :: rest)
      = char (Char.ofNat (b.toNat % 16 * 4096 + payload b1 * 64 + payload b2)) :: decode rest := by
  rw [decode.eq_def]
  simp only [if_neg h, if_neg h', if_pos hb, if_pos h1]

theorem decode_four (h : ¬ b < 0x80) (h' : ¬ (0xC2 ≤ b && b ≤ 0xDF) = true)
    (h'' : ¬ (0xE0 ≤ b && b ≤ 0xEF) = true) (hb : (0xF0 ≤ b && b ≤ 0xF4) = true)
    (h1 : (isSecond b b1 && isContinuation b2 && isContinuation b3) = true) :
    decode (b :: b1 :: b2 :: b3 :: rest)
      = char (Char.ofNat (b.toNat % 8 * 262144 + payload b1 * 4096 + payload b2 * 64 + payload b3))
        :: decode rest := by
  rw [decode.eq_def]
  simp only [if_neg h, if_neg h', if_neg h'', if_pos hb, if_pos h1]

theorem decode_stray (h : isContinuation b = true) :
    decode (b :: rest) = stray b :: decode rest := by
  simp only [isContinuation, Bool.and_eq_true, decide_eq_true_eq, UInt8.le_iff_toNat_le] at h
  rw [decode.eq_def]
  simp only [UInt8.lt_iff_toNat_lt, UInt8.le_iff_toNat_le, UInt8.reduceToNat, Bool.and_eq_true,
    decide_eq_true_eq] at h ⊢
  rw [if_neg (by omega), if_neg (by omega), if_neg (by omega), if_neg (by omega)]

end Steps

theorem toNat_ofNat_of_lt {n : Nat} (h : n < 256) : (UInt8.ofNat n).toNat = n := by
  rw [UInt8.toNat_ofNat', Nat.mod_eq_of_lt h]

section Encodings

variable {n : Nat} (rest : Bytes)

-- The bytes of a code point, by its size. The conditions on the second byte are those that exclude
-- smaller code points, the surrogates and numbers beyond the last code point.
theorem decode_encoding_two (hlow : 0x7F < n) (hhigh : n ≤ 0x7FF) :
    decode (UInt8.ofNat (n / 64 % 32 + 192) :: UInt8.ofNat (n % 64 + 128) :: rest)
      = char (Char.ofNat n) :: decode rest := by
  have hlead := toNat_ofNat_of_lt (show n / 64 % 32 + 192 < 256 by omega)
  have hnext := toNat_ofNat_of_lt (show n % 64 + 128 < 256 by omega)
  have hsum : (n / 64 % 32 + 192) % 32 * 64 + (n % 64 + 128) % 64 = n := by omega
  rw [decode_two, payload, hlead, hnext, hsum]
  all_goals
    simp only [isContinuation, Bool.and_eq_true, decide_eq_true_eq, UInt8.lt_iff_toNat_lt,
      UInt8.le_iff_toNat_le, hlead, hnext, UInt8.reduceToNat]
    omega

theorem decode_encoding_three (hlow : 0x7FF < n) (hhigh : n ≤ 0xFFFF)
    (hvalid : n < 0xD800 ∨ 0xDFFF < n) :
    decode (UInt8.ofNat (n / 4096 % 16 + 224) :: UInt8.ofNat (n / 64 % 64 + 128)
        :: UInt8.ofNat (n % 64 + 128) :: rest) = char (Char.ofNat n) :: decode rest := by
  have hlead := toNat_ofNat_of_lt (show n / 4096 % 16 + 224 < 256 by omega)
  have hsecond := toNat_ofNat_of_lt (show n / 64 % 64 + 128 < 256 by omega)
  have hthird := toNat_ofNat_of_lt (show n % 64 + 128 < 256 by omega)
  have hsum : (n / 4096 % 16 + 224) % 16 * 4096 + (n / 64 % 64 + 128) % 64 * 64
      + (n % 64 + 128) % 64 = n := by omega
  rw [decode_three, payload, payload, hlead, hsecond, hthird, hsum]
  all_goals
    simp only [isContinuation, isSecond, secondByteRange, beq_iff_eq, ← UInt8.toNat_inj,
      Bool.and_eq_true, decide_eq_true_eq, UInt8.lt_iff_toNat_lt, UInt8.le_iff_toNat_le, hlead,
      hsecond, hthird, UInt8.reduceToNat]
  · omega
  · omega
  · omega
  · split_ifs <;> simp only [UInt8.reduceToNat] <;> omega

theorem decode_encoding_four (hlow : 0xFFFF < n) (hhigh : n < 0x110000) :
    decode (UInt8.ofNat (n / 262144 % 8 + 240) :: UInt8.ofNat (n / 4096 % 64 + 128)
        :: UInt8.ofNat (n / 64 % 64 + 128) :: UInt8.ofNat (n % 64 + 128) :: rest)
      = char (Char.ofNat n) :: decode rest := by
  have hlead := toNat_ofNat_of_lt (show n / 262144 % 8 + 240 < 256 by omega)
  have hsecond := toNat_ofNat_of_lt (show n / 4096 % 64 + 128 < 256 by omega)
  have hthird := toNat_ofNat_of_lt (show n / 64 % 64 + 128 < 256 by omega)
  have hfourth := toNat_ofNat_of_lt (show n % 64 + 128 < 256 by omega)
  have hsum : (n / 262144 % 8 + 240) % 8 * 262144 + (n / 4096 % 64 + 128) % 64 * 4096
      + (n / 64 % 64 + 128) % 64 * 64 + (n % 64 + 128) % 64 = n := by omega
  rw [decode_four, payload, payload, payload, hlead, hsecond, hthird, hfourth, hsum]
  all_goals
    simp only [isContinuation, isSecond, secondByteRange, beq_iff_eq, ← UInt8.toNat_inj,
      Bool.and_eq_true, decide_eq_true_eq, UInt8.lt_iff_toNat_lt, UInt8.le_iff_toNat_le, hlead,
      hsecond, hthird, hfourth, UInt8.reduceToNat]
  · omega
  · omega
  · omega
  · omega
  · split_ifs <;> simp only [UInt8.reduceToNat] <;> omega

end Encodings

/-- A character is read back from its encoding, whatever follows it. -/
theorem decode_utf8EncodeChar (c : Char) (rest : Bytes) :
    decode (String.utf8EncodeChar c ++ rest) = char c :: decode rest := by
  have hvalid : c.val.toNat < 0xD800 ∨ 0xDFFF < c.val.toNat ∧ c.val.toNat < 0x110000 := c.valid
  have hchar : Char.ofNat c.val.toNat = c := Char.ofNat_toNat c
  unfold String.utf8EncodeChar
  by_cases h1 : c.val.toNat ≤ 127
  · have hlead := toNat_ofNat_of_lt (show c.val.toNat < 256 by omega)
    have hlt : UInt8.ofNat c.val.toNat < 0x80 := by
      rw [UInt8.lt_iff_toNat_lt, hlead]
      exact Nat.lt_succ_of_le h1
    simp only [if_pos h1, List.cons_append, List.nil_append, decode_one rest hlt, hlead, hchar]
  by_cases h2 : c.val.toNat ≤ 2047
  · have hread := decode_encoding_two rest (Nat.lt_of_not_le h1) h2
    rw [hchar] at hread
    simp only [if_neg h1, if_pos h2]
    exact hread
  by_cases h3 : c.val.toNat ≤ 65535
  · have hread := decode_encoding_three rest (Nat.lt_of_not_le h2) h3 (by omega)
    rw [hchar] at hread
    simp only [if_neg h1, if_neg h2, if_pos h3]
    exact hread
  · have hread := decode_encoding_four rest (Nat.lt_of_not_le h3) (by omega)
    rw [hchar] at hread
    simp only [if_neg h1, if_neg h2, if_neg h3]
    exact hread

theorem isContinuation_ofNat (n : Nat) : isContinuation (UInt8.ofNat (n % 64 + 128)) = true := by
  have hbyte := toNat_ofNat_of_lt (show n % 64 + 128 < 256 by omega)
  simp only [isContinuation, Bool.and_eq_true, decide_eq_true_eq, UInt8.le_iff_toNat_le, hbyte,
    UInt8.reduceToNat]
  omega

/-- The bytes of a character beyond ASCII: one that starts it, and at least one that continues
    it. -/
theorem exists_of_not_ascii {c : Char} (h : ¬ c.toNat < 0x80) :
    ∃ (lead next : UInt8) (rest : Bytes), String.utf8EncodeChar c = lead :: next :: rest
      ∧ ¬ lead < 0x80 ∧ isContinuation next = true ∧ ∀ b ∈ rest, isContinuation b = true := by
  have hlead : ∀ n, 0x80 ≤ n → n < 256 → ¬ UInt8.ofNat n < 0x80 := by
    intro n hlow hhigh
    rw [UInt8.lt_iff_toNat_lt, toNat_ofNat_of_lt hhigh]
    exact Nat.not_lt.2 hlow
  have h1 : ¬ c.val.toNat ≤ 127 := fun hle => h (Nat.lt_succ_of_le hle)
  unfold String.utf8EncodeChar
  simp only [if_neg h1]
  by_cases h2 : c.val.toNat ≤ 2047
  · rw [if_pos h2]
    exact ⟨_, _, [], rfl, hlead _ (by omega) (by omega), isContinuation_ofNat _,
      List.forall_mem_nil _⟩
  rw [if_neg h2]
  by_cases h3 : c.val.toNat ≤ 65535
  · rw [if_pos h3]
    refine ⟨_, _, _, rfl, hlead _ (by omega) (by omega), isContinuation_ofNat _, ?_⟩
    simp only [List.forall_mem_cons]
    exact ⟨isContinuation_ofNat _, List.forall_mem_nil _⟩
  · rw [if_neg h3]
    refine ⟨_, _, _, rfl, hlead _ (by omega) (by omega), isContinuation_ofNat _, ?_⟩
    simp only [List.forall_mem_cons]
    exact ⟨isContinuation_ofNat _, isContinuation_ofNat _, List.forall_mem_nil _⟩

theorem utf8EncodeChar_ascii {c : Char} (h : c.toNat < 0x80) :
    String.utf8EncodeChar c = [UInt8.ofNat c.toNat] := if_pos (Nat.le_of_lt_succ h)

end Rune

namespace Text

open Rune

section Valid

variable (rest : Bytes)

/-- Characters in front of a text do not change whether it is UTF-8. -/
theorem isValid_ofChars_append (cs : List Char) :
    isValid ⟨cs.flatMap String.utf8EncodeChar ++ rest⟩ = isValid ⟨rest⟩ := by
  induction cs with
  | nil => rfl
  | cons c cs ih =>
      rw [List.flatMap_cons, List.append_assoc, isValid, runes, decode_utf8EncodeChar]
      exact ih

theorem isValid_ascii_append {a : Bytes} (h : ∀ b ∈ a, b < 0x80) :
    isValid ⟨a ++ rest⟩ = isValid ⟨rest⟩ := by
  induction a with
  | nil => rfl
  | cons b a ih =>
      rw [List.forall_mem_cons] at h
      rw [List.cons_append, isValid, runes, decode_one _ h.1]
      exact ih h.2

theorem isValid_stray {b : UInt8} (h : isContinuation b = true) : isValid ⟨b :: rest⟩ = false := by
  rw [isValid, runes, decode_stray rest h]
  rfl

end Valid

/-- Reading goes on after a text that is UTF-8 as if it were not there. -/
theorem decode_append {a : Bytes} (h : isValid ⟨a⟩ = true) (rest : Bytes) :
    decode (a ++ rest) = decode a ++ decode rest := by
  rw [isValid, runes] at h
  induction a using decode.induct with
  | case1 => rfl
  | case2 b a hb ih =>
      rw [decode_one _ hb] at h ⊢
      rw [List.cons_append, decode_one _ hb, ih h, List.cons_append]
  | case3 b hb hb' b1 a h1 ih =>
      rw [decode_two _ hb hb' h1] at h ⊢
      rw [List.cons_append, List.cons_append, decode_two _ hb hb' h1, ih h, List.cons_append]
  | case6 b hb hb' hb'' b1 b2 a h1 ih =>
      rw [decode_three _ hb hb' hb'' h1] at h ⊢
      simp only [List.cons_append]
      rw [decode_three _ hb hb' hb'' h1, ih h]
  | case9 b hb hb' hb'' hb4 b1 b2 b3 a h1 ih =>
      rw [decode_four _ hb hb' hb'' hb4 h1] at h ⊢
      simp only [List.cons_append]
      rw [decode_four _ hb hb' hb'' hb4 h1, ih h]
  | _ =>
      -- Elsewhere the first byte strays.
      rw [decode.eq_def] at h
      simp only [*, if_false, if_true, List.all_cons, Bool.false_and, Bool.false_eq_true] at h

theorem isContinuation_ascii {x : UInt8} (h : x < 0x80) : isContinuation x = false := by
  have hlow : ¬ 0x80 ≤ x := UInt8.not_le.2 h
  simp [isContinuation, hlow]

theorem isSecond_ascii (b : UInt8) {x : UInt8} (h : x < 0x80) : isSecond b x = false := by
  have hlow : ∀ y : UInt8, 0x80 ≤ y → ¬ y ≤ x := fun y hy =>
    UInt8.not_le.2 (UInt8.lt_of_lt_of_le h hy)
  have hrange : 0x80 ≤ (secondByteRange b).1 := by
    unfold secondByteRange
    split_ifs <;> decide
  simp [isSecond, hlow _ hrange]

/-- Reading starts anew at an ASCII character, whether or not what comes before it is UTF-8. -/
theorem decode_append_ascii (a : Bytes) {x : UInt8} (hx : x < 0x80) (rest : Bytes) :
    decode (a ++ x :: rest) = decode a ++ decode (x :: rest) := by
  have hnext := isContinuation_ascii hx
  have hsecond := fun b => isSecond_ascii b hx
  have hnil : decode [] = [] := by rw [decode]
  induction a using decode.induct with
  | case1 => rfl
  | case2 b a hb ih =>
      rw [decode_one _ hb, List.cons_append, decode_one _ hb, ih, List.cons_append]
  | case3 b hb hb' b1 a h1 ih =>
      rw [List.cons_append, List.cons_append, decode_two _ hb hb' h1, decode_two _ hb hb' h1, ih,
        List.cons_append]
  | case6 b hb hb' hb'' b1 b2 a h1 ih =>
      simp only [List.cons_append]
      rw [decode_three _ hb hb' hb'' h1, decode_three _ hb hb' hb'' h1, ih, List.cons_append]
  | case9 b hb hb' hb'' hb4 b1 b2 b3 a h1 ih =>
      simp only [List.cons_append]
      rw [decode_four _ hb hb' hb'' hb4 h1, decode_four _ hb hb' hb'' hb4 h1, ih, List.cons_append]
  | case5 b hb hb' =>
      rw [decode.eq_def, decode.eq_def [b]]
      simp [hb, hb', hnext]
  | case8 b hb hb' hb'' short hshort ih =>
      rcases short with _ | ⟨b1, _ | ⟨b2, short⟩⟩
      · rw [decode.eq_def, decode.eq_def [b]]
        cases rest <;> simp [hb, hb', hb'', hsecond, hnil]
      · rw [decode.eq_def, decode.eq_def [b, b1]]
        simp only [List.cons_append, List.nil_append] at ih
        simp [hb, hb', hb'', hnext, ih]
      · exact absurd rfl (hshort b1 b2 short)
  | case11 b hb hb' hb'' hb4 short hshort ih =>
      rcases short with _ | ⟨b1, _ | ⟨b2, _ | ⟨b3, short⟩⟩⟩
      · rw [decode.eq_def, decode.eq_def [b]]
        rcases rest with _ | ⟨r1, _ | ⟨r2, rest⟩⟩ <;> simp [hb, hb', hb'', hb4, hsecond, hnil]
      · rw [decode.eq_def, decode.eq_def [b, b1]]
        simp only [List.cons_append, List.nil_append] at ih
        cases rest <;> simp [hb, hb', hb'', hb4, hnext, ih]
      · rw [decode.eq_def, decode.eq_def [b, b1, b2]]
        simp only [List.cons_append, List.nil_append] at ih
        simp [hb, hb', hb'', hb4, hnext, ih]
      · exact absurd rfl (hshort b1 b2 b3 short)
  | case4 b hb hb' b1 a h1 ih =>
      rw [decode.eq_def, decode.eq_def (b :: b1 :: a)]
      simp only [List.cons_append] at ih
      simp [hb, hb', h1, ih]
  | case7 b hb hb' hb'' b1 b2 a h1 ih =>
      rw [decode.eq_def, decode.eq_def (b :: b1 :: b2 :: a)]
      simp only [List.cons_append] at ih
      simp only [List.cons_append, if_neg hb, if_neg hb', if_pos hb'', if_neg h1, ih]
  | case10 b hb hb' hb'' hb4 b1 b2 b3 a h1 ih =>
      rw [decode.eq_def, decode.eq_def (b :: b1 :: b2 :: b3 :: a)]
      simp only [List.cons_append] at ih
      simp only [List.cons_append, if_neg hb, if_neg hb', if_neg hb'', if_pos hb4, if_neg h1, ih]
  | case12 b a hb hb' hb'' hb4 ih =>
      rw [decode.eq_def, decode.eq_def (b :: a)]
      simp only [List.cons_append, if_neg hb, if_neg hb', if_neg hb'', if_neg hb4, ih]

theorem isValid_append {t u : Text} (ht : t.isValid = true) (hu : u.isValid = true) :
    (t ++ u).isValid = true := by
  have hruns : (t ++ u).runes = t.runes ++ u.runes := decode_append ht u.utf8
  rw [isValid, hruns, List.all_append, Bool.and_eq_true]
  exact ⟨ht, hu⟩

theorem isValid_ofChars (cs : List Char) : (ofChars cs).isValid = true := by
  have h := isValid_ofChars_append [] cs
  rw [List.append_nil] at h
  exact h

theorem chars_ofChars (cs : List Char) : (ofChars cs).chars = cs := by
  unfold chars runes ofChars
  induction cs with
  | nil => simp [decode]
  | cons c cs ih => rw [List.flatMap_cons, decode_utf8EncodeChar, List.map_cons, ih, Rune.toChar]

theorem ofChars_injective {cs ds : List Char} (h : ofChars cs = ofChars ds) : cs = ds := by
  rw [← chars_ofChars cs, h, chars_ofChars]

theorem size_ofChars (cs : List Char) : (ofChars cs).size ≤ 4 * cs.length := by
  unfold size ofChars
  induction cs with
  | nil => exact Nat.zero_le _
  | cons c cs ih =>
      have hchar := c.utf8Size_le_four
      simp only [List.flatMap_cons, List.length_append, String.length_utf8EncodeChar,
        List.length_cons] at ih ⊢
      omega

section Inverse

theorem toNat_charOfNat {n : Nat} (h : n.isValidChar) : (Char.ofNat n).toNat = n := by
  rw [Char.ofNat, dif_pos h]
  rfl

theorem eq_of_toNat {b : UInt8} {n : Nat} (h : n = b.toNat) : UInt8.ofNat n = b := by
  rw [h, UInt8.ofNat_toNat]

theorem toNat_of_isContinuation {b : UInt8} (h : isContinuation b = true) :
    0x80 ≤ b.toNat ∧ b.toNat ≤ 0xBF := by
  simpa only [isContinuation, Bool.and_eq_true, decide_eq_true_eq, UInt8.le_iff_toNat_le,
    UInt8.reduceToNat] using h

theorem toNat_of_isSecond {lead second : UInt8} (h : isSecond lead second = true) :
    0x80 ≤ second.toNat ∧ second.toNat ≤ 0xBF ∧ (lead.toNat = 0xE0 → 0xA0 ≤ second.toNat)
      ∧ (lead.toNat = 0xED → second.toNat ≤ 0x9F) ∧ (lead.toNat = 0xF0 → 0x90 ≤ second.toNat)
      ∧ (lead.toNat = 0xF4 → second.toNat ≤ 0x8F) := by
  simp only [isSecond, secondByteRange, beq_iff_eq, ← UInt8.toNat_inj, Bool.and_eq_true,
    decide_eq_true_eq, UInt8.le_iff_toNat_le, UInt8.reduceToNat] at h
  split_ifs at h <;> simp only [UInt8.reduceToNat] at h <;> omega

variable {b b1 b2 b3 : UInt8}

-- A character that was read has the bytes that it was read from, by the number of them.
theorem utf8EncodeChar_one (h : b < 0x80) : String.utf8EncodeChar (Char.ofNat b.toNat) = [b] := by
  rw [UInt8.lt_iff_toNat_lt] at h
  have hnat : (Char.ofNat b.toNat).toNat = b.toNat :=
    toNat_charOfNat (Or.inl (Nat.lt_trans h (by decide)))
  rw [utf8EncodeChar_ascii (by rwa [hnat]), hnat, UInt8.ofNat_toNat]

theorem utf8EncodeChar_two (hb : (0xC2 ≤ b && b ≤ 0xDF) = true) (h1 : isContinuation b1 = true) :
    String.utf8EncodeChar (Char.ofNat (b.toNat % 32 * 64 + payload b1)) = [b, b1] := by
  have hnext := toNat_of_isContinuation h1
  simp only [Bool.and_eq_true, decide_eq_true_eq, UInt8.le_iff_toNat_le, UInt8.reduceToNat] at hb
  have hval : (Char.ofNat (b.toNat % 32 * 64 + payload b1)).val.toNat = _ :=
    toNat_charOfNat (by unfold payload Nat.isValidChar; omega)
  simp only [String.utf8EncodeChar, hval]
  unfold payload
  rw [if_neg (by omega), if_pos (by omega), eq_of_toNat (b := b) (by omega),
    eq_of_toNat (b := b1) (by omega)]

theorem utf8EncodeChar_three (hb : (0xE0 ≤ b && b ≤ 0xEF) = true)
    (h1 : (isSecond b b1 && isContinuation b2) = true) :
    String.utf8EncodeChar (Char.ofNat (b.toNat % 16 * 4096 + payload b1 * 64 + payload b2))
      = [b, b1, b2] := by
  rw [Bool.and_eq_true] at h1
  have hsecond := toNat_of_isSecond h1.1
  have hthird := toNat_of_isContinuation h1.2
  simp only [Bool.and_eq_true, decide_eq_true_eq, UInt8.le_iff_toNat_le, UInt8.reduceToNat] at hb
  have hval : (Char.ofNat (b.toNat % 16 * 4096 + payload b1 * 64 + payload b2)).val.toNat = _ :=
    toNat_charOfNat (by unfold payload Nat.isValidChar; omega)
  simp only [String.utf8EncodeChar, hval]
  unfold payload
  rw [if_neg (by omega), if_neg (by omega), if_pos (by omega), eq_of_toNat (b := b) (by omega),
    eq_of_toNat (b := b1) (by omega), eq_of_toNat (b := b2) (by omega)]

theorem utf8EncodeChar_four (hb : (0xF0 ≤ b && b ≤ 0xF4) = true)
    (h1 : (isSecond b b1 && isContinuation b2 && isContinuation b3) = true) :
    String.utf8EncodeChar (Char.ofNat (b.toNat % 8 * 262144 + payload b1 * 4096 + payload b2 * 64
      + payload b3)) = [b, b1, b2, b3] := by
  rw [Bool.and_eq_true, Bool.and_eq_true] at h1
  have hsecond := toNat_of_isSecond h1.1.1
  have hthird := toNat_of_isContinuation h1.1.2
  have hfourth := toNat_of_isContinuation h1.2
  simp only [Bool.and_eq_true, decide_eq_true_eq, UInt8.le_iff_toNat_le, UInt8.reduceToNat] at hb
  have hval : (Char.ofNat (b.toNat % 8 * 262144 + payload b1 * 4096 + payload b2 * 64
      + payload b3)).val.toNat = _ := toNat_charOfNat (by unfold payload Nat.isValidChar; omega)
  simp only [String.utf8EncodeChar, hval]
  unfold payload
  rw [if_neg (by omega), if_neg (by omega), if_neg (by omega), eq_of_toNat (b := b) (by omega),
    eq_of_toNat (b := b1) (by omega), eq_of_toNat (b := b2) (by omega),
    eq_of_toNat (b := b3) (by omega)]

/-- A text in UTF-8 is made of its characters. -/
theorem ofChars_chars {t : Text} (h : t.isValid = true) : ofChars t.chars = t := by
  have hbytes : ∀ a : Bytes, isValid ⟨a⟩ = true →
      ((decode a).map toChar).flatMap String.utf8EncodeChar = a := by
    intro a ha
    rw [isValid, runes] at ha
    induction a using decode.induct with
    | case1 => rw [decode, List.map_nil, List.flatMap_nil]
    | case2 b a hb ih =>
        rw [decode_one _ hb] at ha ⊢
        rw [List.map_cons, List.flatMap_cons, ih ha, toChar, utf8EncodeChar_one hb,
          List.singleton_append]
    | case3 b hb hb' b1 a h1 ih =>
        rw [decode_two _ hb hb' h1] at ha ⊢
        rw [List.map_cons, List.flatMap_cons, ih ha, toChar, utf8EncodeChar_two hb' h1]
        rfl
    | case6 b hb hb' hb'' b1 b2 a h1 ih =>
        rw [decode_three _ hb hb' hb'' h1] at ha ⊢
        rw [List.map_cons, List.flatMap_cons, ih ha, toChar, utf8EncodeChar_three hb'' h1]
        rfl
    | case9 b hb hb' hb'' hb4 b1 b2 b3 a h1 ih =>
        rw [decode_four _ hb hb' hb'' hb4 h1] at ha ⊢
        rw [List.map_cons, List.flatMap_cons, ih ha, toChar, utf8EncodeChar_four hb4 h1]
        rfl
    | _ =>
        -- Elsewhere the first byte strays.
        rw [decode.eq_def] at ha
        simp only [*, if_false, if_true, List.all_cons, Bool.false_and, Bool.false_eq_true] at ha
  exact congrArg Text.mk (hbytes t.utf8 h)

end Inverse

theorem ofString_eq (s : String) : ofString s = ofChars s.toList := by
  have hbytes : s.toByteArray.data.toList = s.toList.flatMap String.utf8EncodeChar := by
    rw [← String.utf8Encode_toList, List.utf8Encode, List.toList_data_toByteArray]
  exact congrArg Text.mk hbytes

theorem isValid_ofString (s : String) : (ofString s).isValid = true := by
  rw [ofString_eq]
  exact isValid_ofChars s.toList

section Words

theorem splitBytes_ne_nil (sep : UInt8) (b : Bytes) : splitBytes sep b ≠ [] := by
  cases b with
  | nil => exact List.cons_ne_nil _ _
  | cons x rest =>
      rw [splitBytes]
      split
      · exact List.cons_ne_nil _ _
      · split_ifs <;> exact List.cons_ne_nil _ _

/-- Bytes other than the separator go to the first piece. -/
theorem splitBytes_append {sep : UInt8} {a : Bytes} (h : sep ∉ a) {rest piece : Bytes}
    {pieces : List Bytes} (hrest : splitBytes sep rest = piece :: pieces) :
    splitBytes sep (a ++ rest) = (a ++ piece) :: pieces := by
  induction a with
  | nil => exact hrest
  | cons x a ih =>
      rw [List.mem_cons, not_or] at h
      rw [List.cons_append, splitBytes, ih h.2]
      exact if_neg fun hx => h.1 (beq_iff_eq.1 hx).symm

theorem underscore_notMem {c : Char} (hc : c ≠ '_') : 0x5F ∉ String.utf8EncodeChar c := by
  intro hmem
  by_cases h : c.toNat < 0x80
  · rw [utf8EncodeChar_ascii h, List.mem_singleton] at hmem
    have hnat := congrArg UInt8.toNat hmem
    rw [toNat_ofNat_of_lt (Nat.lt_trans h (by decide))] at hnat
    refine hc (Char.toNat_inj.1 ?_)
    exact hnat.symm
  · obtain ⟨lead, next, rest, henc, hlead, hnext, hrest⟩ := exists_of_not_ascii h
    rw [henc, List.mem_cons, List.mem_cons] at hmem
    rcases hmem with rfl | rfl | hmem
    · exact hlead (by decide)
    · exact absurd hnext (by decide)
    · exact absurd (hrest _ hmem) (by decide)

/-- The words of a text of characters are texts of characters. -/
theorem exists_words (cs : List Char) : ∃ ws : List (List Char),
    splitBytes 0x5F (cs.flatMap String.utf8EncodeChar)
      = ws.map (·.flatMap String.utf8EncodeChar) := by
  induction cs with
  | nil => exact ⟨[[]], rfl⟩
  | cons c cs ih =>
      obtain ⟨ws, hws⟩ := ih
      cases ws with
      | nil => exact absurd hws (splitBytes_ne_nil _ _)
      | cons w ws =>
          rw [List.flatMap_cons]
          by_cases hc : c = '_'
          · refine ⟨[] :: w :: ws, ?_⟩
            subst hc
            show splitBytes 0x5F (0x5F :: cs.flatMap String.utf8EncodeChar) = _
            rw [splitBytes, hws]
            rfl
          · refine ⟨(c :: w) :: ws, ?_⟩
            rw [splitBytes_append (underscore_notMem hc) hws, List.map_cons, List.flatMap_cons]

end Words

/-- The text does not begin with a character beyond ASCII. -/
def StartsAscii (t : Text) : Prop := ∀ b, t.utf8.head? = some b → b < 0x80

instance (t : Text) : Decidable t.StartsAscii :=
  decidable_of_iff (t.utf8.head?.all (· < 0x80) = true) (by simp [StartsAscii, Option.all_eq_true])

/-- The words of a value name that get a capital, in lower case. -/
def laterWords (name : Text) : List Text :=
  (toLower ⟨name.utf8.dropWhile (· == 0x5F)⟩ |>.splitOn '_').drop 1

theorem upperChar_ascii : ∀ n < 0x80, UInt8.ofNat (upperChar (Char.ofNat n)).toNat < 0x80 := by
  decide +kernel

/-- A word with a capital is UTF-8 if it begins with an ASCII character. Otherwise the bytes that
    continued its first character stray. -/
theorem isValid_capitalizeByte_append (w : List Char) (rest : Bytes) :
    isValid ⟨capitalizeByte (w.flatMap String.utf8EncodeChar) ++ rest⟩ = true
      ↔ StartsAscii (ofChars w) ∧ isValid ⟨rest⟩ = true := by
  cases w with
  | nil => simp [capitalizeByte, StartsAscii, ofChars]
  | cons c w =>
      by_cases h : c.toNat < 0x80
      · have hnat := toNat_ofNat_of_lt (Nat.lt_trans h (by decide))
        have hlt : UInt8.ofNat c.toNat < 0x80 := by
          rw [UInt8.lt_iff_toNat_lt, hnat]
          exact h
        have hstarts : StartsAscii (ofChars (c :: w)) := by
          intro b hb
          rw [ofChars, List.flatMap_cons, utf8EncodeChar_ascii h] at hb
          exact Option.some.inj hb ▸ hlt
        have hupper := upperChar_ascii _ h
        rw [← hnat] at hupper
        have hvalid := isValid_ascii_append (w.flatMap String.utf8EncodeChar ++ rest)
          (List.forall_mem_singleton.2 hupper)
        rw [List.flatMap_cons, utf8EncodeChar_ascii h, List.singleton_append, capitalizeByte,
          if_pos hlt, ← List.singleton_append, List.append_assoc, hvalid, isValid_ofChars_append]
        exact (and_iff_right hstarts).symm
      · obtain ⟨lead, next, tail, henc, hlead, hnext, -⟩ := exists_of_not_ascii h
        have hstarts : ¬ StartsAscii (ofChars (c :: w)) := by
          intro hall
          rw [StartsAscii, ofChars, List.flatMap_cons, henc] at hall
          exact hlead (hall lead rfl)
        have hinvalid : isValid ⟨String.utf8EncodeChar '�' ++ next :: (tail
            ++ w.flatMap String.utf8EncodeChar ++ rest)⟩ = false := by
          have hskip := isValid_ofChars_append (next :: (tail ++ w.flatMap String.utf8EncodeChar
            ++ rest)) ['�']
          rw [List.flatMap_singleton] at hskip
          rw [hskip, isValid_stray _ hnext]
        rw [List.flatMap_cons, henc, List.cons_append, capitalizeByte, if_neg hlead,
          List.append_assoc]
        exact iff_of_false (Bool.eq_false_iff.1 hinvalid) fun hboth => hstarts hboth.1

theorem isValid_capitals (ws : List (List Char)) :
    isValid ⟨ws.flatMap fun w => capitalizeByte (w.flatMap String.utf8EncodeChar)⟩ = true
      ↔ ∀ w ∈ ws, StartsAscii (ofChars w) := by
  induction ws with
  | nil => exact iff_of_true rfl (List.forall_mem_nil _)
  | cons w ws ih => rw [List.flatMap_cons, isValid_capitalizeByte_append, ih, List.forall_mem_cons]

/-- A field name is UTF-8 if and only if no word after the first begins with a character beyond
    ASCII. -/
theorem isValid_camelCase (name : Text) :
    (camelCase name).isValid = true ↔ ∀ w ∈ laterWords name, StartsAscii w := by
  obtain ⟨ws, hws⟩ :=
    exists_words ((Text.mk (name.utf8.dropWhile (· == 0x5F))).chars.map lowerChar)
  have hsplit : (toLower ⟨name.utf8.dropWhile (· == 0x5F)⟩).splitOn '_' = ws.map ofChars := by
    show (splitBytes 0x5F _).map Text.mk = _
    rw [toLower, ofChars, hws, List.map_map]
    rfl
  have hcamel : camelCase name = ⟨name.utf8.takeWhile (· == 0x5F)
      ++ ((ws.take 1).flatten.flatMap String.utf8EncodeChar
      ++ (ws.drop 1).flatMap fun w => capitalizeByte (w.flatMap String.utf8EncodeChar))⟩ := by
    simp only [camelCase, hsplit, concat, List.cons_append, List.flatMap_cons, List.flatMap_append,
      ← List.map_take, ← List.map_drop, List.flatMap_map, List.flatten_eq_flatMap,
      List.flatMap_assoc, id_eq]
    rfl
  have hunderscores : ∀ b ∈ name.utf8.takeWhile (· == 0x5F), b < 0x80 := by
    intro b hb
    have hb' := List.all_eq_true.1 (List.all_takeWhile (l := name.utf8) (p := (· == 0x5F))) b hb
    rw [beq_iff_eq.1 hb']
    decide
  -- The underscores and the first word stay as they are, so only the capitals count.
  rw [hcamel, isValid_ascii_append _ hunderscores, isValid_ofChars_append, isValid_capitals,
    laterWords, hsplit, ← List.map_drop, List.forall_mem_map]

end Text

end NetlinkSchema
