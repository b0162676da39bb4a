import NetlinkSchema.GoSource.Constants
import NetlinkSchema.Proofs.Tiling
import NetlinkSchema.Proofs.Utf8
import NetlinkSchema.Proofs.WireFormat
import Mathlib.Data.List.Pairwise

/-!
# Identifiers of constants

The constants of a manifest are named after the types and their members. Every name is an
identifier, since what an identifier cannot have is replaced by an underscore and the first letter
is capital, or an `X` is put in front. But names that differ may be spelled alike, and an underscore
that joins two names looks like one that is part of a name. This is all that can go wrong:
identifiers coincide if two members of a type are spelled alike, or if the name of one type goes on
as the name of another and then as that of a member.

## Main definitions

* `GoSource.spelled`, `GoSource.capital`: The characters of a name in an identifier, and those of
  the name at its start.
* `GoSource.identifiers`: The identifiers of the constants of a manifest.
* `GoSource.memberNames`, `GoSource.endings`: The names after which the constants of a type are
  called, and what their identifiers have after the name of the type.
* `GoSource.Overlaps`: How identifiers of two types coincide.

## Theorems

* `Text.isLetter_upperChar`: The capital of a letter is a letter.
* `GoSource.isIdentifier_exportedName`: Names are identifiers.
* `GoSource.nodup_identifiers_iff`: When the identifiers of a manifest are distinct.
* `Schema.constants_distinct_iff`: The same for the manifest of a schema.
-/

namespace NetlinkSchema

namespace Text

namespace CaseRun

/-- Where a run moves a code point. -/
def target (r : CaseRun) (n : Nat) : Nat := (Int.ofNat n + r.offset).toNat

theorem target_mono (r : CaseRun) {m n : Nat} (h : m ≤ n) : r.target m ≤ r.target n := by
  simp only [target, Int.ofNat_eq_natCast]
  omega

end CaseRun

/-- Whether an interval of code points lies within an interval of letters. -/
def lettersFrom (first last : Nat) : Bool :=
  letterRanges.any fun l => Nat.ble l.1 first && Nat.ble last l.2

namespace CaseRun

/-- Whether a run moves letters to letters. Most runs as a whole go to one interval of letters; some
    cover no letters; the others are looked at one by one. -/
def keepsLetters (r : CaseRun) : Bool :=
  lettersFrom (r.target r.first) (r.target r.last)
    || letterRanges.all (fun l => Nat.blt r.last l.1 || Nat.blt l.2 r.first)
    || (List.range ((r.last - r.first) / r.step + 1)).all fun i =>
      lettersFrom (r.target (r.first + i * r.step)) (r.target (r.first + i * r.step))

end CaseRun

theorem keepsLetters_upperRuns : ∀ r ∈ upperRuns, r.keepsLetters = true := by decide +kernel

/-- No capital is a small letter of ASCII. -/
theorem target_upperRuns : ∀ r ∈ upperRuns, r.target r.last < 0x61 ∨ 0x7A < r.target r.first := by
  decide +kernel

theorem letterRanges_valid :
    ∀ l ∈ letterRanges, l.2 < 0xD800 ∨ 0xDFFF < l.1 ∧ l.2 < 0x110000 := by
  decide +kernel

theorem isLetter_of_lettersFrom {first last n : Nat} (h : lettersFrom first last = true)
    (hfirst : first ≤ n) (hlast : n ≤ last) : isLetter (Char.ofNat n) = true := by
  obtain ⟨l, hl, hin⟩ := List.any_eq_true.1 h
  simp only [Bool.and_eq_true, Nat.ble_eq] at hin
  have hvalid : n.isValidChar := by
    have := letterRanges_valid l hl
    simp only [Nat.isValidChar]
    omega
  refine List.any_eq_true.2 ⟨l, hl, ?_⟩
  simp only [toNat_charOfNat hvalid, Bool.and_eq_true, decide_eq_true_eq]
  omega

/-- The capital of a character: the character itself if no run covers it. -/
theorem upperChar_cases (c : Char) :
    (upperChar c = c ∧ (c.toNat < 0x61 ∨ 0x7A < c.toNat)) ∨
      ∃ r ∈ upperRuns, (r.first ≤ c.toNat ∧ c.toNat ≤ r.last) ∧ r.step ∣ c.toNat - r.first ∧
        upperChar c = Char.ofNat (r.target c.toNat) := by
  unfold upperChar mapCase
  simp only
  split
  · rename_i r hfind
    right
    have hcovers := List.find?_some hfind
    simp only [Bool.and_eq_true, decide_eq_true_eq, beq_iff_eq] at hcovers
    exact ⟨r, List.mem_of_find?_eq_some hfind, hcovers.1, Nat.dvd_of_mod_eq_zero hcovers.2, rfl⟩
  · rename_i hfind
    left
    -- The first run covers the small letters of ASCII.
    have hfirst := List.find?_eq_none.1 hfind ⟨0x61, 0x7A, 1, -32⟩ List.mem_cons_self
    simp only [Nat.mod_one, beq_self_eq_true, Bool.and_true, Bool.and_eq_true,
      decide_eq_true_eq] at hfirst
    exact ⟨rfl, by omega⟩

/-- The capital of a letter is a letter. -/
theorem isLetter_upperChar {c : Char} (h : isLetter c = true) :
    isLetter (upperChar c) = true := by
  rcases upperChar_cases c with ⟨hsame, -⟩ | ⟨r, hr, ⟨hfirst, hlast⟩, hstep, htarget⟩
  · rw [hsame]
    exact h
  have hkeeps := keepsLetters_upperRuns r hr
  rw [CaseRun.keepsLetters, Bool.or_eq_true, Bool.or_eq_true] at hkeeps
  rw [htarget]
  rcases hkeeps with (hwhole | hnone) | heach
  · exact isLetter_of_lettersFrom hwhole (r.target_mono hfirst) (r.target_mono hlast)
  · obtain ⟨l, hl, hin⟩ := List.any_eq_true.1 h
    have hapart := List.all_eq_true.1 hnone l hl
    simp only [Bool.and_eq_true, Bool.or_eq_true, decide_eq_true_eq, Nat.blt_eq] at hin hapart
    omega
  · have hindex : (c.toNat - r.first) / r.step < (r.last - r.first) / r.step + 1 :=
      Nat.lt_succ_of_le (Nat.div_le_div_right (by omega))
    have hletter := List.all_eq_true.1 heach _ (List.mem_range.2 hindex)
    rw [Nat.div_mul_cancel hstep, Nat.add_sub_cancel' hfirst] at hletter
    exact isLetter_of_lettersFrom hletter (Nat.le_refl _) (Nat.le_refl _)

/-- The capital of a letter is no small letter of ASCII. -/
theorem upperChar_not_small (c : Char) :
    ¬ (0x61 ≤ (upperChar c).toNat ∧ (upperChar c).toNat ≤ 0x7A) := by
  rcases upperChar_cases c with ⟨hsame, hrange⟩ | ⟨r, hr, ⟨hfirst, hlast⟩, -, htarget⟩
  · rw [hsame]
    omega
  · have hsmall := target_upperRuns r hr
    have hlow := r.target_mono hfirst
    have hhigh := r.target_mono hlast
    rw [htarget]
    by_cases hvalid : (r.target c.toNat).isValidChar
    · rw [toNat_charOfNat hvalid]
      omega
    · have hzero : Char.ofNat (r.target c.toNat) = Char.ofNat 0 := dif_neg hvalid
      rw [hzero]
      decide

theorem join_cons_cons (sep t u : Text) (ts : List Text) :
    join sep (t :: u :: ts) = t ++ sep ++ join sep (u :: ts) := by
  simp only [join, concat, List.flatMap_cons, List.flatMap_append, List.flatMap_nil]
  exact congrArg Text.mk (by simp)

/-- The characters of texts that are joined by underscores. -/
theorem chars_join (t : Text) (ts : List Text) :
    (join "_" (t :: ts)).chars = t.chars ++ ts.flatMap fun u => '_' :: u.chars := by
  induction ts generalizing t with
  | nil => simp [join, concat]
  | cons u ts ih =>
      have hbytes : (join "_" (t :: u :: ts)).utf8
          = t.utf8 ++ 0x5F :: (join "_" (u :: ts)).utf8 := by
        rw [join_cons_cons, utf8_append, utf8_append, List.append_assoc]
        rfl
      have hsmall : (0x5F : UInt8) < 0x80 := by decide
      rw [chars, runes, hbytes, decode_append_ascii _ hsmall, Rune.decode_one _ hsmall,
        List.map_append, List.map_cons, List.flatMap_cons, ← runes, ← runes, ← chars, ← chars, ih u]
      rfl

end Text

namespace GoSource

open Text

/-- The characters of a name in an identifier, with underscores for what an identifier cannot
    have. -/
def spelled (name : Text) : List Char := name.chars.map fun c => if isWordChar c then c else '_'

/-- The characters of further names, each behind an underscore. -/
def spelledAfter (names : List Text) : List Char := names.flatMap fun name => '_' :: spelled name

/-- The characters with which an identifier starts: the first is a capital, and an `X` goes before
    what is no letter. -/
def capital : List Char → List Char
  | [] => ['X']
  | c :: rest => if isLetter c then upperChar c :: rest else 'X' :: c :: rest

theorem joinedChars_cons (name : Text) (names : List Text) :
    joinedChars (name :: names) = spelled name ++ spelledAfter names := by
  have hword : isWordChar '_' = true := by decide +kernel
  simp only [joinedChars, chars_join, List.map_append, List.map_flatMap, List.map_cons, hword,
    if_true]
  rfl

theorem exportedName_eq (names : List Text) :
    exportedName names = ofChars (capital (joinedChars names)) := by
  unfold exportedName
  cases joinedChars names with
  | nil => rfl
  | cons c rest =>
      by_cases h : isLetter c = true
      · simp only [capital, if_pos h]
      · simp only [capital, if_neg h]

/-- The name that comes first is capital, whatever comes after it. -/
theorem exportedName_cons (name : Text) (names : List Text) :
    exportedName (name :: names) = ofChars (capital (spelled name) ++ spelledAfter names) := by
  rw [exportedName_eq, joinedChars_cons]
  cases spelled name with
  | cons c rest =>
      by_cases h : isLetter c = true
      · simp only [capital, List.cons_append, if_pos h]
      · simp only [capital, List.cons_append, if_neg h]
  | nil =>
      cases names with
      | nil => rfl
      | cons next names =>
          have hletter : ¬ isLetter '_' = true := by decide +kernel
          simp only [spelledAfter, List.flatMap_cons, List.nil_append, List.cons_append, capital,
            if_neg hletter]

theorem isWordChar_of_mem_joinedChars {names : List Text} {c : Char} (h : c ∈ joinedChars names) :
    isWordChar c = true := by
  obtain ⟨d, -, rfl⟩ := List.mem_map.1 h
  by_cases hd : isWordChar d = true
  · rw [if_pos hd]
    exact hd
  · rw [if_neg hd]
    decide +kernel

/-- An identifier begins with a letter that is no small letter of ASCII. -/
theorem capital_cases {cs : List Char} (h : ∀ c ∈ cs, isWordChar c = true) :
    ∃ c rest, capital cs = c :: rest ∧ isLetter c = true ∧ (∀ d ∈ rest, isWordChar d = true) ∧
      ¬ (0x61 ≤ c.toNat ∧ c.toNat ≤ 0x7A) := by
  have hX : isLetter 'X' = true := by decide +kernel
  cases cs with
  | nil => exact ⟨'X', [], rfl, hX, List.forall_mem_nil _, by decide⟩
  | cons c rest =>
      obtain ⟨hc, hrest⟩ := List.forall_mem_cons.1 h
      by_cases hletter : isLetter c = true
      · exact ⟨upperChar c, rest, if_pos hletter, isLetter_upperChar hletter, hrest,
          upperChar_not_small c⟩
      · exact ⟨'X', c :: rest, if_neg hletter, hX, h, by decide⟩

theorem keywords_small : ∀ w ∈ keywords,
    w.toList.head?.any (fun c => 0x61 ≤ c.toNat && c.toNat ≤ 0x7A) = true := by
  decide +kernel

/-- Names are identifiers. -/
theorem isIdentifier_exportedName (names : List Text) :
    isIdentifier (exportedName names) = true := by
  obtain ⟨c, rest, hcapital, hletter, hrest, hsmall⟩ :=
    capital_cases fun c (hc : c ∈ joinedChars names) => isWordChar_of_mem_joinedChars hc
  have hkeyword : keywords.any (fun w => ofString w == ofChars (c :: rest)) = false := by
    rw [List.any_eq_false]
    intro w hw hsame
    have hfirst := keywords_small w hw
    rw [beq_iff_eq, ofString_eq] at hsame
    rw [ofChars_injective hsame, List.head?_cons, Option.any_some, Bool.and_eq_true,
      decide_eq_true_eq, decide_eq_true_eq] at hfirst
    exact hsmall hfirst
  rw [exportedName_eq, hcapital, isIdentifier, chars_ofChars]
  simp only [hletter, hkeyword, List.all_eq_true.2 hrest, Bool.or_true, Bool.and_true,
    Bool.not_false]

/-- The identifiers of the constants of a manifest, in the order of their declarations. -/
def identifiers (m : Manifest) : List Text :=
  (blocks m).flatMap fun b => b.constants.map Constant.name

/-- The names of the members after which the constants of a type are called. -/
def memberNames (t : ManifestType) : List Text :=
  match t.struct with
  | some s => (s.fields.getD []).map ManifestField.name
  | none =>
    if t.attrs.isEmpty then t.values.map ManifestValue.name else t.attrs.map ManifestAttr.name

/-- What the identifiers of the constants of a type have after the name of the type. -/
def endings (t : ManifestType) : List (List Char) :=
  if t.struct.isSome then
    spelledAfter ["Length"] :: (memberNames t).map fun name => spelledAfter [name, "Offset"]
  else (memberNames t).map fun name => spelledAfter [name]

/-- What the identifiers of the constants of a type start with. -/
def beginning (t : ManifestType) : List Char := capital (spelled t.name)

/-- Whether the name of `u` begins like that of `t`, and goes on so that some constant of `u` has
    the identifier of a constant of `t`. -/
def Overlaps (t u : ManifestType) : Prop :=
  beginning t <+: beginning u ∧
    ∃ e ∈ endings u, (beginning u).drop (beginning t).length ++ e ∈ endings t

instance (t u : ManifestType) : Decidable (Overlaps t u) :=
  inferInstanceAs (Decidable (_ ∧ _))

theorem names_ofType? (t : ManifestType) :
    ((Block.ofType? t).toList.flatMap fun b => b.constants.map Constant.name)
      = (endings t).map fun e => ofChars (beginning t ++ e) := by
  unfold Block.ofType? endings memberNames
  cases t.struct with
  | some st =>
      simp [Block.make, lengthConstant, fieldConstant, exportedName_cons, beginning]
  | none =>
      by_cases hattrs : t.attrs = []
      · by_cases hvalues : t.values = []
        · simp [hattrs, hvalues]
        · simp [hattrs, hvalues, Block.make, valueConstant, exportedName_cons, beginning]
      · simp [hattrs, Block.make, attrConstant, exportedName_cons, beginning]

theorem identifiers_eq (m : Manifest) : identifiers m
    = m.typeList.flatMap fun t => (endings t).map fun e => ofChars (beginning t ++ e) := by
  rw [identifiers, blocks, List.filterMap_eq_flatMap_toList, List.flatMap_assoc]
  simp only [names_ofType?]

theorem exists_names_of_mem_endings {t : ManifestType} {e : List Char} (h : e ∈ endings t) :
    ∃ names, e = spelledAfter names := by
  unfold endings at h
  by_cases hstruct : t.struct.isSome = true
  · rw [if_pos hstruct] at h
    rcases List.mem_cons.1 h with rfl | h
    · exact ⟨_, rfl⟩
    · obtain ⟨name, -, rfl⟩ := List.mem_map.1 h
      exact ⟨_, rfl⟩
  · rw [if_neg hstruct] at h
    obtain ⟨name, -, rfl⟩ := List.mem_map.1 h
    exact ⟨_, rfl⟩

/-- Constants have valid identifiers, whatever the manifest. -/
theorem isIdentifier_of_mem_identifiers {m : Manifest} {x : Text} (h : x ∈ identifiers m) :
    isIdentifier x = true := by
  rw [identifiers_eq] at h
  obtain ⟨t, -, hx⟩ := List.mem_flatMap.1 h
  obtain ⟨e, he, rfl⟩ := List.mem_map.1 hx
  obtain ⟨names, rfl⟩ := exists_names_of_mem_endings he
  rw [beginning, ← exportedName_cons]
  exact isIdentifier_exportedName _

/-- Two types have an identifier in common exactly if one of them overlaps the other. -/
theorem exists_common_iff (t u : ManifestType) :
    (∃ e ∈ endings t, ∃ e' ∈ endings u, beginning t ++ e = beginning u ++ e') ↔
      Overlaps t u ∨ Overlaps u t := by
  have hone : ∀ {t u : ManifestType} {w e e' : List Char}, beginning u = beginning t ++ w →
      e = w ++ e' → e ∈ endings t → e' ∈ endings u → Overlaps t u := by
    rintro t u w e e' hstart rfl he he'
    refine ⟨⟨w, hstart.symm⟩, e', he', ?_⟩
    rw [hstart, List.drop_left]
    exact he
  have htwo : ∀ {t u : ManifestType}, Overlaps t u →
      ∃ e ∈ endings t, ∃ e' ∈ endings u, beginning t ++ e = beginning u ++ e' := by
    rintro t u ⟨⟨w, hstart⟩, e', he', he⟩
    rw [← hstart, List.drop_left] at he
    exact ⟨w ++ e', he, e', he', by rw [← hstart, List.append_assoc]⟩
  constructor
  · rintro ⟨e, he, e', he', hsame⟩
    rcases List.append_eq_append_iff.1 hsame with ⟨w, hstart, hend⟩ | ⟨w, hstart, hend⟩
    · exact Or.inl (hone hstart hend he he')
    · exact Or.inr (hone hstart hend he' he)
  · rintro (h | h)
    · exact htwo h
    · obtain ⟨e, he, e', he', hsame⟩ := htwo h
      exact ⟨e', he', e, he, hsame.symm⟩

/-- The identifiers of a manifest are distinct if and only if those of each type are and no type
    overlaps another. -/
theorem nodup_identifiers_iff {m : Manifest} (hnames : (m.typeList.map ManifestType.name).Nodup) :
    (identifiers m).Nodup ↔ (∀ t ∈ m.typeList, (endings t).Nodup) ∧
      ∀ t ∈ m.typeList, ∀ u ∈ m.typeList, t ≠ u → ¬ Overlaps t u := by
  have hinjective : ∀ t : ManifestType,
      Function.Injective fun e : List Char => ofChars (beginning t ++ e) := fun t e e' h =>
    List.append_cancel_left (ofChars_injective h)
  have hdisjoint : ∀ t u : ManifestType,
      List.Disjoint ((endings t).map fun e => ofChars (beginning t ++ e))
        ((endings u).map fun e => ofChars (beginning u ++ e)) ↔
      ¬ (Overlaps t u ∨ Overlaps u t) := by
    intro t u
    rw [← exists_common_iff]
    constructor
    · rintro h ⟨e, he, e', he', hsame⟩
      exact h (List.mem_map_of_mem he) (List.mem_map.2 ⟨e', he', by rw [hsame]⟩)
    · intro h x hx hx'
      obtain ⟨e, he, rfl⟩ := List.mem_map.1 hx
      obtain ⟨e', he', hsame⟩ := List.mem_map.1 hx'
      exact h ⟨e, he, e', he', (ofChars_injective hsame).symm⟩
  rw [identifiers_eq, List.nodup_flatMap]
  refine and_congr (forall₂_congr fun t _ => List.nodup_map_iff (hinjective t)) ?_
  constructor
  · intro h t ht u hu hne hover
    -- Of two different types one is declared first; overlapping is ruled out in both directions.
    have hsymm : List.Pairwise (fun t u => ¬ (Overlaps t u ∨ Overlaps u t)) m.typeList :=
      h.imp fun h => (hdisjoint _ _).1 h
    have : Std.Symm fun t u => ¬ (Overlaps t u ∨ Overlaps u t) := ⟨fun t u h => fun h' => h h'.symm⟩
    exact hsymm.forall ht hu hne (Or.inl hover)
  · intro h
    refine (List.Nodup.of_map _ hnames).pairwise_of_forall_ne fun t ht u hu hne => ?_
    refine (hdisjoint t u).2 fun hover => ?_
    exact hover.elim (h t ht u hu hne) (h u hu t ht hne.symm)

/-- The length of a struct is not named like an offset, so that members of a type have different
    identifiers unless they are spelled alike. -/
theorem nodup_endings_iff {t : ManifestType} (hnames : (memberNames t).Nodup) :
    (endings t).Nodup ↔
      ∀ a ∈ memberNames t, ∀ b ∈ memberNames t, spelled a = spelled b → a = b := by
  have hplain : ∀ a b : Text, spelledAfter [a] = spelledAfter [b] ↔ spelled a = spelled b := by
    intro a b
    simp [spelledAfter]
  have hoffset : ∀ a b : Text,
      spelledAfter [a, "Offset"] = spelledAfter [b, "Offset"] ↔ spelled a = spelled b := by
    intro a b
    simp [spelledAfter]
  have hlength : ∀ a : Text, spelledAfter [a, "Offset"] ≠ spelledAfter ["Length"] := by
    intro a h
    have hh : (spelledAfter ["Length"]).getLast? = some 'h' := by decide +kernel
    have ht : (spelledAfter ["Offset"]).getLast? = some 't' := by decide +kernel
    have hsplit : spelledAfter [a, "Offset"] = spelledAfter [a] ++ spelledAfter ["Offset"] := by
      simp [spelledAfter]
    rw [← h, hsplit, List.getLast?_append, ht] at hh
    cases hh
  unfold endings
  by_cases hstruct : t.struct.isSome = true
  · rw [if_pos hstruct, List.nodup_cons, List.nodup_map_iff_inj_on hnames]
    simp only [hoffset, List.mem_map, not_exists, not_and]
    exact and_iff_right fun a _ => hlength a
  · rw [if_neg hstruct, List.nodup_map_iff_inj_on hnames]
    simp only [hplain]

end GoSource

namespace Schema

open GoSource

variable {s : Schema} {name : Text} {d : TypeDef} {needs : List (Text × Variant)}
  {settled : List Text}

theorem names_describeAttrs (name : Text) : (s.describeAttrs d).map ManifestAttr.name
    = (s.attrSet name d).fields.map Field.name := by
  rw [describeAttrs_eq_map, attrSet_fields_eq_map, List.map_map, List.map_map]
  rfl

/-- The members of a type of an accepted schema have distinct names in its description. -/
theorem memberNames_nodup (h : s.Accepted) (ht : (name, d) ∈ s.types) :
    (memberNames (s.describeType needs settled name d)).Nodup := by
  rw [describeType, memberNames]
  cases hkind : d.effectiveKind with
  | attrs =>
      simp only [ManifestType.empty]
      by_cases hnone : (s.describeAttrs d).isEmpty = true
      · rw [if_pos hnone]
        exact List.nodup_nil
      · rw [if_neg hnone, names_describeAttrs name]
        exact attrSet_names h ht hkind
  | struct =>
      simp only [describeStruct, getD_presentList, describeFields_names, ← members_eq_memberList ht]
      exact (h.field_names ht (Or.inr hkind)).1.sublist (membersTo_names ht _)
  | flags =>
      have hnames : ∀ b, ManifestValue.name ∘ describeValue b = ValueDef.name := fun b => rfl
      simp only [ManifestType.empty, List.isEmpty_nil, if_true, List.map_map, hnames]
      exact h.value_names ht (Or.inr hkind)
  | enum =>
      have hnames : ∀ b, ManifestValue.name ∘ describeValue b = ValueDef.name := fun b => rfl
      simp only [ManifestType.empty, List.isEmpty_nil, if_true, List.map_map, hnames]
      exact h.value_names ht (Or.inl hkind)
  | other kind unknown => exact List.nodup_nil

/-- The constants of an accepted schema have valid identifiers. They are distinct if and only if no
    two members of a type are spelled alike and no type overlaps another. -/
theorem constants_distinct_iff {o : CompileOptions} {compiled : Compiled}
    (hcompile : (s.compile o).output = some compiled) :
    (∀ identifier ∈ identifiers compiled.manifest, isIdentifier identifier = true) ∧
      ((identifiers compiled.manifest).Nodup ↔
        (∀ t ∈ compiled.manifest.typeList, ∀ a ∈ memberNames t, ∀ b ∈ memberNames t,
          spelled a = spelled b → a = b) ∧
        ∀ t ∈ compiled.manifest.typeList, ∀ u ∈ compiled.manifest.typeList,
          t ≠ u → ¬ Overlaps t u) := by
  obtain rfl := eq_of_compile hcompile
  have h := (accepted_of_compile hcompile).1
  constructor
  · exact fun identifier => isIdentifier_of_mem_identifiers
  · have hnames : (s.describe.sign.typeList.map ManifestType.name).Nodup := by
      have hname : (ManifestType.name ∘ fun t : Text × TypeDef =>
          s.describeType s.needs s.settledStructs t.1 t.2) = Prod.fst := by
        funext t
        exact describeType_name s _ _ _ _
      rw [typeList_describe, List.map_map, hname]
      exact s.distinct
    rw [nodup_identifiers_iff hnames]
    refine and_congr_left' (forall₂_congr fun t ht => ?_)
    rw [typeList_describe] at ht
    obtain ⟨⟨name, d⟩, hmem, rfl⟩ := List.mem_map.1 ht
    exact nodup_endings_iff (memberNames_nodup h hmem)

/-- Queues and their statistics: a type whose name begins like that of another, a member called like
    the rest of it, a member called like the length of a struct, and letters without capitals. -/
def queues : Schema where
  types := [
    ("queue", declare none [⟨"stats", .name "queue_stats", .empty⟩,
      ⟨"名", .name "string", .empty⟩] []),
    ("queue_stats", declare (some .struct) [⟨"rx-bytes", .name "u64", .empty⟩,
      ⟨"Length", .name "u64", .empty⟩] []),
    ("9p", declare (some .flags) [] [⟨"stats_Length", 1, none, .empty⟩])]
  distinct := by decide +kernel
  named := by decide +kernel

theorem queues_distinct : (identifiers queues.describe.sign).Nodup ∧
    identifiers queues.describe.sign = ["Queue_stats", "Queue_名", "Queue_stats_Length",
      "Queue_stats_rx_bytes_Offset", "Queue_stats_Length_Offset", "X9p_stats_Length"] := by
  have hcompile := output_of_errors (s := queues) (o := .default) (by decide +kernel)
  exact ⟨(constants_distinct_iff hcompile).2.2 ⟨by decide +kernel, by decide +kernel⟩,
    by decide +kernel⟩

/-- Two enums whose names are part of each other. -/
def nested : Schema where
  types := [
    ("a", declare (some .enum) [] [⟨"b_c", 0, none, .empty⟩]),
    ("a_b", declare (some .enum) [] [⟨"c", 1, none, .empty⟩])]
  distinct := by decide +kernel
  named := by decide +kernel

/-- One identifier stands for two constants. -/
theorem nested_redeclared : ∃ compiled, (nested.compile .default).output = some compiled ∧
    identifiers compiled.manifest = ["A_b_c", "A_b_c"] ∧ ¬ (identifiers compiled.manifest).Nodup :=
  ⟨_, output_of_errors (by decide +kernel), by decide +kernel, by decide +kernel⟩

end Schema

end NetlinkSchema
