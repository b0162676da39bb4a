import NetlinkSchema.GoSource.Layout
import NetlinkSchema.Proofs.CodeLines
import Mathlib.Data.List.TakeWhile

/-!
# Documentation in source code

What is said about types and their members ends up in the comments of the source text. Lines of
documentation are split at line breaks, so that all of it stays in comments. The names of things
elsewhere are not split: with a line break in one of them, what follows the break is code. Without
such line breaks the code is made of the package clause and the constants alone, and these depend
neither on documentation nor on the fingerprint.

## Main definitions

* `GoSource.declarations`: What a manifest declares in a package.
* `GoSource.declared`: What a source text declares, read from its code.
* `GoSource.origs`: The texts of a manifest that are put into comments as they are.
* `Manifest.bare`: A manifest without what is said about types and members.

## Theorems

* `GoSource.codeLines_source`, `GoSource.declared_source`: The code of a source text is what the
  manifest declares.
* `GoSource.declarations_bare`: What is declared does not depend on what is said about it.
* `Schema.documentation_changes_no_code`: Documentation does not change the code.
* `Schema.renamed_injected`: A line break in another text does.
-/

namespace NetlinkSchema

namespace GoSource

open Text

/-- What a source text declares, read from its code. -/
def declared (t : Text) : Option (List SourceLine) := (codeLines t).mapM SourceLine.read

section Declarations

/-- The code of a line. -/
def SourceLine.code : SourceLine → Text
  | .package name => "package " ++ name
  | .openBlock => "const ("
  | .closeBlock => ")"
  | .constant name value _ => "\t" ++ name ++ " = " ++ value
  | .blank | .comment _ _ => .empty

/-- What a block declares. -/
def Block.declarations (b : Block) : List SourceLine :=
  .openBlock :: b.constants.map (fun c => .constant c.name c.value none) ++ [.closeBlock]

/-- What a manifest declares in a package. -/
def declarations (m : Manifest) (package : Text) : List SourceLine :=
  .package package :: (blocks m).flatMap Block.declarations

theorem isValue_of_isIdentifier {t : Text} (h : isIdentifier t = true) : IsValue t := by
  refine ⟨isToken_of_isIdentifier h, fun hempty => ?_⟩
  have hnone : isIdentifier ⟨[]⟩ = false := by decide +kernel
  rw [show t = ⟨[]⟩ from congrArg Text.mk hempty, hnone] at h
  cases h

theorem trimBlanks_value {value : Text} (h : IsValue value) (start : Text) {blank : Text}
    (hblank : blank = "" ∨ blank = " ") :
    trimBlanks (start ++ value ++ blank) = start ++ value := by
  obtain ⟨htoken, hne⟩ := h
  obtain ⟨first, last, hvalue⟩ := (List.eq_nil_or_concat value.utf8).resolve_left hne
  rw [List.concat_eq_append] at hvalue
  have hbytes : (start ++ value).utf8 = start.utf8 ++ first ++ [last] := by
    rw [utf8_append, hvalue, List.append_assoc]
  have hblanks : ∀ b ∈ blank.utf8.reverse, (b == 32 || b == 9) = true := by
    rcases hblank with rfl | rfl
    · decide +kernel
    · decide +kernel
  have hlast : ¬ (last == 32 || last == 9) = true := by
    have hbyte : isTokenByte last = true := htoken last (by simp [hvalue])
    rw [Bool.or_eq_true, beq_iff_eq, beq_iff_eq, not_or]
    exact ⟨ne_of_isTokenByte hbyte (by decide), ne_of_isTokenByte hbyte (by decide)⟩
  unfold trimBlanks
  rw [utf8_append, List.reverse_append, List.dropWhile_append_of_pos hblanks, hbytes,
    List.reverse_append, List.reverse_singleton, List.singleton_append,
    List.dropWhile_cons_of_neg (p := fun b => b == 32 || b == 9) hlast, List.reverse_cons,
    List.reverse_reverse]
  exact congrArg Text.mk hbytes.symm

/-- A line that ends in a value, but for a blank, is not empty. -/
theorem codeLine_value {value : Text} (h : IsValue value) (start : Text) {blank : Text}
    (hblank : blank = "" ∨ blank = " ") :
    codeLine (start ++ value ++ blank) = [start ++ value] := by
  have hsome : (start ++ value).isEmpty = false := by
    rw [Text.isEmpty, List.isEmpty_eq_false_iff]
    exact List.append_ne_nil_of_right_ne_nil _ h.2
  rw [codeLine, trimBlanks_value h start hblank, List.filter_cons_of_pos (by rw [hsome]; rfl)]
  rfl

/-- Lines that are nothing but code. -/
theorem yields_code {t : Text} (hplain : Every isPlainByte t) (h : codeLine t = [t]) :
    Yields [t] [t] := by
  have hyields := Yields.line ⟨hplain, Or.inl rfl⟩
  rw [h] at hyields
  exact hyields

theorem yields_package {package : Text} (h : isIdentifier package = true) :
    Yields ["package " ++ package] [SourceLine.code (.package package)] := by
  have hvalue := isValue_of_isIdentifier h
  have hend : "package " ++ package ++ "" = "package " ++ package :=
    congrArg Text.mk (List.append_nil _)
  refine yields_code (Every.append (by decide +kernel) hvalue.1.plain) ?_
  have hcode := codeLine_value hvalue "package " (Or.inl rfl)
  rw [hend] at hcode
  exact hcode

theorem yields_constant {c : Constant} (hname : isIdentifier c.name = true)
    (hvalue : IsValue c.value) (h : IsLine c.orig) :
    Yields c.lines [SourceLine.code (.constant c.name c.value none)] := by
  have hplain : Every isPlainByte ("\t" ++ c.name ++ " = " ++ c.value) :=
    ((Every.append (by decide +kernel) (isToken_of_isIdentifier hname).plain).append
      (by decide +kernel)).append hvalue.1.plain
  -- The blank in front of the slashes is part of the code; it is trimmed later.
  have hline : ∃ blank : Text, (blank = "" ∨ blank = " ") ∧
      HasCode ("\t" ++ c.name ++ " = " ++ c.value
          ++ (if c.orig.isEmpty then ofString "" else " // " ++ c.orig))
        ("\t" ++ c.name ++ " = " ++ c.value ++ blank) := by
    by_cases hempty : c.orig.isEmpty = true
    · rw [if_pos hempty]
      exact ⟨"", Or.inl rfl, hplain.append (by decide +kernel), Or.inl rfl⟩
    · rw [if_neg hempty]
      have hmark : ofString " // " = " " ++ "//" ++ " " := by decide +kernel
      refine ⟨" ", Or.inr rfl, hplain.append (by decide +kernel), Or.inr ⟨" " ++ c.orig, ?_, ?_⟩⟩
      · exact IsLine.append (by decide +kernel) h
      · rw [hmark]
        exact congrArg Text.mk (by simp)
  obtain ⟨blank, hblank, hcode⟩ := hline
  have hyields := Yields.line hcode
  rw [codeLine_value hvalue _ hblank] at hyields
  exact (yields_docLines (Or.inr rfl) c.docs).append hyields

/-- A line that is neither empty nor a comment is told from others by how it begins. -/
theorem read_eq {t : Text} {b : UInt8} {rest : Bytes} (hb : b ≠ 47)
    (ht : t.utf8.dropWhile (fun x => x == 32 || x == 9 || x == 13) = b :: rest) :
    SourceLine.read t = if t = "const (" then some .openBlock
      else if t = ")" then some .closeBlock
      else if t.startsWith "package " then some (.package ⟨t.utf8.drop 8⟩)
      else if t.startsWith "\t" then readConstant (b :: rest)
      else none := by
  unfold SourceLine.read
  simp only [ht]
  split
  · rename_i hnil
    cases hnil
  · rename_i hslashes
    exact absurd (List.cons.inj hslashes).1 hb
  · rfl

theorem ne_of_head {t u : Text} {b : UInt8} (ht : t.utf8.head? = some b)
    (hu : u.utf8.head? ≠ some b) : t ≠ u := by
  rintro rfl
  exact hu ht

theorem not_startsWith_of_head {t start : Text} {b c : UInt8} (ht : t.utf8.head? = some b)
    (hstart : start.utf8.head? = some c) (h : c ≠ b) : ¬ t.startsWith start = true := by
  intro hprefix
  obtain ⟨rest, hrest⟩ := List.isPrefixOf_iff_prefix.1 hprefix
  rw [← hrest, List.head?_append, hstart] at ht
  exact h (Option.some.inj ht)

theorem read_package (name : Text) :
    SourceLine.read (SourceLine.code (.package name)) = some (.package name) := by
  have hbytes : (SourceLine.code (.package name)).utf8
      = [112, 97, 99, 107, 97, 103, 101, 32] ++ name.utf8 := by
    have hstart : (ofString "package ").utf8 = [112, 97, 99, 107, 97, 103, 101, 32] := by
      decide +kernel
    rw [← hstart]
    rfl
  have hhead : (SourceLine.code (.package name)).utf8.head? = some 112 := by
    rw [hbytes]
    rfl
  have hopen : SourceLine.code (.package name) ≠ "const (" := ne_of_head hhead (by decide +kernel)
  have hclose : SourceLine.code (.package name) ≠ ")" := ne_of_head hhead (by decide +kernel)
  have hpackage : (SourceLine.code (.package name)).startsWith "package " = true :=
    startsWith_append (by decide +kernel) _
  rw [read_eq (by decide : (112 : UInt8) ≠ 47) (by rw [hbytes]; rfl), if_neg hopen, if_neg hclose,
    if_pos hpackage, hbytes]
  rfl

theorem isNotBlank_of_token {t : Text} (h : Every isTokenByte t) :
    ∀ b ∈ t.utf8, (!(b == 32)) = true := by
  intro b hb
  rw [Bool.not_eq_true', beq_eq_false_iff_ne]
  exact ne_of_isTokenByte (h b hb) (by decide)

theorem readConstant_eq {name value : Text} (hname : isIdentifier name = true)
    (hvalue : IsValue value) :
    readConstant (name.utf8 ++ 32 :: 61 :: 32 :: value.utf8)
      = some (.constant name value none) := by
  have hword := isNotBlank_of_token (isToken_of_isIdentifier hname)
  have hnumber := isNotBlank_of_token hvalue.1
  have hsome : value.utf8.isEmpty = false := List.isEmpty_eq_false_iff.2 hvalue.2
  have htake (rest : Bytes) :
      (name.utf8 ++ 32 :: rest).takeWhile (fun x => !(x == 32)) = name.utf8 := by
    rw [List.takeWhile_append_of_pos hword]
    simp
  have hdrop (rest : Bytes) :
      (name.utf8 ++ 32 :: rest).dropWhile (fun x => !(x == 32)) = 32 :: rest := by
    rw [List.dropWhile_append_of_pos hword]
    simp
  have htakeAll : value.utf8.takeWhile (fun x => !(x == 32)) = value.utf8 :=
    List.takeWhile_eq_self_iff.2 hnumber
  have hdropAll : value.utf8.dropWhile (fun x => !(x == 32)) = [] :=
    List.dropWhile_eq_nil_iff.2 fun b hb => hnumber b hb
  unfold readConstant
  simp only [htake, hdrop, htakeAll, hdropAll, hname, hsome, Bool.not_true, Bool.or_false,
    Bool.false_eq_true, if_false]

theorem read_constant {name value : Text} (hname : isIdentifier name = true)
    (hvalue : IsValue value) :
    SourceLine.read (SourceLine.code (.constant name value none))
      = some (.constant name value none) := by
  obtain ⟨htoken, hne⟩ := isValue_of_isIdentifier hname
  obtain ⟨b, rest, hb⟩ := List.exists_cons_of_ne_nil hne
  have hbyte : isTokenByte b = true := htoken b (by rw [hb]; exact List.mem_cons_self)
  have hcontent : name.utf8 ++ 32 :: 61 :: 32 :: value.utf8
      = b :: (rest ++ 32 :: 61 :: 32 :: value.utf8) := by rw [hb, List.cons_append]
  have hbytes : (SourceLine.code (.constant name value none)).utf8
      = 9 :: b :: (rest ++ 32 :: 61 :: 32 :: value.utf8) := by
    have htab : (ofString "\t").utf8 = [9] := by decide +kernel
    have hequals : (ofString " = ").utf8 = [32, 61, 32] := by decide +kernel
    simp [SourceLine.code, utf8_append, htab, hequals, hb]
  have hhead : (SourceLine.code (.constant name value none)).utf8.head? = some 9 := by
    rw [hbytes]
    rfl
  have hopen : SourceLine.code (.constant name value none) ≠ "const (" :=
    ne_of_head hhead (by decide +kernel)
  have hclose : SourceLine.code (.constant name value none) ≠ ")" :=
    ne_of_head hhead (by decide +kernel)
  have hpackage : ¬ (SourceLine.code (.constant name value none)).startsWith "package " = true := by
    have hword : (ofString "package ").utf8.head? = some 112 := by decide +kernel
    exact not_startsWith_of_head hhead hword (by decide)
  have htab : (SourceLine.code (.constant name value none)).startsWith "\t" = true :=
    startsWith_append (startsWith_append (startsWith_append (by decide +kernel) _) _) _
  have hwhite : (SourceLine.code (.constant name value none)).utf8.dropWhile
      (fun x => x == 32 || x == 9 || x == 13) = b :: (rest ++ 32 :: 61 :: 32 :: value.utf8) := by
    have hvisible : ¬ (b == 32 || b == 9 || b == 13) = true := by
      simp only [Bool.or_eq_true, beq_iff_eq, not_or]
      exact ⟨⟨ne_of_isTokenByte hbyte (by decide), ne_of_isTokenByte hbyte (by decide)⟩,
        ne_of_isTokenByte hbyte (by decide)⟩
    rw [hbytes, List.dropWhile_cons_of_pos (by decide),
      List.dropWhile_cons_of_neg (p := fun x => x == 32 || x == 9 || x == 13) hvisible]
  have hslash : b ≠ 47 := ne_of_isTokenByte hbyte (by decide)
  rw [read_eq hslash hwhite, if_neg hopen, if_neg hclose, if_neg hpackage, if_pos htab, ← hcontent,
    readConstant_eq hname hvalue]

theorem isValue_of_mem_constants {t : ManifestType} {b : Block} (h : Block.ofType? t = some b)
    {c : Constant} (hc : c ∈ b.constants) : IsValue c.value := by
  unfold Block.ofType? at h
  cases hstruct : t.struct with
  | some st =>
      simp only [hstruct, Option.some.injEq] at h
      subst h
      rcases List.mem_cons.1 hc with rfl | hc
      · exact isValue_ofInt _
      · obtain ⟨f, -, rfl⟩ := List.mem_map.1 hc
        exact isValue_ofInt _
  | none =>
      simp only [hstruct] at h
      by_cases hattrs : t.attrs.isEmpty = true
      · by_cases hvalues : t.values.isEmpty = true
        · simp [hattrs, hvalues] at h
        · simp only [hattrs, hvalues, Bool.not_true, Bool.false_eq_true, if_false, Bool.not_false,
            if_true, Option.some.injEq] at h
          subst h
          obtain ⟨v, -, rfl⟩ := List.mem_map.1 hc
          by_cases hflags : t.kind = "flags"
          · simp only [valueConstant, if_pos hflags]
            exact isValue_hexText _
          · simp only [valueConstant, if_neg hflags]
            exact isValue_ofInt _
      · simp only [hattrs, Bool.not_false, if_true, Option.some.injEq] at h
        subst h
        obtain ⟨x, -, rfl⟩ := List.mem_map.1 hc
        exact isValue_ofNat _

theorem of_mem_blocks {m : Manifest} {b : Block} (h : b ∈ blocks m) {c : Constant}
    (hc : c ∈ b.constants) : isIdentifier c.name = true ∧ IsValue c.value := by
  obtain ⟨t, -, ht⟩ := List.mem_filterMap.1 h
  exact ⟨isIdentifier_of_mem_identifiers (List.mem_flatMap.2 ⟨b, h, List.mem_map_of_mem hc⟩),
    isValue_of_mem_constants ht hc⟩

theorem yields_block {m : Manifest} {b : Block} (hb : b ∈ blocks m) (horig : IsLine b.orig)
    (horigs : ∀ c ∈ b.constants, IsLine c.orig) :
    Yields b.lines (b.declarations.map SourceLine.code) := by
  have hblank : Yields [Text.empty] [] := Yields.line ⟨by decide +kernel, Or.inl rfl⟩
  have hopen : Yields ["const ("] ["const ("] := yields_code (by decide +kernel) (by decide +kernel)
  have hclose : Yields [")"] [")"] := yields_code (by decide +kernel) (by decide +kernel)
  have hconstants : Yields (b.constants.flatMap Constant.lines)
      (b.constants.flatMap fun c => [SourceLine.code (.constant c.name c.value none)]) := by
    refine Yields.flatMap fun c hc => ?_
    obtain ⟨hname, hvalue⟩ := of_mem_blocks hb hc
    exact yields_constant hname hvalue (horigs c hc)
  have hall :=
    ((hblank.append (yields_headLines horig)).append (hopen.append hconstants)).append hclose
  rw [← List.map_eq_flatMap] at hall
  rw [Block.declarations, List.map_append, List.map_cons, List.map_map]
  exact hall

/-- The texts of a manifest that are put into comments as they are. -/
def origs (m : Manifest) : List Text :=
  (blocks m).flatMap fun b => b.orig :: b.constants.map Constant.orig

theorem source_eq (m : Manifest) (package : Text) : source m package = unlines [banner m]
    ++ unlines ([ofString "", "package " ++ package] ++ (blocks m).flatMap Block.lines) := by
  rw [← unlines_append]
  rfl

/-- Without line breaks in the texts put into comments, the code of a source text is what the
    manifest declares. -/
theorem codeLines_source {m : Manifest} {package : Text} (hpackage : isIdentifier package = true)
    (hfingerprint : IsLine m.fingerprint) (horigs : ∀ t ∈ origs m, IsLine t) :
    codeLines (source m package) = (declarations m package).map SourceLine.code := by
  have hblank : Yields [Text.ofString ""] [] := Yields.line ⟨by decide +kernel, Or.inl rfl⟩
  have hblocks : Yields ((blocks m).flatMap Block.lines)
      ((blocks m).flatMap fun b => b.declarations.map SourceLine.code) := by
    refine Yields.flatMap fun b hb => ?_
    have hmem : ∀ t ∈ b.orig :: b.constants.map Constant.orig, IsLine t := by
      intro t ht
      exact horigs t (List.mem_flatMap.2 ⟨b, hb, ht⟩)
    refine yields_block hb (hmem _ List.mem_cons_self) fun c hc => ?_
    exact hmem _ (List.mem_cons_of_mem _ (List.mem_map_of_mem hc))
  have hrest := (hblank.append (yields_package hpackage)).append hblocks
  rw [source_eq, yields_banner hfingerprint, List.nil_append, declarations, List.map_cons,
    List.map_flatMap]
  exact hrest.codeLines_eq

theorem read_declarations {m : Manifest} {package : Text} {line : SourceLine}
    (h : line ∈ declarations m package) : SourceLine.read line.code = some line := by
  rcases List.mem_cons.1 h with rfl | h
  · exact read_package package
  · obtain ⟨b, hb, hline⟩ := List.mem_flatMap.1 h
    rcases List.mem_append.1 hline with hline | hline
    · rcases List.mem_cons.1 hline with rfl | hline
      · decide +kernel
      · obtain ⟨c, hc, rfl⟩ := List.mem_map.1 hline
        obtain ⟨hname, hvalue⟩ := of_mem_blocks hb hc
        exact read_constant hname hvalue
    · rw [List.mem_singleton.1 hline]
      decide +kernel

theorem mapM_read_code {lines : List SourceLine}
    (h : ∀ line ∈ lines, SourceLine.read line.code = some line) :
    (lines.map SourceLine.code).mapM SourceLine.read = some lines := by
  induction lines with
  | nil => rfl
  | cons line lines ih =>
      obtain ⟨hline, hlines⟩ := List.forall_mem_cons.1 h
      rw [List.map_cons, List.mapM_cons, hline, ih hlines]
      rfl

theorem declared_source {m : Manifest} {package : Text} (hpackage : isIdentifier package = true)
    (hfingerprint : IsLine m.fingerprint) (horigs : ∀ t ∈ origs m, IsLine t) :
    declared (source m package) = some (declarations m package) := by
  rw [declared, codeLines_source hpackage hfingerprint horigs]
  exact mapM_read_code fun line => read_declarations

end Declarations

end GoSource

namespace ManifestAttr

/-- An attribute without what is said about it. -/
def bare (a : ManifestAttr) : ManifestAttr := { a with orig := .empty, docs := none }

end ManifestAttr

namespace ManifestField

/-- A member without what is said about it. -/
def bare (f : ManifestField) : ManifestField := { f with orig := .empty, docs := none }

end ManifestField

namespace ManifestStruct

/-- A struct without what is said about its members. -/
def bare (s : ManifestStruct) : ManifestStruct :=
  { s with fields := s.fields.map (·.map ManifestField.bare) }

end ManifestStruct

namespace ManifestValue

/-- A value without what is said about it. -/
def bare (v : ManifestValue) : ManifestValue := { v with orig := .empty, docs := none }

end ManifestValue

namespace ManifestType

/-- A type without what is said about it and its members. -/
def bare (t : ManifestType) : ManifestType :=
  { t with
    orig := .empty
    docs := none
    attrs := t.attrs.map ManifestAttr.bare
    struct := t.struct.map ManifestStruct.bare
    values := t.values.map ManifestValue.bare }

end ManifestType

namespace Manifest

/-- A manifest without what is said about types and members, and without a fingerprint. -/
def bare (m : Manifest) : Manifest := ⟨.empty, m.types.map (·.map ManifestType.bare)⟩

theorem typeList_bare (m : Manifest) : m.bare.typeList = m.typeList.map ManifestType.bare := by
  cases m with
  | mk fingerprint types =>
      cases types with
      | none => rfl
      | some types => rfl

end Manifest

namespace GoSource

open Text

theorem declarations_ofType? (t : ManifestType) :
    (Block.ofType? t.bare).toList.flatMap Block.declarations
      = (Block.ofType? t).toList.flatMap Block.declarations := by
  unfold Block.ofType?
  cases hstruct : t.struct with
  | some st =>
      cases hfields : st.fields with
      | none => simp [ManifestType.bare, ManifestStruct.bare, hstruct, hfields, Block.declarations,
          Block.make, lengthConstant]
      | some fields => simp [ManifestType.bare, ManifestStruct.bare, hstruct, hfields,
          Block.declarations, Block.make, lengthConstant, fieldConstant, ManifestField.bare]
  | none =>
      by_cases hattrs : t.attrs = []
      · by_cases hvalues : t.values = []
        · simp [ManifestType.bare, hstruct, hattrs, hvalues]
        · simp [ManifestType.bare, hstruct, hattrs, hvalues, Block.declarations, Block.make,
            valueConstant, ManifestValue.bare]
      · simp [ManifestType.bare, hstruct, hattrs, Block.declarations, Block.make, attrConstant,
          ManifestAttr.bare]

/-- What is declared does not depend on what is said about it. -/
theorem declarations_bare (m : Manifest) (package : Text) :
    declarations m.bare package = declarations m package := by
  simp only [declarations, blocks, List.filterMap_eq_flatMap_toList, List.flatMap_assoc,
    Manifest.typeList_bare, List.flatMap_map, declarations_ofType?]

theorem isLine_of_token {t : Text} (h : Every isTokenByte t) : IsLine t := by
  intro hmem
  exact ne_of_isTokenByte (h 10 hmem) (by decide) rfl

theorem isToken_toHex (b : Bytes) : Every isTokenByte b.toHex := by
  rw [ofString_eq, Bytes.toHex, String.toList_ofList]
  refine isToken_ofChars fun c hc => ?_
  obtain ⟨x, -, hx⟩ := List.mem_flatMap.1 hc
  have hbound : x.toNat < 256 := x.toNat_lt
  simp only [List.mem_cons, List.not_mem_nil, or_false] at hx
  rcases hx with rfl | rfl
  · exact isTokenByte_digitChar _ (by omega)
  · exact isTokenByte_digitChar _ (by omega)

/-- Fingerprints cannot change the code. -/
theorem isLine_fingerprint (m : Manifest) : IsLine m.sign.fingerprint :=
  isLine_of_token (isToken_toHex _)

end GoSource

namespace Schema

open GoSource

/-- Documentation cannot change the code of compiled schemas: if two manifests differ only in what
    is said about types and members, and no text put into a comment as it is has line breaks, then
    their source texts are the same without comments. They declare the package and the constants of
    the manifest, and nothing else. -/
theorem documentation_changes_no_code {s s' : Schema} {o o' : CompileOptions} {c c' : Compiled}
    (hc : (s.compile o).output = some c) (hc' : (s'.compile o').output = some c')
    (hsame : c.manifest.bare = c'.manifest.bare)
    (horigs : ∀ orig ∈ origs c.manifest, IsLine orig)
    (horigs' : ∀ orig ∈ origs c'.manifest, IsLine orig)
    {package : Text} (hpackage : isIdentifier package = true) :
    codeLines (source c.manifest package) = codeLines (source c'.manifest package) ∧
      declared (source c.manifest package) = some (declarations c.manifest package) := by
  obtain rfl := eq_of_compile hc
  obtain rfl := eq_of_compile hc'
  have hline := isLine_fingerprint s.describe
  have hline' := isLine_fingerprint s'.describe
  refine ⟨?_, declared_source hpackage hline horigs⟩
  rw [codeLines_source hpackage hline horigs, codeLines_source hpackage hline' horigs',
    ← declarations_bare, hsame, declarations_bare]

/-- Gauges with a mode and limits, and the same said about everything. -/
def gauges (docs : Docs) (orig : Text) : Schema where
  types := [
    ("mode", { declare (some .flags) [] [⟨"fast", 16, docs, orig⟩]
      with docs := docs, orig := orig }),
    ("limits", declare (some .struct)
      [⟨"low", .name "u16", { AttributeOptions.empty with docs := docs, orig := orig }⟩] []),
    ("gauge", { declare none
      [⟨"range", .name "limits", { AttributeOptions.empty with docs := docs, orig := orig }⟩] []
      with docs := docs, orig := orig })]
  distinct := by
    change (List.map Text.ofString ["mode", "limits", "gauge"]).Nodup
    decide +kernel
  named := by
    change ∀ name ∈ List.map Text.ofString ["mode", "limits", "gauge"], isTypeName name = true
    decide +kernel

/-- The manifest of gauges about which nothing is said. -/
def gaugeManifest : Manifest := ⟨.empty, some [
  { ManifestType.empty with
    name := "mode", kind := "flags"
    values := [{ ManifestValue.empty with name := "fast", value := 16 }] },
  { ManifestType.empty with
    name := "limits", kind := "struct"
    struct := some ⟨2, false, false,
      some [{ ManifestField.empty with name := "low", size := 2, type := "u16" }]⟩ },
  { ManifestType.empty with
    name := "gauge", kind := "attrs"
    attrs := [{ ManifestAttr.empty with name := "range", index := 1, type := "limits" }] }]⟩

/-- Documentation that would end a comment, close a block and open a literal. -/
def remarks : Docs := some ["Set by the driver */ )", "x\n)\n\tB = 5 /* `\""]

theorem gauges_undisturbed :
    codeLines (source (gauges remarks "GAUGE /* `\"").describe.sign "sensors")
      = codeLines (source (gauges none .empty).describe.sign "sensors") ∧
    declared (source (gauges remarks "GAUGE /* `\"").describe.sign "sensors") = some
      [.package "sensors",
        .openBlock, .constant "Mode_fast" "0x10" none, .closeBlock,
        .openBlock, .constant "Limits_Length" "2" none, .constant "Limits_low_Offset" "0" none,
        .closeBlock,
        .openBlock, .constant "Gauge_range" "1" none, .closeBlock] := by
  have hcompile := output_of_errors (s := gauges remarks "GAUGE /* `\"") (o := .default)
    (by decide +kernel)
  have hcompile' := output_of_errors (s := gauges none .empty) (o := .default) (by decide +kernel)
  have hbare : (gauges remarks "GAUGE /* `\"").describe.sign.bare = gaugeManifest := by
    decide +kernel
  have hbare' : (gauges none .empty).describe.sign.bare = gaugeManifest := by decide +kernel
  have hcode := documentation_changes_no_code hcompile hcompile' (hbare.trans hbare'.symm)
    (by decide +kernel) (by decide +kernel) (by decide +kernel : isIdentifier "sensors" = true)
  exact ⟨hcode.1, hcode.2.trans (by decide +kernel)⟩

/-- An enum of one value, which has another name elsewhere. -/
def renamed (orig : Text) : Schema where
  types := [("e", declare (some .enum) [] [⟨"A", 0, none, orig⟩])]
  distinct := List.nodup_singleton _
  named := by
    change ∀ name ∈ [Text.ofString "e"], isTypeName name = true
    decide +kernel

/-- A line break in the name of a value elsewhere ends the comment it is put into, and a constant is
    declared that no type has. -/
theorem renamed_injected : ∃ c c', ((renamed .empty).compile .default).output = some c ∧
    ((renamed "x\n\tB = 5").compile .default).output = some c' ∧
    c.manifest.bare = c'.manifest.bare ∧
    declared (source c.manifest "p") = some
      [.package "p",
        .openBlock, .constant "E_A" "0" none, .closeBlock] ∧
    declared (source c'.manifest "p") = some
      [.package "p",
        .openBlock, .constant "E_A" "0" none, .constant "B" "5" none, .closeBlock] := by
  have hcompile := output_of_errors (s := renamed .empty) (o := .default) (by decide +kernel)
  have hcompile' := output_of_errors (s := renamed "x\n\tB = 5") (o := .default) (by decide +kernel)
  refine ⟨_, _, hcompile, hcompile', by decide +kernel, ?_, ?_⟩
  -- The fingerprint is left out before the rest is looked at.
  · rw [declared, source_eq, yields_banner (isLine_fingerprint _)]
    decide +kernel
  · rw [declared, source_eq, yields_banner (isLine_fingerprint _)]
    decide +kernel

end Schema

end NetlinkSchema
