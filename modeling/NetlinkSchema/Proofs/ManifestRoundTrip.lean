import NetlinkSchema.Proofs.ManifestReading
import NetlinkSchema.Proofs.Utf8
import NetlinkSchema.Proofs.WireFormat

/-!
# Compiled manifests read back

Whether the manifest of a compiled schema can be read back is decided by the schema. Nearly all
that a manifest says is copied from declarations, or is one of their names with ASCII characters
around it. So a schema in UTF-8 gives a manifest in UTF-8, with one exception: the field names of
an enum that is needed in a derived form. These are made from the names of its values, and making
a capital of a character beyond ASCII breaks it.

A manifest that can be read back has the fingerprint that is stored in it, since the one thing that
reading changes, empty documentation, is not part of the bytes.

## Main definitions

* `Schema.texts`, `Schema.lengths`: The texts of a schema, and the lengths of its lists.
* `Schema.Readable`: All texts are UTF-8, and no list is too long to be read.
* `Schema.AsciiInitials`: No capital is made of a character beyond ASCII.

## Theorems

* `Schema.texts_describeType`, `Schema.lengths_describeType`: What the texts and the lists of a
  described type depend on.
* `Schema.readable_describe`: The manifest of a readable schema is readable if and only if no
  capital is made of a character beyond ASCII.
* `Manifest.length_toBytes_sign`: A fingerprint adds a limited number of bytes.
* `Schema.manifest_read_back`: What is read from the manifest of a compiled schema.
-/

namespace NetlinkSchema

open Cbor

namespace TypeExpr

/-- The text of an expression is UTF-8 if its names are. -/
theorem isValid_text {e : TypeExpr} (h : ∀ n ∈ e.names, n.isValid = true) :
    e.text.isValid = true := by
  have hword : ∀ w : String, (Text.ofString w).isValid = true := Text.isValid_ofString
  have hwrap : ∀ {before after : String} {t : Text}, t.isValid = true →
      (Text.ofString before ++ t ++ Text.ofString after).isValid = true := fun ht =>
    Text.isValid_append (Text.isValid_append (hword _) ht) (hword _)
  induction e with
  | name n => exact h n List.mem_cons_self
  | array elem zero ih =>
      cases zero with
      | true => exact hwrap (ih h)
      | false => exact hwrap (ih h)
  | map elem ih => exact hwrap (ih h)
  | flags elem ih => exact hwrap (ih h)
  | other kind => exact hwrap (Text.isValid_ofChars _)
  | missing => exact hword _

end TypeExpr

namespace LowerType

theorem isValid_text {l : LowerType} (h : l.name.isValid = true) : l.text.isValid = true := by
  rw [← text_expr]
  apply TypeExpr.isValid_text
  rw [expr]
  split
  · exact List.forall_mem_singleton.2 h
  · exact List.forall_mem_singleton.2 h

end LowerType

namespace AttributeDef

/-- The texts of a field. -/
def texts (a : AttributeDef) : List Text :=
  a.name :: a.options.abi :: a.options.orig :: a.options.docs.getD []
    ++ (a.type.names ++ a.options.type.toList.map LowerType.name)

/-- The lengths of the lists in a field. -/
def lengths (a : AttributeDef) : List Nat := [(a.options.docs.getD []).length]

/-- The texts by which a field is described. -/
def described (a : AttributeDef) : List Text :=
  a.name :: a.type.text :: Schema.lowerText a.options.type :: a.options.abi :: a.options.orig
    :: a.options.docs.getD []

theorem isValid_described {a : AttributeDef} (h : ∀ t ∈ a.texts, t.isValid = true) :
    ∀ t ∈ a.described, t.isValid = true := by
  simp only [texts, described, List.forall_mem_append, List.forall_mem_cons,
    List.forall_mem_map] at h ⊢
  obtain ⟨⟨hname, habi, horig, hdocs⟩, hnames, hlower⟩ := h
  refine ⟨hname, TypeExpr.isValid_text hnames, ?_, habi, horig, hdocs⟩
  cases htype : a.options.type with
  | none => rfl
  | some l =>
      rw [htype, Option.toList_some, List.forall_mem_singleton] at hlower
      exact LowerType.isValid_text hlower

end AttributeDef

namespace ValueDef

/-- The texts of a value. -/
def texts (v : ValueDef) : List Text := v.name :: v.orig :: v.docs.getD []

/-- The lengths of the lists in a value. -/
def lengths (v : ValueDef) : List Nat := [(v.docs.getD []).length]

end ValueDef

namespace TypeDef

/-- The texts of a declaration. -/
def texts (d : TypeDef) : List Text :=
  d.effectiveKind.name :: d.orig :: d.docs.getD [] ++ d.attrs.flatMap AttributeDef.texts
    ++ d.values.flatMap ValueDef.texts

/-- The lengths of the lists in a declaration. -/
def lengths (d : TypeDef) : List Nat :=
  (d.docs.getD []).length :: d.attrs.length :: d.values.length
    :: d.attrs.flatMap AttributeDef.lengths ++ d.values.flatMap ValueDef.lengths

end TypeDef

namespace Schema

/-- The texts of a schema. -/
def texts (s : Schema) : List Text := s.types.flatMap fun t => t.1 :: t.2.texts

/-- The lengths of the lists in a schema. -/
def lengths (s : Schema) : List Nat := s.types.length :: s.types.flatMap fun t => t.2.lengths

/-- All texts are UTF-8, and no list has more members than can be read. -/
structure Readable (s : Schema) : Prop where
  texts : ∀ t ∈ s.texts, t.isValid = true
  lengths : ∀ n ∈ s.lengths, n ≤ maxMembers

/-- Whether the values of a type have field names: it is an enum that is needed in a derived
    form. -/
def HasFieldNames (needs : List (Text × Variant)) (name : Text) (d : TypeDef) : Prop :=
  d.effectiveKind = .enum ∧ name ∈ needs.map Prod.fst

instance (needs : List (Text × Variant)) (name : Text) (d : TypeDef) :
    Decidable (HasFieldNames needs name d) :=
  inferInstanceAs (Decidable (d.effectiveKind = .enum ∧ name ∈ needs.map Prod.fst))

/-- Where values have field names, no word of a value after the first begins with a character
    beyond ASCII. -/
def AsciiInitials (s : Schema) : Prop :=
  ∀ t ∈ s.types, HasFieldNames s.needs t.1 t.2 →
    ∀ v ∈ t.2.values, ∀ w ∈ Text.laterWords v.name, w.StartsAscii

instance (s : Schema) : Decidable s.AsciiInitials :=
  inferInstanceAs (Decidable (∀ t ∈ s.types, HasFieldNames s.needs t.1 t.2 →
    ∀ v ∈ t.2.values, ∀ w ∈ Text.laterWords v.name, w.StartsAscii))

section Parts

variable {s : Schema} {d : TypeDef}

/-- An attribute is described by what its field says. -/
theorem exists_described_of_describeAttrs {a : ManifestAttr} (h : a ∈ s.describeAttrs d) :
    ∃ b ∈ d.attrs, a.texts ⊆ b.described ∧ a.lengths = b.lengths := by
  rw [describeAttrs_eq_map] at h
  obtain ⟨x, hx, rfl⟩ := List.mem_map.1 h
  refine ⟨x.1.2, (mem_resolvedFields hx).1, ?_, rfl⟩
  intro t ht
  simp only [ManifestAttr.texts, AttributeDef.described, List.mem_cons] at ht ⊢
  tauto

theorem length_describeAttrs : (s.describeAttrs d).length ≤ d.attrs.length := by
  have hnumbered : (numbered d).length = d.attrs.length := by
    rw [← map_snd_numbered d, List.length_map]
  have husable : (usable d).length ≤ (numbered d).length := (List.takeWhile_sublist _).length_le
  have hdescribed : (s.describeAttrs d).length ≤ (usable d).length := List.length_filterMap_le _ _
  omega

/-- A member is described by what its field says, wherever it is. -/
theorem exists_described_of_describeFields {ms : List (AttributeDef × MemberType)} {offset : Int64}
    {f : ManifestField} (h : f ∈ describeFields offset ms) :
    ∃ m ∈ ms, f.texts = m.1.described ∧ f.lengths = m.1.lengths := by
  induction ms generalizing offset with
  | nil => cases h
  | cons m rest ih =>
      rw [describeFields, List.mem_cons] at h
      rcases h with rfl | h
      · exact ⟨m, List.mem_cons_self, rfl, rfl⟩
      · obtain ⟨m', hm', hsame⟩ := ih h
        exact ⟨m', List.mem_cons_of_mem m hm', hsame⟩

theorem mem_attrs_of_declaredMembers {m : AttributeDef × MemberType}
    (h : m ∈ s.declaredMembers d) : m.1 ∈ d.attrs := by
  obtain ⟨a, ha, hm⟩ := List.mem_filterMap.1 h
  obtain ⟨t, -, rfl⟩ := Option.map_eq_some_iff.1 hm
  exact (knownMembers_sublist d.attrs).subset ha

theorem length_describeFields : (describeFields 0 (s.declaredMembers d)).length
    ≤ d.attrs.length := by
  have houtline := congrArg List.length (describeFields_outline 0 (s.declaredMembers d))
  rw [List.length_map, List.length_map] at houtline
  have hmembers : (s.declaredMembers d).length ≤ (knownMembers d.attrs).length :=
    List.length_filterMap_le _ _
  have hknown := (knownMembers_sublist d.attrs).length_le
  omega

theorem texts_describeValue {v : ValueDef} (withField : Bool)
    (h : ∀ t ∈ v.texts, t.isValid = true) :
    (∀ t ∈ (describeValue withField v).texts, t.isValid = true)
      ↔ (withField = true → (camelCase v.name).isValid = true) := by
  simp only [ValueDef.texts, List.forall_mem_cons] at h
  simp only [describeValue, ManifestValue.texts, List.forall_mem_cons]
  cases withField with
  | false => exact iff_of_true ⟨h.1, rfl, h.2⟩ fun hno => by cases hno
  | true => exact ⟨fun hall _ => hall.2.1, fun hfield => ⟨h.1, hfield rfl, h.2⟩⟩

end Parts

section Types

variable {s : Schema} {needs : List (Text × Variant)} {settled : List Text} {name : Text}
  {d : TypeDef}

-- The parts of a described type, whatever its kind is.
theorem describeType_orig : (s.describeType needs settled name d).orig = d.orig := by
  unfold describeType
  split <;> rfl

theorem describeType_docs : (s.describeType needs settled name d).docs = d.docs := by
  unfold describeType
  split <;> rfl

theorem describeType_attrs :
    (s.describeType needs settled name d).attrs.Sublist (s.describeAttrs d) := by
  unfold describeType
  split
  · exact List.Sublist.refl _
  all_goals exact List.nil_sublist _

theorem describeType_struct {st : ManifestStruct}
    (h : st ∈ (s.describeType needs settled name d).struct.toList) :
    st = s.describeStruct settled name d := by
  unfold describeType at h
  split at h
  case h_2 => exact List.mem_singleton.1 h
  all_goals cases h

theorem describeType_values : ∃ withField, (withField = true ↔ HasFieldNames needs name d)
    ∧ ((s.describeType needs settled name d).values = [] ∧ withField = false
      ∨ (s.describeType needs settled name d).values = d.values.map (describeValue withField)) := by
  rw [describeType, HasFieldNames]
  cases hkind : d.effectiveKind with
  | enum =>
      -- Either of the two forms is a reason for field names.
      refine ⟨_, ?_, Or.inr rfl⟩
      rw [Bool.or_eq_true, List.contains_iff_mem, List.contains_iff_mem, List.mem_map]
      constructor
      · intro h
        exact ⟨rfl, h.elim (fun h => ⟨_, h, rfl⟩) fun h => ⟨_, h, rfl⟩⟩
      · rintro ⟨-, ⟨_, form⟩, hform, rfl⟩
        cases form with
        | bitmask => exact Or.inl hform
        | flagList => exact Or.inr hform
  | flags => exact ⟨false, by simp, Or.inr rfl⟩
  | attrs => exact ⟨false, by simp, Or.inl ⟨rfl, rfl⟩⟩
  | struct => exact ⟨false, by simp, Or.inl ⟨rfl, rfl⟩⟩
  | other kind unknown => exact ⟨false, by simp, Or.inl ⟨rfl, rfl⟩⟩

/-- The members in the description of a type are fields of it. -/
theorem exists_described_of_struct {st : ManifestStruct}
    (h : st ∈ (s.describeType needs settled name d).struct.toList) {f : ManifestField}
    (hf : f ∈ st.fields.getD []) :
    ∃ b ∈ d.attrs, f.texts = b.described ∧ f.lengths = b.lengths := by
  rw [describeType_struct h, describeStruct, getD_presentList] at hf
  obtain ⟨m, hm, hsame⟩ := exists_described_of_describeFields hf
  exact ⟨m.1, mem_attrs_of_declaredMembers hm, hsame⟩

theorem texts_values (h : ∀ v ∈ d.values, ∀ t ∈ v.texts, t.isValid = true) :
    (∀ v ∈ (s.describeType needs settled name d).values, ∀ t ∈ v.texts, t.isValid = true)
      ↔ (HasFieldNames needs name d → ∀ v ∈ d.values, (camelCase v.name).isValid = true) := by
  obtain ⟨withField, hfield, hnone | hsome⟩ := describeType_values (s := s) (d := d)
  · rw [hnone.1, ← hfield, hnone.2]
    exact iff_of_true (List.forall_mem_nil _) fun hno => by cases hno
  · rw [hsome, ← hfield, List.forall_mem_map]
    constructor
    · intro hall hwith v hv
      exact (texts_describeValue withField (h v hv)).1 (hall v hv) hwith
    · intro hall v hv
      exact (texts_describeValue withField (h v hv)).2 fun hwith => hall hwith v hv

/-- If the texts of a declaration are UTF-8, only field names keep its description from being
    UTF-8. -/
theorem texts_describeType (hname : name.isValid = true) (h : ∀ t ∈ d.texts, t.isValid = true) :
    (∀ t ∈ (s.describeType needs settled name d).texts, t.isValid = true)
      ↔ (HasFieldNames needs name d → ∀ v ∈ d.values, (camelCase v.name).isValid = true) := by
  simp only [TypeDef.texts, List.forall_mem_append, List.forall_mem_cons,
    List.forall_mem_flatMap] at h
  obtain ⟨⟨⟨hkind, horig, hdocs⟩, hattrs⟩, hvalues⟩ := h
  -- Attributes and members are described by what their fields say, so only values are left.
  have hdescribed : ∀ b ∈ d.attrs, ∀ t ∈ b.described, t.isValid = true := fun b hb =>
    AttributeDef.isValid_described (hattrs b hb)
  have hattrs' : ∀ a ∈ (s.describeType needs settled name d).attrs,
      ∀ t ∈ a.texts, t.isValid = true := by
    intro a ha t ht
    obtain ⟨b, hb, hsub, -⟩ := exists_described_of_describeAttrs (describeType_attrs.subset ha)
    exact hdescribed b hb t (hsub ht)
  have hstruct : ∀ st ∈ (s.describeType needs settled name d).struct.toList,
      ∀ t ∈ st.texts, t.isValid = true := by
    intro st hst
    rw [ManifestStruct.texts, List.forall_mem_flatMap]
    intro f hf
    obtain ⟨b, hb, htexts, -⟩ := exists_described_of_struct hst hf
    rw [htexts]
    exact hdescribed b hb
  simp only [ManifestType.texts, List.forall_mem_append, List.forall_mem_cons,
    List.forall_mem_flatMap, describeType_name, describeType_kind, describeType_orig,
    describeType_docs, texts_values hvalues]
  exact and_iff_right ⟨⟨⟨hname, hkind, horig, hdocs⟩, hattrs'⟩, hstruct⟩

/-- No list in the description of a type is longer than the lists in its declaration. -/
theorem lengths_describeType {bound : Nat} (h : ∀ n ∈ d.lengths, n ≤ bound) :
    ∀ n ∈ (s.describeType needs settled name d).lengths, n ≤ bound := by
  simp only [TypeDef.lengths, List.forall_mem_append, List.forall_mem_cons,
    List.forall_mem_flatMap] at h
  obtain ⟨⟨hdocs, hattrs, hvalues, hfields⟩, hentries⟩ := h
  simp only [ManifestType.lengths, List.forall_mem_append, List.forall_mem_cons,
    List.forall_mem_flatMap, describeType_docs]
  refine ⟨⟨⟨hdocs, ?_, ?_, ?_⟩, ?_⟩, ?_⟩
  · exact (describeType_attrs.length_le.trans length_describeAttrs).trans hattrs
  · obtain ⟨withField, -, hnone | hsome⟩ := describeType_values (s := s) (d := d)
    · rw [hnone.1]
      exact Nat.zero_le bound
    · rw [hsome, List.length_map]
      exact hvalues
  · intro a ha
    obtain ⟨b, hb, -, hlengths⟩ := exists_described_of_describeAttrs (describeType_attrs.subset ha)
    rw [hlengths]
    exact hfields b hb
  · intro st hst
    rw [ManifestStruct.lengths, List.forall_mem_cons, List.forall_mem_flatMap]
    constructor
    · rw [describeType_struct hst, describeStruct, getD_presentList]
      exact length_describeFields.trans hattrs
    · intro f hf
      obtain ⟨b, hb, -, hlengths⟩ := exists_described_of_struct hst hf
      rw [hlengths]
      exact hfields b hb
  · obtain ⟨withField, -, hnone | hsome⟩ := describeType_values (s := s) (d := d)
    · rw [hnone.1]
      exact List.forall_mem_nil _
    · rw [hsome, List.forall_mem_map]
      exact hentries

end Types

/-- The manifest of a readable schema is readable if and only if no capital is made of a character
    beyond ASCII. -/
theorem readable_describe {s : Schema} (h : s.Readable) :
    s.describe.sign.Readable ↔ s.AsciiInitials := by
  obtain ⟨htexts, hlengths⟩ := h
  simp only [texts, lengths, List.forall_mem_flatMap, List.forall_mem_cons] at htexts hlengths
  have hlists : ∀ n ∈ s.describe.sign.lengths, n ≤ maxMembers := by
    rw [Manifest.lengths, typeList_describe, List.forall_mem_cons, List.length_map,
      List.forall_mem_flatMap, List.forall_mem_map]
    exact ⟨hlengths.1, fun t ht => lengths_describeType (hlengths.2 t ht)⟩
  -- Whatever the digest is, its digits are characters.
  have hfingerprint : s.describe.sign.fingerprint.isValid = true := Text.isValid_ofString _
  have htypes : (∀ t ∈ s.describe.sign.texts, t.isValid = true) ↔ s.AsciiInitials := by
    rw [Manifest.texts, typeList_describe, List.forall_mem_cons, List.forall_mem_flatMap,
      List.forall_mem_map, and_iff_right hfingerprint, AsciiInitials]
    refine forall₂_congr fun t ht => ?_
    rw [texts_describeType (htexts t ht).1 (htexts t ht).2]
    simp only [Text.isValid_camelCase]
  constructor
  · intro hreadable
    exact htypes.1 hreadable.texts
  · intro hinitials
    exact ⟨htypes.2 hinitials, hlists⟩

end Schema

namespace Blake3

theorem length_digest (b : Bytes) : (digest b).length = 32 := by
  simp [digest, List.length_flatMap]

end Blake3

namespace Manifest

theorem size_computeFingerprint (m : Manifest) : m.computeFingerprint.size ≤ 256 := by
  rw [computeFingerprint, Text.ofString_eq, Bytes.toHex, String.toList_ofList]
  refine (Text.size_ofChars _).trans ?_
  simp [List.length_flatMap, Blake3.length_digest]

/-- A fingerprint adds a limited number of bytes to its own. -/
theorem length_toBytes_le (m : Manifest) (fingerprint : Text) :
    (toBytes { m with fingerprint }).length ≤ m.toBytes.length + fingerprint.size + 30 := by
  have hhead := length_head 5 (textEntry "fingerprint" fingerprint
    ++ entry "types" (ofList? (m.types.map (·.map ManifestType.toCbor)))).length
  have hentry : ((textEntry "fingerprint" fingerprint).map fun e =>
      e.1.encode.length + e.2.encode.length).sum ≤ fingerprint.size + 21 := by
    have hkey : (Cbor.text "fingerprint").encode.length = 12 := by decide +kernel
    have htext : (Cbor.text fingerprint).encode.length ≤ 9 + fingerprint.size := by
      rw [encode, encodeText, List.length_append]
      exact Nat.add_le_add_right (length_head 3 _) _
    rw [textEntry]
    split
    · exact Nat.zero_le _
    · simp only [entry, List.map_cons, List.map_nil, List.sum_cons, List.sum_nil]
      omega
  simp only [toBytes, toCbor, length_encode_map, List.map_append, List.sum_append_nat]
  omega

theorem length_toBytes_sign (m : Manifest) : m.sign.toBytes.length ≤ m.toBytes.length + 286 := by
  have hsigned := m.length_toBytes_le m.computeFingerprint
  have hsize := m.size_computeFingerprint
  rw [sign]
  omega

theorem computeFingerprint_normal (m : Manifest) :
    m.normal.computeFingerprint = m.computeFingerprint := by
  have hbytes := toBytes_normal { m with fingerprint := .empty }
  rw [computeFingerprint, computeFingerprint, ← hbytes]
  rfl

end Manifest

namespace Schema

/-- The manifest of a compiled schema is read back if it is readable, and refused otherwise. What
    is read has the fingerprint that was stored. A readable schema has a readable manifest if and
    only if no capital is made of a character beyond ASCII. -/
theorem manifest_read_back {s : Schema} {o : CompileOptions} {compiled : Compiled}
    (hcompile : (s.compile o).output = some compiled)
    (hsize : compiled.manifest.toBytes.length < 2 ^ 64) :
    Gives (Manifest.ofBytes? compiled.manifest.toBytes) compiled.manifest.Readable
        compiled.manifest.normal
      ∧ compiled.manifest.normal.computeFingerprint = compiled.manifest.fingerprint
      ∧ (s.Readable → (compiled.manifest.Readable ↔ s.AsciiInitials)) := by
  obtain rfl := eq_of_compile hcompile
  exact ⟨Manifest.ofBytes?_toBytes hsize, Manifest.computeFingerprint_normal _, readable_describe⟩

/-- The manifest of trees is read back. Its enum is needed as a list of flags, so that the field
    name of `dark_red` is stored too. -/
theorem tree_read_back : tree.Readable ∧ tree.AsciiInitials
    ∧ Manifest.ofBytes? tree.describe.sign.toBytes = some tree.describe.sign.normal
    ∧ tree.describe.sign.normal.computeFingerprint = tree.describe.sign.fingerprint := by
  have hsize : tree.describe.sign.toBytes.length < 2 ^ 64 :=
    (Manifest.length_toBytes_sign _).trans_lt (by decide +kernel)
  have hreadable : tree.Readable := ⟨by decide +kernel, by decide +kernel⟩
  have hinitials : tree.AsciiInitials := by decide +kernel
  obtain ⟨hread, hfingerprint, hiff⟩ := manifest_read_back tree_compile hsize
  exact ⟨hreadable, hinitials, hread.result ((hiff hreadable).2 hinitials), hfingerprint⟩

/-- An enum whose only value has a second word that begins with `é`, and a set that needs it as a
    bitmask. -/
def accent : Schema where
  types := [
    ("e", declare (some .enum) [] [⟨"A_é", 0, none, .empty⟩]),
    ("m", declare none [⟨"x", .name "u8",
      { AttributeOptions.empty with type := some ⟨"e", true⟩ }⟩] [])]
  distinct := by decide +kernel
  named := by decide +kernel

/-- The manifest of a schema in UTF-8 cannot be read back. -/
theorem accent_refused : accent.Readable
    ∧ ∃ compiled, (accent.compile .default).output = some compiled
      ∧ Manifest.ofBytes? compiled.manifest.toBytes = none := by
  have hsize : accent.describe.sign.toBytes.length < 2 ^ 64 :=
    (Manifest.length_toBytes_sign _).trans_lt (by decide +kernel)
  have hreadable : accent.Readable := ⟨by decide +kernel, by decide +kernel⟩
  have hinitials : ¬ accent.AsciiInitials := by decide +kernel
  refine ⟨hreadable, _, output_of_errors (by decide +kernel), ?_⟩
  apply (Manifest.ofBytes?_toBytes hsize).nothing
  rw [readable_describe hreadable]
  exact hinitials

end Schema

end NetlinkSchema
