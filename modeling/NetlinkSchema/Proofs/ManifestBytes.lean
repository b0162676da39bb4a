import NetlinkSchema.Proofs.Description
import NetlinkSchema.Proofs.RecordReading

/-!
# Manifests told apart

The fingerprint of a manifest is a digest of its bytes, so it stands for the manifest only if
different manifests have different bytes. They do, but for one thing that the binary form does not
tell: whether documentation is an empty list or none. Each part of a manifest is written as a
record, and compared field by field.

## Main definitions

* `Manifest.normal`: A manifest in which no documentation is an empty list.

## Theorems

* `Manifest.normal_of_sameBytes`: Manifests of the same bytes are the same, up to documentation.
* `Manifest.toBytes_eq_iff`: The bytes determine the manifest, and nothing less.
-/

namespace NetlinkSchema

namespace Docs

/-- Lines of documentation, of which an empty list is none. -/
def normal (docs : Docs) : Docs := Schema.presentList (docs.getD [])

theorem getD_normal (docs : Docs) : (normal docs).getD [] = docs.getD [] :=
  Schema.getD_presentList _

end Docs

namespace Cbor

/-- The item of lines of documentation, unless there are none. -/
def docs? (docs : Docs) : Option Cbor := list? ((docs.getD []).map .text)

theorem docsEntry_eq (docs : Docs) : docsEntry docs = ofFields [("docs", docs? docs)] :=
  listEntry_eq "docs" _

theorem plainValue_docs? {levels : Nat} (docs : Docs) : PlainValue (levels + 1) (docs? docs) :=
  plainValue_list? Plain.text _

theorem docs?_normal (docs : Docs) : docs? (Docs.normal docs) = docs? docs := by
  rw [docs?, docs?, Docs.getD_normal]

theorem SameBytes.docs? {docs docs' : Docs} (h : SameBytes (docs? docs) (Cbor.docs? docs')) :
    Docs.normal docs = Docs.normal docs' := by
  have hplain : ∀ t : Text, Plain 0 (.text t) := Plain.text
  have hlines := h.list? hplain fun _ _ => SameBytes.text
  rw [List.map_id', List.map_id'] at hlines
  rw [Docs.normal, Docs.normal, hlines]

end Cbor

open Cbor

namespace ManifestAttr

/-- The attribute without an empty list of documentation. -/
def normal (a : ManifestAttr) : ManifestAttr := { a with docs := Docs.normal a.docs }

/-- The fields of the binary form. -/
def fields (a : ManifestAttr) : Fields :=
  [("name", some (.text a.name)), ("index", some (.unsigned a.index.toUInt64)),
    ("type", some (.text a.type)), ("lower", text? a.lower), ("repeated", bool? a.repeated),
    ("max_length", int? a.maxLength), ("orig", text? a.orig), ("docs", docs? a.docs)]

theorem isRecord (levels : Nat) : IsRecord (levels + 1)
    ["name", "index", "type", "lower", "repeated", "max_length", "orig", "docs"] toCbor fields where
  keyed := by decide +kernel
  names_eq a := by simp only [fields, List.map_cons, List.map_nil]
  item_eq a := by
    simp only [toCbor, entry_eq, textEntry_eq, boolEntry_eq, intEntry_eq, docsEntry_eq,
      ← ofFields_append]
    rfl
  plain_value a := by
    simp only [fields, List.forall_mem_cons]
    exact ⟨plainValue_some (.text _), plainValue_some (.unsigned _), plainValue_some (.text _),
      plainValue_text? _, plainValue_bool? _, plainValue_int? _, plainValue_text? _,
      plainValue_docs? _, List.forall_mem_nil _⟩

theorem normal_of_sameBytes (a a' : ManifestAttr)
    (h : SameBytes (some a.toCbor) (some a'.toCbor)) : a.normal = a'.normal := by
  have hfields := (isRecord 0).sameBytes h
  simp only [fields, List.forall₂_cons] at hfields
  obtain ⟨hname, hindex, htype, hlower, hrepeated, hmax, horig, hdocs, -⟩ := hfields
  have hindex' := UInt16.toUInt64_inj.1 hindex.unsigned
  simp only [normal, hname.text, hindex', htype.text, hlower.text?, hrepeated.bool?, hmax.int?,
    horig.text?, hdocs.docs?]

theorem toCbor_normal (a : ManifestAttr) : a.normal.toCbor = a.toCbor := by
  rw [(isRecord 0).item_eq, (isRecord 0).item_eq]
  simp only [fields, normal, docs?_normal]

end ManifestAttr

namespace ManifestField

/-- The member without an empty list of documentation. -/
def normal (f : ManifestField) : ManifestField := { f with docs := Docs.normal f.docs }

/-- The fields of the binary form. -/
def fields (f : ManifestField) : Fields :=
  [("name", some (.text f.name)), ("offset", some (.int f.offset)), ("size", some (.int f.size)),
    ("type", some (.text f.type)), ("count", int? f.count), ("lower", text? f.lower),
    ("abi", text? f.abi), ("orig", text? f.orig), ("docs", docs? f.docs)]

theorem isRecord (levels : Nat) : IsRecord (levels + 1)
    ["name", "offset", "size", "type", "count", "lower", "abi", "orig", "docs"] toCbor fields where
  keyed := by decide +kernel
  names_eq f := by simp only [fields, List.map_cons, List.map_nil]
  item_eq f := by
    simp only [toCbor, entry_eq, textEntry_eq, intEntry_eq, docsEntry_eq, ← ofFields_append]
    rfl
  plain_value f := by
    simp only [fields, List.forall_mem_cons]
    exact ⟨plainValue_some (.text _), plainValue_some (plain_int _), plainValue_some (plain_int _),
      plainValue_some (.text _), plainValue_int? _, plainValue_text? _, plainValue_text? _,
      plainValue_text? _, plainValue_docs? _, List.forall_mem_nil _⟩

theorem normal_of_sameBytes (f f' : ManifestField)
    (h : SameBytes (some f.toCbor) (some f'.toCbor)) : f.normal = f'.normal := by
  have hfields := (isRecord 0).sameBytes h
  simp only [fields, List.forall₂_cons] at hfields
  obtain ⟨hname, hoffset, hsize, htype, hcount, hlower, habi, horig, hdocs, -⟩ := hfields
  simp only [normal, hname.text, hoffset.int, hsize.int, htype.text, hcount.int?, hlower.text?,
    habi.text?, horig.text?, hdocs.docs?]

theorem toCbor_normal (f : ManifestField) : f.normal.toCbor = f.toCbor := by
  rw [(isRecord 0).item_eq, (isRecord 0).item_eq]
  simp only [fields, normal, docs?_normal]

end ManifestField

namespace ManifestStruct

/-- The layout without empty lists of documentation. -/
def normal (s : ManifestStruct) : ManifestStruct :=
  { s with fields := s.fields.map (·.map ManifestField.normal) }

/-- The fields of the binary form. -/
def entries (s : ManifestStruct) : Fields :=
  [("length", some (.int s.length)), ("expandable", bool? s.expandable),
    ("deferred", bool? s.deferred),
    ("fields", some (ofList? (s.fields.map (·.map ManifestField.toCbor))))]

theorem isRecord (levels : Nat) : IsRecord (levels + 3)
    ["length", "expandable", "deferred", "fields"] toCbor entries where
  keyed := by decide +kernel
  names_eq s := by simp only [entries, List.map_cons, List.map_nil]
  item_eq s := by
    simp only [toCbor, entry_eq, boolEntry_eq, ← ofFields_append]
    rfl
  plain_value s := by
    simp only [entries, List.forall_mem_cons]
    exact ⟨plainValue_some (plain_int _), plainValue_bool? _, plainValue_bool? _,
      plainValue_some (plain_ofList? (ManifestField.isRecord levels).plain _),
      List.forall_mem_nil _⟩

theorem normal_of_sameBytes (s s' : ManifestStruct)
    (h : SameBytes (some s.toCbor) (some s'.toCbor)) : s.normal = s'.normal := by
  have hentries := (isRecord 0).sameBytes h
  simp only [entries, List.forall₂_cons] at hentries
  obtain ⟨hlength, hexpandable, hdeferred, hfields, -⟩ := hentries
  have hfields' := hfields.ofList? (ManifestField.isRecord 0).plain
    ManifestField.normal_of_sameBytes
  simp only [normal, hlength.int, hexpandable.bool?, hdeferred.bool?, hfields']

theorem toCbor_normal (s : ManifestStruct) : s.normal.toCbor = s.toCbor := by
  rw [(isRecord 0).item_eq, (isRecord 0).item_eq]
  simp only [entries, normal, Option.map_map, Function.comp_def, List.map_map,
    ManifestField.toCbor_normal]

end ManifestStruct

namespace ManifestValue

/-- The value without an empty list of documentation. -/
def normal (v : ManifestValue) : ManifestValue := { v with docs := Docs.normal v.docs }

/-- The fields of the binary form. -/
def fields (v : ManifestValue) : Fields :=
  [("name", some (.text v.name)), ("value", some (.int v.value)), ("field", text? v.field),
    ("orig", text? v.orig), ("docs", docs? v.docs)]

theorem isRecord (levels : Nat) : IsRecord (levels + 1)
    ["name", "value", "field", "orig", "docs"] toCbor fields where
  keyed := by decide +kernel
  names_eq v := by simp only [fields, List.map_cons, List.map_nil]
  item_eq v := by
    simp only [toCbor, entry_eq, textEntry_eq, docsEntry_eq, ← ofFields_append]
    rfl
  plain_value v := by
    simp only [fields, List.forall_mem_cons]
    exact ⟨plainValue_some (.text _), plainValue_some (plain_int _), plainValue_text? _,
      plainValue_text? _, plainValue_docs? _, List.forall_mem_nil _⟩

theorem normal_of_sameBytes (v v' : ManifestValue)
    (h : SameBytes (some v.toCbor) (some v'.toCbor)) : v.normal = v'.normal := by
  have hfields := (isRecord 0).sameBytes h
  simp only [fields, List.forall₂_cons] at hfields
  obtain ⟨hname, hvalue, hfield, horig, hdocs, -⟩ := hfields
  simp only [normal, hname.text, hvalue.int, hfield.text?, horig.text?, hdocs.docs?]

theorem toCbor_normal (v : ManifestValue) : v.normal.toCbor = v.toCbor := by
  rw [(isRecord 0).item_eq, (isRecord 0).item_eq]
  simp only [fields, normal, docs?_normal]

end ManifestValue

namespace ManifestType

/-- The type without empty lists of documentation. -/
def normal (t : ManifestType) : ManifestType :=
  { t with
    docs := Docs.normal t.docs
    attrs := t.attrs.map ManifestAttr.normal
    struct := t.struct.map ManifestStruct.normal
    values := t.values.map ManifestValue.normal }

/-- The fields of the binary form. -/
def fields (t : ManifestType) : Fields :=
  [("name", some (.text t.name)), ("kind", some (.text t.kind)), ("orig", text? t.orig),
    ("root", bool? t.root), ("docs", docs? t.docs),
    ("attrs", list? (t.attrs.map ManifestAttr.toCbor)),
    ("struct", t.struct.map ManifestStruct.toCbor),
    ("values", list? (t.values.map ManifestValue.toCbor)), ("bitmask", bool? t.bitmask),
    ("flag_list", bool? t.flagList)]

theorem isRecord (levels : Nat) : IsRecord (levels + 4)
    ["name", "kind", "orig", "root", "docs", "attrs", "struct", "values", "bitmask", "flag_list"]
    toCbor fields where
  keyed := by decide +kernel
  names_eq t := by simp only [fields, List.map_cons, List.map_nil]
  item_eq t := by
    cases hstruct : t.struct with
    | none =>
        have hfields : t.fields
            = t.fields.take 6 ++ (("struct" : Text), none) :: t.fields.drop 7 := by
          simp only [fields, hstruct]
          rfl
        rw [hfields, ofFields_append, ofFields_none]
        simp only [toCbor, hstruct, List.append_nil, entry_eq, textEntry_eq, boolEntry_eq,
          listEntry_eq, docsEntry_eq, ← ofFields_append]
        rfl
    | some s =>
        simp only [toCbor, fields, hstruct, entry_eq, textEntry_eq, boolEntry_eq, listEntry_eq,
          docsEntry_eq, ← ofFields_append]
        rfl
  plain_value t := by
    have hstruct : PlainValue (levels + 4) (t.struct.map ManifestStruct.toCbor) := by
      cases t.struct with
      | none => exact plainValue_none
      | some s => exact plainValue_some ((ManifestStruct.isRecord levels).plain s)
    simp only [fields, List.forall_mem_cons]
    exact ⟨plainValue_some (.text _), plainValue_some (.text _), plainValue_text? _,
      plainValue_bool? _, plainValue_docs? _,
      plainValue_list? (ManifestAttr.isRecord (levels + 1)).plain _, hstruct,
      plainValue_list? (ManifestValue.isRecord (levels + 1)).plain _, plainValue_bool? _,
      plainValue_bool? _, List.forall_mem_nil _⟩

theorem normal_of_sameBytes (t t' : ManifestType)
    (h : SameBytes (some t.toCbor) (some t'.toCbor)) : t.normal = t'.normal := by
  have hfields := (isRecord 0).sameBytes h
  simp only [fields, List.forall₂_cons] at hfields
  obtain ⟨hname, hkind, horig, hroot, hdocs, hattrs, hstruct, hvalues, hbitmask, hflagList, -⟩ :=
    hfields
  have hattrs' := hattrs.list? (ManifestAttr.isRecord 0).plain ManifestAttr.normal_of_sameBytes
  have hvalues' := hvalues.list? (ManifestValue.isRecord 0).plain ManifestValue.normal_of_sameBytes
  have hstruct' := hstruct.map ManifestStruct.normal_of_sameBytes
  simp only [normal, hname.text, hkind.text, horig.text?, hroot.bool?, hdocs.docs?, hattrs',
    hstruct', hvalues', hbitmask.bool?, hflagList.bool?]

theorem toCbor_normal (t : ManifestType) : t.normal.toCbor = t.toCbor := by
  rw [(isRecord 0).item_eq, (isRecord 0).item_eq]
  simp only [fields, normal, docs?_normal, Option.map_map, Function.comp_def, List.map_map,
    ManifestAttr.toCbor_normal, ManifestStruct.toCbor_normal, ManifestValue.toCbor_normal]

end ManifestType

namespace Manifest

/-- The manifest without empty lists of documentation. -/
def normal (m : Manifest) : Manifest := { m with types := m.types.map (·.map ManifestType.normal) }

/-- The fields of the binary form. -/
def fields (m : Manifest) : Fields :=
  [("fingerprint", text? m.fingerprint),
    ("types", some (ofList? (m.types.map (·.map ManifestType.toCbor))))]

theorem isRecord (levels : Nat) : IsRecord (levels + 6) ["fingerprint", "types"] toCbor fields where
  keyed := by decide +kernel
  names_eq m := by simp only [fields, List.map_cons, List.map_nil]
  item_eq m := by
    simp only [toCbor, entry_eq, textEntry_eq, ← ofFields_append]
    rfl
  plain_value m := by
    simp only [fields, List.forall_mem_cons]
    exact ⟨plainValue_text? _,
      plainValue_some (plain_ofList? (ManifestType.isRecord levels).plain _),
      List.forall_mem_nil _⟩

/-- Manifests of the same bytes are the same, up to empty lists of documentation. -/
theorem normal_of_sameBytes {m m' : Manifest} (h : SameBytes (some m.toCbor) (some m'.toCbor)) :
    m.normal = m'.normal := by
  have hfields := (isRecord 0).sameBytes h
  simp only [fields, List.forall₂_cons] at hfields
  obtain ⟨hfingerprint, htypes, -⟩ := hfields
  have htypes' := htypes.ofList? (ManifestType.isRecord 0).plain ManifestType.normal_of_sameBytes
  simp only [normal, hfingerprint.text?, htypes']

theorem toBytes_normal (m : Manifest) : m.normal.toBytes = m.toBytes := by
  rw [toBytes, toBytes, (isRecord 0).item_eq, (isRecord 0).item_eq]
  simp only [fields, normal, Option.map_map, Function.comp_def, List.map_map,
    ManifestType.toCbor_normal]

/-- Two manifests have the same bytes if and only if they are the same but for lists of
    documentation that are empty in one and absent in the other. -/
theorem toBytes_eq_iff {m m' : Manifest} (hsize : m.toBytes.length < 2 ^ 64) :
    m.toBytes = m'.toBytes ↔ m.normal = m'.normal := by
  constructor
  · intro h
    exact normal_of_sameBytes (SameBytes.of_encode_eq h hsize)
  · intro h
    rw [← toBytes_normal m, ← toBytes_normal m', h]

/-- A manifest with every kind of entry, texts that are not UTF-8, and an empty documentation. -/
def gauge (docs : Docs) : Manifest :=
  ⟨⟨[0xFF]⟩, some [
    { ManifestType.empty with
      name := "gauge", kind := "attrs", root := true, docs
      attrs := [{ ManifestAttr.empty with
        name := ⟨[0xC3]⟩, index := 300, type := "u8", maxLength := -25, docs }] },
    { ManifestType.empty with
      name := "scale", kind := "struct"
      struct := some ⟨4, true, false, some [{ ManifestField.empty with
        name := "low", size := 4, type := "s32", abi := "1.0.0", docs }]⟩ },
    { ManifestType.empty with
      name := "unit", kind := "enum", bitmask := true
      values := [⟨"VOLT", -1, "volt", .empty, docs⟩, ⟨"AMPERE", 70000, "ampere", .empty, docs⟩] }]⟩

theorem gauge_docs_untold : (gauge (some [])).toBytes.length < 2 ^ 64
    ∧ (gauge (some [])).toBytes = (gauge none).toBytes ∧ gauge (some []) ≠ gauge none :=
  ⟨by decide +kernel, (toBytes_eq_iff (by decide +kernel)).2 (by decide +kernel), by decide +kernel⟩

end Manifest

end NetlinkSchema
