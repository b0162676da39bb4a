import NetlinkSchema.Proofs.ManifestBytes
import Mathlib.Tactic.Tauto

/-!
# Manifests read back

The bytes of a manifest are read as that manifest, but for documentation that is an empty list,
which comes back as none. There are two conditions. The reader takes only texts in UTF-8, and only
lists of a limited length; the writer asks for neither. Where a condition is not met, there is no
result. So whether a manifest can be read back is said by its texts and by the lengths of its lists.

## Main definitions

* `Manifest.texts`, `Manifest.lengths`: The texts of a manifest, and the lengths of its lists.
* `Manifest.Readable`: Both conditions are met.

## Theorems

* `Manifest.gives`: Which manifest is read from the item of a manifest.
* `Manifest.ofBytes?_toBytes`: The bytes of a manifest are read as that manifest if it is readable,
  and refused otherwise.
-/

namespace NetlinkSchema

open Cbor

namespace Cbor

theorem map_arranged_docs? (docs : Docs) : (docs? docs).map arranged = docs? docs := by
  rw [docs?, map_arranged_list?, List.map_map]
  rfl

theorem readableValue_docs? (docs : Docs) :
    ReadableValue (docs? docs) ↔ (docs.getD []).length ≤ maxMembers := by
  rw [docs?, readableValue_list?]
  exact and_iff_left fun _ _ => rfl

theorem arranged_ofList? {α : Type} {toItem : α → Cbor} (xs : Option (List α)) :
    (ofList? (xs.map (·.map toItem))).arranged
      = ofList? (xs.map (·.map fun x => (toItem x).arranged)) := by
  cases xs with
  | none => rfl
  | some xs =>
      show (Cbor.array (xs.map toItem)).arranged = _
      rw [arranged_array, List.map_map]
      rfl

theorem arranged_text (t : Text) : (Cbor.text t).arranged = .text t := rfl

theorem Record.docs_gives {r : Record} {docs : Docs} (h : r.value? "docs" = docs? docs) :
    Gives (r.texts "docs") (∀ t ∈ docs.getD [], t.isValid = true) (Docs.normal docs) :=
  texts_gives h

theorem ofInt_toNat (n : UInt16) : UInt16.ofInt (n.toNat : Int) = n := by
  have hlt := n.toNat_lt
  apply UInt16.toNat_inj.1
  rw [UInt16.ofInt, UInt16.toNat_ofNat']
  omega

theorem Record.index_gives {r : Record} {name : Text} {n : UInt16}
    (h : r.value? name = some (.unsigned n.toUInt64)) :
    Gives (r.field name 0 (toInt? 0 65535)) True (n.toNat : Int) := by
  have hlt := n.toNat_lt
  have hread : toInt? 0 65535 (.unsigned n.toUInt64) = some (n.toNat : Int) := by
    simp [toInt?, readOr, untag?, isNothing, plainInt?]
    omega
  refine present_gives h ?_
  rw [hread]
  exact Gives.some _

end Cbor

namespace ManifestAttr

/-- The texts of the attribute. -/
def texts (a : ManifestAttr) : List Text := a.name :: a.type :: a.lower :: a.orig :: a.docs.getD []

/-- The lengths of the lists in the attribute. -/
def lengths (a : ManifestAttr) : List Nat := [(a.docs.getD []).length]

theorem gives (a : ManifestAttr) : Gives (toRecord? ofRecord? a.toCbor.arranged)
    (∀ t ∈ a.texts, t.isValid = true) a.normal := by
  have hvalues := (isRecord 0).values a
  rw [(isRecord 0).toRecord?_arranged]
  generalize arrangedRecord a.fields = r at hvalues ⊢
  simp only [fields, List.forall_mem_cons, Option.map_some, arranged_text, map_arranged_text?,
    map_arranged_bool?, map_arranged_int?, map_arranged_docs?] at hvalues
  obtain ⟨hname, hindex, htype, hlower, hrepeated, hmax, horig, hdocs, -⟩ := hvalues
  have hread : Gives (ofRecord? r) _ _ := (Record.index_gives hindex).bind <|
    (Record.text_gives hname).bind <| (Record.text_gives htype).bind <|
    (Record.text?_gives hlower).bind <| (Record.bool?_gives hrepeated).bind <|
    (Record.int?_gives hmax).bind <| (Record.text?_gives horig).bind <|
    (Record.docs_gives hdocs).bind_pure _
  refine hread.congr ?_ ?_
  · simp only [texts, List.forall_mem_cons, true_and]
  · rw [ofInt_toNat]
    rfl

theorem isReadable_iff (a : ManifestAttr) :
    a.toCbor.isReadable = true ↔ ∀ n ∈ a.lengths, n ≤ maxMembers := by
  rw [(isRecord 0).isReadable_iff (by decide)]
  simp only [fields, lengths, List.forall_mem_cons, readableValue_some, readableValue_text?,
    readableValue_bool?, readableValue_int?, readableValue_docs?, isReadable, true_and,
    List.not_mem_nil, false_imp_iff, implies_true]

end ManifestAttr

namespace ManifestField

/-- The texts of the member. -/
def texts (f : ManifestField) : List Text :=
  f.name :: f.type :: f.lower :: f.abi :: f.orig :: f.docs.getD []

/-- The lengths of the lists in the member. -/
def lengths (f : ManifestField) : List Nat := [(f.docs.getD []).length]

theorem gives (f : ManifestField) : Gives (toRecord? ofRecord? f.toCbor.arranged)
    (∀ t ∈ f.texts, t.isValid = true) f.normal := by
  have hvalues := (isRecord 0).values f
  rw [(isRecord 0).toRecord?_arranged]
  generalize arrangedRecord f.fields = r at hvalues ⊢
  simp only [fields, List.forall_mem_cons, Option.map_some, arranged_text, arranged_int,
    map_arranged_text?, map_arranged_int?, map_arranged_docs?] at hvalues
  obtain ⟨hname, hoffset, hsize, htype, hcount, hlower, habi, horig, hdocs, -⟩ := hvalues
  have hread : Gives (ofRecord? r) _ _ := (Record.text_gives hname).bind <|
    (Record.int_gives hoffset).bind <| (Record.int_gives hsize).bind <|
    (Record.text_gives htype).bind <| (Record.int?_gives hcount).bind <|
    (Record.text?_gives hlower).bind <| (Record.text?_gives habi).bind <|
    (Record.text?_gives horig).bind <| (Record.docs_gives hdocs).bind_pure _
  refine hread.congr ?_ rfl
  simp only [texts, List.forall_mem_cons, true_and]

theorem isReadable_iff (f : ManifestField) :
    f.toCbor.isReadable = true ↔ ∀ n ∈ f.lengths, n ≤ maxMembers := by
  rw [(isRecord 0).isReadable_iff (by decide)]
  simp only [fields, lengths, List.forall_mem_cons, readableValue_some, isReadable_int,
    readableValue_text?, readableValue_int?, readableValue_docs?, isReadable, true_and,
    List.not_mem_nil, false_imp_iff, implies_true]

end ManifestField

namespace ManifestStruct

/-- The texts of the layout. -/
def texts (s : ManifestStruct) : List Text := (s.fields.getD []).flatMap ManifestField.texts

/-- The lengths of the lists in the layout. -/
def lengths (s : ManifestStruct) : List Nat :=
  (s.fields.getD []).length :: (s.fields.getD []).flatMap ManifestField.lengths

theorem gives (s : ManifestStruct) : Gives (toRecord? ofRecord? s.toCbor.arranged)
    (∀ t ∈ s.texts, t.isValid = true) s.normal := by
  have hvalues := (isRecord 0).values s
  rw [(isRecord 0).toRecord?_arranged]
  generalize arrangedRecord s.entries = r at hvalues ⊢
  simp only [entries, List.forall_mem_cons, Option.map_some, arranged_int, map_arranged_bool?,
    arranged_ofList?] at hvalues
  obtain ⟨hlength, hexpandable, hdeferred, hfields, -⟩ := hvalues
  have hmembers := Record.ofList?_gives hfields (ManifestField.isRecord 0).isNothing_arranged
    fun f _ => f.gives
  have hread : Gives (ofRecord? r) _ _ := hmembers.bind <| (Record.int_gives hlength).bind <|
    (Record.bool?_gives hexpandable).bind <| (Record.bool?_gives hdeferred).bind_pure _
  refine hread.congr ?_ rfl
  simp only [texts, List.forall_mem_flatMap, and_true]

theorem isReadable_iff (s : ManifestStruct) :
    s.toCbor.isReadable = true ↔ ∀ n ∈ s.lengths, n ≤ maxMembers := by
  rw [(isRecord 0).isReadable_iff (by decide)]
  simp only [entries, lengths, List.forall_mem_cons, readableValue_some, isReadable_int,
    readableValue_bool?, isReadable_ofList?, ManifestField.isReadable_iff, List.forall_mem_flatMap,
    true_and, and_true, List.not_mem_nil, false_imp_iff, implies_true]

end ManifestStruct

namespace ManifestValue

/-- The texts of the value. -/
def texts (v : ManifestValue) : List Text := v.name :: v.field :: v.orig :: v.docs.getD []

/-- The lengths of the lists in the value. -/
def lengths (v : ManifestValue) : List Nat := [(v.docs.getD []).length]

theorem gives (v : ManifestValue) : Gives (toRecord? ofRecord? v.toCbor.arranged)
    (∀ t ∈ v.texts, t.isValid = true) v.normal := by
  have hvalues := (isRecord 0).values v
  rw [(isRecord 0).toRecord?_arranged]
  generalize arrangedRecord v.fields = r at hvalues ⊢
  simp only [fields, List.forall_mem_cons, Option.map_some, arranged_text, arranged_int,
    map_arranged_text?, map_arranged_docs?] at hvalues
  obtain ⟨hname, hvalue, hfield, horig, hdocs, -⟩ := hvalues
  have hread : Gives (ofRecord? r) _ _ := (Record.text_gives hname).bind <|
    (Record.int_gives hvalue).bind <| (Record.text?_gives hfield).bind <|
    (Record.text?_gives horig).bind <| (Record.docs_gives hdocs).bind_pure _
  refine hread.congr ?_ rfl
  simp only [texts, List.forall_mem_cons, true_and]

theorem isReadable_iff (v : ManifestValue) :
    v.toCbor.isReadable = true ↔ ∀ n ∈ v.lengths, n ≤ maxMembers := by
  rw [(isRecord 0).isReadable_iff (by decide)]
  simp only [fields, lengths, List.forall_mem_cons, readableValue_some, isReadable_int,
    readableValue_text?, readableValue_docs?, isReadable, true_and, List.not_mem_nil,
    false_imp_iff, implies_true]

end ManifestValue

namespace ManifestType

/-- The texts of the type. -/
def texts (t : ManifestType) : List Text :=
  t.name :: t.kind :: t.orig :: t.docs.getD [] ++ t.attrs.flatMap ManifestAttr.texts
    ++ t.struct.toList.flatMap ManifestStruct.texts ++ t.values.flatMap ManifestValue.texts

/-- The lengths of the lists in the type. -/
def lengths (t : ManifestType) : List Nat :=
  (t.docs.getD []).length :: t.attrs.length :: t.values.length
    :: t.attrs.flatMap ManifestAttr.lengths ++ t.struct.toList.flatMap ManifestStruct.lengths
    ++ t.values.flatMap ManifestValue.lengths

theorem structOf?_gives {r : Record} {s : Option ManifestStruct}
    (h : r.value? "struct" = (s.map ManifestStruct.toCbor).map arranged) :
    Gives (r.field "struct" none structOf?)
      (∀ t ∈ s.toList.flatMap ManifestStruct.texts, t.isValid = true)
      (s.map ManifestStruct.normal) := by
  cases s with
  | none => exact Record.absent_gives h (List.forall_mem_nil _)
  | some s =>
      have hsome : structOf? s.toCbor.arranged
          = (toRecord? ManifestStruct.ofRecord? s.toCbor.arranged).map some := by
        rw [structOf?, (ManifestStruct.isRecord 0).isNothing_arranged]
        rfl
      refine Record.present_gives h ?_
      rw [hsome]
      refine (s.gives.map some).congr ?_ rfl
      rw [Option.toList_some, List.flatMap_singleton]

theorem gives (t : ManifestType) : Gives (toRecord? ofRecord? t.toCbor.arranged)
    (∀ u ∈ t.texts, u.isValid = true) t.normal := by
  have hvalues := (isRecord 0).values t
  rw [(isRecord 0).toRecord?_arranged]
  generalize arrangedRecord t.fields = r at hvalues ⊢
  simp only [fields, List.forall_mem_cons, Option.map_some, arranged_text, map_arranged_text?,
    map_arranged_bool?, map_arranged_docs?, map_arranged_list?, List.map_map] at hvalues
  obtain ⟨hname, hkind, horig, hroot, hdocs, hattrs, hstruct, hvalues, hbitmask, hflagList, -⟩ :=
    hvalues
  have hattrs' := Record.members_gives hattrs (ManifestAttr.isRecord 0).isNothing_arranged
    fun a _ => a.gives
  have hvalues' := Record.members_gives hvalues (ManifestValue.isRecord 0).isNothing_arranged
    fun v _ => v.gives
  have hread : Gives (ofRecord? r) _ _ := hattrs'.bind <| hvalues'.bind <|
    (Record.text_gives hname).bind <| (Record.text_gives hkind).bind <|
    (Record.text?_gives horig).bind <| (Record.bool?_gives hroot).bind <|
    (Record.docs_gives hdocs).bind <| (structOf?_gives hstruct).bind <|
    (Record.bool?_gives hbitmask).bind <| (Record.bool?_gives hflagList).bind_pure _
  refine hread.congr ?_ ?_
  · simp only [texts, List.forall_mem_cons, List.forall_mem_append, List.forall_mem_flatMap,
      true_and]
    tauto
  · simp only [Schema.getD_presentList]
    rfl

theorem isReadable_iff (t : ManifestType) :
    t.toCbor.isReadable = true ↔ ∀ n ∈ t.lengths, n ≤ maxMembers := by
  have hstruct : ReadableValue (t.struct.map ManifestStruct.toCbor)
      ↔ ∀ s ∈ t.struct.toList, ∀ n ∈ s.lengths, n ≤ maxMembers := by
    cases t.struct with
    | none => exact iff_of_true readableValue_none (List.forall_mem_nil _)
    | some s =>
        rw [Option.map_some, readableValue_some, s.isReadable_iff, Option.toList_some,
          List.forall_mem_singleton]
  rw [(isRecord 0).isReadable_iff (by decide)]
  simp only [fields, lengths, List.forall_mem_cons, List.forall_mem_append,
    List.forall_mem_flatMap, readableValue_some, readableValue_text?, readableValue_bool?,
    readableValue_docs?, readableValue_list?, hstruct, ManifestAttr.isReadable_iff,
    ManifestValue.isReadable_iff, isReadable, true_and, List.not_mem_nil, false_imp_iff,
    implies_true]
  tauto

end ManifestType

namespace Manifest

/-- The texts of the manifest. -/
def texts (m : Manifest) : List Text := m.fingerprint :: m.typeList.flatMap ManifestType.texts

/-- The lengths of the lists in the manifest. -/
def lengths (m : Manifest) : List Nat :=
  m.typeList.length :: m.typeList.flatMap ManifestType.lengths

/-- All texts are UTF-8, and no list has more members than can be read. -/
structure Readable (m : Manifest) : Prop where
  texts : ∀ t ∈ m.texts, t.isValid = true
  lengths : ∀ n ∈ m.lengths, n ≤ maxMembers

theorem gives (m : Manifest) : Gives (toRecord? ofRecord? m.toCbor.arranged)
    (∀ t ∈ m.texts, t.isValid = true) m.normal := by
  have hvalues := (isRecord 0).values m
  rw [(isRecord 0).toRecord?_arranged]
  generalize arrangedRecord m.fields = r at hvalues ⊢
  simp only [fields, List.forall_mem_cons, Option.map_some, map_arranged_text?,
    arranged_ofList?] at hvalues
  obtain ⟨hfingerprint, htypes, -⟩ := hvalues
  have htypes' := Record.ofList?_gives htypes (ManifestType.isRecord 0).isNothing_arranged
    fun t _ => t.gives
  have hread : Gives (ofRecord? r) _ _ := htypes'.bind <|
    (Record.text?_gives hfingerprint).bind_pure _
  refine hread.congr ?_ rfl
  simp only [texts, typeList, List.forall_mem_cons, List.forall_mem_flatMap]
  exact and_comm

theorem isReadable_iff (m : Manifest) :
    m.toCbor.isReadable = true ↔ ∀ n ∈ m.lengths, n ≤ maxMembers := by
  rw [(isRecord 0).isReadable_iff (by decide)]
  simp only [fields, lengths, typeList, List.forall_mem_cons, List.forall_mem_flatMap,
    readableValue_some, readableValue_text?, isReadable_ofList?, ManifestType.isReadable_iff,
    true_and, and_true, List.not_mem_nil, false_imp_iff, implies_true]

/-- The bytes of a manifest are read as that manifest if it is readable, and refused otherwise. -/
theorem ofBytes?_toBytes {m : Manifest} (hsize : m.toBytes.length < 2 ^ 64) :
    Gives (ofBytes? m.toBytes) m.Readable m.normal := by
  have hdecode := ((isRecord 0).plain m).decode?_encode hsize (by decide)
  have hitem : Gives (decode? m.toBytes) (m.toCbor.isReadable = true) m.toCbor.arranged := by
    constructor
    · intro h
      rw [toBytes, hdecode, if_pos h]
    · intro h
      rw [toBytes, hdecode, if_neg h]
  refine (hitem.bind m.gives).congr ?_ rfl
  rw [isReadable_iff, and_comm]
  exact ⟨fun h => ⟨h.1, h.2⟩, fun h => ⟨h.1, h.2⟩⟩

end Manifest

end NetlinkSchema
