import NetlinkSchema.Proofs.Reordering
import NetlinkSchema.Proofs.WireFormat
import Mathlib.Data.List.TakeWhile

/-!
# Well-formed schemas

What the compiler asks of a schema is spread over its phases: the width of a lowered integer is
looked at where the field is resolved, the numbers of an enum only later and only for the forms that
some field has asked for, and the members of structs have rules of their own. Here the rules are
written down one after another, without a word about phases, and a schema follows them exactly if
it has no errors. It is compiled then, unless a struct contains itself and the search for cycles has
not reported this.

The link between the phases is what a field needs. A field is allowed if it is resolved and the
enums provide what it needs; so the phase in which enums are looked at is the sum of these needs.

## Main definitions

* `Text.IsVersion`: Three numbers with points between them.
* `Schema.LowerAllowed`: What an integer may be lowered to.
* `Schema.FieldAllowed`, `Schema.MemberAllowed`: What attributes and struct members may be.
* `Schema.Allows`, `Schema.WellFormed`: What a declaration may be, and all of them.
* `Schema.Provided`: Enums have room for derived forms.
* `Schema.Acceptable`: What is asked of a schema in all.
* `Schema.catalog`: A schema that needs both derived forms of an enum.

## Theorems

* `Schema.lowerAllowed_iff`, `Schema.fieldAllowed_iff`, `Schema.memberAllowed_iff`: A reference is
  allowed if it is resolved and provided for, and only then.
* `Schema.allows_iff_faultless`: The same for a declaration.
* `Schema.accepted_iff_wellFormed`: What is compiled, and when a compilation does not end.
-/

namespace NetlinkSchema

namespace Text

theorem splitBytes_eq (sep : UInt8) (b : Bytes) : splitBytes sep b = b.splitOn sep := by
  induction b with
  | nil => rfl
  | cons x rest ih =>
      rw [splitBytes, ih]
      unfold List.splitOn
      rw [List.splitOnP_cons_eq_if_modifyHead]
      cases hpieces : rest.splitOnP (· == sep) with
      | nil => exact absurd hpieces (List.splitOnP_ne_nil _ _)
      | cons piece pieces => rfl

/-- A number in decimal. -/
def IsNumeral (b : Bytes) : Prop := b ≠ [] ∧ ∀ x ∈ b, 48 ≤ x ∧ x ≤ 57

/-- Three numbers with points between them. -/
def IsVersion (t : Text) : Prop :=
  ∃ a b c, IsNumeral a ∧ IsNumeral b ∧ IsNumeral c ∧ t.utf8 = a ++ [0x2E] ++ b ++ [0x2E] ++ c

theorem point_notMem {b : Bytes} (h : IsNumeral b) : 0x2E ∉ b := by
  intro hmem
  exact absurd (h.2 _ hmem).1 (by decide)

theorem isAbiVersion_iff {t : Text} : Schema.isAbiVersion t = true ↔ t.IsVersion := by
  have hnumeral : ∀ b : Bytes,
      (!(mk b).isEmpty && b.all fun x => decide (48 ≤ x) && decide (x ≤ 57)) = true ↔
        IsNumeral b := by
    intro b
    simp [isEmpty, IsNumeral]
  have hsplit : Schema.isAbiVersion t = true ↔
      (t.utf8.splitOn 0x2E).length = 3 ∧ ∀ b ∈ t.utf8.splitOn 0x2E, IsNumeral b := by
    simp only [← hnumeral, ← splitBytes_eq]
    simp [Schema.isAbiVersion, splitOn]
  rw [hsplit]
  constructor
  · rintro ⟨hlength, hpieces⟩
    rcases List.length_eq_three.1 hlength with ⟨a, b, c, hsplit⟩
    rw [hsplit] at hpieces
    refine ⟨a, b, c, hpieces a (by simp), hpieces b (by simp), hpieces c (by simp), ?_⟩
    have hjoin : [0x2E].intercalate (t.utf8.splitOn 0x2E) = t.utf8 := List.intercalate_splitOn 0x2E
    rw [← hjoin, hsplit]
    simp [List.intercalate]
  · rintro ⟨a, b, c, ha, hb, hc, ht⟩
    have hpieces : ∀ p ∈ [a, b, c], IsNumeral p := by
      simp only [List.forall_mem_cons]
      exact ⟨ha, hb, hc, by simp⟩
    have hjoin : t.utf8 = [0x2E].intercalate [a, b, c] := by
      rw [ht]
      simp [List.intercalate]
    -- There is no point within a numeral, so the points that are split at are those between them.
    rw [hjoin, List.splitOn_intercalate 0x2E (fun p hp => point_notMem (hpieces p hp)) (by simp)]
    exact ⟨rfl, hpieces⟩

end Text

namespace Number

/-- Bits that fit the width of a number. -/
def Holds (num : Number) (bits : Nat) : Prop := bits < 2 ^ (8 * num.size)

theorem fits_iff {num : Number} {bits : UInt64} :
    num.fits bits = true ↔ num.Holds bits.toNat := by
  rw [Holds, ← checkBits_eq_ok_iff, fits]
  cases num.checkBits bits with
  | error e => simp [Except.isOk, Except.toBool]
  | ok u => simp [Except.isOk, Except.toBool]

end Number

/-- The derived forms of enums that the meaning of an integer needs. -/
def Lowering.needs : Lowering → List (Text × Variant)
  | bitmask e => [(e.name, .bitmask)]
  | _ => []

theorem Payload.needs_number (num : Number) (l : Lowering) : (number num l).needs = l.needs := by
  cases l with
  | _ => rfl

theorem MemberType.needs_number (num : Number) (l : Lowering) : (number num l).needs = l.needs := by
  cases l with
  | _ => rfl

/-- The bit of an index is a power of two. -/
theorem EnumType.toNat_bitOf {x : Int64} (hpos : 0 ≤ x.toInt) (hle : x.toInt ≤ 63) :
    (bitOf x).toNat = 2 ^ x.toInt.toNat := by
  have hrange : 0 ≤ x ∧ x < 64 := by
    rw [Int64.le_iff_toInt_le, Int64.lt_iff_toInt_lt]
    exact ⟨hpos, Int.lt_of_le_of_lt hle (by decide)⟩
  have hword := toNat_toUInt64 hpos
  have hindex : x.toUInt64.toNat % 64 = x.toInt.toNat := by omega
  rw [bitOf, if_pos hrange, UInt64.toNat_shiftLeft, hindex, UInt64.toNat_one, Nat.one_shiftLeft]
  exact Nat.mod_eq_of_lt (Nat.pow_lt_pow_right (by decide) (by omega))

namespace Schema

section Rules

/-- What an integer of a field may be lowered to: to an enum, to a flags type of which all values
    fit the width of the integer, or to the bitmask of an enum whose bits do. Floating-point numbers
    are not lowered. -/
inductive LowerAllowed (s : Schema) (num : Number) : Option LowerType → Prop
  | none : LowerAllowed s num none
  | enum {name : Text} {d : TypeDef} (hinteger : num.isFloat = false) (ht : (name, d) ∈ s.types)
      (hkind : d.effectiveKind = .enum) : LowerAllowed s num (some ⟨name, false⟩)
  | flags {name : Text} {d : TypeDef} (hinteger : num.isFloat = false) (ht : (name, d) ∈ s.types)
      (hkind : d.effectiveKind = .flags)
      (hwidth : ∀ v ∈ d.values, num.Holds v.value.toUInt64.toNat) :
      LowerAllowed s num (some ⟨name, false⟩)
  | bitmask {name : Text} {d : TypeDef} (hinteger : num.isFloat = false) (ht : (name, d) ∈ s.types)
      (hkind : d.effectiveKind = .enum)
      (hrange : ∀ v ∈ d.values, 0 ≤ v.value.toInt ∧ v.value.toInt ≤ 63)
      (hwidth : ∀ v ∈ d.values, num.Holds (2 ^ v.value.toInt.toNat)) :
      LowerAllowed s num (some ⟨name, true⟩)

/-- What an attribute may be, within arrays and maps. Only numbers have a lower type. -/
inductive FieldAllowed (s : Schema) (lower : Option LowerType) : TypeExpr → Prop
  | number {name : Text} {num : Number} (hnum : Number.ofName? name = some num)
      (hlower : s.LowerAllowed num lower) : FieldAllowed s lower (.name name)
  | scalar {name : Text} (hname : name = "string" ∨ name = "data" ∨ name = "bool" ∨ name = "flag")
      (hlower : lower = none) : FieldAllowed s lower (.name name)
  | composite {name : Text} {d : TypeDef} (ht : (name, d) ∈ s.types)
      (hkind : d.effectiveKind = .struct ∨ d.effectiveKind = .attrs) (hlower : lower = none) :
      FieldAllowed s lower (.name name)
  | flagList {name : Text} {d : TypeDef} (ht : (name, d) ∈ s.types)
      (hkind : d.effectiveKind = .enum)
      (hrange : ∀ v ∈ d.values, 0 ≤ v.value.toInt ∧ v.value.toInt ≤ 16383)
      (hlower : lower = none) : FieldAllowed s lower (.flags (.name name))
  | array {elem : TypeExpr} {zero : Bool} (helem : FieldAllowed s lower elem) :
      FieldAllowed s lower (.array elem zero)
  | map {elem : TypeExpr} (helem : FieldAllowed s lower elem) : FieldAllowed s lower (.map elem)

/-- What a member of a struct may be. A struct within a struct has no versions. -/
inductive MemberAllowed (s : Schema) (o : AttributeOptions) : TypeExpr → Prop
  | bytes {name : Text} (hname : name = "data" ∨ name = "string") (hcount : o.count ≠ 0) :
      MemberAllowed s o (.name name)
  | bool (hlower : o.type = none) : MemberAllowed s o (.name "bool")
  | number {name : Text} {num : Number} (hnum : Number.ofName? name = some num)
      (hlower : s.LowerAllowed num o.type) : MemberAllowed s o (.name name)
  | struct {name : Text} {d : TypeDef} (ht : (name, d) ∈ s.types)
      (hkind : d.effectiveKind = .struct) (hversions : ∀ a ∈ d.attrs, a.options.abi = .empty)
      (hlower : o.type = none) : MemberAllowed s o (.name name)

/-- What a declaration may be. Of a struct the members up to the first version matter, but every
    version must have its form. -/
@[mk_iff] structure Allows (s : Schema) (d : TypeDef) : Prop where
  flags : d.effectiveKind = .flags → ∀ v ∈ d.values, v.value ≠ 0
  room : d.effectiveKind = .attrs → d.attrs.length ≤ if d.zero then 0x4000 else 0x3FFF
  fields : d.effectiveKind = .attrs → ∀ a ∈ d.attrs, s.FieldAllowed a.options.type a.type
  versions : d.effectiveKind = .struct → ∀ a ∈ d.attrs, a.options.abi ≠ .empty →
    a.options.abi.IsVersion
  members : d.effectiveKind = .struct → ∀ before a after, d.attrs = before ++ a :: after →
    (∀ b ∈ before, b.options.abi = .empty) → s.MemberAllowed a.options a.type

/-- All declarations are as they may be. -/
def WellFormed (s : Schema) : Prop := ∀ t ∈ s.types, s.Allows t.2

end Rules

section Needs

variable {s : Schema} {name : Text} {d : TypeDef}

/-- The enums of a schema have room for these derived forms. -/
def Provided (s : Schema) (needs : List (Text × Variant)) : Prop :=
  ∀ n ∈ needs, ∀ d, (n.1, d) ∈ s.types → d.effectiveKind = .enum → d.Provides n.2

theorem provided_nil (s : Schema) : s.Provided [] := fun _ hn => absurd hn List.not_mem_nil

theorem provided_flatMap {α : Type} {xs : List α} {f : α → List (Text × Variant)} :
    s.Provided (xs.flatMap f) ↔ ∀ x ∈ xs, s.Provided (f x) := by
  constructor
  · exact fun h x hx n hn => h n (List.mem_flatMap.2 ⟨x, hx, hn⟩)
  · intro h n hn
    rcases List.mem_flatMap.1 hn with ⟨x, hx, hnx⟩
    exact h x hx n hnx

theorem provided_singleton (ht : (name, d) ∈ s.types) (hkind : d.effectiveKind = .enum)
    {variant : Variant} : s.Provided [(name, variant)] ↔ d.Provides variant := by
  constructor
  · exact fun h => h _ List.mem_cons_self d ht hkind
  · intro h n hn d' ht' _
    cases List.mem_singleton.1 hn
    have hd : d' = d := Option.some.inj ((mem_types_iff.1 ht').symm.trans (mem_types_iff.1 ht))
    rw [hd]
    exact h

/-- The enums are found without fault if they provide what each type needs. -/
theorem errors_enums_iff : (∀ t ∈ s.enums, (enumFindings s.needs t.1 t.2).errors = []) ↔
    ∀ t ∈ s.types, s.Provided (s.needsOf t.1 t.2) := by
  have hneeds : s.Provided s.needs ↔ ∀ t ∈ s.types, s.Provided (s.needsOf t.1 t.2) :=
    provided_flatMap
  rw [← hneeds]
  simp only [errors_enumFindings, enums, List.mem_filter, decide_eq_true_eq]
  constructor
  · exact fun h n hn d ht hkind => h (n.1, d) ⟨ht, hkind⟩ n.2 hn
  · exact fun h t ht variant hn => h (t.1, variant) hn t.2 ht.1 ht.2

end Needs

section References

variable {s : Schema} {o : AttributeOptions} {name : Text}

theorem lowerAllowed_of_lowering {num : Number} {lower : Option LowerType} {l : Lowering}
    (h : (s.lowering num lower).result? = some l) (hneeds : s.Provided l.needs) :
    s.LowerAllowed num lower := by
  rcases lowering_cases h with ⟨rfl, -⟩ | ⟨⟨n, asFlags⟩, d, rfl, hinteger, ht, hcases⟩
  · exact .none
  rcases hcases with ⟨hkind, hflags, -⟩ | ⟨hkind, hflags, hfits, rfl⟩ | ⟨hkind, hflags, hfits, -⟩
  · cases hflags
    exact .enum hinteger ht hkind
  · -- The field is only asked about numbers that are bits; that all of them are is what it needs.
    cases hflags
    have hprovides := (provided_singleton ht hkind).1 hneeds
    refine .bitmask hinteger ht hkind hprovides fun v hv => ?_
    rcases hprovides v hv with ⟨hpos, hle⟩
    rw [← EnumType.toNat_bitOf hpos hle, ← Number.fits_iff]
    exact hfits v hv (Int64.le_iff_toInt_le.2 hpos) (Int64.le_iff_toInt_le.2 hle)
  · cases hflags
    exact .flags hinteger ht hkind fun v hv => Number.fits_iff.1 (hfits v hv)

theorem lowering_of_lowerAllowed {num : Number} {lower : Option LowerType}
    (h : s.LowerAllowed num lower) :
    ∃ l, (s.lowering num lower).result? = some l ∧ s.Provided l.needs := by
  cases h with
  | none => exact ⟨.none, rfl, s.provided_nil⟩
  | @enum n d hinteger ht hkind =>
      refine ⟨.enum (EnumType.ofDef n d), ?_, s.provided_nil⟩
      rw [result?_lowering hinteger ht, lowerTo, hkind]
      rfl
  | @flags n d hinteger ht hkind hwidth =>
      refine ⟨.flags (FlagsType.ofDef n d), ?_, s.provided_nil⟩
      rw [result?_lowering hinteger ht, lowerTo, hkind]
      exact result?_flagsLowering.2 ⟨fun v hv => Number.fits_iff.2 (hwidth v hv), rfl⟩
  | @bitmask n d hinteger ht hkind hrange hwidth =>
      refine ⟨.bitmask (EnumType.ofDef n d), ?_, (provided_singleton ht hkind).2 hrange⟩
      rw [result?_lowering hinteger ht, lowerTo, hkind]
      refine result?_bitmaskLowering.2 ⟨fun v hv _ _ => ?_, rfl⟩
      rw [Number.fits_iff, EnumType.toNat_bitOf (hrange v hv).1 (hrange v hv).2]
      exact hwidth v hv

/-- An integer is lowered as it may be, if the lowering is resolved and provided for. -/
theorem lowerAllowed_iff {num : Number} {lower : Option LowerType} :
    s.LowerAllowed num lower ↔
      ∃ l, (s.lowering num lower).result? = some l ∧ s.Provided l.needs := by
  refine ⟨lowering_of_lowerAllowed, ?_⟩
  rintro ⟨l, hl, hneeds⟩
  exact lowerAllowed_of_lowering hl hneeds

-- The names of builtin types that are no numbers.
theorem ofName?_eq_none (h : name = "string" ∨ name = "data" ∨ name = "bool" ∨ name = "flag") :
    Number.ofName? name = none := by
  rcases h with rfl | rfl | rfl | rfl
  · decide +kernel
  · decide +kernel
  · decide +kernel
  · decide +kernel

theorem mem_names {d : TypeDef} (ht : (name, d) ∈ s.types) : name ∈ s.names :=
  List.mem_map_of_mem (f := Prod.fst) ht

theorem fieldAllowed_of_namedPayload {p : Payload} (h : (s.namedPayload o name).result? = some p)
    (hneeds : s.Provided p.needs) : s.FieldAllowed o.type (.name name) := by
  rcases namedPayload_cases h with
    ⟨num, l, hnum, hl, rfl⟩ | ⟨hlower, hname⟩ | ⟨hlower, d, ht, ⟨hkind, -⟩ | ⟨hkind, -⟩⟩
  · rw [Payload.needs_number] at hneeds
    exact .number hnum (lowerAllowed_iff.2 ⟨l, hl, hneeds⟩)
  · refine .scalar ?_ hlower
    exact hname.imp And.left (Or.imp And.left (Or.imp And.left And.left))
  · exact .composite ht (Or.inl hkind) hlower
  · exact .composite ht (Or.inr hkind) hlower

theorem namedPayload_of_fieldAllowed (h : s.FieldAllowed o.type (.name name)) :
    ∃ p, (s.namedPayload o name).result? = some p ∧ s.Provided p.needs := by
  cases h with
  | @number _ num hnum hlower =>
      rcases lowerAllowed_iff.1 hlower with ⟨l, hl, hneeds⟩
      rw [← Payload.needs_number num] at hneeds
      refine ⟨.number num l, ?_, hneeds⟩
      rw [namedPayload, hnum]
      exact Check.result?_bind.2 ⟨l, hl, (Check.result?_pure _ _).2 rfl⟩
  | scalar hname hlower =>
      rw [namedPayload, ofName?_eq_none hname, hlower]
      rcases hname with rfl | rfl | rfl | rfl
      · exact ⟨.string o.maxLength, rfl, s.provided_nil⟩
      · exact ⟨.data, rfl, s.provided_nil⟩
      · exact ⟨.bool, rfl, s.provided_nil⟩
      · exact ⟨.flag, rfl, s.provided_nil⟩
  | @composite _ d ht hkind hlower =>
      rcases not_builtin (mem_names ht) with ⟨hdata, hstring, hbool, hflag, hnumber⟩
      rw [namedPayload, hnumber, hlower]
      simp only [if_neg hdata, if_neg hstring, if_neg hbool, if_neg hflag, mem_types_iff.1 ht]
      rcases hkind with hkind | hkind
      · rw [hkind]
        exact ⟨.struct (s.layout name d), rfl, s.provided_nil⟩
      · rw [hkind]
        exact ⟨.attrs name, rfl, s.provided_nil⟩

theorem fieldAllowed_array {lower : Option LowerType} {elem : TypeExpr} {zero : Bool} :
    s.FieldAllowed lower (.array elem zero) ↔ s.FieldAllowed lower elem := by
  refine ⟨fun h => ?_, .array⟩
  cases h with
  | array helem => exact helem

theorem fieldAllowed_map {lower : Option LowerType} {elem : TypeExpr} :
    s.FieldAllowed lower (.map elem) ↔ s.FieldAllowed lower elem := by
  refine ⟨fun h => ?_, .map⟩
  cases h with
  | map helem => exact helem

-- Arrays and maps need what their elements need.
theorem provided_bind_pure {x : Check Payload} (wrap : Payload → Payload)
    (hwrap : ∀ q, (wrap q).needs = q.needs) :
    (∃ p, (x >>= fun q => (pure (wrap q) : Check Payload)).result? = some p ∧ s.Provided p.needs) ↔
      ∃ q, x.result? = some q ∧ s.Provided q.needs := by
  rw [Check.result?_bind_pure]
  constructor
  · rintro ⟨p, hp, hneeds⟩
    rcases Option.map_eq_some_iff.1 hp with ⟨q, hq, rfl⟩
    rw [hwrap] at hneeds
    exact ⟨q, hq, hneeds⟩
  · rintro ⟨q, hq, hneeds⟩
    rw [← hwrap] at hneeds
    exact ⟨wrap q, Option.map_eq_some_iff.2 ⟨q, hq, rfl⟩, hneeds⟩

/-- An attribute is as it may be, if it is resolved and provided for. -/
theorem fieldAllowed_iff {e : TypeExpr} : s.FieldAllowed o.type e ↔
    ∃ p, (s.payload o e).result? = some p ∧ s.Provided p.needs := by
  induction e with
  | name n =>
      refine ⟨namedPayload_of_fieldAllowed, ?_⟩
      rintro ⟨p, hp, hneeds⟩
      exact fieldAllowed_of_namedPayload hp hneeds
  | array elem zero ih =>
      rw [fieldAllowed_array, ih]
      exact (provided_bind_pure (.array zero) fun q => rfl).symm
  | map elem ih =>
      rw [fieldAllowed_map, ih]
      exact (provided_bind_pure .map fun q => rfl).symm
  | flags elem _ =>
      constructor
      · intro h
        cases h with
        | @flagList n d ht hkind hrange hlower =>
            refine ⟨.flagList (EnumType.ofDef n d), ?_, (provided_singleton ht hkind).2 hrange⟩
            exact flagListPayload_iff.2 ⟨hlower, n, d, rfl, ht, hkind, rfl⟩
      · rintro ⟨p, hp, hneeds⟩
        rcases flagListPayload_iff.1 hp with ⟨hlower, n, d, rfl, ht, hkind, rfl⟩
        exact .flagList ht hkind ((provided_singleton ht hkind).1 hneeds) hlower
  | _ =>
      -- What has no name is looked up under the empty one, which no type has.
      rw [payload, namedPayload_empty]
      constructor
      · intro h
        cases h
      · rintro ⟨p, hp, -⟩
        cases hp

theorem marksAbi_iff {a : AttributeDef} : marksAbi a = true ↔ a.options.abi ≠ .empty := by
  rw [marksAbi, Bool.not_eq_true', Text.isEmpty, ← Bool.not_eq_true, List.isEmpty_iff]
  exact not_congr ⟨fun h => (by rw [Text.empty, ← h]), fun h => (by rw [h]; rfl)⟩

theorem isExpandable_eq_false_iff {d : TypeDef} :
    isExpandable d = false ↔ ∀ a ∈ d.attrs, a.options.abi = .empty := by
  rw [isExpandable, List.any_eq_false]
  simp only [marksAbi_iff, ne_eq, not_not]

theorem memberAllowed_of_memberType {members : Text → Members} {a : AttributeDef} {t : MemberType}
    (h : (s.memberType members a).result? = some t) (hneeds : s.Provided t.needs) :
    s.MemberAllowed a.options a.type := by
  rcases memberType_cases h with ⟨n, htype, ⟨hname, hcount, -⟩ | ⟨elem, helem, rfl⟩⟩
  · rw [htype]
    exact .bytes hname hcount
  have helem_needs : s.Provided elem.needs := by
    rw [← congrFun (needs_counted a.options.count) elem]
    exact hneeds
  rw [htype]
  rcases elementType_cases helem with
    ⟨rfl, hlower, -⟩ | ⟨num, l, hnum, hl, rfl⟩ | ⟨d, ht, hkind, hexp, hlower, -⟩
  · exact .bool hlower
  · rw [MemberType.needs_number] at helem_needs
    exact .number hnum (lowerAllowed_iff.2 ⟨l, hl, helem_needs⟩)
  · exact .struct ht hkind (isExpandable_eq_false_iff.1 hexp) hlower

-- A byte string as a member has a count.
theorem count_ne_zero_of_memberAllowed (hbytes : name = "data" ∨ name = "string")
    (h : s.MemberAllowed o (.name name)) : o.count ≠ 0 := by
  cases h with
  | bytes _ hcount => exact hcount
  | bool _ => exact absurd hbytes (by decide)
  | number hnum _ =>
      rw [ofName?_eq_none (by tauto)] at hnum
      cases hnum
  | struct ht _ _ _ =>
      rcases not_builtin (mem_names ht) with ⟨hdata, hstring, -⟩
      exact absurd hbytes (not_or.2 ⟨hdata, hstring⟩)

-- Any other member is an element, or a number of them.
theorem elementType_of_memberAllowed {members : Text → Members}
    (hbytes : ¬ (name = "data" ∨ name = "string")) (h : s.MemberAllowed o (.name name)) :
    ∃ t, (s.elementType members name o).result? = some t ∧ s.Provided t.needs := by
  cases h with
  | bytes hname _ => exact absurd hname hbytes
  | bool hlower =>
      rw [elementType, if_pos rfl, hlower]
      exact ⟨.bool, rfl, s.provided_nil⟩
  | @number _ num hnum hlower =>
      rcases lowerAllowed_iff.1 hlower with ⟨l, hl, hneeds⟩
      rw [← MemberType.needs_number num] at hneeds
      have hother : ¬ (name = "string" ∨ name = "data" ∨ name = "bool" ∨ name = "flag") := by
        intro hname
        rw [ofName?_eq_none hname] at hnum
        cases hnum
      simp only [not_or] at hother
      refine ⟨.number num l, ?_, hneeds⟩
      rw [elementType, if_neg hother.2.2.1, if_neg hother.2.2.2, hnum]
      exact Check.result?_bind.2 ⟨l, hl, (Check.result?_pure _ _).2 rfl⟩
  | @struct _ d ht hkind hversions hlower =>
      rcases not_builtin (mem_names ht) with ⟨-, -, hbool, hflag, hnumber⟩
      refine ⟨.struct name (members name), ?_, s.provided_nil⟩
      rw [elementType, if_neg hbool, if_neg hflag, hnumber, nestedStruct, mem_types_iff.1 ht,
        hlower]
      simp only [hkind, ne_eq, not_true_eq_false, if_false,
        isExpandable_eq_false_iff.2 hversions, Bool.false_eq_true]
      rfl

theorem memberType_of_memberAllowed {members : Text → Members} {a : AttributeDef}
    (h : s.MemberAllowed a.options a.type) :
    ∃ t, (s.memberType members a).result? = some t ∧ s.Provided t.needs := by
  cases htype : a.type with
  | name n =>
      rw [htype] at h
      rw [result?_memberType htype, result?_namedMember]
      by_cases hbytes : n = "data" ∨ n = "string"
      · refine ⟨.bytes a.options.count, ?_, s.provided_nil⟩
        rw [if_pos hbytes, bytesType, if_neg (count_ne_zero_of_memberAllowed hbytes h)]
        rfl
      · rcases elementType_of_memberAllowed hbytes h with ⟨elem, helem, hneeds⟩
        rw [if_neg hbytes, helem]
        refine ⟨_, rfl, ?_⟩
        rw [← congrFun (needs_counted a.options.count) elem] at hneeds
        exact hneeds
  | _ =>
      rw [htype] at h
      cases h

/-- A struct member is as it may be, if it is resolved and provided for. -/
theorem memberAllowed_iff {members : Text → Members} {a : AttributeDef} :
    s.MemberAllowed a.options a.type ↔
      ∃ t, (s.memberType members a).result? = some t ∧ s.Provided t.needs := by
  refine ⟨memberType_of_memberAllowed, ?_⟩
  rintro ⟨t, ht, hneeds⟩
  exact memberAllowed_of_memberType ht hneeds

end References

section Declarations

variable {s : Schema} {name : Text} {d : TypeDef}

theorem errorsAt_eq_nil_iff {α : Type} {x : Check α} {site : Site} :
    x.errorsAt site = [] ↔ ∃ a, x.result? = some a := by
  refine ⟨Check.exists_of_errorsAt, ?_⟩
  rintro ⟨a, ha⟩
  rw [Check.errorsAt, Check.result?_eq_some_iff.1 ha]

-- A result with a property is a result, all of which have the property.
theorem exists_some_iff {α : Type} {x : Option α} {P : α → Prop} :
    (∃ a, x = some a ∧ P a) ↔ (∃ a, x = some a) ∧ ∀ a, x = some a → P a := by
  constructor
  · rintro ⟨a, rfl, ha⟩
    refine ⟨⟨a, rfl⟩, fun b hb => ?_⟩
    cases hb
    exact ha
  · rintro ⟨⟨a, ha⟩, hP⟩
    exact ⟨a, ha, hP a ha⟩

theorem result?_attributePayload (s : Schema) (a : AttributeDef) :
    (s.attributePayload a).result? = (s.payload a.options a.type).result? := rfl

/-- The fields of an attribute set have attribute types if there are not too many of them. -/
theorem forall_numbered_iff : (∀ x ∈ numbered d, x.1 ≤ Attribute.typeMask) ↔
    d.attrs.length ≤ if d.zero then 0x4000 else 0x3FFF := by
  have hfst : (numbered d).map Prod.fst
      = List.range' (if d.zero then 0 else 1) d.attrs.length := by
    rw [numbered, List.map_fst_zip (by simp)]
  have hroom : (if d.zero then 0 else 1) + (if d.zero then 0x4000 else 0x3FFF) = 0x4000 := by
    split
    · rfl
    · rfl
  have hmask : Attribute.typeMask = 0x3FFF := rfl
  rw [← List.forall_mem_map (f := Prod.fst) (P := (· ≤ Attribute.typeMask)), hfst, hmask]
  generalize (if d.zero then 0 else 1) = first at hroom ⊢
  generalize (if d.zero then 0x4000 else 0x3FFF) = room at hroom ⊢
  simp only [List.mem_range'_1]
  constructor
  · intro h
    -- The last field has the greatest number.
    have hlast := h (first + d.attrs.length - 1)
    omega
  · intro h i hi
    omega

/-- With room for all fields none is left out. -/
theorem usable_eq_numbered (hroom : ∀ x ∈ numbered d, x.1 ≤ Attribute.typeMask) :
    usable d = numbered d :=
  List.takeWhile_eq_self_iff.2 fun x hx => decide_eq_true (hroom x hx)

theorem errors_attrsFindings : (s.attrsFindings name d).errors = [] ↔
    (∀ x ∈ usable d, ∃ p, (s.attributePayload x.2).result? = some p) ∧
      ∀ x ∈ numbered d, x.1 ≤ Attribute.typeMask := by
  unfold attrsFindings
  simp only [Findings.errors_append, List.append_eq_nil_iff, Findings.concat,
    List.flatMap_eq_nil_iff, List.forall_mem_map, Findings.ofCheck, errorsAt_eq_nil_iff]
  refine and_congr_right fun _ => ?_
  cases hfind : (numbered d).find? fun x => decide (Attribute.typeMask < x.1) with
  | none =>
      have hle := List.find?_eq_none.1 hfind
      simp only [decide_eq_true_eq, not_lt] at hle
      exact ⟨fun _ => hle, fun _ => rfl⟩
  | some x =>
      have hlt := List.find?_some hfind
      simp only [decide_eq_true_eq] at hlt
      constructor
      · intro h
        cases h
      · exact fun h => absurd (h x (List.mem_of_find?_eq_some hfind)) (Nat.not_le.2 hlt)

theorem provided_attrs (hkind : d.effectiveKind = .attrs) : s.Provided (s.needsOf name d) ↔
    ∀ x ∈ usable d, ∀ p, (s.attributePayload x.2).result? = some p → s.Provided p.needs := by
  rw [needsOf]
  simp only [hkind]
  rw [provided_flatMap]
  constructor
  · intro h x hx p hp
    refine h ⟨x.2.name, UInt16.ofNat x.1, x.2.options.repeated, p⟩ ?_
    refine List.mem_filterMap.2 ⟨x, hx, ?_⟩
    exact Option.map_eq_some_iff.2 ⟨p, hp, rfl⟩
  · intro h f hf
    rcases mem_attrSet_fields hf with ⟨x, hx, hp, -⟩
    exact h x hx f.payload hp

/-- An attribute set is without fault and provided for if its fields are as they may be and there is
    room for them. -/
theorem attrs_iff (hkind : d.effectiveKind = .attrs) :
    (s.attrsFindings name d).errors = [] ∧ s.Provided (s.needsOf name d) ↔
      d.attrs.length ≤ (if d.zero then 0x4000 else 0x3FFF) ∧
        ∀ a ∈ d.attrs, s.FieldAllowed a.options.type a.type := by
  rw [errors_attrsFindings, provided_attrs hkind, ← forall_numbered_iff, and_right_comm, and_comm]
  refine and_congr_right fun hroom => ?_
  simp only [usable_eq_numbered hroom, result?_attributePayload, fieldAllowed_iff, exists_some_iff]
  rw [← map_snd_numbered d, List.forall_mem_map]
  exact ⟨fun h x hx => ⟨h.1 x hx, h.2 x hx⟩,
    fun h => ⟨fun x hx => (h x hx).1, fun x hx => (h x hx).2⟩⟩

theorem errors_abiFindings : (abiFindings name d).errors = [] ↔
    ∀ a ∈ d.attrs, a.options.abi ≠ .empty → a.options.abi.IsVersion := by
  simp only [abiFindings, List.map_eq_nil_iff, List.filter_eq_nil_iff, Bool.and_eq_true,
    marksAbi_iff, Bool.not_eq_true', not_and, Bool.not_eq_false, Text.isAbiVersion_iff]

/-- The known members are those with no version before them. -/
theorem mem_knownMembers {as : List AttributeDef} {a : AttributeDef} :
    a ∈ knownMembers as ↔
      ∃ before after, as = before ++ a :: after ∧ ∀ b ∈ before, b.options.abi = .empty := by
  induction as with
  | nil => simp [knownMembers]
  | cons x rest ih =>
      rw [knownMembers]
      by_cases hx : marksAbi x = true
      · rw [if_pos hx, List.mem_singleton]
        constructor
        · rintro rfl
          exact ⟨[], rest, rfl, fun b hb => absurd hb List.not_mem_nil⟩
        · rintro ⟨before, after, heq, hbefore⟩
          cases before with
          | nil => exact (List.cons.inj heq).1.symm
          | cons b before =>
              rw [(List.cons.inj heq).1] at hx
              exact absurd (hbefore b List.mem_cons_self) (marksAbi_iff.1 hx)
      · have hempty : x.options.abi = .empty := not_not.1 fun h => hx (marksAbi_iff.2 h)
        rw [if_neg hx, List.mem_cons, ih]
        constructor
        · rintro (rfl | ⟨before, after, rfl, hbefore⟩)
          · exact ⟨[], rest, rfl, fun b hb => absurd hb List.not_mem_nil⟩
          · exact ⟨x :: before, after, rfl, List.forall_mem_cons.2 ⟨hempty, hbefore⟩⟩
        · rintro ⟨before, after, heq, hbefore⟩
          cases before with
          | nil => exact Or.inl (List.cons.inj heq).1.symm
          | cons b before =>
              refine Or.inr ⟨before, after, (List.cons.inj heq).2, fun c hc => ?_⟩
              exact hbefore c (List.mem_cons_of_mem _ hc)

-- What a member needs does not depend on the depth to which other structs were followed.
theorem provided_member_iff (members members' : Text → Members) (a : AttributeDef) :
    (∀ t, (s.memberType members a).result? = some t → s.Provided t.needs) ↔
      ∀ t, (s.memberType members' a).result? = some t → s.Provided t.needs := by
  have hmap : ∀ M : Text → Members,
      (∀ t, (s.memberType M a).result? = some t → s.Provided t.needs) ↔
        ∀ n ∈ (s.memberType M a).result?.map MemberType.needs, s.Provided n := by
    intro M
    simp
  rw [hmap, hmap, needs_memberType]

theorem provided_struct (ht : (name, d) ∈ s.types) (hkind : d.effectiveKind = .struct) :
    s.Provided (s.needsOf name d) ↔ ∀ a ∈ knownMembers d.attrs, ∀ t,
      (s.memberType s.members a).result? = some t → s.Provided t.needs := by
  -- Members are resolved with the structs in them followed one step less far.
  have hsize : s.size = s.size - 1 + 1 := (Nat.sub_add_cancel (List.length_pos_of_mem ht)).symm
  rw [needsOf]
  simp only [hkind]
  rw [provided_flatMap, members, hsize, membersTo, mem_types_iff.1 ht]
  simp only [List.mem_filterMap, Option.map_eq_some_iff]
  constructor
  · intro h a ha
    rw [provided_member_iff s.members (s.membersTo (s.size - 1))]
    exact fun t ht => h (a.name, t) ⟨a, ha, t, ht, rfl⟩
  · rintro h m ⟨a, ha, t, hresult, rfl⟩
    exact (provided_member_iff s.members (s.membersTo (s.size - 1)) a).1 (h a ha) t hresult

/-- A struct is without fault and provided for if its known members are as they may be and all its
    versions have their form. -/
theorem struct_iff (ht : (name, d) ∈ s.types) (hkind : d.effectiveKind = .struct) :
    (s.structFindings name d).errors = [] ∧ s.Provided (s.needsOf name d) ↔
      (∀ a ∈ d.attrs, a.options.abi ≠ .empty → a.options.abi.IsVersion) ∧
        ∀ before a after, d.attrs = before ++ a :: after →
          (∀ b ∈ before, b.options.abi = .empty) → s.MemberAllowed a.options a.type := by
  rw [structFindings, Findings.errors_append, List.append_eq_nil_iff, errors_abiFindings, and_assoc,
    provided_struct ht hkind]
  refine and_congr_right fun _ => ?_
  simp only [Findings.concat, List.flatMap_eq_nil_iff, List.forall_mem_map, Findings.ofCheck,
    errorsAt_eq_nil_iff]
  rw [← forall₂_and]
  simp only [← exists_some_iff, ← memberAllowed_iff, mem_knownMembers]
  constructor
  · exact fun h before a after heq hbefore => h a ⟨before, after, heq, hbefore⟩
  · rintro h a ⟨before, after, heq, hbefore⟩
    exact h before a after heq hbefore

theorem errors_flagsFindings : (flagsFindings name d).errors = [] ↔
    ∀ v ∈ d.values, v.value ≠ 0 := by
  simp [flagsFindings, List.filter_eq_nil_iff]

/-- A declaration is as it may be, if it is without fault and provided for. -/
theorem allows_iff_faultless (ht : (name, d) ∈ s.types) : s.Allows d ↔
    (s.typeFindings name d).errors = [] ∧ s.Provided (s.needsOf name d) := by
  -- Of the rules those of the other kinds are void.
  rw [allows_iff]
  cases hkind : d.effectiveKind with
  | attrs =>
      simp only [typeFindings, hkind, reduceCtorEq, false_implies, true_and, and_true, true_implies]
      exact (attrs_iff hkind).symm
  | struct =>
      simp only [typeFindings, hkind, reduceCtorEq, false_implies, true_and, true_implies]
      exact (struct_iff ht hkind).symm
  | flags =>
      simp only [typeFindings, needsOf, hkind, reduceCtorEq, false_implies, and_true, true_implies,
        errors_flagsFindings, provided_nil]
  | enum =>
      simp only [typeFindings, needsOf, hkind, reduceCtorEq, false_implies, and_true, provided_nil]
      exact ⟨fun _ => rfl, fun _ => trivial⟩
  | other k hk =>
      simp only [typeFindings, needsOf, hkind, reduceCtorEq, false_implies, and_true, provided_nil]
      exact ⟨fun _ => rfl, fun _ => trivial⟩

end Declarations

section Accepted

variable {s : Schema} {o : CompileOptions}

/-- A schema is well formed if its types and its enums are without fault. -/
theorem wellFormed_iff : s.WellFormed ↔
    (∀ t ∈ s.types, (s.typeFindings t.1 t.2).errors = []) ∧
      ∀ t ∈ s.enums, (enumFindings s.needs t.1 t.2).errors = [] := by
  rw [errors_enums_iff, ← forall₂_and]
  exact forall₂_congr fun t ht => allows_iff_faultless ht

/-- The declarations are without fault on their own, no cycle is refused, and the schema is well
    formed. -/
def Acceptable (s : Schema) (o : CompileOptions) : Prop :=
  s.declarationFindings.errors = [] ∧ (s.cycleFindings o.rejectAttrCycles).errors = [] ∧
    s.WellFormed

theorem errors_eq_nil_iff_acceptable (hlenient : o.warningsAsErrors = false) :
    (s.compile o).findings.errors = [] ↔ s.Acceptable o := by
  have hclean : ∀ f : Findings, f.Clean o ↔ f.errors = [] := by
    intro f
    simp [Findings.Clean, hlenient]
  rw [errors_compile_iff, passes_iff, Findings.clean_concat, Findings.clean_concat,
    List.forall_mem_map, List.forall_mem_map, Acceptable, wellFormed_iff]
  simp only [hclean]

/-- There are no errors if and only if the declarations are without fault on their own, no cycle is
    refused, and the schema is well formed. Such a schema is compiled, unless a struct contains
    itself, and then the compilation does not end. Without NUL bytes in names no struct does so, and
    what is compiled are the well-formed schemas. -/
theorem accepted_iff_wellFormed (hlenient : o.warningsAsErrors = false) :
    ((s.compile o).findings.errors = [] ↔ s.Acceptable o) ∧
    ((s.compile o).output.isSome = true ↔
      s.Acceptable o ∧ ∀ a, ¬ Relation.TransGen s.Contains a a) ∧
    ((s.compile o).outcome = .endless ↔
      s.Acceptable o ∧ ∃ a, Relation.TransGen s.Contains a a) ∧
    ((∀ name ∈ s.names, 0 ∉ name.utf8) →
      ((s.compile o).output.isSome = true ↔ s.Acceptable o)) := by
  have herrors := errors_eq_nil_iff_acceptable (s := s) hlenient
  have hcompiled : (s.compile o).output.isSome = true ↔
      s.Acceptable o ∧ ∀ a, ¬ Relation.TransGen s.Contains a a := by
    rw [isSome_compile_iff, ← errors_compile_iff, herrors, allSized_iff]
  refine ⟨herrors, hcompiled, ?_, fun hnul => ?_⟩
  · rw [outcome_eq_endless_iff, herrors, ← Bool.not_eq_true, allSized_iff]
    push Not
    rfl
  · rw [hcompiled, and_iff_left_iff_imp]
    exact fun h => contains_acyclic (accepted_of_errors (herrors.2 h)) hnul

/-- A struct with a struct in it. The field after the first version is no member. -/
def banner : TypeDef := declare (some .struct)
  [⟨"kind", .name "u16", { AttributeOptions.empty with type := some ⟨"event", true⟩ }⟩,
    ⟨"corners", .name "point", { AttributeOptions.empty with count := 2 }⟩,
    ⟨"name", .name "string", { AttributeOptions.empty with count := 16, abi := "1.0.0" }⟩,
    ⟨"later", .map (.name "u8"), { AttributeOptions.empty with abi := "1.10.2" }⟩] []

/-- An attribute set with arrays and maps of lowered integers, and with both forms of an enum. -/
def entry : TypeDef := declare none
  [⟨"events", .name "u8", { AttributeOptions.empty with type := some ⟨"event", true⟩ }⟩,
    ⟨"list", .flags (.name "event"), .empty⟩,
    ⟨"modes", .array (.map (.name "u8")) true,
      { AttributeOptions.empty with type := some ⟨"mode", false⟩ }⟩,
    ⟨"banner", .name "banner", .empty⟩,
    ⟨"entries", .array (.name "entry") false, .empty⟩] []

/-- A schema of such entries, with the last number of the enum left open. -/
def catalog (last : Int64) : Schema where
  types := [
    ("event", declare (some .enum) []
      [⟨"opened", 0, none, .empty⟩, ⟨"closed", last, none, .empty⟩]),
    ("mode", declare (some .flags) [] [⟨"read", 1, none, .empty⟩, ⟨"all", 255, none, .empty⟩]),
    ("point", declare (some .struct) [⟨"x", .name "s16be", .empty⟩, ⟨"y", .name "f64", .empty⟩] []),
    ("banner", banner),
    ("entry", entry)]
  distinct := by
    change (["event", "mode", "point", "banner", "entry"].map Text.ofString).Nodup
    decide +kernel
  named := by
    change ∀ name ∈ ["event", "mode", "point", "banner", "entry"].map Text.ofString,
      isTypeName name = true
    decide +kernel

/-- The schema is well formed and compiled if the last number is a bit of the narrowest field, and
    no longer if it is the next one. -/
theorem catalog_wellFormed_iff : (catalog 7).WellFormed ∧
    ((catalog 7).compile .default).output.isSome = true ∧ ¬ (catalog 8).WellFormed := by
  have haccepted : ((catalog 7).compile .default).findings.errors = [] := by
    rw [findings_compile]
    decide +kernel
  have hrefused : ((catalog 8).compile .default).findings.errors ≠ [] := by
    rw [findings_compile]
    decide +kernel
  rcases accepted_iff_wellFormed (s := catalog 7) (o := .default) rfl with ⟨herrors, -, -, hnul⟩
  have hacceptable := herrors.1 haccepted
  refine ⟨hacceptable.2.2, (hnul (by decide +kernel)).2 hacceptable, fun h => hrefused ?_⟩
  exact (accepted_iff_wellFormed rfl).1.2 ⟨by decide +kernel, by decide +kernel, h⟩

/-- The struct that contains itself has the key of the two attribute sets, and so nobody is told
    about it. The schema has all that is asked for, but its compilation does not end. -/
theorem eclipse_endless : (eclipse eclipsedName eclipsedName_allowed).Acceptable .default ∧
    ((eclipse eclipsedName eclipsedName_allowed).compile .default).outcome = .endless := by
  have herrors : ((eclipse eclipsedName eclipsedName_allowed).compile .default).findings.errors
      = [] := by
    rw [findings_compile]
    decide +kernel
  refine ⟨(errors_eq_nil_iff_acceptable rfl).1 herrors, outcome_eq_endless_iff.2 ⟨herrors, ?_⟩⟩
  decide +kernel

end Accepted

end Schema

end NetlinkSchema
