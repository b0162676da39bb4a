import NetlinkSchema.Proofs.RoundTrip
import NetlinkSchema.Proofs.Size
import NetlinkSchema.Proofs.Validity

/-!
# Decoded values have the declared shape

What the declarations of a schema say about decoded values, as rules that do not mention codecs. A
number has exactly the width and the sign of its type, an enum gives a declared name or a number
that has none, flags and the derived forms of enums give objects of true entries. A struct has its
members up to the first version, each of its own shape, and the bytes beyond them if there are any.
An attribute set has no fields but declared ones.

The rules speak of the bytes of a payload as well, because it depends on them whether a struct has
bytes beyond its members. Everything that a codec decodes follows the rules. For a struct this goes
by induction over its type, for payloads by induction on the number of bytes, since an attribute set
may contain itself.

## Main definitions

* `Schema.NumberConforms`: What a number with its lower type may be decoded to.
* `Schema.MemberConforms`: What a struct member may be decoded to.
* `Schema.Conforms`: What a payload may be decoded to.

## Theorems

* `Schema.numberConforms_read`: Numbers have the declared shape.
* `Schema.memberConforms_decode`: Struct members do.
* `Schema.conforms_decode`: Payloads do.
* `Schema.decoded_value_conforms`: Messages do.
-/

namespace NetlinkSchema

namespace TypeDef

/-- The field of a number of an enum: it is made from the first name declared for the number. -/
def PrimaryField (d : TypeDef) (field : Text) : Prop :=
  ∃ before v after, d.values = before ++ v :: after ∧ (∀ w ∈ before, w.value ≠ v.value) ∧
    field = camelCase v.name

/-- An object of true entries, each of them the field of a number. -/
structure Marked (d : TypeDef) (obj : Object) : Prop where
  distinct : (obj.map Prod.fst).Nodup
  entries : ∀ e ∈ obj, d.PrimaryField e.1 ∧ e.2 = .bool true

/-- An object of true entries, each of them a flag, and of the bits that no flag covers: some bits,
    and none beyond the width of the number. -/
structure Flagged (d : TypeDef) (num : Number) (obj : Object) : Prop where
  distinct : (obj.map Prod.fst).Nodup
  entries : ∀ e ∈ obj, (∃ v ∈ d.values, e.1 = v.name) ∧ e.2 = .bool true ∨
    e.1 = unknownField ∧ ∃ i : Integer, e.2 = .int i ∧ i.type = .uint64 ∧ 0 < i.val ∧
      i.val < 2 ^ (8 * num.size)

end TypeDef

namespace Schema

/-- What a number with its lower type may be decoded to. -/
inductive NumberConforms (s : Schema) (num : Number) : Option LowerType → Value → Prop
  | int {i : Integer} (htype : num.intType? = some i.type) : NumberConforms s num none (.int i)
  | float32 (hkind : num.kind = .float32) (bits : UInt32) :
      NumberConforms s num none (.float32 bits)
  | float64 (hkind : num.kind = .float64) (bits : UInt64) :
      NumberConforms s num none (.float64 bits)
  | enumName {name : Text} {d : TypeDef} {v : ValueDef} (ht : (name, d) ∈ s.types)
      (hkind : d.effectiveKind = .enum) (hv : v ∈ d.values) :
      NumberConforms s num (some ⟨name, false⟩) (.text v.name)
  | enumNumber {name : Text} {d : TypeDef} {i : Integer} (ht : (name, d) ∈ s.types)
      (hkind : d.effectiveKind = .enum) (htype : num.intType? = some i.type)
      (hother : ∀ v ∈ d.values, v.value.toInt ≠ i.val) :
      NumberConforms s num (some ⟨name, false⟩) (.int i)
  | flags {name : Text} {d : TypeDef} {obj : Object} (ht : (name, d) ∈ s.types)
      (hkind : d.effectiveKind = .flags) (hobj : d.Flagged num obj) :
      NumberConforms s num (some ⟨name, false⟩) (.object obj)
  | bitmask {name : Text} {d : TypeDef} {obj : Object} (ht : (name, d) ∈ s.types)
      (hkind : d.effectiveKind = .enum) (hobj : d.Marked obj) :
      NumberConforms s num (some ⟨name, true⟩) (.object obj)

mutual

/-- What an element of a struct member may be decoded to, given the name of its type. -/
inductive ElementConforms (s : Schema) : Text → Option LowerType → Value → Prop
  | bool {lower : Option LowerType} (b : Bool) : ElementConforms s "bool" lower (.bool b)
  | number {name : Text} {num : Number} {lower : Option LowerType} {v : Value}
      (hnum : Number.ofName? name = some num) (hv : s.NumberConforms num lower v) :
      ElementConforms s name lower v
  | struct {name : Text} {d : TypeDef} {lower : Option LowerType} {obj : Object}
      (ht : (name, d) ∈ s.types) (hkind : d.effectiveKind = .struct)
      (hfixed : isExpandable d = false)
      (hkeys : (obj.map Prod.fst).Perm (d.attrs.map AttributeDef.name))
      (hmembers : ∀ a ∈ d.attrs, ∀ v, (a.name, v) ∈ obj → MemberConforms s a v) :
      ElementConforms s name lower (.object obj)

/-- What a struct member may be decoded to: bytes of its length, an element, or so many elements. -/
inductive MemberConforms (s : Schema) : AttributeDef → Value → Prop
  | bytes {a : AttributeDef} {name : Text} {b : Bytes} (htype : a.type = .name name)
      (hname : name = "data" ∨ name = "string") (hlength : b.length = a.options.count.toInt) :
      MemberConforms s a (.bytes b)
  | single {a : AttributeDef} {name : Text} {v : Value} (htype : a.type = .name name)
      (hcount : ¬ 0 < a.options.count) (hv : ElementConforms s name a.options.type v) :
      MemberConforms s a v
  | array {a : AttributeDef} {name : Text} {items : List Value} (htype : a.type = .name name)
      (hcount : 0 < a.options.count) (hlength : items.length = a.options.count.toInt)
      (hitems : ∀ v ∈ items, ElementConforms s name a.options.type v) :
      MemberConforms s a (.list items)

end

mutual

/-- What a payload may be decoded to, given its expression and the options of its attribute. -/
inductive Conforms (s : Schema) : AttributeOptions → TypeExpr → Bytes → Value → Prop
  | number {o : AttributeOptions} {name : Text} {num : Number} {data : Bytes} {v : Value}
      (hnum : Number.ofName? name = some num) (hlength : data.length = num.size)
      (hv : s.NumberConforms num o.type v) : Conforms s o (.name name) data v
  | string {o : AttributeOptions} {t : Text}
      (hmax : 0 < o.maxLength.toInt → t.utf8.length + 1 ≤ o.maxLength.toInt) :
      Conforms s o (.name "string") (t.utf8 ++ [0]) (.text t)
  | data {o : AttributeOptions} (data : Bytes) : Conforms s o (.name "data") data (.bytes data)
  | bool {o : AttributeOptions} (b : Bool) :
      Conforms s o (.name "bool") [if b then 1 else 0] (.bool b)
  | flag {o : AttributeOptions} : Conforms s o (.name "flag") [] (.bool true)
  | array {o : AttributeOptions} {elem : TypeExpr} {zero : Bool} {data : Bytes}
      {items : List Value} (hitems : ItemsConform s o elem (Attribute.walk data).1 items) :
      Conforms s o (.array elem zero) data (.list items)
  | map {o : AttributeOptions} {elem : TypeExpr} {data : Bytes} {entries : List (UInt16 × Value)}
      (hkeys : (entries.map Prod.fst).Nodup)
      (hentries : EntriesConform s o elem (Attribute.walk data).1 entries) :
      Conforms s o (.map elem) data (.map entries)
  | flagList {o : AttributeOptions} {name : Text} {d : TypeDef} {data : Bytes} {obj : Object}
      (ht : (name, d) ∈ s.types) (hkind : d.effectiveKind = .enum) (hobj : d.Marked obj) :
      Conforms s o (.flags (.name name)) data (.object obj)
  | struct {o : AttributeOptions} {name : Text} {d : TypeDef} {n : Nat} {data : Bytes}
      {obj : Object} (ht : (name, d) ∈ s.types) (hkind : d.effectiveKind = .struct)
      (hsize : s.HasSize name n) (hle : n ≤ data.length)
      (hbeyond : n < data.length → isExpandable d = true)
      (hkeys : (obj.map Prod.fst).Perm ((knownMembers d.attrs).map AttributeDef.name
        ++ if n < data.length then [unparsedField] else []))
      (hmembers : ∀ a ∈ knownMembers d.attrs, ∀ v, (a.name, v) ∈ obj → s.MemberConforms a v)
      (hunparsed : ∀ v, (unparsedField, v) ∈ obj → v = .bytes (data.drop n)) :
      Conforms s o (.name name) data (.object obj)
  | attrs {o : AttributeOptions} {name : Text} {d : TypeDef} {data : Bytes} {obj : Object}
      (ht : (name, d) ∈ s.types) (hkind : d.effectiveKind = .attrs)
      (hkeys : (obj.map Prod.fst).Nodup)
      (hfields : FieldsConform s (numbered d) (Attribute.walk data).1 obj) :
      Conforms s o (.name name) data (.object obj)

/-- What the elements of an array may be decoded to: a value for each attribute. -/
inductive ItemsConform (s : Schema) :
    AttributeOptions → TypeExpr → List Attribute → List Value → Prop
  | nil {o : AttributeOptions} {elem : TypeExpr} : ItemsConform s o elem [] []
  | cons {o : AttributeOptions} {elem : TypeExpr} {a : Attribute} {as : List Attribute} {v : Value}
      {items : List Value} (hv : Conforms s o elem a.payload v)
      (hitems : ItemsConform s o elem as items) : ItemsConform s o elem (a :: as) (v :: items)

/-- What the entries of a map may be decoded to: each stands under the type of its attribute. -/
inductive EntriesConform (s : Schema) :
    AttributeOptions → TypeExpr → List Attribute → List (UInt16 × Value) → Prop
  | nil {o : AttributeOptions} {elem : TypeExpr} {as : List Attribute} :
      EntriesConform s o elem as []
  | cons {o : AttributeOptions} {elem : TypeExpr} {as : List Attribute} {a : Attribute} {v : Value}
      {entries : List (UInt16 × Value)} (ha : a ∈ as) (hkey : a.type.toNat ≤ 0x3FFF)
      (hv : Conforms s o elem a.payload v) (hentries : EntriesConform s o elem as entries) :
      EntriesConform s o elem as ((a.type, v) :: entries)

/-- What the fields of an attribute set may be decoded to: a value, or those of all attributes of
    the field if it is repeated. -/
inductive FieldsConform (s : Schema) :
    List (Nat × AttributeDef) → List Attribute → Object → Prop
  | nil {fields : List (Nat × AttributeDef)} {as : List Attribute} : FieldsConform s fields as []
  | single {fields : List (Nat × AttributeDef)} {as : List Attribute} {f : AttributeDef}
      {a : Attribute} {v : Value} {obj : Object} (hf : (a.type.toNat, f) ∈ fields)
      (hrepeated : f.options.repeated = false) (ha : a ∈ as)
      (hv : Conforms s f.options f.type a.payload v) (hobj : FieldsConform s fields as obj) :
      FieldsConform s fields as ((f.name, v) :: obj)
  | repeated {fields : List (Nat × AttributeDef)} {as : List Attribute} {i : Nat}
      {f : AttributeDef} {items : List Value} {obj : Object} (hf : (i, f) ∈ fields)
      (hrepeated : f.options.repeated = true) (hne : items ≠ [])
      (hitems : ItemsConform s f.options f.type (as.filter fun a => a.type.toNat == i) items)
      (hobj : FieldsConform s fields as obj) :
      FieldsConform s fields as ((f.name, .list items) :: obj)

end

end Schema

section Lowered

theorem Object.Ordered.keys_nodup {obj : Object} (h : Object.Ordered obj) :
    (obj.map Prod.fst).Nodup :=
  List.pairwise_map.2 (h.imp fun hab => hab.ne)

/-- The field of a primary value is that of its number. -/
theorem TypeDef.primaryField_of_mem {n : Text} {d : TypeDef} {v : EnumValue}
    (hv : v ∈ (EnumType.ofDef n d).primary) : d.PrimaryField v.field := by
  rcases EnumType.mem_primary.1 hv with ⟨hmem, hname⟩
  rcases List.mem_map.1 hmem with ⟨w, -, rfl⟩
  rw [EnumType.nameOf?, EnumType.ofDef, List.find?_map, Option.map_map,
    Option.map_eq_some_iff] at hname
  rcases hname with ⟨u, hu, hun⟩
  rcases List.find?_eq_some_iff_append.1 hu with ⟨huw, before, after, hvalues, hbefore⟩
  refine ⟨before, u, after, hvalues, fun x hx => ?_, congrArg camelCase hun.symm⟩
  have hne := hbefore x hx
  simp only [Function.comp_apply, beq_iff_eq, Bool.not_eq_true', beq_eq_false_iff_ne] at huw hne
  rw [huw]
  exact hne

/-- An object that stands for a set of numbers is marked by them. -/
theorem EnumType.Represents.marked {n : Text} {d : TypeDef} {obj : Object} {picked : Int64 → Bool}
    (h : (EnumType.ofDef n d).Represents obj picked) : d.Marked obj := by
  refine ⟨h.ordered.keys_nodup, ?_⟩
  rintro ⟨k, v⟩ he
  rcases (h.mem_iff k v).1 he with ⟨⟨p, hp, -, rfl⟩, hv⟩
  exact ⟨TypeDef.primaryField_of_mem hp, hv⟩

/-- An integer is read as one of exactly the width and the sign of its type. -/
theorem Number.exists_read_eq_int {num : Number} (h : num.isFloat = false) (buf : Bytes) :
    ∃ i : Integer, num.read buf = .int i ∧ num.intType? = some i.type := by
  rcases num with ⟨kind, order⟩
  cases kind with
  | unsigned w => exact ⟨_, rfl, rfl⟩
  | signed w => exact ⟨_, rfl, rfl⟩
  | float32 => cases h
  | float64 => cases h

theorem Integer.toInt64?_of_val {i : Integer} {x : Int64} (h : x.toInt = i.val) :
    i.toInt64? = some x := by
  have hlt := x.toInt_lt
  rw [toInt64?, if_pos (by omega), ← h, Int64.ofInt_toInt]

theorem Integer.val_wrap_uint64 (x : UInt64) : (Integer.wrap .uint64 x.toNat).val = x.toNat := by
  have hlt := x.toNat_lt
  exact Int.emod_eq_of_lt (Int.natCast_nonneg _) (by exact_mod_cast hlt)

/-- A declared number is decoded to a name. -/
theorem EnumType.isSome_nameOf? {n : Text} {d : TypeDef} {v : ValueDef} (hv : v ∈ d.values) :
    ((EnumType.ofDef n d).nameOf? v.value).isSome = true := by
  rw [nameOf?, Option.isSome_map, List.find?_isSome]
  exact ⟨_, List.mem_map_of_mem hv, beq_self_eq_true _⟩

theorem EnumType.exists_of_nameOf? {n : Text} {d : TypeDef} {x : Int64} {name : Text}
    (h : (EnumType.ofDef n d).nameOf? x = some name) : ∃ v ∈ d.values, v.name = name := by
  rcases Option.map_eq_some_iff.1 h with ⟨w, hw, rfl⟩
  rcases List.mem_map.1 (List.mem_of_find?_eq_some hw) with ⟨v, hv, rfl⟩
  exact ⟨v, hv, rfl⟩

/-- The bits that no flag covers are bits of the pattern. -/
theorem FlagsType.residue_le (f : FlagsType) (bits : UInt64) :
    (f.residue bits).toNat ≤ bits.toNat := by
  have hand : f.residue bits = bits &&& f.residue bits := by
    refine eq_of_bit_eq fun i => ?_
    rw [bit_and]
    cases hres : bit (f.residue bits) i with
    | false => rw [Bool.and_false]
    | true => rw [((f.bit_residue bits i).1 hres).1, Bool.and_true]
  rw [hand, UInt64.toNat_and]
  exact Nat.and_le_left

/-- The object of a pattern has flags and the bits that none of them covers. -/
theorem FlagsType.flagged_decode {n : Text} {d : TypeDef} {num : Number} {bits : UInt64}
    (hbits : bits.toNat < 2 ^ (8 * num.size)) :
    d.Flagged num ((FlagsType.ofDef n d).decode bits) := by
  have hmarks := (FlagsType.ofDef n d).marks_present bits
  have hflags : ∀ e ∈ ((FlagsType.ofDef n d).present bits).foldl
      (fun obj flag => Object.set obj flag.name (.bool true)) [],
      (∃ v ∈ d.values, e.1 = v.name) ∧ e.2 = .bool true := by
    rintro ⟨k, x⟩ he
    rcases (hmarks.mem_iff k x).1 he with ⟨⟨flag, hflag, rfl⟩, hx⟩
    rcases List.mem_map.1 (mem_present.1 hflag).1 with ⟨v, hv, rfl⟩
    exact ⟨⟨v, List.mem_of_mem_filter hv, rfl⟩, hx⟩
  rw [decode]
  split
  · exact ⟨hmarks.ordered.keys_nodup, fun e he => Or.inl (hflags e he)⟩
  · rename_i hrest
    refine ⟨(Object.ordered_set hmarks.ordered _ _).keys_nodup, fun e he => ?_⟩
    rcases Object.mem_set he with rfl | he
    · have hval := Integer.val_wrap_uint64 ((FlagsType.ofDef n d).residue bits)
      have hle := (FlagsType.ofDef n d).residue_le bits
      have hpos : ((FlagsType.ofDef n d).residue bits).toNat ≠ 0 := fun hzero =>
        hrest (UInt64.toNat_inj.1 hzero)
      refine Or.inr ⟨rfl, _, rfl, rfl, ?_, ?_⟩
      · rw [hval]
        omega
      · rw [hval]
        exact_mod_cast Nat.lt_of_le_of_lt hle hbits
    · exact Or.inl (hflags e he)

end Lowered

namespace Schema

variable {s : Schema}

/-- A number with a name is decoded to one of its names, and another one is left as it is. -/
theorem numberConforms_decodeName {name : Text} {d : TypeDef} (ht : (name, d) ∈ s.types)
    (hkind : d.effectiveKind = .enum) {num : Number} {i : Integer}
    (htype : num.intType? = some i.type) :
    s.NumberConforms num (some ⟨name, false⟩) ((EnumType.ofDef name d).decodeName (.int i)) := by
  rw [EnumType.decodeName]
  cases hname : (Value.int i).toInt64?.bind (EnumType.ofDef name d).nameOf? with
  | some n =>
      rcases Option.bind_eq_some_iff.1 hname with ⟨x, -, hx⟩
      rcases EnumType.exists_of_nameOf? hx with ⟨v, hv, rfl⟩
      exact .enumName ht hkind hv
  | none =>
      refine .enumNumber ht hkind htype fun v hv hval => ?_
      have hint : (Value.int i).toInt64? = some v.value := Integer.toInt64?_of_val hval
      have hsome := EnumType.isSome_nameOf? (n := name) hv
      rw [hint, Option.bind_some] at hname
      rw [hname] at hsome
      cases hsome

/-- Numbers have the declared shape. -/
theorem numberConforms_read {num : Number} {lower : Option LowerType} {l : Lowering}
    (hl : (s.lowering num lower).result? = some l) (buf : Bytes) :
    s.NumberConforms num lower (l.read num buf) := by
  rcases lowering_cases hl with ⟨rfl, rfl⟩ | ⟨⟨name, asFlags⟩, d, rfl, hinteger, ht, hcases⟩
  · rcases num with ⟨kind, order⟩
    cases kind with
    | unsigned w => exact .int rfl
    | signed w => exact .int rfl
    | float32 => exact .float32 rfl _
    | float64 => exact .float64 rfl _
  · rcases hcases with ⟨hkind, rfl, rfl⟩ | ⟨hkind, rfl, -, rfl⟩ | ⟨hkind, rfl, -, rfl⟩
    · rcases Number.exists_read_eq_int hinteger buf with ⟨i, hread, htype⟩
      rw [Lowering.read, hread]
      exact numberConforms_decodeName ht hkind htype
    · exact .bitmask ht hkind (EnumType.represents_decodeBitmask _).marked
    · rw [Lowering.read_flags]
      exact .flags ht hkind (FlagsType.flagged_decode (num.readBits_lt buf))

section Members

variable {a : AttributeDef} {t : MemberType}

/-- A new field goes among the others. -/
theorem perm_set {obj : Object} {name : Text} (h : ∀ e ∈ obj, e.1 ≠ name) (v : Value) :
    (Object.set obj name v).Perm ((name, v) :: obj) := by
  induction obj with
  | nil => exact List.Perm.refl _
  | cons e rest ih =>
      rcases e with ⟨k, old⟩
      rcases List.forall_mem_cons.1 h with ⟨hk, hrest⟩
      rw [Object.set, if_neg (by simpa using hk)]
      split
      · exact ((ih hrest).cons _).trans (List.Perm.swap _ _ _)
      · exact List.Perm.refl _

/-- The members of a struct are its fields, and each is decoded from bytes of its own. -/
theorem entries_of_decodeMembers {as : List AttributeDef}
    (hnames : (as.map AttributeDef.name).Nodup)
    (hresolved : ∀ a ∈ as, ∃ t, (s.memberType s.members a).result? = some t)
    (hlength : ∀ m ∈ s.resolvedMembers as, m.2.length = m.2.exactSize) {type : Text} {b : Bytes}
    (hb : b.length = MemberType.exactMembersSize (s.resolvedMembers as)) {obj : Object}
    (h : MemberType.decodeMembers type (s.resolvedMembers as) b = .ok obj) :
    (obj.map Prod.fst).Perm (as.map AttributeDef.name) ∧
      ∀ a ∈ as, ∀ v, (a.name, v) ∈ obj → ∃ t p, (s.memberType s.members a).result? = some t ∧
        (a.name, t) ∈ s.resolvedMembers as ∧ p.length = t.exactSize ∧ t.decode p = .ok v := by
  induction as generalizing b obj with
  | nil =>
      cases h
      exact ⟨List.Perm.refl _, fun a ha => absurd ha List.not_mem_nil⟩
  | cons a rest ih =>
      rcases List.forall_mem_cons.1 hresolved with ⟨⟨t, ht⟩, hrest⟩
      rw [List.map_cons, List.nodup_cons] at hnames
      rw [resolvedMembers_cons ht] at hlength hb h ⊢
      have hlen : t.length = t.exactSize := hlength _ List.mem_cons_self
      rw [MemberType.exactMembersSize] at hb
      rcases MemberType.decodeMembers_cons_eq h with ⟨v, others, hv, hothers, rfl⟩
      have hdrop : (b.drop t.length).length
          = MemberType.exactMembersSize (s.resolvedMembers rest) := by
        rw [List.length_drop]
        omega
      have hlengths := fun m hm => hlength m (List.mem_cons_of_mem _ hm)
      rcases ih hnames.2 hrest hlengths hdrop hothers with ⟨hkeys, hentries⟩
      -- No later member has the name of this one, so its value is not replaced.
      have hnew : ∀ e ∈ others, e.1 ≠ a.name := by
        intro e he heq
        rw [← heq] at hnames
        exact hnames.1 (hkeys.mem_iff.1 (List.mem_map_of_mem he))
      refine ⟨((perm_set hnew v).map Prod.fst).trans (hkeys.cons a.name), ?_⟩
      refine List.forall_mem_cons.2 ⟨fun x hx => ?_, fun a' ha' x hx => ?_⟩
      · rcases Object.mem_set hx with heq | hx
        · rw [(Prod.mk.inj heq).2]
          refine ⟨t, _, ht, List.mem_cons_self, ?_, hv⟩
          rw [List.length_take]
          omega
        · exact absurd rfl (hnew _ hx)
      · rcases Object.mem_set hx with heq | hx
        · rw [← (Prod.mk.inj heq).1] at hnames
          exact absurd (List.mem_map_of_mem ha') hnames.1
        · rcases hentries a' ha' x hx with ⟨t', p, ht', hmem, hp⟩
          exact ⟨t', p, ht', List.mem_cons_of_mem _ hmem, hp⟩

/-- A member has the declared shape if its elements do. -/
theorem memberConforms_of_element (ht : (s.memberType s.members a).result? = some t)
    (hcount : 0 ≤ a.options.count.toInt)
    (helem : ∀ name elem, a.type = .name name →
      (s.elementType s.members name a.options).result? = some elem →
      ∀ (b : Bytes) v, b.length = elem.exactSize → elem.decode b = .ok v →
        s.ElementConforms name a.options.type v)
    {b : Bytes} {v : Value} (hb : b.length = t.exactSize) (hv : t.decode b = .ok v) :
    s.MemberConforms a v := by
  have hclamp := MemberType.toNatClampNeg_of_nonneg hcount
  rcases memberType_cases ht with ⟨name, htype, ⟨hname, -, rfl⟩ | ⟨elem, hresolved, rfl⟩⟩
  · rw [MemberType.decode] at hv
    cases hv
    rw [MemberType.exactSize] at hb
    exact .bytes htype hname (by omega)
  by_cases hpos : 0 < a.options.count
  · rw [if_pos hpos] at hb hv
    have hpos' : 0 < a.options.count.toNatClampNeg := by
      have := Int64.lt_iff_toInt_lt.1 hpos
      rw [Int64.toInt_zero] at this
      omega
    rw [MemberType.exactSize] at hb
    rw [MemberType.decode] at hv
    rcases bind_eq_ok_iff.1 hv with ⟨items, hitems, hlist⟩
    cases hlist
    -- The bytes are shared out evenly, so each element has as many as its type takes.
    rw [hb, Nat.mul_div_cancel _ hpos', mapM_eq_ok_iff] at hitems
    have hlength : items.length = a.options.count.toNatClampNeg := by
      rw [← hitems.length_eq, MemberType.length_pieces]
    refine .array htype hpos (by omega) fun x hx => ?_
    rcases forall₂_right hitems hx with ⟨p, hp, hpx⟩
    exact helem name elem htype hresolved p x (MemberType.length_of_mem_pieces hb hp) hpx
  · rw [if_neg hpos] at hb hv
    exact .single htype hpos (helem name elem htype hresolved b v hb hv)

variable {name : Text} {d : TypeDef}

/-- Structs are as they are counted. -/
theorem SizesFit.layout_sized (hsizes : s.SizesFit) (h : s.Accepted) (hcounts : s.CountsNonneg)
    (ht : (name, d) ∈ s.types) (hkind : d.effectiveKind = .struct) : (s.layout name d).Sized := by
  refine Schema.layout_sized h hcounts ht hkind ?_
  rcases hsizes _ ht hkind with ⟨n, hlt, hsize⟩
  change MemberType.exactMembersSize (s.members name) < 2 ^ 63
  rw [hsize.exactMembersSize_eq h hsizes.acyclic]
  exact hlt

/-- The members of a struct, decoded from as many bytes as they have. -/
theorem entries_of_struct (hsizes : s.SizesFit) (h : s.Accepted) (hcounts : s.CountsNonneg)
    (ht : (name, d) ∈ s.types) (hkind : d.effectiveKind = .struct) {type : Text} {b : Bytes}
    (hb : b.length = MemberType.exactMembersSize (s.members name)) {obj : Object}
    (hobj : MemberType.decodeMembers type (s.members name) b = .ok obj) :
    (obj.map Prod.fst).Perm ((knownMembers d.attrs).map AttributeDef.name) ∧
      ∀ a ∈ knownMembers d.attrs, ∀ v, (a.name, v) ∈ obj →
        ∃ t p, (s.memberType s.members a).result? = some t ∧ p.length = t.exactSize ∧
          t.decode p = .ok v := by
  have hlength := (hsizes.layout_sized h hcounts ht hkind).length_members
  change ∀ m ∈ s.members name, _ at hlength
  rw [members_eq_resolved hsizes.acyclic ht hkind] at hb hobj hlength
  have hnames : ((knownMembers d.attrs).map AttributeDef.name).Nodup :=
    (h.field_names ht (Or.inr hkind)).1.sublist ((knownMembers_sublist d.attrs).map _)
  rcases entries_of_decodeMembers hnames (fun a ha => h.member_resolved ht hkind ha) hlength hb hobj
    with ⟨hkeys, hentries⟩
  refine ⟨hkeys, fun a ha v hv => ?_⟩
  rcases hentries a ha v hv with ⟨t, p, hresolved, -, hp⟩
  exact ⟨t, p, hresolved, hp⟩

-- The induction is along containment: the members of a struct within the struct have the declared
-- shape, so that the struct within has it too.
theorem memberConforms_decode (hsizes : s.SizesFit) (h : s.Accepted) (hcounts : s.CountsNonneg)
    (hacc : Acc (fun y x => s.Contains x y) name) :
    ∀ d, (name, d) ∈ s.types → d.effectiveKind = .struct → ∀ a ∈ knownMembers d.attrs,
      ∀ t, (s.memberType s.members a).result? = some t → ∀ (b : Bytes) v,
        b.length = t.exactSize → t.decode b = .ok v → s.MemberConforms a v := by
  induction hacc with
  | intro name _ ih =>
      intro d ht hkind a ha t hresolved b v hb hv
      have hcount : 0 ≤ a.options.count.toInt :=
        hcounts _ ht hkind a ((knownMembers_sublist d.attrs).subset ha)
      refine memberConforms_of_element hresolved hcount
        (fun n elem htype helem p x hp hx => ?_) hb hv
      rcases elementType_cases helem with
        ⟨rfl, -, rfl⟩ | ⟨num, l, hnum, hl, rfl⟩ | ⟨d', ht', hkind', hexp, -, rfl⟩
      · rw [MemberType.decode] at hx
        rcases Scalar.readBool_eq_ok hx with ⟨c, rfl, -⟩
        exact .bool c
      · rw [MemberType.decode] at hx
        cases hx
        exact .number hnum (numberConforms_read hl p)
      · have hcontains : s.Contains name n :=
          ⟨d, ht, hkind, ⟨a, ha, htype⟩, isStruct_iff.2 ⟨d', ht', hkind'⟩⟩
        rw [MemberType.exactSize] at hp
        rw [MemberType.decode] at hx
        rcases bind_eq_ok_iff.1 hx with ⟨u, -, hrest⟩
        rcases bind_eq_ok_iff.1 hrest with ⟨obj, hobj, hobject⟩
        cases hobject
        rcases entries_of_struct hsizes h hcounts ht' hkind' hp hobj with ⟨hkeys, hentries⟩
        rw [knownMembers_of_not_expandable hexp] at hkeys hentries
        refine .struct ht' hkind' hexp hkeys fun a' ha' y hy => ?_
        rcases hentries a' ha' y hy with ⟨t', q, ht'', hq, hdec⟩
        have hknown : a' ∈ knownMembers d'.attrs := by
          rw [knownMembers_of_not_expandable hexp]
          exact ha'
        exact ih n hcontains d' ht' hkind' a' hknown t' ht'' q y hq hdec

theorem member_ne_unparsed (h : s.Accepted) (ht : (name, d) ∈ s.types)
    (hkind : d.effectiveKind = .struct) {a : AttributeDef} (ha : a ∈ knownMembers d.attrs) :
    a.name ≠ unparsedField := by
  intro heq
  have hreserved := (h.field_names ht (Or.inr hkind)).2 a ((knownMembers_sublist d.attrs).subset ha)
  rw [heq] at hreserved
  cases hreserved

/-- The bytes beyond the members are one more field, if there are any. -/
theorem keys_withTail {known : Object} (hnew : ∀ e ∈ known, e.1 ≠ unparsedField) (tail : Bytes) :
    ((Layout.withTail known tail).map Prod.fst).Perm
      (known.map Prod.fst ++ if tail = [] then [] else [unparsedField]) := by
  cases tail with
  | nil =>
      rw [if_pos rfl, List.append_nil]
      exact List.Perm.refl _
  | cons x rest =>
      rw [if_neg (List.cons_ne_nil _ _)]
      exact ((perm_set hnew _).map Prod.fst).trans (List.perm_append_singleton _ _).symm

theorem mem_withTail {known : Object} {tail : Bytes} {e : Text × Value}
    (h : e ∈ Layout.withTail known tail) : e = (unparsedField, .bytes tail) ∨ e ∈ known := by
  cases tail with
  | nil => exact Or.inr h
  | cons x rest => exact Object.mem_set h

/-- Structs have the declared shape. -/
theorem conforms_struct (hsizes : s.SizesFit) (h : s.Accepted) (hcounts : s.CountsNonneg)
    (ht : (name, d) ∈ s.types) (hkind : d.effectiveKind = .struct) {data : Bytes} {obj : Object}
    (hdec : (s.layout name d).decode data = .ok obj) (o : AttributeOptions) :
    s.Conforms o (.name name) data (.object obj) := by
  rcases hsizes _ ht hkind with ⟨n, -, hsize⟩
  have hexact := hsize.exactMembersSize_eq h hsizes.acyclic
  rcases Layout.exists_of_decode (hsizes.layout_sized h hcounts ht hkind) hdec with
    ⟨front, tail, known, rfl, hfront, htail, hknown, rfl⟩
  change front.length = MemberType.exactMembersSize (s.members name) at hfront
  rcases entries_of_struct hsizes h hcounts ht hkind hfront hknown with ⟨hkeys, hentries⟩
  have hmembers : ∀ a ∈ knownMembers d.attrs, ∀ v, (a.name, v) ∈ known → s.MemberConforms a v := by
    intro a ha v hv
    rcases hentries a ha v hv with ⟨t, p, hresolved, hp, hpv⟩
    exact memberConforms_decode hsizes h hcounts hsize.acc d ht hkind a ha t hresolved p v hp hpv
  have hnew : ∀ e ∈ known, e.1 ≠ unparsedField := by
    intro e he
    rcases List.mem_map.1 (hkeys.mem_iff.1 (List.mem_map_of_mem he)) with ⟨a, ha, heq⟩
    rw [← heq]
    exact member_ne_unparsed h ht hkind ha
  rw [hexact] at hfront
  have hdrop : (front ++ tail).drop n = tail := by rw [← hfront, List.drop_left]
  have hlength : (front ++ tail).length = front.length + tail.length := List.length_append
  refine .struct ht hkind hsize (by omega) (fun hlt => ?_) ?_ (fun a ha v hv => ?_) fun v hv => ?_
  · by_contra hfixed
    rw [htail (Bool.eq_false_of_not_eq_true hfixed), List.append_nil] at hlt
    omega
  · have hbeyond : (n < (front ++ tail).length) ↔ ¬ tail = [] := by
      rw [← List.length_eq_zero_iff]
      omega
    have hfields := (keys_withTail hnew tail).trans (hkeys.append_right _)
    simpa only [hbeyond, ite_not] using hfields
  · rcases mem_withTail hv with heq | hv
    · exact absurd (Prod.mk.inj heq).1 (member_ne_unparsed h ht hkind ha)
    · exact hmembers a ha v hv
  · rw [hdrop]
    rcases mem_withTail hv with heq | hv
    · exact (Prod.mk.inj heq).2
    · exact absurd rfl (hnew _ hv)

end Members

section Payloads

/-- The object of a flag list is marked by the numbers of the enum. -/
theorem marked_decodeFlagList {n : Text} {d : TypeDef} {data : Bytes} {obj : Object}
    (h : (EnumType.ofDef n d).decodeFlagList data = .ok obj) : d.Marked obj := by
  rw [EnumType.decodeFlagList_eq, Nested.foldAttributes_eq_ok_iff] at h
  have hinv : Object.Ordered obj ∧ ∀ e ∈ obj, d.PrimaryField e.1 ∧ e.2 = .bool true := by
    refine foldlM_invariant (fun _ obj => Object.Ordered obj ∧
      ∀ e ∈ obj, d.PrimaryField e.1 ∧ e.2 = .bool true) ?_ (fun _ a old new _ hold hstep => ?_) h.2
    · exact ⟨Object.ordered_nil, fun e he => absurd he List.not_mem_nil⟩
    · rcases EnumType.flagStep_eq_ok hstep with ⟨-, rfl⟩ | ⟨field, hfield, rfl⟩
      · exact hold
      · rcases Option.map_eq_some_iff.1 hfield with ⟨v, hv, rfl⟩
        refine ⟨Object.ordered_set hold.1 _ _, fun e he => ?_⟩
        rcases Object.mem_set he with rfl | he
        · exact ⟨TypeDef.primaryField_of_mem (List.mem_of_find?_eq_some hv), rfl⟩
        · exact hold.2 e he
  exact ⟨hinv.1.keys_nodup, hinv.2⟩

theorem itemsConform_of_forall₂ {o : AttributeOptions} {elem : TypeExpr} {as : List Attribute}
    {items : List Value}
    (h : List.Forall₂ (fun a v => s.Conforms o elem a.payload v) as items) :
    s.ItemsConform o elem as items := by
  induction h with
  | nil => exact .nil
  | cons hv _ ih => exact .cons hv ih

theorem entriesConform_of_forall {o : AttributeOptions} {elem : TypeExpr} {as : List Attribute}
    {entries : List (UInt16 × Value)}
    (h : ∀ e ∈ entries, ∃ a ∈ as, a.type.toNat ≤ 0x3FFF ∧ a.type = e.1 ∧
      s.Conforms o elem a.payload e.2) : s.EntriesConform o elem as entries := by
  induction entries with
  | nil => exact .nil
  | cons e rest ih =>
      rcases e with ⟨key, v⟩
      rcases List.forall_mem_cons.1 h with ⟨⟨a, ha, hkey, rfl, hv⟩, hrest⟩
      exact .cons ha hkey hv (ih hrest)

/-- The value of a field is of one attribute, or of all attributes if the field is repeated. -/
def FieldConforms (s : Schema) (fields : List (Nat × AttributeDef)) (as : List Attribute)
    (e : Text × Value) : Prop :=
  ∃ i f, (i, f) ∈ fields ∧ f.name = e.1 ∧
    (f.options.repeated = false ∧ (∃ a ∈ as, a.type.toNat = i ∧
        s.Conforms f.options f.type a.payload e.2) ∨
      f.options.repeated = true ∧ ∃ items, items ≠ [] ∧ e.2 = .list items ∧
        s.ItemsConform f.options f.type (as.filter fun a => a.type.toNat == i) items)

theorem fieldsConform_of_forall {fields : List (Nat × AttributeDef)} {as : List Attribute}
    {obj : Object} (h : ∀ e ∈ obj, s.FieldConforms fields as e) :
    s.FieldsConform fields as obj := by
  induction obj with
  | nil => exact .nil
  | cons e rest ih =>
      rcases e with ⟨name, v⟩
      rcases List.forall_mem_cons.1 h with ⟨⟨i, f, hf, rfl, hcases⟩, hrest⟩
      rcases hcases with ⟨hrep, a, ha, rfl, hv⟩ | ⟨hrep, items, hne, rfl, hitems⟩
      · exact .single hf hrep ha hv (ih hrest)
      · exact .repeated hf hrep hne hitems (ih hrest)

variable {name : Text} {d : TypeDef}

theorem attrSets_fields (ht : (name, d) ∈ s.types) (hkind : d.effectiveKind = .attrs) :
    s.bundle.attrSets.fields name = (s.attrSet name d).fields := by
  rcases s.fields_attrSets name with ⟨d', ht', -, hfields⟩ | ⟨hno, -⟩
  · rw [hfields, Option.some.inj ((mem_types_iff.1 ht').symm.trans (mem_types_iff.1 ht))]
  · rw [kind?, mem_types_iff.1 ht, Option.map_some, hkind] at hno
    exact absurd rfl hno

/-- A field of an attribute set is declared with its number. -/
theorem exists_numbered {f : Field} (hf : f ∈ (s.attrSet name d).fields) :
    ∃ a, (f.index.toNat, a) ∈ numbered d ∧ a.name = f.name ∧ a.options.repeated = f.repeated ∧
      (s.payload a.options a.type).result? = some f.payload := by
  rcases mem_attrSet_fields hf with ⟨⟨i, a⟩, hx, hpayload, hname, hindex, hrep⟩
  have hle := index_le_of_usable hx
  have htoNat : f.index.toNat = i := by
    rw [hindex, UInt16.toNat_ofNat', Nat.mod_eq_of_lt (by omega)]
  refine ⟨a, ?_, hname.symm, hrep.symm, hpayload⟩
  rw [htoNat]
  exact (List.takeWhile_sublist _).subset hx

/-- The values of a field are those of the attributes with its number, in their order. -/
theorem itemsConform_valuesOf {sets : AttrSets} (hnames : ((sets.fields name).map Field.name).Nodup)
    (hindices : ((sets.fields name).map Field.index).Nodup) {f : Field} (hf : f ∈ sets.fields name)
    {o : AttributeOptions} {elem : TypeExpr} {as : List Attribute}
    {os : List (Option (Field × Value))}
    (hread : List.Forall₂ (fun a x => Payload.readField sets name a = .ok x) as os)
    (hconforms : ∀ a ∈ as, ∀ v, f.payload.decode sets a.payload = .ok v →
      s.Conforms o elem a.payload v) :
    s.ItemsConform o elem (as.filter fun a => a.type.toNat == f.index.toNat)
      (f.valuesOf (os.filterMap id)) := by
  have hfilter : (as.filter fun a => a.type.toNat == f.index.toNat)
      = Attribute.ofType as f.index := by
    refine List.filter_congr fun a _ => ?_
    rw [Bool.eq_iff_iff, beq_iff_eq, beq_iff_eq, UInt16.toNat_inj]
  rw [hfilter]
  have hof : ∀ a ∈ Attribute.ofType as f.index, ∀ v, f.payload.decode sets a.payload = .ok v →
      s.Conforms o elem a.payload v := fun a ha => hconforms a (Attribute.mem_ofType.1 ha).1
  have hread := (List.forall₂_and_left _ _).2 ⟨hof, Field.reads_valuesOf hnames hindices hf hread⟩
  exact itemsConform_of_forall₂ (hread.imp fun a v h => h.1 v h.2.2)

/-- What the attributes of a stream are read as. -/
theorem occurrence_of_mem {sets : AttrSets} {as : List Attribute}
    {os : List (Option (Field × Value))}
    (hread : List.Forall₂ (fun a x => Payload.readField sets name a = .ok x) as os)
    {f : Field} {v : Value} (h : (f, v) ∈ os.filterMap id) :
    f ∈ sets.fields name ∧ ∃ a ∈ as, a.type = f.index ∧
      f.payload.decode sets a.payload = .ok v := by
  rcases List.mem_filterMap.1 h with ⟨x, hx, rfl⟩
  rcases forall₂_right hread hx with ⟨a, ha, hax⟩
  rcases Payload.readField_eq_some_iff.1 hax with ⟨hfield, -, hdec⟩
  have hindex : f.index = a.type := by simpa using List.find?_some hfield
  exact ⟨List.mem_of_find?_eq_some hfield, a, ha, hindex.symm, hdec⟩

/-- What is collected of a field is its last value, or the list of its values. -/
theorem fieldConforms_of_collected {sets : AttrSets}
    (hnames : ((sets.fields name).map Field.name).Nodup)
    (hindices : ((sets.fields name).map Field.index).Nodup) {f : Field} (hf : f ∈ sets.fields name)
    {fields : List (Nat × AttributeDef)} {a : AttributeDef} (ha : (f.index.toNat, a) ∈ fields)
    (haname : a.name = f.name) (hrep : a.options.repeated = f.repeated) {as : List Attribute}
    {os : List (Option (Field × Value))}
    (hread : List.Forall₂ (fun a x => Payload.readField sets name a = .ok x) as os)
    (hconforms : ∀ b ∈ as, ∀ v, f.payload.decode sets b.payload = .ok v →
      s.Conforms a.options a.type b.payload v)
    {x : Value} (hx : f.collected (f.valuesOf (os.filterMap id)) = some x) :
    s.FieldConforms fields as (f.name, x) := by
  refine ⟨_, a, ha, haname, ?_⟩
  rw [hrep]
  unfold Field.collected at hx
  cases hrepeated : f.repeated with
  | true =>
      rw [hrepeated, if_pos rfl] at hx
      split at hx
      · cases hx
      · rename_i hne
        refine Or.inr ⟨rfl, _, by simpa using hne, (Option.some.inj hx).symm, ?_⟩
        exact itemsConform_valuesOf hnames hindices hf hread hconforms
  | false =>
      rw [hrepeated, if_neg Bool.false_ne_true] at hx
      rcases List.mem_map.1 (List.mem_of_getLast? hx) with ⟨⟨g, y⟩, hmem, rfl⟩
      rcases List.mem_filter.1 hmem with ⟨hmem, hgname⟩
      rcases occurrence_of_mem hread hmem with ⟨hg, b, hb, htype, hdec⟩
      -- The values are told apart by name, and no two fields have the same one.
      obtain rfl := List.inj_on_of_nodup_map hnames hg hf (by simpa using hgname)
      exact Or.inl ⟨rfl, b, hb, by rw [htype], hconforms b hb y hdec⟩

/-- Attribute sets have the declared shape, if the payloads of their attributes do. -/
theorem conforms_attrs (h : s.Accepted) (ht : (name, d) ∈ s.types)
    (hkind : d.effectiveKind = .attrs) {data : Bytes} {v : Value}
    (hshorter : ∀ o e p, (s.payload o e).result? = some p → ∀ a ∈ (Attribute.walk data).1, ∀ x,
      p.decode s.bundle.attrSets a.payload = .ok x → s.Conforms o e a.payload x)
    (hdec : (Payload.attrs name).decode s.bundle.attrSets data = .ok v) (o : AttributeOptions) :
    s.Conforms o (.name name) data v := by
  rcases (Payload.decode_attrs _).1 hdec with ⟨-, os, hos, rfl⟩
  rw [mapM_eq_ok_iff] at hos
  have hfields := attrSets_fields ht hkind
  have hnames := attrSets_names h name
  have hindices := attrSets_indices s name
  refine .attrs ht hkind (Field.ordered_storeAll _).keys_nodup (fieldsConform_of_forall ?_)
  rintro ⟨k, x⟩ he
  rcases Field.name_of_mem_storeAll he with ⟨⟨f, y⟩, ho, rfl⟩
  have hf := (occurrence_of_mem hos ho).1
  have hcollected : f.collected (f.valuesOf (os.filterMap id)) = some x := by
    rw [← Field.value?_storeAll hnames (fun o ho => (occurrence_of_mem hos ho).1) hf]
    exact (Object.mem_iff_value? (Field.ordered_storeAll _) _ _).1 he
  rw [hfields] at hf
  rcases exists_numbered hf with ⟨a, ha, haname, hrep, hpayload⟩
  rw [← hfields] at hf
  exact fieldConforms_of_collected hnames hindices hf ha haname hrep hos
    (fun b hb v hv => hshorter _ _ _ hpayload b hb v hv) hcollected

/-- Arrays have the declared shape, if their elements do. -/
theorem conforms_array {o : AttributeOptions} {elem : TypeExpr} {zero : Bool} {q : Payload}
    {data : Bytes} {v : Value}
    (helem : ∀ a ∈ (Attribute.walk data).1, ∀ x, q.decode s.bundle.attrSets a.payload = .ok x →
      s.Conforms o elem a.payload x)
    (hdec : (Payload.array zero q).decode s.bundle.attrSets data = .ok v) :
    s.Conforms o (.array elem zero) data v := by
  rcases (Payload.decode_array _).1 hdec with ⟨-, items, hitems, rfl⟩
  refine .array (itemsConform_of_forall₂ ?_)
  have hall : ∀ x ∈ (Attribute.walk data).1.zipIdx, x.1 ∈ (Attribute.walk data).1 := fun x hx =>
    List.fst_mem_of_mem_zipIdx hx
  have hread := (List.forall₂_and_left _ _).2 ⟨hall, mapM_eq_ok_iff.1 hitems⟩
  rw [← List.zipIdx_map_fst 0 (Attribute.walk data).1, List.forall₂_map_left_iff]
  exact hread.imp fun x v hx =>
    helem x.1 hx.1 v (Payload.readElement_eq_ok_iff.1 hx.2).2.2

/-- Maps have the declared shape, if their elements do. -/
theorem conforms_map {o : AttributeOptions} {elem : TypeExpr} {q : Payload} {data : Bytes}
    {v : Value}
    (helem : ∀ a ∈ (Attribute.walk data).1, ∀ x, q.decode s.bundle.attrSets a.payload = .ok x →
      s.Conforms o elem a.payload x)
    (hdec : (Payload.map q).decode s.bundle.attrSets data = .ok v) :
    s.Conforms o (.map elem) data v := by
  rcases (Payload.decode_map _).1 hdec with ⟨-, es, hes, rfl⟩
  have hascending := Payload.ascending_foldl_setEntry es List.Pairwise.nil
  refine .map ?_ (entriesConform_of_forall fun e he => ?_)
  · exact (Payload.ascending_iff.1 hascending).imp fun hlt => UInt16.ne_of_lt hlt
  · have hmem : e ∈ es :=
      (Payload.mem_of_mem_foldl_setEntry he).resolve_right List.not_mem_nil
    rcases forall₂_right (mapM_eq_ok_iff.1 hes) hmem with ⟨a, ha, hread⟩
    rcases Payload.readEntry_eq_ok hread with ⟨hkey, hvalue⟩
    exact ⟨a, ha, Attribute.type_le_of_mem_walk ha, hkey.symm, helem a ha e.2 hvalue⟩

/-- Strings have the declared shape: they are terminated and not too long. -/
theorem conforms_string {o : AttributeOptions} {data : Bytes} {v : Value}
    (h : Scalar.getString data o.maxLength = .ok v) : s.Conforms o (.name "string") data v := by
  rcases bind_eq_ok_iff.1 h with ⟨u, hcheck, hrest⟩
  split at hrest
  · rename_i hlast
    cases hrest
    have hdata : data.dropLast ++ [0] = data := List.dropLast_append_getLast? 0 hlast
    have hlength : data.dropLast.length + 1 = data.length := by
      have := congrArg List.length hdata
      rw [List.length_append] at this
      exact this
    have hstring :
        s.Conforms o (.name "string") (data.dropLast ++ [0]) (.text ⟨data.dropLast⟩) := by
      refine .string fun hpos => ?_
      unfold Scalar.checkMaxLength at hcheck
      split at hcheck
      · cases hcheck
      · change (data.dropLast.length : Int) + 1 ≤ _
        omega
    rw [hdata] at hstring
    exact hstring
  · cases hrest

/-- Payloads that are no arrays, maps or lists of flags have the declared shape. -/
theorem conforms_named (hsizes : s.SizesFit) (h : s.Accepted) (hcounts : s.CountsNonneg)
    {o : AttributeOptions} {p : Payload} {data : Bytes} {v : Value}
    (hp : (s.namedPayload o name).result? = some p)
    (hshorter : ∀ o e p, (s.payload o e).result? = some p → ∀ a ∈ (Attribute.walk data).1, ∀ x,
      p.decode s.bundle.attrSets a.payload = .ok x → s.Conforms o e a.payload x)
    (hdec : p.decode s.bundle.attrSets data = .ok v) : s.Conforms o (.name name) data v := by
  rcases namedPayload_cases hp with ⟨num, l, hnum, hl, rfl⟩ |
    ⟨-, ⟨rfl, rfl⟩ | ⟨rfl, rfl⟩ | ⟨rfl, rfl⟩ | ⟨rfl, rfl⟩⟩ |
    ⟨-, d, ht, ⟨hkind, rfl⟩ | ⟨hkind, rfl⟩⟩
  · rw [Payload.decode] at hdec
    rcases bind_eq_ok_iff.1 hdec with ⟨u, hlength, hv⟩
    cases hv
    unfold Number.checkLength at hlength
    split at hlength
    · rename_i heq
      exact .number hnum heq (numberConforms_read hl data)
    · cases hlength
  · rw [Payload.decode] at hdec
    exact conforms_string hdec
  · rw [Payload.decode] at hdec
    cases hdec
    exact .data data
  · rw [Payload.decode] at hdec
    rcases Payload.getBool_eq_ok hdec with ⟨c, rfl, rfl⟩
    exact .bool c
  · rw [Payload.decode] at hdec
    cases data with
    | nil =>
        cases hdec
        exact .flag
    | cons x rest => cases hdec
  · rw [Payload.decode] at hdec
    rcases bind_eq_ok_iff.1 hdec with ⟨obj, hobj, hv⟩
    cases hv
    exact conforms_struct hsizes h hcounts ht hkind hobj o
  · exact conforms_attrs h ht hkind hshorter hdec o

-- The induction is on the number of bytes: the payloads of attributes are shorter than the stream
-- around them, while the expressions of attribute sets may refer to each other.
theorem conforms_decode (hsizes : s.SizesFit) (h : s.Accepted) (hcounts : s.CountsNonneg)
    (n : Nat) : ∀ data : Bytes, data.length = n → ∀ o e p v, (s.payload o e).result? = some p →
      p.decode s.bundle.attrSets data = .ok v → s.Conforms o e data v := by
  induction n using Nat.strong_induction_on with
  | _ n ih =>
      intro data hlength o e p v hp hdec
      have hshorter : ∀ o e p, (s.payload o e).result? = some p →
          ∀ a ∈ (Attribute.walk data).1, ∀ x, p.decode s.bundle.attrSets a.payload = .ok x →
            s.Conforms o e a.payload x := by
        intro o e p hp a ha x hx
        have hsize := Attribute.size_le_of_mem_walk ha
        have hheader : 0 < Attribute.headerSize := by decide
        exact ih a.payload.length (by omega) a.payload rfl o e p x hp hx
      cases e with
      | name name => exact conforms_named hsizes h hcounts hp hshorter hdec
      | array elem zero =>
          rcases Check.result?_bind.1 hp with ⟨q, hq, hpure⟩
          obtain rfl := (Check.result?_pure _ _).1 hpure
          exact conforms_array (hshorter o elem q hq) hdec
      | map elem =>
          rcases Check.result?_bind.1 hp with ⟨q, hq, hpure⟩
          obtain rfl := (Check.result?_pure _ _).1 hpure
          exact conforms_map (hshorter o elem q hq) hdec
      | flags elem =>
          rcases flagListPayload_iff.1 hp with ⟨-, n, d, rfl, ht, hkind, rfl⟩
          rw [Payload.decode] at hdec
          rcases bind_eq_ok_iff.1 hdec with ⟨obj, hobj, hv⟩
          cases hv
          exact .flagList ht hkind (marked_decodeFlagList hobj)
      | other kind =>
          rw [payload, namedPayload_empty] at hp
          cases hp
      | missing =>
          rw [payload, namedPayload_empty] at hp
          cases hp

end Payloads

/-- Decoded messages have the declared shape. -/
theorem decoded_value_conforms {s : Schema} {o : CompileOptions} {compiled : Compiled}
    (hcompile : (s.compile o).output = some compiled) (hcounts : s.CountsNonneg)
    (hsizes : s.SizesFit) {name : Text} {c : Codec}
    (hcodec : compiled.bundle.codec? name = some c) {b : Bytes} {obj : Object}
    (h : c.decode b = .ok obj) : s.Conforms .empty (.name name) b (.object obj) := by
  rcases accepted_of_compile hcompile with ⟨haccepted, hbundle⟩
  rw [hbundle] at hcodec
  rcases codec_cases hcodec with ⟨d, ht, ⟨hkind, rfl⟩ | ⟨hkind, rfl⟩⟩
  · have hshorter : ∀ o e p, (s.payload o e).result? = some p → ∀ a ∈ (Attribute.walk b).1, ∀ x,
        p.decode s.bundle.attrSets a.payload = .ok x → s.Conforms o e a.payload x :=
      fun o e p hp a _ x hx =>
        conforms_decode hsizes haccepted hcounts _ a.payload rfl o e p x hp hx
    exact conforms_attrs haccepted ht hkind hshorter (Codec.decode_attrs_eq_ok_iff.1 h) .empty
  · exact conforms_struct hsizes haccepted hcounts ht hkind h .empty

/-- An entry with bits of both forms of the enum, a list with a map of flags and unknown bits, a
    banner of a later version, and an entry within it. -/
def catalogMessage : Bytes :=
  [5, 0, 1, 0, 0x81, 0, 0, 0] ++ [8, 0, 2, 0, 4, 0, 7, 0]
    ++ [13, 0, 3, 0, 9, 0, 0, 0, 5, 0, 5, 0, 5, 0, 0, 0]
    ++ [45, 0, 4, 0, 1, 0] ++ Bytes.zeros 20 ++ List.replicate 16 65 ++ [7, 8, 9, 0, 0, 0]
    ++ [8, 0, 5, 0, 4, 0, 1, 0]

theorem catalogMessage_conforms : ∃ obj,
    (Codec.attrs (catalog 7).bundle.attrSets "entry").decode catalogMessage = .ok obj ∧
      (catalog 7).Conforms .empty (.name "entry") catalogMessage (.object obj) := by
  have hcompile : ((catalog 7).compile .default).output
      = some ⟨(catalog 7).bundle, (catalog 7).describe.sign⟩ :=
    output_of_errors (by decide +kernel)
  have hsizes : (catalog 7).SizesFit :=
    (sizesFit_iff (accepted_of_compile hcompile).1 (by decide +kernel)).2 (by decide +kernel)
  have hsome : ((Codec.attrs (catalog 7).bundle.attrSets "entry").decode
      catalogMessage).toOption.isSome = true := by decide +kernel
  cases hdec : (Codec.attrs (catalog 7).bundle.attrSets "entry").decode catalogMessage with
  | error e =>
      rw [hdec] at hsome
      cases hsome
  | ok obj =>
      have hcodec : (catalog 7).bundle.codec? "entry"
          = some (.attrs (catalog 7).bundle.attrSets "entry") :=
        codec?_attrs (d := entry) (by simp [catalog]) rfl
      exact ⟨obj, rfl, decoded_value_conforms hcompile (by decide +kernel) hsizes hcodec hdec⟩

end Schema

end NetlinkSchema
