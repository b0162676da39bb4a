import NetlinkSchema.Bundle
import NetlinkSchema.Compilation.Diagnostic

/-!
# Resolution

From the declarations of a schema to the types of payloads and struct members. Names are looked up,
and what does not fit together is an error: a lower type on something that is no integer, an enum
where a struct is needed, a flag beyond the width of its field.

An enum whose numbers are used as bits or as attribute types must have numbers that can be used so.
Which derived forms of an enum are needed is read off the resolved fields.

## Main definitions

* `Schema.lowering`: The meaning of an integer field.
* `Schema.payload`: The payload of an attribute.
* `Schema.memberType`, `Schema.members`: The type of a struct member, and all members of a struct.
* `Schema.layout`, `Schema.attrSet`: A struct and an attribute set.
* `Payload.needs`, `MemberType.needs`: The derived forms of enums that a field needs.
-/

namespace NetlinkSchema

namespace EnumType

/-- The enum of a declaration. -/
def ofDef (name : Text) (d : TypeDef) : EnumType :=
  ⟨name, d.values.map fun v => ⟨v.name, camelCase v.name, v.value⟩⟩

end EnumType

namespace FlagsType

/-- The flags type of a declaration. A value without bits is no flag. -/
def ofDef (name : Text) (d : TypeDef) : FlagsType :=
  ⟨name, (d.values.filter (·.value != 0)).map fun v => ⟨v.name, v.value.toUInt64⟩⟩

end FlagsType

namespace Number

/-- Whether bits fit the width of a number. -/
def fits (n : Number) (bits : UInt64) : Bool := (n.checkBits bits).isOk

end Number

namespace Schema

/-- The bitmask of an enum as the meaning of an integer. A number that is no bit index is reported
    with the enum itself. -/
def bitmaskLowering (num : Number) (lower : LowerType) (d : TypeDef) : Check Lowering :=
  let wide := d.values.find? fun v =>
    0 ≤ v.value && v.value ≤ 63 && !num.fits (EnumType.bitOf v.value)
  match wide with
  | some v => .fail (.lowerWidth lower v.name (EnumType.bitOf v.value) num.name)
  | none => .ok (.bitmask (EnumType.ofDef lower.name d))

/-- A flags type as the meaning of an integer. -/
def flagsLowering (num : Number) (lower : LowerType) (d : TypeDef) : Check Lowering :=
  match d.values.find? fun v => !num.fits v.value.toUInt64 with
  | some v => .fail (.lowerWidth lower v.name v.value.toUInt64 num.name)
  | none => .ok (.flags (FlagsType.ofDef lower.name d))

/-- A declared type as the meaning of an integer. -/
def lowerTo (num : Number) (lower : LowerType) (d : TypeDef) : Check Lowering :=
  match d.effectiveKind, lower.asFlags with
  | .enum, true => bitmaskLowering num lower d
  | .enum, false => .ok (.enum (EnumType.ofDef lower.name d))
  | .flags, false => flagsLowering num lower d
  | kind, _ => .fail (.lowerKind lower kind)

/-- The meaning of an integer field. -/
def lowering (s : Schema) (num : Number) : Option LowerType → Check Lowering
  | none => .ok .none
  | some lower =>
    if num.isFloat then .fail (.lowerBase lower num.name)
    else
      match s.get? lower.name with
      | none => .fail (.unknownType lower.name)
      | some d => do
        Check.warnIf (num.size == 8) (.lower64 lower num.name)
        lowerTo num lower d

/-- Whether a version has the form of three numbers with points between them. -/
def isAbiVersion (abi : Text) : Bool :=
  let parts := abi.splitOn '.'
  parts.length == 3 && parts.all fun p => !p.isEmpty && p.utf8.all fun b => 48 ≤ b && b ≤ 57

/-- Whether a field ends the known part of a struct. -/
def marksAbi (a : AttributeDef) : Bool := !a.options.abi.isEmpty

/-- Whether later versions may extend a struct. -/
def isExpandable (d : TypeDef) : Bool := d.attrs.any marksAbi

/-- The fields up to the first one that ends the known part of a struct. -/
def knownMembers : List AttributeDef → List AttributeDef
  | [] => []
  | a :: rest => if marksAbi a then [a] else a :: knownMembers rest

/-- A struct as the type of a struct member. -/
def nestedStruct (s : Schema) (members : Text → Members) (name : Text) (o : AttributeOptions) :
    Check MemberType :=
  match s.get? name, o.type with
  | none, _ => .fail (.unknownType name)
  | some d, lower =>
    if d.effectiveKind ≠ .struct then .fail (.kindMismatch name d.effectiveKind .struct)
    else
      match lower with
      | some lower => .fail (.lowerBase lower name)
      | none => if isExpandable d then .fail (.nestedExpandable name)
          else .ok (.struct name (members name))

/-- The type of one element of a struct member that is no byte string. -/
def elementType (s : Schema) (members : Text → Members) (name : Text) (o : AttributeOptions) :
    Check MemberType :=
  if name = "bool" then
    match o.type with
    | some lower => .fail (.lowerBase lower name)
    | none => .ok .bool
  else if name = "flag" then .fail (.memberType (.name name))
  else
    match Number.ofName? name with
    | some num => do
      let lower ← s.lowering num o.type
      return .number num lower
    | none => nestedStruct s members name o

/-- A byte string as the type of a struct member. -/
def bytesType (name : Text) (o : AttributeOptions) : Check MemberType :=
  if o.count = 0 then .fail (.bytesCount name)
  else ⟨o.type.toList.map (.lowerIgnored · name), .ok (.bytes o.count)⟩

/-- A struct member by the name of its type: a count makes an inline array of anything but a byte
    string. -/
def namedMember (s : Schema) (members : Text → Members) (name : Text) (o : AttributeOptions) :
    Check MemberType :=
  if name = "data" ∨ name = "string" then bytesType name o
  else do
    let elem ← s.elementType members name o
    return if 0 < o.count then .array o.count elem else elem

/-- The type of a struct member, given the members of other structs. -/
def memberType (s : Schema) (members : Text → Members) (a : AttributeDef) : Check MemberType :=
  match a.type with
  | .name name => do
    Check.warnIf a.options.repeated (.optionIgnored .repeated .structMember)
    Check.warnIf (0 < a.options.maxLength) (.optionIgnored .maxLength .structMember)
    s.namedMember members name a.options
  | expr => .fail (.memberType expr)

/-- The members of a struct, of those that it contains, and so on to the given depth. -/
def membersTo (s : Schema) : (depth : Nat) → Text → Members
  | 0, _ => []
  | depth + 1, name =>
    match s.get? name with
    | none => []
    | some d => (knownMembers d.attrs).filterMap fun a =>
      (s.memberType (s.membersTo depth) a).result?.map (a.name, ·)

/-- The members of a struct. Without cycles no struct is nested more deeply than there are types;
    a schema in which a struct contains itself is not compiled. -/
def members (s : Schema) (name : Text) : Members := s.membersTo s.size name

/-- The layout of a struct. -/
def layout (s : Schema) (name : Text) (d : TypeDef) : Layout :=
  ⟨name, s.members name, isExpandable d⟩

/-- The payload of a type that is neither an array, a map nor a list of flags. -/
def namedPayload (s : Schema) (o : AttributeOptions) (name : Text) : Check Payload :=
  match Number.ofName? name, o.type with
  | some num, lower => do
    let lower ← s.lowering num lower
    return .number num lower
  | none, some lower => .fail (.lowerBase lower name)
  | none, none =>
    if name = "string" then .ok (.string o.maxLength)
    else if name = "data" then .ok .data
    else if name = "bool" then .ok .bool
    else if name = "flag" then .ok .flag
    else
      match s.get? name with
      | none => .fail (.unknownType name)
      | some d =>
        match d.effectiveKind with
        | .struct => .ok (.struct (s.layout name d))
        | .attrs => .ok (.attrs name)
        | kind => .fail (.kindMismatch name kind .structOrAttrs)

/-- The flag-list form of an enum as a payload. -/
def flagListPayload (s : Schema) (o : AttributeOptions) (elem : TypeExpr) : Check Payload :=
  match o.type, elem with
  | some lower, _ => .fail (.lowerBase lower (TypeExpr.flags elem).text)
  | none, .name name =>
    match s.get? name with
    | none => .fail (.unknownType name)
    | some d =>
      if d.effectiveKind = .enum then .ok (.flagList (EnumType.ofDef name d))
      else .fail (.kindMismatch name d.effectiveKind .enum)
  | none, _ => .fail (.flagsElem (.flags elem))

/-- The payload of an expression. A lower type and a greatest length hold for the elements of
    arrays and maps. -/
def payload (s : Schema) (o : AttributeOptions) : TypeExpr → Check Payload
  | .array elem zero => do
    let elem ← s.payload o elem
    return .array zero elem
  | .map elem => do
    let elem ← s.payload o elem
    return .map elem
  | .flags elem => s.flagListPayload o elem
  | .name name => s.namedPayload o name
  | .other _ | .missing => s.namedPayload o .empty

/-- Warns about options that only struct members or strings have a use for. -/
def checkAttributeOptions (a : AttributeDef) : Check Unit := do
  let o := a.options
  Check.warnIf (0 < o.count) (.optionIgnored .count .attr)
  Check.warnIf (!o.abi.isEmpty) (.optionIgnored .abi .attr)
  Check.warnIf (0 < o.maxLength && a.type.core != .name "string")
    (.optionIgnored .maxLength (.type a.type))

/-- The payload of an attribute. -/
def attributePayload (s : Schema) (a : AttributeDef) : Check Payload := do
  checkAttributeOptions a
  s.payload a.options a.type

/-- The fields of an attribute set with their numbers. -/
def numbered (d : TypeDef) : List (Nat × AttributeDef) :=
  let first := if d.zero then 0 else 1
  (List.range' first d.attrs.length).zip d.attrs

/-- The fields whose numbers are attribute types. -/
def usable (d : TypeDef) : List (Nat × AttributeDef) :=
  (numbered d).takeWhile fun x => x.1 ≤ Attribute.typeMask

/-- The attribute set of a declaration. -/
def attrSet (s : Schema) (name : Text) (d : TypeDef) : AttrSet :=
  ⟨name, (usable d).filterMap fun (index, a) =>
    (s.attributePayload a).result?.map fun p =>
      ⟨a.name, UInt16.ofNat index, a.options.repeated, p⟩⟩

/-- What is wrong with an attribute set. -/
def attrsFindings (s : Schema) (name : Text) (d : TypeDef) : Findings :=
  let found := (usable d).map fun (_, a) => Findings.ofCheck ⟨name, a.name⟩ (s.attributePayload a)
  let beyond := match (numbered d).find? fun x => Attribute.typeMask < x.1 with
    | some (index, a) => Findings.error ⟨⟨name, a.name⟩, .tooManyAttrs index⟩
    | none => .empty
  Findings.concat found ++ beyond

/-- What is wrong with the versions of a struct. -/
def abiFindings (name : Text) (d : TypeDef) : Findings :=
  let invalid := d.attrs.filter fun a => marksAbi a && !isAbiVersion a.options.abi
  let notLast := match d.attrs.getLast? with
    | some last => if isExpandable d && !marksAbi last then
        [⟨Site.ofType name, .abiNotLast last.name⟩] else []
    | none => []
  ⟨invalid.map fun a => ⟨⟨name, a.name⟩, .invalidAbi a.options.abi⟩, notLast⟩

/-- What is wrong with a struct. -/
def structFindings (s : Schema) (name : Text) (d : TypeDef) : Findings :=
  abiFindings name d ++ Findings.concat ((knownMembers d.attrs).map fun a =>
    Findings.ofCheck ⟨name, a.name⟩ (s.memberType s.members a))

/-- What is wrong with a flags type. -/
def flagsFindings (name : Text) (d : TypeDef) : Findings :=
  ⟨(d.values.filter (·.value == 0)).map fun v => ⟨Site.ofType name, .zeroFlag v.name⟩, []⟩

end Schema

namespace Payload

/-- The derived forms of enums that a payload needs. -/
def needs : Payload → List (Text × Variant)
  | number _ (.bitmask e) => [(e.name, .bitmask)]
  | array _ elem => elem.needs
  | map elem => elem.needs
  | flagList e => [(e.name, .flagList)]
  | _ => []

end Payload

namespace MemberType

/-- The derived forms of enums that a member needs; those of a nested struct are its own. -/
def needs : MemberType → List (Text × Variant)
  | number _ (.bitmask e) => [(e.name, .bitmask)]
  | array _ elem => elem.needs
  | _ => []

end MemberType

namespace Schema

/-- The derived forms of enums that a type needs. -/
def needsOf (s : Schema) (name : Text) (d : TypeDef) : List (Text × Variant) :=
  match d.effectiveKind with
  | .attrs => (s.attrSet name d).fields.flatMap (·.payload.needs)
  | .struct => (s.members name).flatMap (·.2.needs)
  | _ => []

/-- The derived forms of enums that a schema needs. -/
def needs (s : Schema) : List (Text × Variant) := s.types.flatMap fun t => s.needsOf t.1 t.2

/-- What is wrong with the numbers of an enum, given its needed forms. -/
def enumFindings (needs : List (Text × Variant)) (name : Text) (d : TypeDef) : Findings :=
  let site := Site.ofType name
  ⟨d.values.flatMap fun v =>
    (if needs.contains (name, .bitmask) && !(0 ≤ v.value && v.value ≤ 63) then
      [⟨site, .bitmaskValue v.name v.value⟩] else [])
    ++ (if needs.contains (name, .flagList) && !(0 ≤ v.value && v.value ≤ 0x3FFF) then
      [⟨site, .flagListValue v.name v.value⟩] else []), []⟩

end Schema

end NetlinkSchema
