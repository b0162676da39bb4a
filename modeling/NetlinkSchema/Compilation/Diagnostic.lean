import NetlinkSchema.Schema.Types

/-!
# Diagnostics

What the compiler has to say about a schema. An error keeps the schema from being compiled, and a
warning does not, unless warnings are asked to count as errors. Both have a cause, which is found
at a type or at a field of a type.

A check is a computation that may fail and that collects warnings on its way.

## Main definitions

* `Site`: A type, or a field of it.
* `WarningCause`, `Warning`: What may be worth a second look.
* `CompileFault`, `CompileError`: What is wrong.
* `Check`: A computation that may fail and that collects warnings.
-/

namespace NetlinkSchema

/-- A type, or a field of it; an empty field stands for none. -/
structure Site where
  type : Text
  field : Text
deriving DecidableEq

namespace Site

/-- The site of a type. -/
def ofType (name : Text) : Site := ⟨name, .empty⟩

/-- The text of a site. -/
def text (s : Site) : Text :=
  if s.field.isEmpty then "type '" ++ s.type ++ "'"
  else "field '" ++ s.field ++ "' of '" ++ s.type ++ "'"

end Site

/-- An option of a field that is not always of use. -/
inductive FieldOption
  | count
  | abi
  | maxLength
  | repeated
deriving DecidableEq

namespace FieldOption

/-- The name of an option. -/
def name : FieldOption → Text
  | count => "count"
  | abi => "abi"
  | maxLength => "maxLength"
  | repeated => "repeated"

end FieldOption

/-- Where an option is of no use. -/
inductive OptionContext
  | attr
  | structMember
  | type (expr : TypeExpr)
deriving DecidableEq

namespace OptionContext

/-- The text of a context. -/
def text : OptionContext → Text
  | attr => "an attribute"
  | structMember => "a struct member"
  | type expr => "type '" ++ expr.text ++ "'"

end OptionContext

/-- The names along a cycle of types. -/
def cycleText (cycle : List Text) : Text := Text.join " -> " cycle

/-- The cause of a warning. -/
inductive WarningCause
  | lower64 (lower : LowerType) (base : Text)
  | lowerIgnored (lower : LowerType) (base : Text)
  | abiNotLast (last : Text)
  | attrsCycle (cycle : List Text)
  | optionIgnored (option : FieldOption) (context : OptionContext)
deriving DecidableEq

/-- A warning. -/
structure Warning where
  site : Site
  cause : WarningCause
deriving DecidableEq

namespace Warning

/-- The number of a warning. -/
def code (w : Warning) : Nat :=
  match w.cause with
  | .lower64 _ _ => 4000
  | .lowerIgnored _ _ => 4001
  | .abiNotLast _ => 4002
  | .attrsCycle _ => 4003
  | .optionIgnored _ _ => 4004

/-- The text of a warning without its number. -/
def message (w : Warning) : Text :=
  match w.cause with
  | .lower64 lower base =>
    "Lower type '" ++ lower.text ++ "' of " ++ w.site.text ++ " is applied to 64-bit type '"
      ++ base ++ "'"
  | .lowerIgnored lower base =>
    "Lower type '" ++ lower.text ++ "' of " ++ w.site.text
      ++ " is ignored for struct member of type '" ++ base ++ "'"
  | .abiNotLast last =>
    "Expandable struct '" ++ w.site.type ++ "' should have abi on its last field '" ++ last ++ "'"
  | .attrsCycle cycle =>
    "Attribute set '" ++ w.site.type ++ "' is recursive: " ++ cycleText cycle
  | .optionIgnored option context =>
    "Option '" ++ option.name ++ "' of " ++ w.site.text ++ " has no effect on " ++ context.text

/-- The text of a warning. -/
def text (w : Warning) : Text := "W" ++ Text.ofNat w.code ++ ": " ++ w.message

end Warning

/-- What a reference should have named. -/
inductive Expected
  | enum
  | struct
  | structOrAttrs
deriving DecidableEq

namespace Expected

/-- The text of an expectation. -/
def text : Expected → Text
  | enum => "an enum type"
  | struct => "a struct type"
  | structOrAttrs => "a struct or attrs type"

end Expected

namespace Kind

/-- A kind with its indefinite article. -/
def withArticle (k : Kind) : Text :=
  let vowel : Bool := match k.name.utf8 with
    | b :: _ => ['a', 'e', 'i', 'o', 'u'].any fun c => c.toNat == b.toNat
    | [] => false
  (if vowel then "an " else "a ") ++ k.name

end Kind

/-- The cause of an error. -/
inductive CompileFault
  | unknownType (name : Text)
  | kindMismatch (name : Text) (got : Kind) (want : Expected)
  | lowerKind (lower : LowerType) (got : Kind)
  | flagsElem (expr : TypeExpr)
  | lowerBase (lower : LowerType) (base : Text)
  | zeroFlag (name : Text)
  | duplicateValue (name : Text)
  | bitmaskValue (name : Text) (value : Int64)
  | flagListValue (name : Text) (value : Int64)
  | lowerWidth (lower : LowerType) (name : Text) (bits : UInt64) (base : Text)
  | bytesCount (type : Text)
  | memberType (expr : TypeExpr)
  | invalidAbi (abi : Text)
  | nestedExpandable (name : Text)
  /-- A type of kind `kind` has values, or fields if `values` is false. -/
  | kindContent (kind : Kind) (values : Bool)
  | tooManyAttrs (index : Nat)
  | duplicateField
  | reservedField
  | structCycle (cycle : List Text)
  | attrsCycle (cycle : List Text)
  /-- A warning that counts as an error. -/
  | warning (w : Warning)
deriving DecidableEq

/-- An error. -/
structure CompileError where
  site : Site
  fault : CompileFault
deriving DecidableEq

namespace CompileError

/-- The number of an error. -/
def code (e : CompileError) : Nat :=
  match e.fault with
  | .unknownType _ => 2001
  | .kindMismatch _ _ _ => 2002
  | .lowerKind _ _ | .flagsElem _ => 2003
  | .lowerBase _ _ => 2004
  | .zeroFlag _ => 2010
  | .duplicateValue _ => 2011
  | .bitmaskValue _ _ => 2012
  | .flagListValue _ _ => 2013
  | .lowerWidth _ _ _ _ => 2014
  | .bytesCount _ => 2020
  | .memberType _ => 2021
  | .invalidAbi _ | .nestedExpandable _ => 2022
  | .kindContent _ _ | .tooManyAttrs _ => 2023
  | .duplicateField => 2024
  | .reservedField => 2025
  | .structCycle _ => 2030
  | .attrsCycle _ => 2031
  | .warning _ => 2090

/-- The text of an error without its number. -/
def message (e : CompileError) : Text :=
  let site := e.site.text
  match e.fault with
  | .unknownType name => "Unknown type '" ++ name ++ "' in " ++ site
  | .kindMismatch name got want =>
    "Type '" ++ name ++ "' referenced by " ++ site ++ " is " ++ got.withArticle
      ++ " type, expected " ++ want.text
  | .lowerKind lower got =>
    if lower.asFlags then
      "asflags() in " ++ site ++ " must be passed an enum type, '" ++ lower.name ++ "' is "
        ++ got.withArticle ++ " type"
    else
      "Lower type '" ++ lower.name ++ "' of " ++ site ++ " is " ++ got.withArticle
        ++ " type, expected an enum or flags type"
  | .flagsElem expr => "Type '" ++ expr.text ++ "' of " ++ site ++ " must name an enum type"
  | .lowerBase lower base =>
    "Lower type '" ++ lower.text ++ "' cannot be applied to " ++ site ++ " of type '" ++ base
      ++ "'"
  | .zeroFlag name => "Flag '" ++ name ++ "' of " ++ site ++ " has no value"
  | .duplicateValue name => "Duplicate value name '" ++ name ++ "' in " ++ site
  | .bitmaskValue name value =>
    "Value '" ++ name ++ "' (" ++ Text.ofInt value.toInt ++ ") of " ++ site
      ++ " cannot be used as a bit index (expected 0 to 63)"
  | .flagListValue name value =>
    "Value '" ++ name ++ "' (" ++ Text.ofInt value.toInt ++ ") of " ++ site
      ++ " cannot be used as an attribute type (expected 0 to 16383)"
  | .lowerWidth lower name bits base =>
    "Value '" ++ name ++ "' (" ++ Text.hexLiteral bits.toNat ++ ") of '" ++ lower.text
      ++ "' does not fit in " ++ site ++ " of type '" ++ base ++ "'"
  | .bytesCount type => "Struct member " ++ site ++ " of type '" ++ type ++ "' requires a count"
  | .memberType expr => "Type '" ++ expr.text ++ "' of " ++ site ++ " is not valid in a struct"
  | .invalidAbi abi =>
    "Invalid abi version " ++ abi.quoted ++ " in " ++ site ++ " (expected A.B.C)"
  | .nestedExpandable name =>
    "Expandable struct '" ++ name ++ "' cannot be embedded in " ++ site
  | .kindContent kind values =>
    "Type '" ++ e.site.type ++ "' of kind " ++ kind.name ++ " cannot have "
      ++ (if values then "values" else "attrs")
  | .tooManyAttrs index =>
    "Attribute index " ++ Text.ofNat index ++ " of " ++ site
      ++ " exceeds the maximum attribute type"
  | .duplicateField =>
    "Duplicate field name '" ++ e.site.field ++ "' in type '" ++ e.site.type ++ "'"
  | .reservedField =>
    "Field name '" ++ e.site.field ++ "' in type '" ++ e.site.type ++ "' is reserved"
  | .structCycle cycle =>
    "Struct '" ++ e.site.type ++ "' contains itself: " ++ cycleText cycle
  | .attrsCycle cycle =>
    "Attribute set '" ++ e.site.type ++ "' is recursive: " ++ cycleText cycle
  | .warning w => "Warning treated as error: " ++ w.text

/-- The text of an error. -/
def text (e : CompileError) : Text := "E" ++ Text.ofNat e.code ++ ": " ++ e.message

end CompileError

/-- A computation that may fail and that collects warnings, failing or not. -/
structure Check (α : Type) where
  warnings : List WarningCause
  result : Except CompileFault α

namespace Check

/-- A result without warnings. -/
def ok {α : Type} (a : α) : Check α := ⟨[], .ok a⟩

/-- A failure. -/
def fail {α : Type} (fault : CompileFault) : Check α := ⟨[], .error fault⟩

/-- Goes on with the result of a check. -/
def andThen {α β : Type} (x : Check α) (f : α → Check β) : Check β :=
  match x.result with
  | .error fault => ⟨x.warnings, .error fault⟩
  | .ok a => ⟨x.warnings ++ (f a).warnings, (f a).result⟩

instance : Monad Check where
  pure := ok
  bind := andThen

/-- Warns if a condition holds. -/
def warnIf (condition : Bool) (cause : WarningCause) : Check Unit :=
  ⟨if condition then [cause] else [], .ok ()⟩

/-- The result, if there is one. -/
def result? {α : Type} (x : Check α) : Option α := x.result.toOption

/-- The warnings at a site. -/
def warningsAt {α : Type} (x : Check α) (site : Site) : List Warning := x.warnings.map (⟨site, ·⟩)

/-- The error at a site, if the check failed. -/
def errorsAt {α : Type} (x : Check α) (site : Site) : List CompileError :=
  match x.result with
  | .ok _ => []
  | .error fault => [⟨site, fault⟩]

end Check

/-- Errors and warnings in the order in which they were found. -/
structure Findings where
  errors : List CompileError
  warnings : List Warning

namespace Findings

/-- Nothing found. -/
def empty : Findings := ⟨[], []⟩

/-- What was found first, and what was found then. -/
def append (a b : Findings) : Findings := ⟨a.errors ++ b.errors, a.warnings ++ b.warnings⟩

instance : Append Findings := ⟨append⟩

/-- Everything found, in order. -/
def concat (all : List Findings) : Findings := ⟨all.flatMap errors, all.flatMap warnings⟩

/-- What a check found at a site. -/
def ofCheck {α : Type} (site : Site) (x : Check α) : Findings :=
  ⟨x.errorsAt site, x.warningsAt site⟩

/-- An error. -/
def error (e : CompileError) : Findings := ⟨[e], []⟩

/-- A warning. -/
def warning (w : Warning) : Findings := ⟨[], [w]⟩

end Findings

end NetlinkSchema
