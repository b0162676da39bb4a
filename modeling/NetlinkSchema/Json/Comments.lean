import NetlinkSchema.Text

/-!
# Comments in JSON

A JSON document may hold comments and trailing commas. Both are blanked before the document is
read, so what is left stays on its line.

## Main definitions

* `Json.Region`: What a byte of a document belongs to.
* `Json.blank`: A document without comments and trailing commas.
-/

namespace NetlinkSchema

namespace Json

/-- What a byte of a document belongs to. -/
inductive Region
  | code
  /-- A string, and whether a backslash is in force. -/
  | string (escaped : Bool)
  | lineComment
  | blockComment
deriving DecidableEq

/-- The byte that stands for a byte of a comment: line breaks and tabs are kept. -/
def blankByte (b : UInt8) : UInt8 := if b == 9 || b == 10 || b == 13 then b else 32

/-- Blanks a comma at the end of a document, given in reverse. -/
def dropTrailingComma : Bytes → Bytes
  | [] => []
  | b :: before =>
    if b ≤ 32 then b :: dropTrailingComma before
    else if b == 44 then 32 :: before
    else b :: before

/-- Blanks the rest of a document; `done` is what precedes it, in reverse. A block comment without
    an end loses its last byte. -/
def blankFrom : Region → (done : Bytes) → Bytes → Bytes
  | _, done, [] => done.reverse
  | .code, done, 47 :: 47 :: rest => blankFrom .lineComment (32 :: 32 :: done) rest
  | .code, done, 47 :: 42 :: rest => blankFrom .blockComment (32 :: 32 :: done) rest
  | .code, done, b :: rest =>
    if b == 34 then blankFrom (.string false) (b :: done) rest
    else if b == 125 || b == 93 then blankFrom .code (b :: dropTrailingComma done) rest
    else blankFrom .code (b :: done) rest
  | .string escaped, done, b :: rest =>
    if escaped then blankFrom (.string false) (b :: done) rest
    else if b == 92 then blankFrom (.string true) (b :: done) rest
    else if b == 34 then blankFrom .code (b :: done) rest
    else blankFrom (.string false) (b :: done) rest
  | .lineComment, done, b :: rest =>
    blankFrom (if b == 10 then .code else .lineComment) (blankByte b :: done) rest
  | .blockComment, done, [_] => done.reverse
  | .blockComment, done, 42 :: 47 :: rest => blankFrom .code (32 :: 32 :: done) rest
  | .blockComment, done, b :: rest => blankFrom .blockComment (blankByte b :: done) rest

/-- The document without comments and trailing commas. -/
def blank (source : Bytes) : Bytes := blankFrom .code [] source

end Json

end NetlinkSchema
