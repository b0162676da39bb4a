import NetlinkSchema.Text

/-!
# Files

A tree of files, as commands see it from their working directory. A path is followed component by
component, each of which has to be a directory before the next one is looked up in it. Nothing is
known outside the tree, so a path that leaves it leads nowhere.

## Main definitions

* `FileError`: Why a file could not be read or written.
* `FileTree`: Files by their location.
* `FileTree.read`, `FileTree.write`: Reading and writing a file by its path.
* `Path.extension`: The extension of a path.
-/

namespace NetlinkSchema

namespace Path

/-- What stands between the slashes of a path. -/
def components (path : Text) : List Text := path.splitOn '/'

/-- The extension of a path, with its dot: all from the last dot of the last component on. -/
def extension (path : Text) : Text :=
  let last := (components path).getLastD .empty
  match (last.splitOn '.').reverse with
  | [] | [_] => .empty
  | e :: _ => "." ++ e

end Path

/-- What may go wrong with a file. -/
inductive FileFault
  | missing
  | isDirectory
  | notDirectory
  /-- Any other fault, with its text. -/
  | other (text : Text)
deriving DecidableEq

namespace FileFault

/-- The text of a fault. -/
def message : FileFault → Text
  | missing => "no such file or directory"
  | isDirectory => "is a directory"
  | notDirectory => "not a directory"
  | other text => text

end FileFault

/-- Why a file could not be read or written: a fault, what was attempted, and the path. -/
structure FileError where
  attempt : Text
  path : Text
  fault : FileFault
deriving DecidableEq

namespace FileError

/-- The text of an error. -/
def message (e : FileError) : Text := e.attempt ++ " " ++ e.path ++ ": " ++ e.fault.message

end FileError

/-- Files by their location, which names the directories above a file and the file. -/
structure FileTree where
  files : List (List Text × Bytes)

/-- What is at a location. -/
inductive FileEntry
  | file (content : Bytes)
  | directory
deriving DecidableEq

namespace FileTree

/-- What is at a location. A directory is where something lies below; the top always is one. -/
def entry? (t : FileTree) (location : List Text) : Option FileEntry :=
  match t.files.find? (·.1 == location) with
  | some (_, content) => some (.file content)
  | none =>
    if location.isEmpty || t.files.any (fun f => location.isPrefixOf f.1) then some .directory
    else none

/-- Accepts a location only if it is a directory. -/
def requireDirectory (t : FileTree) (location : List Text) : Except FileFault Unit :=
  match t.entry? location with
  | some .directory => .ok ()
  | some (.file _) => .error .notDirectory
  | none => .error .missing

/-- The location that components lead to from a directory; it need not hold anything. -/
def follow (t : FileTree) : (location components : List Text) → Except FileFault (List Text)
  | location, [] => .ok location
  | location, c :: rest => do
    t.requireDirectory location
    if c.isEmpty || c == "." then t.follow location rest
    else if c == ".." then
      if location.isEmpty then .error .missing else t.follow location.dropLast rest
    else t.follow (location ++ [c]) rest

/-- The location that the components of a path lead to. -/
def locate (t : FileTree) (path : Text) (components : List Text) : Except FileFault (List Text) :=
  if path.isEmpty || path.startsWith "/" then .error .missing else t.follow [] components

/-- The content of the file at a path. -/
def read (t : FileTree) (path : Text) : Except FileError Bytes :=
  match t.locate path (Path.components path) with
  | .error fault => .error ⟨"open", path, fault⟩
  | .ok location =>
    match t.entry? location with
    | some (.file content) => .ok content
    | some .directory => .error ⟨"read", path, .isDirectory⟩
    | none => .error ⟨"open", path, .missing⟩

/-- Puts a file at a location. -/
def put (t : FileTree) (location : List Text) (content : Bytes) : FileTree :=
  if t.files.any (·.1 == location) then
    ⟨t.files.map fun f => if f.1 == location then (location, content) else f⟩
  else ⟨t.files ++ [(location, content)]⟩

/-- Writes the file at a path, in a directory that exists. A path that ends in a slash names no
    file. -/
def write (t : FileTree) (path : Text) (content : Bytes) : Except FileError FileTree :=
  let refuse (fault : FileFault) : Except FileError FileTree := .error ⟨"open", path, fault⟩
  let components := Path.components path
  let trimmed := (components.reverse.dropWhile Text.isEmpty).reverse
  match t.locate path trimmed with
  | .error fault => refuse fault
  | .ok location =>
    if trimmed.length < components.length || t.entry? location == some .directory then
      refuse .isDirectory
    else .ok (t.put location content)

end FileTree

end NetlinkSchema
