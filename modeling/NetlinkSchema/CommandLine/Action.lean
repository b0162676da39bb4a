import NetlinkSchema.Files

/-!
# Actions

What a command does to the world around it: it reads and writes files, reads its input, and prints.
An action is a tree of such steps, so that a command is an ordinary value: it can be run on a tree
of files, and it can be performed for real. It may also break off and leave no result.

## Main definitions

* `Action`: Steps that lead to a result.
* `World`: Files, the input, and what was printed so far.
* `Action.run`: The effect of an action on a world.

## Theorems

* `Action.run_andThen`: The second action runs in the world that the first one leaves.
-/

namespace NetlinkSchema

/-- Where a command prints. -/
inductive Stream
  | output
  | errors
deriving DecidableEq

/-- Steps that lead to a result. -/
inductive Action (α : Type)
  | done (a : α)
  /-- Nothing follows, and there is no result. -/
  | abort
  | readFile (path : Text) (next : Except FileError Bytes → Action α)
  | writeFile (path : Text) (content : Bytes) (next : Except FileError Unit → Action α)
  | readInput (next : Bytes → Action α)
  | print (stream : Stream) (content : Bytes) (next : Action α)

namespace Action

/-- One action, and then another that depends on the result. -/
def andThen {α β : Type} (f : α → Action β) : Action α → Action β
  | done a => f a
  | abort => abort
  | readFile path next => readFile path fun r => andThen f (next r)
  | writeFile path content next => writeFile path content fun r => andThen f (next r)
  | readInput next => readInput fun b => andThen f (next b)
  | print stream content next => print stream content (andThen f next)

instance : Monad Action where
  pure := done
  bind x f := andThen f x

/-- Prints a line of text for the user. -/
def complain (line : Text) : Action Unit := print .errors (line ++ "\n").utf8 (done ())

end Action

/-- What surrounds a command. -/
structure World where
  files : FileTree
  input : Bytes
  output : Bytes
  errors : Bytes

namespace World

/-- Appends to what was printed. -/
def print (w : World) (content : Bytes) : Stream → World
  | .output => { w with output := w.output ++ content }
  | .errors => { w with errors := w.errors ++ content }

end World

namespace Action

/-- The result of an action, if it has one, and the world after it. -/
def run {α : Type} : Action α → World → Option α × World
  | done a, w => (some a, w)
  | abort, w => (none, w)
  | readFile path next, w => run (next (w.files.read path)) w
  | writeFile path content next, w =>
    match w.files.write path content with
    | .ok files => run (next (.ok ())) { w with files := files }
    | .error e => run (next (.error e)) w
  | readInput next, w => run (next w.input) { w with input := [] }
  | print stream content next, w => run next (w.print content stream)

/-- The second action runs in the world that the first one leaves, unless that one broke off. -/
theorem run_andThen {α β : Type} (f : α → Action β) (x : Action α) (w : World) :
    (andThen f x).run w = ((x.run w).1.elim abort f).run (x.run w).2 := by
  induction x generalizing w with
  | done a => rfl
  | abort => rfl
  | readFile path next ih => exact ih _ w
  | writeFile path content next ih =>
    simp only [andThen, run]
    split
    · exact ih _ _
    · exact ih _ w
  | readInput next ih => exact ih _ _
  | print stream content next ih => exact ih _

end Action

end NetlinkSchema
