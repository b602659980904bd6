import Inlay.Source.Cursor
import Inlay.Source.Diagnostic
import Inlay.Tree.Basic

/-!
# Readers

The two kinds of computation that reading is made of.

A `Read` moves a cursor and may stop with a failure. The cursor survives the
stop: it stays where the failure was noticed, which need not be the place the
failure is about.

A `Drafting` computation also carries a `Run`, the code being collected.
Delimiters nest inside one run, so a group that fails half-way has already
put its beginning there, and the run too survives the stop.

Loops go through `many`, which repeats a body until a condition holds. The
number of passes is limited, and a loop that reaches its limit is stopped as
`exhausted`, a third outcome beside success and failure; so is a nesting
deeper than it was allowed to be. With it every computation here ends by
construction. That it never arises for the rules of the grammar, where every
pass leaves less unread than it found, is a theorem about them, proved in
`Inlay.Grammar.Progress`.

## Main definitions

* `Stop`: Why a computation ended early.
* `Read`: Computations on a cursor.
* `Run`, `Run.flush`, `Run.inlay`: Code being collected.
* `Drafting`: Computations on a cursor and a run.
* `many`: Repetition up to a limit.
-/

namespace Inlay

/-- Why a computation ended early. -/
inductive Stop where
  /-- The source is malformed. -/
  | failure (f : Failure)
  /-- A loop reached its limit, or the allowed nesting was used up. -/
  | exhausted
deriving DecidableEq

/-- Computations that move a cursor. -/
abbrev Read := EStateM Stop Cursor

namespace Read

variable {α : Type}

/-- Stops with a failure about a given place. -/
def fail (cause : Cause) (loc : Location) : Read α :=
  throw (.failure ⟨cause, loc⟩)

/-- Stops with a failure about the current place. -/
def failHere (cause : Cause) : Read α :=
  fun c => fail cause c.loc c

/-- Where the cursor stands. -/
def location : Read Location :=
  return (← get).loc

/-- Stops with a failure about a given place unless a condition holds. -/
def ensure (ok : Cursor → Bool) (cause : Cause) (loc : Location) : Read Unit := do
  if ok (← get) then pure () else fail cause loc

/-- Stops with a failure about the current place unless a condition holds. -/
def ensureHere (ok : Cursor → Bool) (cause : Cause) : Read Unit := do
  if ok (← get) then pure () else failHere cause

/-- Steps past the current fragment. -/
def advance : Read Unit :=
  modify Cursor.advance

/-- Steps past the current fragment and hands it over. -/
def take : Read (List Char) :=
  modifyGet Cursor.take

/-- Peels a stretch off the current fragment. -/
def split (p : Pattern) : Read (List Char) :=
  modifyGet (Cursor.split p)

/-- Passes blank space. -/
def skipBlank : Read Unit :=
  modify Cursor.skipBlank

/-- Takes fragments up to one of `stops`, or to the end. -/
def takeUntil (stops : List (List Char)) : Read (List Char) :=
  modifyGet (Cursor.takeUntil stops)

/-- Takes the text of a string up to its closing quote, or to the end. -/
def takeQuoted (quote : List Char) : Read (List Char) :=
  modifyGet (Cursor.takeQuoted quote)

end Read

/-- Code being collected: the segments that are finished, the text that is
    pending, and where that text begins. -/
structure Run where
  segments : Code := []
  text : List Char := []
  loc : Location

namespace Run

/-- Closes the pending text as a segment, unless there is none. -/
def flush (r : Run) : Run :=
  if r.text.isEmpty then r
  else { r with segments := r.segments ++ [.text r.text r.loc], text := [] }

/-- Adds an element; text goes on at `resume`. -/
def inlay (r : Run) (e : Element) (resume : Location) : Run :=
  { r.flush with segments := r.flush.segments ++ [.element e], loc := resume }

/-- Adds to the pending text. -/
def append (r : Run) (text : List Char) : Run :=
  { r with text := r.text ++ text }

end Run

/-- A cursor and the run that is being collected with it. -/
structure Draft where
  cursor : Cursor
  run : Run

/-- Computations that move a cursor and collect code. -/
abbrev Drafting := EStateM Stop Draft

namespace Drafting

variable {α : Type}

/-- Moves the cursor and leaves the run as it is. -/
def read (x : Read α) : Drafting α := fun d =>
  match x d.cursor with
  | .ok a c => .ok a { d with cursor := c }
  | .error e c => .error e { d with cursor := c }

/-- Adds to the pending text what a reader hands over. -/
def write (x : Read (List Char)) : Drafting Unit := do
  let text ← read x
  modify fun d => { d with run := d.run.append text }

/-- Adds an element to the run; text goes on behind it. -/
def inlay (x : Read Element) : Drafting Unit := do
  let e ← read x
  modify fun d => { d with run := d.run.inlay e d.cursor.loc }

end Drafting

/-- Collects code into a run that nobody else sees, and hands the run over. -/
def Read.collect {α : Type} (run : Run) (x : Drafting α) : Read Run := fun c =>
  match x { cursor := c, run } with
  | .ok _ d => .ok d.run d.cursor
  | .error e d => .error e d.cursor

/-- Repeats `body` until `stop` holds, and fewer than `limit` times. -/
def many {σ α : Type} (stop : σ → Bool) (body : EStateM Stop σ α) :
    Nat → EStateM Stop σ (List α)
  | 0 => throw .exhausted
  | limit + 1 => do
    if stop (← get) then return []
    else
      let a ← body
      return a :: (← many stop body limit)

end Inlay
