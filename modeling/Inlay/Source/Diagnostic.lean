import Inlay.Source.Location

/-!
# Diagnostics

Why a source could not be read, and how that is told.

The reader reports a `Failure`: one of the causes below and a location. What
a person sees is a `Diagnostic`, which adds the source text found at that
location, cut to thirty characters and without line breaks. The two are kept
apart because the reader has no use for the source as a whole: the snippet is
a function of the source and the location alone.

A snippet is cut by a pair of bounds in which a negative bound counts back
from the end, so that any pair of integers asks for some stretch of the
source, possibly an empty one.

## Main definitions

* `Cause`: The ways in which reading fails.
* `Failure`: A cause and where it applies.
* `slice`: The stretch of a text between two bounds.
* `snippet`: The text shown beside a failure.
* `Diagnostic`: A message, a location and a snippet.
* `Diagnostic.text`: The whole line that is shown.
-/

namespace Inlay

/-- The ways in which reading fails. The causes named `not...` are guards: a
    construct was asked for where it does not begin. -/
inductive Cause where
  | notElement
  | badName
  | unterminatedTag
  | missingEndTag
  | mismatchedTags
  | malformedEndTag
  | unrecognizedEntry
  | notProperty
  | unexpectedValue
  | notMixin
  | notBracedMixin
  | notComment
  | unterminatedComment
  | notInsertion
  | notCode
  | notBracedCode
  | notGroup
  | unterminatedGroup
  | notString
  | unterminatedString
  | notCodeComment
  | unterminatedBlock
deriving DecidableEq

namespace Cause

/-- The wording of a cause. -/
def message : Cause → String
  | notElement => "not at start of html element"
  | badName => "bad element name"
  | unterminatedTag => "unterminated start node"
  | missingEndTag => "element missing close tag"
  | mismatchedTags => "mismatched open and close tags"
  | malformedEndTag => "malformed close tag"
  | unrecognizedEntry => "unrecognized content in begin tag"
  | notProperty => "not at start of property declaration"
  | unexpectedValue => "unexpected value for JSX property"
  | notMixin => "not at start of mixin"
  | notBracedMixin => "not at start of JSX mixin"
  | notComment => "not in HTML comment"
  | unterminatedComment => "unterminated html comment"
  | notInsertion => "not at start of code insert"
  | notCode => "not in embedded code"
  | notBracedCode => "not at start of JSX embedded code"
  | notGroup => "not in parentheses"
  | unterminatedGroup => "unterminated parentheses"
  | notString => "not in quoted string"
  | unterminatedString => "unterminated string"
  | notCodeComment => "not in code comment"
  | unterminatedBlock => "unterminated multi-line comment"

end Cause

/-- A cause and the place it is about. -/
structure Failure where
  cause : Cause
  loc : Location
deriving DecidableEq

/-- A bound as an offset into a text of `size` characters: a negative bound
    counts back from the end, and no bound leads out of the text. -/
def bound (size : Nat) (i : Int) : Nat :=
  if i < 0 then (i + size).toNat else min i.toNat size

/-- The stretch of a text from one bound up to another. -/
def slice (text : List Char) (start stop : Int) : List Char :=
  let i := bound text.length start
  (text.drop i).take (bound text.length stop - i)

/-- How many characters of the source are shown beside a failure. -/
def snippetLength : Int := 30

/-- The source text at an offset, cut to a length, without line breaks. -/
def snippet (source : List Char) (pos : Int) (length : Int := snippetLength) : List Char :=
  (slice source pos (pos + length)).filter fun c => c != '\n' && c != '\r'

/-- What is told about a failure. -/
structure Diagnostic where
  message : String
  loc : Location
  snippet : String := ""
deriving DecidableEq

namespace Diagnostic

/-- A message about a place in a source, with the source text found there. -/
def ofSource (message : String) (loc : Location) (source : List Char) : Diagnostic :=
  { message, loc, snippet := String.ofList (Inlay.snippet source loc.pos) }

/-- The line that is shown: message, line, column and snippet. -/
def text (d : Diagnostic) : String :=
  d.message ++ " at line " ++ toString d.loc.line ++ " col " ++ toString d.loc.col
    ++ ": ``" ++ d.snippet ++ "''"

end Diagnostic

/-- A failure told with the source it happened in. -/
def Failure.diagnostic (f : Failure) (source : List Char) : Diagnostic :=
  Diagnostic.ofSource f.cause.message f.loc source

end Inlay
