import Inlay.Grammar.Reader

/-!
# Rules of the Grammar

How fragments read as a tree. Host code is read for its text alone, with just
enough attention to strings, comments and delimiters to know where it ends
and where an element is inlaid in it; markup is read for its structure.

There are two grammars, which differ in how markup hands over to code:

    construct          sigil grammar    brace grammar
    -----------------  ---------------  --------------
    insertion          @expr            {expr}
    computed value     name=expr        name={expr}
    mixin              @expr            {...expr}

Elements hold code and groups of delimiters hold elements, so the rules are
mutually recursive. The recursion is left open: a rule receives what may nest
in it as an argument (`Nested`), and `nested` closes the knot level by level.
Each rule is thereby a plain definition that is read, and reasoned about, on
its own, and a property of the whole grammar is proved once per rule.

## Main definitions

* `Grammar`: The two grammars.
* `quotedString`, `lineComment`, `blockComment`: Literals of host code.
* `element`, `tagEntry`, `child`: Markup.
* `group`, `openCode`, `bracedCode`, `topLevel`: Code.
* `nested`: The grammar up to a depth of nesting.
-/

namespace Inlay

/-- How markup hands over to code. -/
inductive Grammar where
  /-- Code follows a sign and runs to the first boundary outside any nesting. -/
  | sigil
  /-- Code stands between braces. -/
  | brace
deriving DecidableEq

namespace Grammar

/-- What begins an insertion in content. -/
def insertionMark : Grammar → List Char
  | sigil => ['@']
  | brace => ['{']

/-- What begins a mixin in a tag. -/
def mixinMark : Grammar → List Char
  | sigil => ['@']
  | brace => Marker.spread

end Grammar

/-- The marks that open and close a string. -/
def quotes : List (List Char) := [['"'], ['\'']]

namespace Rule

open Read

/-! ### Literals -/

/-- A quoted string, its quotes included. A quote behind an odd number of
    backslashes belongs to the string. -/
def quotedString : Read (List Char) := do
  let start ← location
  ensureHere (·.isAt quotes) .notString
  let quote ← take
  let text ← takeQuoted quote
  ensure (!·.eof) .unterminatedString start
  return text ++ (← take)

/-- A comment that runs through the end of its line, or to the end. -/
def lineComment : Read (List Char) := do
  ensureHere (·.isAt [Marker.lineComment]) .notCodeComment
  let text ← takeUntil [['\n']]
  if (← get).eof then return text else return text ++ (← take)

/-- A comment up to its closing mark, both marks included. -/
def blockComment : Read (List Char) := do
  let start ← location
  ensureHere (·.isAt [Marker.blockOpen]) .notCodeComment
  let text ← takeUntil [Marker.blockClose]
  ensure (!·.eof) .unterminatedBlock start
  return text ++ (← take)

/-! ### Code -/

/-- What may nest in a rule: elements, and groups of delimiters. How deep they
    may nest in turn also limits how often a rule repeats its parts. -/
structure Nested where
  depth : Nat
  element : Read Element
  group : Drafting Unit

/-- One piece of host code: a literal, an inlaid element, or something else. -/
def piece (inner : Nested) (otherwise : Drafting Unit) : Drafting Unit := do
  let c := (← get).cursor
  if c.isAt quotes then Drafting.write quotedString
  else if c.isAt [Marker.lineComment] then Drafting.write lineComment
  else if c.isAt [Marker.blockOpen] then Drafting.write blockComment
  else if c.isAt [['<']] then Drafting.inlay inner.element
  else otherwise

/-- One piece of code between delimiters, where delimiters may nest. -/
def groupPiece (inner : Nested) : Drafting Unit :=
  piece inner do
    if (← get).cursor.closer?.isSome then inner.group else Drafting.write take

/-- An opening delimiter, what it encloses, and its closing delimiter. -/
def group (inner : Nested) : Drafting Unit := do
  let c := (← get).cursor
  match c.closer? with
  | none => Drafting.read (failHere .notGroup)
  | some close =>
    Drafting.write take
    let _ ← many (fun d => d.cursor.eof || d.cursor.isAt [close]) (groupPiece inner) inner.depth
    Drafting.read (ensure (!·.eof) .unterminatedGroup c.loc)
    Drafting.write take

/-- One piece of code outside any nesting. -/
def openPiece (inner : Nested) : Drafting Unit := do
  let c := (← get).cursor
  if c.closer?.isSome then inner.group
  else if c.isAt quotes then Drafting.write quotedString
  else Drafting.write (split Pattern.codeStretch)

/-- Code up to the first boundary outside any nesting. There has to be some. -/
def openCode (inner : Nested) : Read Code := do
  let start ← location
  let run ← collect { loc := start } <|
    many (fun d => d.cursor.eof || (d.cursor.matched? Pattern.codeEnd).isSome) (openPiece inner)
      inner.depth
  let code := run.flush.segments
  ensure (fun _ => !code.isEmpty) .notCode start
  return code

/-- The code of a run that holds one braced group, without its braces: the
    opening mark is `mark` characters long and the closing one is the last
    character. -/
def unbraced (mark : Nat) (run : Run) : Code :=
  match run.segments ++ [.text run.text.dropLast run.loc] with
  | .text text loc :: rest => .text (text.drop mark) (loc.shifted mark) :: rest
  | code => code

/-- Code between braces, which are left out. -/
def bracedCode (inner : Nested) : Read Code := do
  ensureHere (·.isAt [['{'], Marker.spread]) .notBracedCode
  let c ← get
  let run ← collect { loc := c.loc } inner.group
  return unbraced c.current.length run

/-- Code as markup hands over to it. -/
def code (g : Grammar) (inner : Nested) : Read Code :=
  match g with
  | .sigil => openCode inner
  | .brace => bracedCode inner

/-- A whole source: host code with elements inlaid in it. -/
def topLevel (inner : Nested) : Read Root := do
  let start ← location
  let run ← collect { loc := start } <|
    many (·.cursor.eof) (piece inner (Drafting.write take)) inner.depth
  return { segments := run.flush.segments }

/-! ### Attributes -/

/-- A name, with a value if an equals sign follows it. -/
def property (g : Grammar) (inner : Nested) : Read Attribute := do
  ensureHere (fun c => (c.matched? Pattern.identifier).isSome) .notProperty
  let loc ← location
  let name ← split Pattern.identifier
  skipBlank
  if (← get).isAt [['=']] then
    advance
    skipBlank
    if (← get).isAt quotes then
      return .fixed name (← quotedString)
    else
      ensureHere (fun c => g = .sigil || c.isAt [['{']]) .unexpectedValue
      return .computed name (← code g inner) loc
  else return .fixed name ['t', 'r', 'u', 'e']

/-- A mixin behind its sign. -/
def openMixin (inner : Nested) : Read Attribute := do
  ensureHere (·.isAt [['@']]) .notMixin
  let loc ← location
  advance
  return .mixin (← openCode inner) loc

/-- A mixin between braces. -/
def bracedMixin (inner : Nested) : Read Attribute := do
  ensureHere (·.isAt [Marker.spread]) .notBracedMixin
  let loc ← location
  return .mixin (← bracedCode inner) loc

/-- A mixin as the grammar writes it. -/
def mixin (g : Grammar) (inner : Nested) : Read Attribute :=
  match g with
  | .sigil => openMixin inner
  | .brace => bracedMixin inner

/-- One entry of an opening tag. -/
def tagEntry (g : Grammar) (inner : Nested) : Read Attribute := do
  let c ← get
  if (c.matched? Pattern.identifier).isSome then property g inner
  else if c.isAt [g.mixinMark] then mixin g inner
  else failHere .unrecognizedEntry

/-! ### Content -/

/-- Text up to the next mark that means something in content. -/
def text (g : Grammar) : Read Child :=
  return .text (← takeUntil [['<'], Marker.commentOpen, Marker.endOpen, g.insertionMark])

/-- A comment, of which the body is kept. -/
def comment : Read Child := do
  let start ← location
  ensureHere (·.isAt [Marker.commentOpen]) .notComment
  advance
  let body ← takeUntil [Marker.commentClose]
  ensure (!·.eof) .unterminatedComment start
  advance
  return .comment body

/-- An insertion behind its sign. -/
def openInsertion (inner : Nested) : Read Child := do
  ensureHere (·.isAt [['@']]) .notInsertion
  let loc ← location
  advance
  return .insertion (← openCode inner) loc

/-- An insertion between braces. -/
def bracedInsertion (inner : Nested) : Read Child := do
  let loc ← location
  return .insertion (← bracedCode inner) loc

/-- An insertion as the grammar writes it. -/
def insertion (g : Grammar) (inner : Nested) : Read Child :=
  match g with
  | .sigil => openInsertion inner
  | .brace => bracedInsertion inner

/-- One entry of an element's content. -/
def child (g : Grammar) (inner : Nested) : Read Child := do
  let c ← get
  if c.isAt [['<']] then return .element (← inner.element)
  else if c.isAt [g.insertionMark] then insertion g inner
  else if c.isAt [Marker.commentOpen] then comment
  else text g

/-! ### Elements -/

/-- The name behind an opening mark. -/
def tagName (start : Location) : Read (List Char) := do
  let tag ← split Pattern.identifier
  ensure (fun _ => !tag.isEmpty) .badName start
  return tag

/-- One entry of an opening tag, and the blank space behind it. -/
def spacedEntry (g : Grammar) (inner : Nested) : Read Attribute := do
  let a ← tagEntry g inner
  skipBlank
  return a

/-- The closing tag of an element that began at `start`. -/
def endTag (tag : List Char) (start : Location) : Read Unit := do
  ensure (!·.eof) .missingEndTag start
  advance
  let name ← split Pattern.identifier
  ensure (fun _ => name = tag) .mismatchedTags start
  ensureHere (·.isAt [['>']]) .malformedEndTag
  advance

/-- An element, from its opening tag through its closing tag. -/
def element (g : Grammar) (inner : Nested) : Read Element := do
  let start ← location
  ensureHere (·.isAt [['<']]) .notElement
  advance
  let tag ← tagName start
  skipBlank
  let attributes ← many (fun c => c.eof || c.isAt [['>'], Marker.emptyClose]) (spacedEntry g inner)
    inner.depth
  ensure (!·.eof) .unterminatedTag start
  if (← take) = Marker.emptyClose then return .mk tag attributes [] start
  else
    let content ← many (fun c => c.eof || c.isAt [Marker.endOpen]) (child g inner) inner.depth
    endTag tag start
    return .mk tag attributes content start

/-! ### Nesting -/

/-- What may nest to a given depth. At depth zero nothing may. -/
def nested (g : Grammar) : Nat → Nested
  | 0 => { depth := 0, element := throw .exhausted, group := throw .exhausted }
  | depth + 1 =>
    let inner := nested g depth
    { depth := depth + 1, element := element g inner, group := group inner }

end Rule

end Inlay
