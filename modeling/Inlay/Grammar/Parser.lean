import Inlay.Grammar.Progress

/-!
# Parsers

The rules of the grammar as a user meets them: started anywhere, they end
with a result or with a failure, and leave the cursor where they stopped.

A rule is run with one more level of nesting than there are characters left
to read. By `Rule.nested_bounded` this is enough, so the outcome in which the
nesting is used up is excluded by proof, and nothing of it shows here.

`parse` reads a whole source that has already been cut into fragments, and
`parseSource` one that has not. The first accepts any texts as fragments,
also texts that no source is cut into.

## Main definitions

* `Parser`, `DraftParser`: Reading that ends.
* `Parser.element` and the others: The rules of the grammar.
* `parse`: The tree of a sequence of fragments.
* `parseSource`: The tree of a source.
-/

namespace Inlay

/-- Reading that ends with a result or a failure. -/
abbrev Parser := EStateM Failure Cursor

/-- Collecting code, which ends with a result or a failure. -/
abbrev DraftParser := EStateM Failure Draft

/-- The outcome of a computation that did not end exhausted. -/
def settle {σ α : Type} (r : EStateM.Result Stop σ α) (h : ∀ s, r ≠ .error .exhausted s) :
    EStateM.Result Failure σ α :=
  match r, h with
  | .ok a s, _ => .ok a s
  | .error (.failure f) s, _ => .error f s
  | .error .exhausted s, h => absurd rfl (h s)

/-- What is promised to stop for a reason does not end exhausted. -/
theorem Contract.ne_exhausted {σ α : Type} {P : σ → Prop} {x : EStateM Stop σ α}
    {Q : α → σ → Prop} (h : Contract P x Q Ordinary) {s : σ} (hs : P s) (s' : σ) :
    x s ≠ .error .exhausted s' := by
  intro heq
  have hx := h s hs
  rw [heq] at hx
  exact hx rfl

namespace Parser

variable {α : Type}

/-- Runs a rule that comes to an end, with enough nesting for what is left to
    read. -/
def run (g : Grammar) (rule : Rule.Nested → Read α)
    (h : ∀ {n k inner}, Rule.Bounded n inner → k < n → Ends k (rule inner)) : Parser α := fun c =>
  settle (rule (Rule.nested g (c.size + 1)) c)
    ((h (Rule.nested_bounded g (c.size + 1)) (Nat.lt_succ_self c.size)).ne_exhausted (Nat.le_refl _))

/-- A quoted string. -/
def quotedString : Parser (List Char) :=
  run .sigil (fun _ => Rule.quotedString) fun _ _ => Rule.quotedString_shrinks.ends

/-- A comment in code that ends with its line. -/
def lineComment : Parser (List Char) :=
  run .sigil (fun _ => Rule.lineComment) fun _ _ => Rule.lineComment_shrinks.ends

/-- A comment in code that may span lines. -/
def blockComment : Parser (List Char) :=
  run .sigil (fun _ => Rule.blockComment) fun _ _ => Rule.blockComment_shrinks.ends

/-- An element. -/
def element (g : Grammar) : Parser Element :=
  run g (Rule.element g) fun hinner hk => (Rule.element_shrinks hinner (Nat.le_of_lt hk)).ends

/-- An entry of an opening tag. -/
def tagEntry (g : Grammar) : Parser Attribute :=
  run g (Rule.tagEntry g) fun hinner hk => (Rule.tagEntry_shrinks hinner hk).ends

/-- A name with its value, in an opening tag. -/
def property (g : Grammar) : Parser Attribute :=
  run g (Rule.property g) fun hinner hk => (Rule.property_shrinks hinner hk).ends

/-- A mixin behind its sign. -/
def openMixin (g : Grammar) : Parser Attribute :=
  run g Rule.openMixin fun hinner hk => (Rule.openMixin_shrinks hinner hk).ends

/-- A mixin between braces. -/
def bracedMixin (g : Grammar) : Parser Attribute :=
  run g Rule.bracedMixin fun hinner hk => (Rule.bracedMixin_shrinks hinner hk).ends

/-- An entry of an element's content. -/
def child (g : Grammar) : Parser Child :=
  run g (Rule.child g) fun hinner hk => Rule.child_ends hinner hk

/-- Text in an element's content. -/
def text (g : Grammar) : Parser Child :=
  run g (fun _ => Rule.text g) fun _ _ => Rule.text_ends

/-- A comment in an element's content. -/
def comment : Parser Child :=
  run .sigil (fun _ => Rule.comment) fun _ _ => Rule.comment_shrinks.ends

/-- An insertion behind its sign. -/
def openInsertion (g : Grammar) : Parser Child :=
  run g Rule.openInsertion fun hinner hk => (Rule.openInsertion_shrinks hinner hk).ends

/-- An insertion between braces. -/
def bracedInsertion (g : Grammar) : Parser Child :=
  run g Rule.bracedInsertion fun hinner hk => (Rule.bracedInsertion_shrinks hinner hk).ends

/-- Code up to the first boundary outside any nesting. -/
def openCode (g : Grammar) : Parser Code :=
  run g Rule.openCode fun hinner hk => Rule.openCode_ends hinner hk

/-- Code between braces. -/
def bracedCode (g : Grammar) : Parser Code :=
  run g Rule.bracedCode fun hinner hk => (Rule.bracedCode_shrinks hinner hk).ends

/-- A whole source. -/
def topLevel (g : Grammar) : Parser Root :=
  run g Rule.topLevel fun hinner hk => Rule.topLevel_ends hinner hk

end Parser

namespace DraftParser

/-- Collects a group of delimiters and what it encloses. -/
def group (g : Grammar) : DraftParser Unit := fun d =>
  let depth := d.cursor.size + 1
  settle (Rule.group (Rule.nested g depth) d)
    ((Rule.group_shrinks (Rule.nested_bounded g depth) (Nat.le_succ d.cursor.size)).ne_exhausted
      (Nat.le_refl d.cursor.size))

/-- Adds the element that begins here to the run. -/
def inlay (g : Grammar) : DraftParser Unit := fun d =>
  match Parser.element g d.cursor with
  | .ok e c => .ok () { cursor := c, run := d.run.inlay e c.loc }
  | .error f c => .error f { d with cursor := c }

end DraftParser

/-- The tree of a sequence of fragments, or what is wrong with it. -/
def parse (g : Grammar) (fragments : List (List Char)) : Except Diagnostic Root :=
  match Parser.topLevel g (Cursor.ofTexts fragments) with
  | .ok root _ => .ok root
  | .error f _ => .error (f.diagnostic fragments.flatten)

/-- The tree of a source, or what is wrong with it. -/
def parseSource (g : Grammar) (source : List Char) : Except Diagnostic Root :=
  parse g ((tokenize source).map Fragment.text)

end Inlay
