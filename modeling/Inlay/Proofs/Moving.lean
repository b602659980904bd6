import Inlay.Proofs.Derivation

/-!
# Moving Trees

What becomes of a tree when lines are put in front of its source. Everything
in it stands as many lines and as many characters further down, in the same
column, and nothing else changes.

Moving commutes with both ways in which a location follows the text, and so
with everything that code is collected by. Pieces are compared by what a run
makes of them (`Says`), since a run does not know how a text was divided.

## Main definitions

* `Location.moved`: The same place behind some more lines.
* `Root.moved`: A tree behind some more lines.
* `Says`: Pieces that give the same run, up to a move.

## Theorems

* `movedCode_zero`: Moving by nothing.
* `Run.moved_inlay`, `Run.moved_flush`: Collecting commutes with moving.
* `Rule.unbraced_moved`: So does cutting off braces.
-/

namespace Inlay

namespace Location

/-- The same place behind some more lines with some more characters. -/
def moved (lines chars : Int) (loc : Location) : Location :=
  { line := loc.line + lines, col := loc.col, pos := loc.pos + chars }

variable (lines chars : Int) (loc : Location)

theorem moved_zero : loc.moved 0 0 = loc := by
  simp only [moved, Int.add_zero]

theorem moved_shifted (count : Int) :
    (loc.shifted count).moved lines chars = (loc.moved lines chars).shifted count := by
  simp only [moved, shifted, Int.add_right_comm]

theorem moved_nextLine : loc.nextLine.moved lines chars = (loc.moved lines chars).nextLine := by
  simp only [moved, nextLine, Int.add_right_comm]

end Location

mutual

/-- An element behind some more lines. -/
def Element.moved (lines chars : Int) : Element → Element
  | .mk tag attributes content loc =>
    .mk tag (movedAttributes lines chars attributes) (movedContent lines chars content)
      (loc.moved lines chars)

/-- An attribute behind some more lines. -/
def Attribute.moved (lines chars : Int) : Attribute → Attribute
  | .fixed name value => .fixed name value
  | .computed name code loc =>
    .computed name (movedCode lines chars code) (loc.moved lines chars)
  | .mixin code loc => .mixin (movedCode lines chars code) (loc.moved lines chars)

/-- An entry of content behind some more lines. -/
def Child.moved (lines chars : Int) : Child → Child
  | .element e => .element (e.moved lines chars)
  | .insertion code loc => .insertion (movedCode lines chars code) (loc.moved lines chars)
  | .comment text => .comment text
  | .text text => .text text

/-- A segment behind some more lines. -/
def Segment.moved (lines chars : Int) : Segment → Segment
  | .text text loc => .text text (loc.moved lines chars)
  | .element e => .element (e.moved lines chars)

/-- Attributes behind some more lines. -/
def movedAttributes (lines chars : Int) : List Attribute → List Attribute
  | [] => []
  | a :: rest => a.moved lines chars :: movedAttributes lines chars rest

/-- Content behind some more lines. -/
def movedContent (lines chars : Int) : List Child → List Child
  | [] => []
  | c :: rest => c.moved lines chars :: movedContent lines chars rest

/-- Code behind some more lines. -/
def movedCode (lines chars : Int) : List Segment → List Segment
  | [] => []
  | s :: rest => s.moved lines chars :: movedCode lines chars rest

end

/-- A tree behind some more lines. -/
def Root.moved (lines chars : Int) (r : Root) : Root :=
  { segments := movedCode lines chars r.segments }

/-- A failure behind some more lines. -/
def Failure.moved (lines chars : Int) (f : Failure) : Failure :=
  { f with loc := f.loc.moved lines chars }

/-- A diagnostic behind some more lines. -/
def Diagnostic.moved (lines chars : Int) (d : Diagnostic) : Diagnostic :=
  { d with loc := d.loc.moved lines chars }

/-! ### Moving by nothing -/

mutual

theorem Element.moved_zero : (e : Element) → e.moved 0 0 = e
  | .mk tag attributes content loc => by
      rw [Element.moved, movedAttributes_zero, movedContent_zero, Location.moved_zero]

theorem Attribute.moved_zero : (a : Attribute) → a.moved 0 0 = a
  | .fixed name value => rfl
  | .computed name code loc => by rw [Attribute.moved, movedCode_zero, Location.moved_zero]
  | .mixin code loc => by rw [Attribute.moved, movedCode_zero, Location.moved_zero]

theorem Child.moved_zero : (x : Child) → x.moved 0 0 = x
  | .element e => by rw [Child.moved, Element.moved_zero]
  | .insertion code loc => by rw [Child.moved, movedCode_zero, Location.moved_zero]
  | .comment text => rfl
  | .text text => rfl

theorem Segment.moved_zero : (s : Segment) → s.moved 0 0 = s
  | .text text loc => by rw [Segment.moved, Location.moved_zero]
  | .element e => by rw [Segment.moved, Element.moved_zero]

theorem movedAttributes_zero : (as : List Attribute) → movedAttributes 0 0 as = as
  | [] => rfl
  | a :: rest => by rw [movedAttributes, Attribute.moved_zero, movedAttributes_zero]

theorem movedContent_zero : (xs : List Child) → movedContent 0 0 xs = xs
  | [] => rfl
  | x :: rest => by rw [movedContent, Child.moved_zero, movedContent_zero]

theorem movedCode_zero : (ss : List Segment) → movedCode 0 0 ss = ss
  | [] => rfl
  | s :: rest => by rw [movedCode, Segment.moved_zero, movedCode_zero]

end

/-! ### Moving what is collected -/

section

variable (lines chars : Int)

theorem movedCode_append (ss ss' : Code) :
    movedCode lines chars (ss ++ ss') = movedCode lines chars ss ++ movedCode lines chars ss' := by
  induction ss with
  | nil => rfl
  | cons x ss ih => rw [List.cons_append, movedCode, ih, movedCode, List.cons_append]

theorem movedCode_ne_nil {ss : Code} (h : ss ≠ []) : movedCode lines chars ss ≠ [] := by
  cases ss with
  | nil => exact absurd rfl h
  | cons x ss =>
      rw [movedCode]
      exact List.cons_ne_nil _ _

namespace Run

/-- A run behind some more lines. -/
def moved (r : Run) : Run :=
  { segments := movedCode lines chars r.segments, text := r.text, loc := r.loc.moved lines chars }

variable (r : Run)

theorem moved_zero : r.moved 0 0 = r := by
  rw [moved, movedCode_zero, Location.moved_zero]

theorem moved_flush : r.flush.moved lines chars = (r.moved lines chars).flush := by
  unfold flush
  by_cases htext : r.text.isEmpty = true
  · have htext' : (r.moved lines chars).text.isEmpty = true := htext
    rw [if_pos htext, if_pos htext']
  · have htext' : ¬ (r.moved lines chars).text.isEmpty = true := htext
    rw [if_neg htext, if_neg htext', moved, movedCode_append]
    rfl

theorem moved_inlay (e : Element) (resume : Location) :
    (r.inlay e resume).moved lines chars =
      (r.moved lines chars).inlay (e.moved lines chars) (resume.moved lines chars) := by
  rw [inlay, inlay, ← moved_flush, moved, movedCode_append]
  rfl

end Run

/-- Code between braces is cut out of a run wherever the run stands. -/
theorem Rule.unbraced_moved (mark : Nat) (r : Run) :
    unbraced mark (r.moved lines chars) = movedCode lines chars (unbraced mark r) := by
  have hclosed : (r.moved lines chars).segments ++
      [.text (r.moved lines chars).text.dropLast (r.moved lines chars).loc] =
      movedCode lines chars (r.segments ++ [.text r.text.dropLast r.loc]) := by
    rw [movedCode_append]
    rfl
  rw [unbraced, unbraced, hclosed]
  -- The first segment decides, and moving does not change what it is.
  cases r.segments ++ [.text r.text.dropLast r.loc] with
  | nil => rfl
  | cons first rest =>
      cases first with
      | text t loc =>
          simp only [movedCode, Segment.moved, Location.moved_shifted]
      | element e => rfl

end

/-- The second pieces give what the first give, behind some more lines. -/
def Says (lines chars : Int) (ps qs : List Piece) : Prop :=
  ∀ r : Run, (r.moved lines chars).extend qs = (r.extend ps).moved lines chars

namespace Says

variable {lines chars : Int} {ps ps' qs qs' : List Piece}

theorem nil : Says lines chars [] [] :=
  fun _ => rfl

theorem text (t : List Char) : Says lines chars [.text t] [.text t] :=
  fun _ => rfl

theorem inlay (e : Element) (resume : Location) :
    Says lines chars [.inlay e resume]
      [.inlay (e.moved lines chars) (resume.moved lines chars)] :=
  fun r => (r.moved_inlay lines chars e resume).symm

theorem append (h : Says lines chars ps qs) (h' : Says lines chars ps' qs') :
    Says lines chars (ps ++ ps') (qs ++ qs') := by
  intro r
  rw [Run.extend_append, Run.extend_append, h, h']

/-- A text is divided without a difference. -/
theorem divide {t u : List Char} (h : Says lines chars [.text u] qs) :
    Says lines chars [.text (t ++ u)] (.text t :: qs) := by
  intro r
  have hjoin : r.append (t ++ u) = (r.append t).append u := by
    simp only [Run.append, List.append_assoc]
  exact (h (r.append t)).trans (congrArg (Run.moved lines chars) hjoin.symm)

theorem flush (h : Says lines chars ps qs) (loc : Location) :
    (Run.extend { loc := loc.moved lines chars } qs).flush.segments =
      movedCode lines chars (Run.extend { loc } ps).flush.segments := by
  have hrun := congrArg Run.flush (h { loc })
  rw [← Run.moved_flush] at hrun
  exact congrArg Run.segments hrun

theorem unbraced (h : Says lines chars ps qs) (loc : Location) (mark : Nat) :
    Rule.unbraced mark (Run.extend { loc := loc.moved lines chars } qs) =
      movedCode lines chars (Rule.unbraced mark (Run.extend { loc } ps)) := by
  rw [← Rule.unbraced_moved]
  exact congrArg (Rule.unbraced mark) (h { loc })

end Says

end Inlay
