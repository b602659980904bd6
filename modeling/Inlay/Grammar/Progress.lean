import Inlay.Grammar.Contract
import Inlay.Grammar.Rules
import Inlay.Source.Conservation

/-!
# Progress

Reading always comes to an end. Every pass of every loop of the grammar
leaves less unread than it found, and whatever nests in a rule is entered
with less unread than the rule itself was, so a depth of nesting above the
number of unread characters is never used up, neither by nesting nor by
repetition. Reading therefore ends with a result or with a failure, and the
third outcome, `Stop.exhausted`, does not arise.

The argument goes rule by rule. `Ends k x` says that `x`, started with at
most `k` characters unread, does not end exhausted and leaves at most `k`
unread; `Shrinks k x` says that it leaves fewer. What a rule needs of the
things nested in it is `Bounded n`: they shrink whatever is left to read as
long as that is less than `n`. A rule that has passed its opening mark may
then rely on what nests in it, which is how the bound of a rule follows from
a smaller bound of what it holds.

## Main definitions

* `Ends`, `Shrinks`: Reading that comes to an end.
* `Bounded`: Nested rules that come to an end below a bound.

## Theorems

* `nested_bounded`: A depth of nesting is enough for as many characters.
* `element_shrinks`, `group_shrinks`: The recursive rules.
* `topLevel_ends`: Reading a whole source.
-/

namespace Inlay

/-- Why reading stopped, when it did not stop as exhausted. -/
def Ordinary {σ : Type} (e : Stop) (_ : σ) : Prop :=
  e ≠ .exhausted

/-- With at most `k` characters unread, `x` comes to an end. -/
def Ends {α : Type} (k : Nat) (x : Read α) : Prop :=
  Contract (fun c => c.size ≤ k) x (fun _ c => c.size ≤ k) Ordinary

/-- With at most `k` characters unread, `x` comes to an end and leaves fewer. -/
def Shrinks {α : Type} (k : Nat) (x : Read α) : Prop :=
  Contract (fun c => c.size ≤ k) x (fun _ c => c.size < k) Ordinary

/-- With at most `k` characters unread, code is collected to an end. -/
def DraftEnds {α : Type} (k : Nat) (x : Drafting α) : Prop :=
  Contract (fun d => d.cursor.size ≤ k) x (fun _ d => d.cursor.size ≤ k) Ordinary

/-- With at most `k` characters unread, code is collected to an end that
    leaves fewer. -/
def DraftShrinks {α : Type} (k : Nat) (x : Drafting α) : Prop :=
  Contract (fun d => d.cursor.size ≤ k) x (fun _ d => d.cursor.size < k) Ordinary

/-- With fewer than `k` characters unread, `x` comes to an end. -/
def EndsBelow {α : Type} (k : Nat) (x : Read α) : Prop :=
  Contract (fun c => c.size < k) x (fun _ c => c.size < k) Ordinary

section

variable {α : Type} {k : Nat} {x : Read α}

theorem Shrinks.ends (h : Shrinks k x) : Ends k x :=
  h.weaken (fun _ hs => hs) fun _ _ hs => Nat.le_of_lt hs

/-- Behind an opening mark there is less to read, and it is enough that the
    rest comes to an end for every smaller number of characters. -/
theorem EndsBelow.of_ends (h : ∀ j, j < k → Ends j x) : EndsBelow k x := fun c hc =>
  (h c.size hc).weaken (fun _ hs => hs) (fun _ _ hs => Nat.lt_of_le_of_lt hs hc) c (Nat.le_refl _)

theorem EndsBelow.of_draftEnds {x : Drafting α} (h : ∀ j, j < k → DraftEnds j x) :
    Contract (fun d => d.cursor.size < k) x (fun _ d => d.cursor.size < k) Ordinary := fun d hd =>
  (h d.cursor.size hd).weaken (fun _ hs => hs) (fun _ _ hs => Nat.lt_of_le_of_lt hs hd) d
    (Nat.le_refl _)

end

namespace Read

variable {α : Type} {k : Nat} {P : Cursor → Prop}

theorem fail_ordinary (cause : Cause) (loc : Location) {Q : α → Cursor → Prop} :
    Contract P (fail cause loc) Q Ordinary := by
  intro s _
  simp only [fail, Ordinary]
  exact Stop.noConfusion

theorem failHere_ordinary (cause : Cause) {Q : α → Cursor → Prop} :
    Contract P (failHere cause) Q Ordinary := by
  intro s _
  simp only [failHere, fail, Ordinary]
  exact Stop.noConfusion

/-- Behind a condition that had to hold, it holds. -/
theorem ensure_ordinary (ok : Cursor → Bool) (cause : Cause) (loc : Location) :
    Contract P (ensure ok cause loc) (fun _ c => P c ∧ ok c = true) Ordinary := by
  refine Contract.get_bind fun c hc => ?_
  refine Contract.of_ite (fun h => Contract.of_pure ?_) fun _ => fail_ordinary _ _
  rintro _ rfl
  exact ⟨hc, h⟩

/-- Behind a condition that had to hold, it holds. -/
theorem ensureHere_ordinary (ok : Cursor → Bool) (cause : Cause) :
    Contract P (ensureHere ok cause) (fun _ c => P c ∧ ok c = true) Ordinary := by
  refine Contract.get_bind fun c hc => ?_
  refine Contract.of_ite (fun h => Contract.of_pure ?_) fun _ => failHere_ordinary _
  rintro _ rfl
  exact ⟨hc, h⟩

/-- Asking for the location changes nothing. -/
theorem location_ordinary : Contract P location (fun _ c => P c) Ordinary := by
  refine Contract.get_bind fun c hc => Contract.of_pure ?_
  rintro _ rfl
  exact hc

theorem advance_shrinks :
    Contract (fun c => c.size ≤ k ∧ c.eof = false) advance (fun _ c => c.size < k) Ordinary :=
  Contract.of_modify fun _ h => Nat.lt_of_lt_of_le (Cursor.size_advance_lt h.2) h.1

theorem take_shrinks :
    Contract (fun c => c.size ≤ k ∧ c.eof = false) take (fun _ c => c.size < k) Ordinary :=
  Contract.of_modifyGet fun _ h => Nat.lt_of_lt_of_le (Cursor.size_advance_lt h.2) h.1

theorem advance_ends : Ends k advance :=
  Contract.of_modify fun c h => Nat.le_trans c.size_advance_le h

theorem take_ends : Ends k take :=
  Contract.of_modifyGet fun c h => Nat.le_trans c.size_advance_le h

theorem split_ends (p : Pattern) : Ends k (split p) :=
  Contract.of_modifyGet fun c h => Nat.le_trans (c.size_split_le p) h

theorem skipBlank_ends : Ends k skipBlank :=
  Contract.of_modify fun c h => Nat.le_trans c.size_skipBlank_le h

theorem takeUntil_ends (stops : List (List Char)) : Ends k (takeUntil stops) :=
  Contract.of_modifyGet fun c h => Nat.le_trans (c.size_takeUntil_le stops) h

theorem takeQuoted_ends (quote : List Char) : Ends k (takeQuoted quote) :=
  Contract.of_modifyGet fun c h => Nat.le_trans (c.size_takeQuoted_le quote) h

end Read

namespace Drafting

variable {α : Type} {k : Nat} {P : Cursor → Prop} {Q : α → Cursor → Prop}

theorem read_ordinary {x : Read α} (h : Contract P x Q Ordinary) :
    Contract (fun d => P d.cursor) (read x) (fun a d => Q a d.cursor) Ordinary := by
  intro d hd
  have hx := h d.cursor hd
  simp only [read]
  cases hr : x d.cursor with
  | ok a c =>
    rw [hr] at hx
    exact hx
  | error e c =>
    rw [hr] at hx
    exact hx

theorem write_ordinary {x : Read (List Char)} {Q : Cursor → Prop}
    (h : Contract P x (fun _ c => Q c) Ordinary) :
    Contract (fun d => P d.cursor) (write x) (fun _ d => Q d.cursor) Ordinary :=
  (read_ordinary h).bind fun _ => Contract.of_modify fun _ hd => hd

theorem inlay_ordinary {x : Read Element} {Q : Cursor → Prop}
    (h : Contract P x (fun _ c => Q c) Ordinary) :
    Contract (fun d => P d.cursor) (inlay x) (fun _ d => Q d.cursor) Ordinary :=
  (read_ordinary h).bind fun _ => Contract.of_modify fun _ hd => hd

end Drafting

namespace Read

variable {α : Type} {P Q : Cursor → Prop} {x : Drafting α} {k : Nat}

theorem collect_ordinary (run : Run)
    (h : Contract (fun d => P d.cursor) x (fun _ d => Q d.cursor) Ordinary) :
    Contract P (collect run x) (fun _ c => Q c) Ordinary := by
  intro c hc
  have hx := h { cursor := c, run } hc
  simp only [collect]
  cases hr : x { cursor := c, run } with
  | ok a d =>
    rw [hr] at hx
    exact hx
  | error e d =>
    rw [hr] at hx
    exact hx

theorem collect_ends (run : Run) (h : DraftEnds k x) : Ends k (collect run x) :=
  collect_ordinary (P := fun c => c.size ≤ k) (Q := fun c => c.size ≤ k) run h

theorem collect_shrinks (run : Run) (h : DraftShrinks k x) : Shrinks k (collect run x) :=
  collect_ordinary (P := fun c => c.size ≤ k) (Q := fun c => c.size < k) run h

end Read

namespace Rule

open Read

variable {k n : Nat} {g : Grammar} {inner : Nested}

/-! ### Literals -/

theorem quotedString_shrinks : Shrinks k quotedString := by
  refine location_ordinary.bind fun _ => ?_
  refine (ensureHere_ordinary _ _).bind fun _ => ?_
  refine (take_shrinks.strengthen fun _ h => ⟨h.1, Cursor.eof_of_isAt h.2⟩).bind fun quote => ?_
  -- The opening quote has been passed, so whatever follows keeps below `k`.
  refine (EndsBelow.of_ends fun j _ => takeQuoted_ends quote).bind fun _ => ?_
  refine (ensure_ordinary _ _ _).bind fun _ => ?_
  refine ((EndsBelow.of_ends fun j _ => take_ends).strengthen fun _ h => h.1).bind fun _ => ?_
  exact Contract.of_pure fun _ h => h

theorem lineComment_shrinks : Shrinks k lineComment := by
  refine (ensureHere_ordinary _ _).bind fun _ => ?_
  have htake : Contract (fun c => c.size ≤ k ∧ c.isAt [Marker.lineComment] = true)
      (takeUntil [['\n']]) (fun _ c => c.size < k) Ordinary := by
    refine Contract.of_modifyGet fun c h => ?_
    refine Nat.lt_of_lt_of_le (Cursor.size_takeUntil_lt (Cursor.eof_of_isAt h.2) ?_) h.1
    exact Cursor.isAt_singleton_of_ne h.2 (by decide)
  refine htake.bind fun _ => ?_
  refine Contract.get_bind fun c hc => ?_
  refine Contract.strengthen ?_ fun s (h : s = c) => (h ▸ hc : s.size < k)
  refine Contract.of_ite (fun _ => Contract.of_pure fun _ h => h) fun _ => ?_
  refine (EndsBelow.of_ends fun j _ => take_ends).bind fun _ => ?_
  exact Contract.of_pure fun _ h => h

theorem blockComment_shrinks : Shrinks k blockComment := by
  refine location_ordinary.bind fun _ => ?_
  refine (ensureHere_ordinary _ _).bind fun _ => ?_
  refine ((takeUntil_ends _).strengthen fun _ h => h.1).bind fun _ => ?_
  refine (ensure_ordinary _ _ _).bind fun _ => ?_
  refine (take_shrinks.strengthen fun _ h => ⟨h.1, ?_⟩).bind fun _ => ?_
  · simpa only [Bool.not_eq_true'] using h.2
  · exact Contract.of_pure fun _ h => h

/-! ### Code -/

/-- What nests in a rule comes to an end as long as fewer than `n` characters
    are unread. -/
structure Bounded (n : Nat) (inner : Nested) : Prop where
  depth : n ≤ inner.depth
  element : ∀ k, k < n → Shrinks k inner.element
  group : ∀ k, k < n → DraftShrinks k inner.group

theorem piece_shrinks (hinner : Bounded n inner) (hk : k < n) {otherwise : Drafting Unit}
    (hother : Contract (fun d => d.cursor.size ≤ k ∧ d.cursor.eof = false) otherwise
      (fun _ d => d.cursor.size < k) Ordinary) :
    Contract (fun d => d.cursor.size ≤ k ∧ d.cursor.eof = false) (piece inner otherwise)
      (fun _ d => d.cursor.size < k) Ordinary := by
  have literal {x : Read (List Char)} (hx : Shrinks k x) :
      Contract (fun d => d.cursor.size ≤ k ∧ d.cursor.eof = false) (Drafting.write x)
        (fun _ d => d.cursor.size < k) Ordinary :=
    (Drafting.write_ordinary hx).strengthen fun _ h => h.1
  refine Contract.get_bind fun d hd => ?_
  refine Contract.strengthen ?_ (P := fun d => d.cursor.size ≤ k ∧ d.cursor.eof = false)
    fun _ h => h ▸ hd
  refine Contract.of_ite (fun _ => literal quotedString_shrinks) fun _ => ?_
  refine Contract.of_ite (fun _ => literal lineComment_shrinks) fun _ => ?_
  refine Contract.of_ite (fun _ => literal blockComment_shrinks) fun _ => ?_
  refine Contract.of_ite (fun _ => ?_) fun _ => hother
  exact (Drafting.inlay_ordinary (hinner.element k hk)).strengthen fun _ h => h.1

theorem write_take_shrinks :
    Contract (fun d => d.cursor.size ≤ k ∧ d.cursor.eof = false) (Drafting.write take)
      (fun _ d => d.cursor.size < k) Ordinary :=
  Drafting.write_ordinary take_shrinks

theorem groupPiece_shrinks (hinner : Bounded n inner) (hk : k < n) :
    Contract (fun d => d.cursor.size ≤ k ∧ d.cursor.eof = false) (groupPiece inner)
      (fun _ d => d.cursor.size < k) Ordinary := by
  refine piece_shrinks hinner hk (Contract.get_bind fun d hd => ?_)
  refine Contract.strengthen ?_ (P := fun d => d.cursor.size ≤ k ∧ d.cursor.eof = false)
    fun _ h => h ▸ hd
  refine Contract.of_ite (fun _ => ?_) fun _ => write_take_shrinks
  exact (hinner.group k hk).strengthen fun _ h => h.1

/-- A loop over pieces, each of which makes progress, comes to an end. -/
theorem pieces_end {body : Drafting Unit} {stop : Draft → Bool} {limit : Nat} (hk : k < n)
    (hlimit : n ≤ limit) (heof : ∀ d, stop d = false → d.cursor.eof = false)
    (hbody : ∀ k, k < n →
      Contract (fun d => d.cursor.size ≤ k ∧ d.cursor.eof = false ∧ stop d = false)
        body (fun _ d => d.cursor.size < k) Ordinary) :
    DraftEnds k (many stop body limit) := by
  refine (Contract.many (fun d => d.cursor.size) (I := fun d => d.cursor.size ≤ k)
    fun d hd hstop => ?_).weaken (fun d hd => ⟨hd, by omega⟩) fun _ _ h => h.1
  refine (hbody d.cursor.size (Nat.lt_of_le_of_lt hd hk)).weaken ?_ fun _ _ h =>
    ⟨Nat.le_trans (Nat.le_of_lt h) hd, h⟩
  rintro _ rfl
  exact ⟨Nat.le_refl _, heof _ hstop, hstop⟩

theorem group_shrinks (hinner : Bounded n inner) (hk : k ≤ n) : DraftShrinks k (group inner) := by
  refine Contract.get_bind fun d hd => ?_
  cases hcloser : d.cursor.closer? with
  | none =>
    have hfail : Contract (fun d => d.cursor.size ≤ k)
        (Drafting.read (failHere .notGroup) : Drafting Unit) (fun _ d => d.cursor.size < k)
        Ordinary :=
      Drafting.read_ordinary (P := fun c => c.size ≤ k) (Q := fun _ c => c.size < k)
        (failHere_ordinary _)
    simpa only [hcloser] using hfail.strengthen fun s (h : s = d) => h ▸ hd
  | some close =>
    have hsome : d.cursor.closer?.isSome = true := by rw [hcloser]; rfl
    simp only [hcloser]
    refine ((write_take_shrinks (k := k)).strengthen fun s (h : s = d) => ?_).bind fun _ => ?_
    · exact h ▸ ⟨hd, Cursor.eof_of_closer? hsome⟩
    -- The opening delimiter has been passed: what follows nests below `k`.
    refine (EndsBelow.of_draftEnds fun j hj => pieces_end (n := n) (by omega) hinner.depth ?_ ?_).bind
      fun _ => ?_
    · exact fun d h => (Bool.or_eq_false_iff.mp h).1
    · exact fun i hi => (groupPiece_shrinks hinner hi).strengthen fun _ h => ⟨h.1, h.2.1⟩
    refine (Drafting.read_ordinary (ensure_ordinary (P := fun c => c.size < k) _ _ _)).bind
      fun _ => ?_
    refine write_take_shrinks.strengthen fun _ h => ⟨Nat.le_of_lt h.1, ?_⟩
    simpa only [Bool.not_eq_true'] using h.2

/-- Where no boundary stands, code goes on. -/
theorem codeStretch_of_codeEnd {c : Cursor} (hc : c.eof = false)
    (h : (c.matched? Pattern.codeEnd).isSome = false) :
    ∃ m, Pattern.codeStretch c.current = some (m + 1) := by
  obtain ⟨unread, index, loc⟩ := c
  cases unread with
  | nil => simp only [Cursor.eof, List.isEmpty_nil, Bool.true_eq_false] at hc
  | cons f fs =>
    have hhead : Pattern.endsCode f.head = false := by
      by_cases hend : Pattern.endsCode f.head = true
      · simp [Cursor.matched?, Cursor.current, Fragment.text, Pattern.codeEnd, Pattern.one,
          hend] at h
      · exact Bool.eq_false_iff.mpr hend
    refine ⟨(f.tail.takeWhile fun c => !Pattern.endsCode c).length, ?_⟩
    simp [Pattern.codeStretch, Pattern.oneOrMore, Cursor.current, Fragment.text, hhead]

theorem openPiece_shrinks (hinner : Bounded n inner) (hk : k < n) :
    Contract (fun d => d.cursor.size ≤ k ∧ d.cursor.eof = false ∧
        (d.cursor.eof || (d.cursor.matched? Pattern.codeEnd).isSome) = false)
      (openPiece inner) (fun _ d => d.cursor.size < k) Ordinary := by
  refine Contract.get_bind fun d hd => ?_
  have literal {x : Read (List Char)} (hx : Shrinks k x) :
      Contract (· = d) (Drafting.write x) (fun _ d => d.cursor.size < k) Ordinary :=
    (Drafting.write_ordinary hx).strengthen fun s (h : s = d) => h ▸ hd.1
  refine Contract.of_ite (fun _ => ?_) fun _ => ?_
  · exact (hinner.group k hk).strengthen fun s (h : s = d) => h ▸ hd.1
  refine Contract.of_ite (fun _ => literal quotedString_shrinks) fun _ => ?_
  obtain ⟨m, hm⟩ := codeStretch_of_codeEnd hd.2.1 (Bool.or_eq_false_iff.mp hd.2.2).2
  have hsplit : Contract (· = d.cursor) (split Pattern.codeStretch) (fun _ c => c.size < k)
      Ordinary := by
    refine Contract.of_modifyGet fun c (h : c = d.cursor) => ?_
    rw [h]
    exact Nat.lt_of_lt_of_le (Cursor.size_split_lt hm hd.2.1) hd.1
  exact (Drafting.write_ordinary hsplit).strengthen fun s (h : s = d) => h ▸ rfl

theorem openCode_ends (hinner : Bounded n inner) (hk : k < n) : Ends k (openCode inner) := by
  refine location_ordinary.bind fun start => ?_
  refine (collect_ends _ (pieces_end hk hinner.depth ?_ fun j hj => openPiece_shrinks hinner hj)).bind
    fun run => ?_
  · exact fun d h => (Bool.or_eq_false_iff.mp h).1
  refine (ensure_ordinary _ _ _).bind fun _ => ?_
  exact Contract.of_pure fun _ h => h.1

theorem bracedCode_shrinks (hinner : Bounded n inner) (hk : k < n) :
    Shrinks k (bracedCode inner) := by
  refine (ensureHere_ordinary _ _).bind fun _ => ?_
  refine Contract.get_bind fun c hc => ?_
  refine ((collect_shrinks _ (hinner.group k hk)).strengthen fun s (h : s = c) => ?_).bind
    fun _ => ?_
  · exact h ▸ hc.1
  · exact Contract.of_pure fun _ h => h

theorem code_ends (hinner : Bounded n inner) (hk : k < n) : Ends k (code g inner) := by
  cases g with
  | sigil => exact openCode_ends hinner hk
  | brace => exact (bracedCode_shrinks hinner hk).ends

/-- Reading a whole source comes to an end, and at the end of the source. -/
theorem topLevel_ends (hinner : Bounded n inner) (hk : k < n) : Ends k (topLevel inner) := by
  refine location_ordinary.bind fun start => ?_
  refine (collect_ends _ (pieces_end hk hinner.depth (fun _ h => h) fun j hj => ?_)).bind fun run => ?_
  · exact (piece_shrinks hinner hj write_take_shrinks).strengthen fun _ h => ⟨h.1, h.2.1⟩
  · exact Contract.of_pure fun _ h => h

/-! ### Attributes -/

/-- A name that is there is passed. -/
theorem split_identifier_shrinks :
    Contract (fun c => c.size ≤ k ∧ (c.matched? Pattern.identifier).isSome = true)
      (split Pattern.identifier) (fun _ c => c.size < k) Ordinary := by
  refine Contract.of_modifyGet fun c h => ?_
  obtain ⟨unread, index, loc⟩ := c
  cases unread with
  | nil => simp [Cursor.matched?, Cursor.current, Pattern.identifier] at h
  | cons f fs =>
    have hname : Pattern.isNameStart f.head = true := by
      by_cases hstart : Pattern.isNameStart f.head = true
      · exact hstart
      · simp [Cursor.matched?, Cursor.current, Fragment.text, Pattern.identifier, hstart] at h
    have hlength : Pattern.identifier f.text = some (Pattern.nameTail f.tail + 1) := by
      simp only [Pattern.identifier, Fragment.text, hname, if_true]
    exact Nat.lt_of_lt_of_le (Cursor.size_split_lt hlength rfl) h.1

theorem property_shrinks (hinner : Bounded n inner) (hk : k < n) :
    Shrinks k (property g inner) := by
  refine (ensureHere_ordinary _ _).bind fun _ => ?_
  refine location_ordinary.bind fun loc => ?_
  refine split_identifier_shrinks.bind fun name => ?_
  -- The name has been passed, so the rest only has to come to an end.
  refine (EndsBelow.of_ends fun j _ => skipBlank_ends).bind fun _ => ?_
  refine Contract.get_bind fun c hc => ?_
  refine Contract.strengthen ?_ fun s (h : s = c) => (h ▸ hc : s.size < k)
  refine Contract.of_ite (fun _ => ?_) fun _ => Contract.of_pure fun _ h => h
  refine (EndsBelow.of_ends fun j _ => advance_ends).bind fun _ => ?_
  refine (EndsBelow.of_ends fun j _ => skipBlank_ends).bind fun _ => ?_
  refine Contract.get_bind fun c hc => ?_
  refine Contract.strengthen ?_ fun s (h : s = c) => (h ▸ hc : s.size < k)
  refine Contract.of_ite (fun _ => ?_) fun _ => ?_
  · refine (EndsBelow.of_ends fun j _ => quotedString_shrinks.ends).bind fun _ => ?_
    exact Contract.of_pure fun _ h => h
  · refine (ensureHere_ordinary _ _).bind fun _ => ?_
    refine Contract.bind ((EndsBelow.of_ends fun j hj =>
      code_ends hinner (Nat.lt_trans hj hk)).strengthen fun _ h => h.1) fun _ => ?_
    exact Contract.of_pure fun _ h => h

/-- Code behind a sign, which is passed first. -/
theorem behindSign_shrinks {α : Type} {cause : Cause} (make : Code → Location → α)
    (hinner : Bounded n inner) (hk : k < n) :
    Shrinks k (do
      ensureHere (·.isAt [['@']]) cause
      let loc ← location
      advance
      return make (← openCode inner) loc) := by
  refine (ensureHere_ordinary _ _).bind fun _ => ?_
  refine location_ordinary.bind fun loc => ?_
  refine (advance_shrinks.strengthen fun _ h => ⟨h.1, Cursor.eof_of_isAt h.2⟩).bind fun _ => ?_
  refine (EndsBelow.of_ends fun j hj => openCode_ends hinner (Nat.lt_trans hj hk)).bind fun _ => ?_
  exact Contract.of_pure fun _ h => h

theorem openMixin_shrinks (hinner : Bounded n inner) (hk : k < n) : Shrinks k (openMixin inner) :=
  behindSign_shrinks Attribute.mixin hinner hk

theorem bracedMixin_shrinks (hinner : Bounded n inner) (hk : k < n) :
    Shrinks k (bracedMixin inner) := by
  refine (ensureHere_ordinary _ _).bind fun _ => ?_
  refine location_ordinary.bind fun loc => ?_
  refine ((bracedCode_shrinks hinner hk).strengthen fun _ h => h.1).bind fun _ => ?_
  exact Contract.of_pure fun _ h => h

theorem tagEntry_shrinks (hinner : Bounded n inner) (hk : k < n) :
    Shrinks k (tagEntry g inner) := by
  refine Contract.get_bind fun c hc => ?_
  refine Contract.strengthen ?_ fun s (h : s = c) => (h ▸ hc : s.size ≤ k)
  refine Contract.of_ite (fun _ => property_shrinks hinner hk) fun _ => ?_
  refine Contract.of_ite (fun _ => ?_) fun _ => failHere_ordinary _
  cases g with
  | sigil => exact openMixin_shrinks hinner hk
  | brace => exact bracedMixin_shrinks hinner hk

/-! ### Content -/

theorem text_ends : Ends k (text g) :=
  (takeUntil_ends _).bind fun _ => Contract.of_pure fun _ h => h

theorem comment_shrinks : Shrinks k comment := by
  refine location_ordinary.bind fun _ => ?_
  refine (ensureHere_ordinary _ _).bind fun _ => ?_
  refine (advance_shrinks.strengthen fun _ h => ⟨h.1, Cursor.eof_of_isAt h.2⟩).bind fun _ => ?_
  refine (EndsBelow.of_ends fun j _ => takeUntil_ends _).bind fun _ => ?_
  refine (ensure_ordinary _ _ _).bind fun _ => ?_
  refine ((EndsBelow.of_ends fun j _ => advance_ends).strengthen fun _ h => h.1).bind fun _ => ?_
  exact Contract.of_pure fun _ h => h

theorem openInsertion_shrinks (hinner : Bounded n inner) (hk : k < n) :
    Shrinks k (openInsertion inner) :=
  behindSign_shrinks Child.insertion hinner hk

theorem bracedInsertion_shrinks (hinner : Bounded n inner) (hk : k < n) :
    Shrinks k (bracedInsertion inner) := by
  refine location_ordinary.bind fun loc => ?_
  refine (bracedCode_shrinks hinner hk).bind fun _ => ?_
  exact Contract.of_pure fun _ h => h

/-- An entry of content makes progress wherever content goes on. -/
theorem child_shrinks (hinner : Bounded n inner) (hk : k < n) :
    Contract (fun c => c.size ≤ k ∧ c.eof = false ∧ c.isAt [Marker.endOpen] = false)
      (child g inner) (fun _ c => c.size < k) Ordinary := by
  refine Contract.get_bind fun c hc => ?_
  have start {α : Type} {x : Read α} (hx : Shrinks k x) :
      Contract (· = c) x (fun _ c => c.size < k) Ordinary :=
    hx.strengthen fun s (h : s = c) => h ▸ hc.1
  refine Contract.of_ite (fun _ => ?_) fun hopen => ?_
  · exact (start (hinner.element k hk)).bind fun _ => Contract.of_pure fun _ h => h
  refine Contract.of_ite (fun _ => ?_) fun hmark => ?_
  · cases g with
    | sigil => exact start (openInsertion_shrinks hinner hk)
    | brace => exact start (bracedInsertion_shrinks hinner hk)
  refine Contract.of_ite (fun _ => start comment_shrinks) fun hcomment => ?_
  -- None of the marks that end a text stands here, so some text is taken.
  have htext : c.isAt [['<'], Marker.commentOpen, Marker.endOpen, g.insertionMark] = false := by
    have hend := hc.2.2
    simp only [Cursor.isAt, List.contains_cons, List.contains_nil, Bool.or_false, hc.2.1,
      Bool.not_false, Bool.true_and, Bool.not_eq_true] at hopen hmark hcomment hend ⊢
    rw [hopen, hmark, hcomment, hend]
    rfl
  have htake : Contract (· = c)
      (takeUntil [['<'], Marker.commentOpen, Marker.endOpen, g.insertionMark])
      (fun _ c => c.size < k) Ordinary := by
    refine Contract.of_modifyGet fun s (h : s = c) => ?_
    rw [h]
    exact Nat.lt_of_lt_of_le (Cursor.size_takeUntil_lt hc.2.1 htext) hc.1
  exact htake.bind fun _ => Contract.of_pure fun _ h => h

theorem child_ends (hinner : Bounded n inner) (hk : k < n) : Ends k (child g inner) := by
  refine Contract.get_bind fun c hc => ?_
  have start {α : Type} {x : Read α} (hx : Ends k x) :
      Contract (· = c) x (fun _ c => c.size ≤ k) Ordinary :=
    hx.strengthen fun s (h : s = c) => h ▸ hc
  refine Contract.of_ite (fun _ => ?_) fun _ => ?_
  · exact (start (hinner.element k hk).ends).bind fun _ => Contract.of_pure fun _ h => h
  refine Contract.of_ite (fun _ => ?_) fun _ => ?_
  · cases g with
    | sigil => exact start (openInsertion_shrinks hinner hk).ends
    | brace => exact start (bracedInsertion_shrinks hinner hk).ends
  exact Contract.of_ite (fun _ => start comment_shrinks.ends) fun _ => start text_ends

/-! ### Elements -/

theorem endTag_ends (tag : List Char) (start : Location) : Ends k (endTag tag start) := by
  refine (ensure_ordinary _ _ _).bind fun _ => ?_
  refine (advance_ends.strengthen fun _ h => h.1).bind fun _ => ?_
  refine (split_ends _).bind fun _ => ?_
  refine (ensure_ordinary _ _ _).bind fun _ => ?_
  refine (ensureHere_ordinary _ _).bind fun _ => ?_
  exact advance_ends.strengthen fun _ h => h.1.1

/-- A loop over parts of an element comes to an end if each part makes
    progress. -/
theorem parts_end {α : Type} {body : Read α} {stop : Cursor → Bool} {limit : Nat}
    (hlimit : k < limit)
    (hbody : ∀ j, j ≤ k → Contract (fun c => c.size ≤ j ∧ stop c = false) body
      (fun _ c => c.size < j) Ordinary) :
    Ends k (many stop body limit) := by
  refine (Contract.many Cursor.size (I := fun c => c.size ≤ k)
    fun c hc hstop => ?_).weaken (fun c hc => ⟨hc, by omega⟩) fun _ _ h => h.1
  refine (hbody c.size hc).weaken ?_ fun _ _ h => ⟨Nat.le_trans (Nat.le_of_lt h) hc, h⟩
  rintro _ rfl
  exact ⟨Nat.le_refl _, hstop⟩

theorem spacedEntry_shrinks (hinner : Bounded n inner) (hk : k < n) :
    Shrinks k (spacedEntry g inner) := by
  refine (tagEntry_shrinks hinner hk).bind fun _ => ?_
  refine (EndsBelow.of_ends fun j _ => skipBlank_ends).bind fun _ => ?_
  exact Contract.of_pure fun _ h => h

theorem element_shrinks (hinner : Bounded n inner) (hk : k ≤ n) : Shrinks k (element g inner) := by
  have hdepth := hinner.depth
  refine location_ordinary.bind fun start => ?_
  refine (ensureHere_ordinary _ _).bind fun _ => ?_
  refine (advance_shrinks.strengthen fun _ h => ⟨h.1, Cursor.eof_of_isAt h.2⟩).bind fun _ => ?_
  -- The opening mark has been passed: everything below nests below `k`.
  refine Contract.bind (EndsBelow.of_ends fun j _ =>
    (split_ends _).bind fun _ => (ensure_ordinary _ _ _).bind fun _ =>
      Contract.of_pure fun _ h => h.1) fun tag => ?_
  refine (EndsBelow.of_ends fun j _ => skipBlank_ends).bind fun _ => ?_
  refine (EndsBelow.of_ends fun j hj => parts_end (by omega) fun i hi => ?_).bind fun attributes => ?_
  · exact (spacedEntry_shrinks hinner (by omega)).strengthen fun _ h => h.1
  refine (ensure_ordinary _ _ _).bind fun _ => ?_
  refine ((EndsBelow.of_ends fun j _ => take_ends).strengthen fun _ h => h.1).bind fun mark => ?_
  refine Contract.of_ite (fun _ => Contract.of_pure fun _ h => h) fun _ => ?_
  refine (EndsBelow.of_ends fun j hj => parts_end (by omega) fun i hi => ?_).bind fun content => ?_
  · refine (child_shrinks hinner (by omega)).strengthen fun _ h => ⟨h.1, ?_⟩
    exact Bool.or_eq_false_iff.mp h.2
  refine (EndsBelow.of_ends fun j _ => endTag_ends tag start).bind fun _ => ?_
  exact Contract.of_pure fun _ h => h

/-! ### Nesting -/

/-- A depth of nesting is enough for fewer characters than it counts. -/
theorem nested_bounded (g : Grammar) (n : Nat) : Bounded n (nested g n) := by
  induction n with
  | zero =>
    exact ⟨Nat.le_refl 0, fun k hk => absurd hk (Nat.not_lt_zero k),
      fun k hk => absurd hk (Nat.not_lt_zero k)⟩
  | succ n ih =>
    exact ⟨Nat.le_refl (n + 1), fun k hk => element_shrinks ih (Nat.le_of_lt_succ hk),
      fun k hk => group_shrinks ih (Nat.le_of_lt_succ hk)⟩

end Rule

end Inlay
