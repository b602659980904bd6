import Inlay.Proofs.Agreement
import Inlay.Proofs.Peeling
import Inlay.Proofs.StringLiterals
import Inlay.Proofs.Tracking

/-!
# Where Open Code Ends

Open code ends at the first character that ends code outside of groups and
strings. Said of characters, this is a scan of the source that takes a group
where one is opened, a string where one begins, and else a single character
(`codeItems`). The rule for open code works on fragments instead: it looks at
the first character of the current fragment only, and peels as much off it as
is code.

The two could part where a fragment holds a character that ends code behind
others that do not, or an opening delimiter or a quote behind some other
character. The latter never occurs, since these are fragments of their own.
The former does, in two markers, and there it is the peeling that leaves the
rest of the marker as a fragment to be looked at next. What is left then is
not what the rest of the source would be cut into, but as code has ended, no
more than its first character matters.

The scan starts every group and every string afresh, at the fragments of the
text that is left, where the rule goes on with the fragments it has. Both are
the same fragments, at the same location; the cursors differ in how many they
have left behind, on which nothing depends.

## Main definitions

* `codeItem`: What the scan takes next.
* `codeItems`: The scan of characters.
* `Scans`: Reading open code comes to what the scan comes to.

## Theorems

* `codeItems_eq_nil_iff`: The scan takes nothing exactly where code has ended.
* `codeItems_stretch`: The scan passes characters that are nothing but code.
* `item_group`, `item_string`: What is taken afresh is what the rule takes.
* `scans`: Open code is read as it is scanned.
* `openCode_boundary`: The same for code at the start of a source.
-/

namespace Inlay

/-! ### The scan of characters -/

/-- The cursor between two parts of a source, of which the second is cut into
    fragments on its own. -/
def Cursor.amid (before after : List Char) : Cursor :=
  { unread := tokenize after, loc := Location.behind before }

/-- What the scan takes where the source goes on with `x`: the group that is
    opened here, the string that begins here, or one character. -/
def codeItem (before : List Char) (x : Char) (rest : List Char) : Except Failure (List Char) :=
  let c := Cursor.amid before (x :: rest)
  if ['(', '[', '{'].contains x then
    match DraftParser.group .sigil { cursor := c, run := { loc := c.loc } } with
    | .ok _ d => .ok ((x :: rest).take (c.size - d.cursor.size))
    | .error f _ => .error f
  else if ['"', '\''].contains x then
    match Parser.quotedString c with
    | .ok t _ => .ok t
    | .error f _ => .error f
  else .ok [x]

/-- The scan of a source behind some text: what it takes up to the end or to a
    character that ends code. -/
def codeItems (before : List Char) : List Char → Except Failure (List (List Char))
  | [] => .ok []
  | x :: rest =>
    if Pattern.endsCode x then .ok []
    else do
      let item ← codeItem before x rest
      let items ← codeItems (before ++ item) (rest.drop (item.length - 1))
      return item :: items
termination_by s => s.length
decreasing_by
  rw [List.length_drop, List.length_cons]
  omega

section

variable {before rest k item : List Char} {x : Char} {f : Failure}

/-- The scan takes nothing exactly where code has ended. -/
theorem codeItems_eq_nil_iff {s : List Char} :
    codeItems before s = .ok [] ↔ s.head?.all Pattern.endsCode = true := by
  cases s with
  | nil => exact iff_of_true (by rw [codeItems]) rfl
  | cons x rest =>
      rw [codeItems, List.head?_cons, Option.all_some]
      cases hx : Pattern.endsCode x with
      | true => exact iff_of_true (if_pos rfl) rfl
      | false =>
          rw [if_neg Bool.false_ne_true]
          cases codeItem before x rest with
          | error f => exact iff_of_false nofun Bool.false_ne_true
          | ok item =>
              simp only [bind, Except.bind]
              cases codeItems (before ++ item) (rest.drop (item.length - 1)) with
              | error f => exact iff_of_false nofun Bool.false_ne_true
              | ok items => exact iff_of_false nofun Bool.false_ne_true

theorem codeItems_error (hx : Pattern.endsCode x = false) (h : codeItem before x rest = .error f) :
    codeItems before (x :: rest) = .error f := by
  rw [codeItems, if_neg (by rw [hx]; exact Bool.false_ne_true), h]
  rfl

theorem codeItems_ok (hx : Pattern.endsCode x = false) (h : codeItem before x rest = .ok item)
    (hitem : item ≠ []) (hrest : x :: rest = item ++ k) :
    codeItems before (x :: rest) = (codeItems (before ++ item) k).map ([item] ++ ·) := by
  have hdrop : rest.drop (item.length - 1) = k := by
    cases item with
    | nil => exact absurd rfl hitem
    | cons y ys =>
        rw [List.cons_append] at hrest
        rw [(List.cons.inj hrest).2, List.length_cons, Nat.add_sub_cancel, List.drop_left]
  rw [codeItems, if_neg (by rw [hx]; exact Bool.false_ne_true), h]
  simp only [bind, Except.bind, hdrop]
  cases codeItems (before ++ item) k <;> rfl

/-- The scan passes characters that are nothing but code, one by one. -/
theorem codeItems_stretch {t : List Char} (ht : ∀ x ∈ t, Pattern.isOpenChar x = true)
    (before k : List Char) :
    codeItems before (t ++ k) =
      (codeItems (before ++ t) k).map (t.map (fun x => [x]) ++ ·) := by
  induction t generalizing before with
  | nil =>
      rw [List.nil_append, List.append_nil]
      cases codeItems before k <;> rfl
  | cons x t ih =>
      rcases Bool.and_eq_true_iff.mp (ht x List.mem_cons_self) with ⟨hends, hopen⟩
      rw [Bool.not_eq_true'] at hends hopen
      have hitem : codeItem before x (t ++ k) = .ok [x] := by
        have hmem : x ∉ ['"', '\'', '(', '[', '{'] := by
          intro hmem
          rw [List.contains_iff_mem.mpr hmem] at hopen
          cases hopen
        have hgroup : ['(', '[', '{'].contains x = false := by grind
        have hquote : ['"', '\''].contains x = false := by grind
        simp only [codeItem, hgroup, hquote, Bool.false_eq_true, if_false]
      rw [List.cons_append, codeItems_ok (k := t ++ k) hends hitem (List.cons_ne_nil x []) rfl,
        ih (fun y hy => ht y (List.mem_cons_of_mem x hy)), List.append_assoc, List.singleton_append]
      cases codeItems (before ++ x :: t) k <;> rfl

end

/-! ### Reading afresh -/

/-- Fragments that are cut further hold the same text. -/
theorem Recut.text {us fs gs : List Fragment} (h : Recut us fs gs) :
    gs.flatMap Fragment.text = fs.flatMap Fragment.text ++ us.flatMap Fragment.text := by
  induction h with
  | nil => rfl
  | keep _ ih => rw [List.flatMap_cons, List.flatMap_cons, ih, List.append_assoc]
  | cut htext _ _ _ ih =>
      rw [List.flatMap_cons, ih, List.flatMap_cons, List.flatMap_cons, htext]
      simp only [List.append_assoc]

section

variable {s before rest item : List Char} {x : Char} {c c₁ : Cursor} {f : Failure}

/-- A cursor at the fragments of its text is where reading afresh begins. -/
theorem Cursor.Lexed.tracks_amid (hc : c.Lexed) (hloc : c.loc = Location.behind before) :
    (Cursor.amid before c.rest).Tracks [] 0 0 c := by
  refine ⟨⟨?_, ?_⟩, Cursor.open_nil _⟩
  · rw [hc]
    exact Recut.refl _
  · rw [hloc, Location.moved_zero]
    rfl

/-- A failure of reading afresh is one of reading on. -/
theorem Fails.of_amid {goal : Goal} (hgoal : goal.Marked) (hc : c.Lexed)
    (hloc : c.loc = Location.behind before)
    (h : Fails .sigil ⟨goal, Cursor.amid before c.rest⟩ f) : Fails .sigil ⟨goal, c⟩ f := by
  have hmoved := h.tracked (u := ⟨goal, c⟩) ⟨rfl, hgoal, hc.tracks_amid hloc⟩
  rwa [Failure.moved, Location.moved_zero] at hmoved

/-- What the scan takes next is one piece of open code, which fails as the
    scan does. -/
def ItemRead (c : Cursor) : Except Failure (List Char) → Prop
  | .error f => Fails .sigil ⟨.piece .unnested, c⟩ f
  | .ok item => ∃ ps c₁, Derives .sigil c (.piece .unnested ps) c₁ ∧
      c.rest = item ++ c₁.rest ∧ c₁.Lexed

/-- Where the current fragment is one of some texts, the source goes on with
    the first character of one of them. -/
theorem Cursor.head_of_isAt {texts : List (List Char)} {heads : List Char}
    (hheads : ∀ t ∈ texts, ∃ y ∈ heads, t.head? = some y) (hat : c.isAt texts = true)
    (hrest : c.rest = x :: rest) : x ∈ heads := by
  rcases isAt_iff.mp hat with ⟨heof, hmem⟩
  rcases unread_of_eof heof with ⟨f, hunread, hcur, _⟩
  rcases hheads c.current hmem with ⟨y, hy, hhead⟩
  rw [Cursor.rest, hunread, List.flatMap_cons, Fragment.text, List.cons_append] at hrest
  rw [hcur, Fragment.text, List.head?_cons, Option.some.injEq, (List.cons.inj hrest).1] at hhead
  rwa [hhead]

/-- A group that is taken afresh is the group that is read. -/
theorem item_group (hc : c.Lexed) (hloc : c.loc = Location.behind before)
    (hclose : c.closer?.isSome = true) (hrest : c.rest = x :: rest) :
    ItemRead c (codeItem before x rest) := by
  have hx : x ∈ ['(', '[', '{'] := by
    rcases Option.isSome_iff_exists.mp hclose with ⟨close, hclose⟩
    exact Cursor.head_of_isAt (by simp [Marker.spread]) (Cursor.isAt_opener hclose) hrest
  have htracks := hc.tracks_amid hloc
  have hopen : (Cursor.amid before c.rest).closer?.isSome = true := by
    rw [← htracks.closer?, hclose]
  rw [codeItem, if_pos (List.contains_iff_mem.mpr hx), ← hrest]
  cases hread : DraftParser.group .sigil
      { cursor := .amid before c.rest, run := { loc := (Cursor.amid before c.rest).loc } } with
  | error f d =>
      have hfail := (DraftParser.group_eq_error_iff hopen).mp ⟨d, hread⟩
      have hnest : Enters .sigil ⟨.piece .unnested, c⟩ ⟨.group, c⟩ := .nest (by simp) hclose
      exact hnest.fails (hfail.of_amid trivial hc hloc)
  | ok u d =>
      rcases DraftParser.group_eq_ok_iff.mp hread with ⟨ps, hps, _⟩
      rcases hps.tracked [] 0 0 c htracks with ⟨qs, c₁, hqs, _, hin⟩
      rcases hqs.group_text with ⟨t, y, htext, _⟩
      -- Both readings leave the same text, so the group is as long for the one as for the other.
      have hleft : c₁.rest = d.cursor.rest := by
        rw [Cursor.rest, hin.unread.text]
        exact List.append_nil _
      have hsize : (Cursor.amid before c.rest).size - d.cursor.size = (t ++ [y]).length := by
        rw [Cursor.size, Cursor.size, ← hleft, Cursor.rest_of_unread rfl, htext,
          List.length_append, Nat.add_sub_cancel]
      have hitem : c.rest.take ((Cursor.amid before c.rest).size - d.cursor.size) = t ++ [y] := by
        rw [hsize, htext, List.take_left]
      simp only [hitem]
      exact ⟨qs, c₁, .nest (by simp) hqs, htext, (hqs.reread hc).lexed⟩

/-- A string that is taken afresh is the string that is read. -/
theorem item_string (hc : c.Lexed) (hloc : c.loc = Location.behind before)
    (hat : c.isAt quotes = true) (hrest : c.rest = x :: rest) :
    ItemRead c (codeItem before x rest) := by
  have hx : x ∈ ['"', '\''] := Cursor.head_of_isAt (by simp [quotes]) hat hrest
  have hquotes : ∀ x ∈ ['"', '\''], ['(', '[', '{'].contains x = false := by simp
  have htracks := hc.tracks_amid hloc
  have hat' : (Cursor.amid before c.rest).isAt quotes = true := by
    rw [← htracks.isAt (by decide), hat]
  rw [codeItem, hquotes x hx, if_neg Bool.false_ne_true, if_pos (List.contains_iff_mem.mpr hx),
    ← hrest]
  cases hread : Parser.quotedString (Cursor.amid before c.rest) with
  | error f d =>
      have hrefuse := Parser.quotedString_eq_error_iff.mp ⟨d, hread⟩
      rcases Rule.quotedString_refuses_iff.mp hrefuse with ⟨hnot, _⟩ | ⟨_, heof, rfl⟩
      · rw [hat'] at hnot
        cases hnot
      · exact (Raises.string hat' heof).fails.of_amid trivial hc hloc
  | ok t d =>
      have hquoted := Parser.quotedString_eq_ok_iff.mp hread
      rcases Rule.quotedString_tracked hquoted htracks with ⟨c₁, hread₁, _⟩
      exact ⟨_, c₁, .verbatim (.string hread₁), (Rule.rest_quotedString hread₁).symm,
        (Rule.quotedString_again hread₁ hc).1⟩

end

/-! ### Open code -/

/-- Reading open code comes to what the scan comes to: the same failure, or the
    same text. -/
def Scans (c : Cursor) : Except Failure (List (List Char)) → Prop
  | .error f => Fails .sigil ⟨.pieces .unnested, c⟩ f
  | .ok items => ∃ ps c', Derives .sigil c (.pieces .unnested ps) c' ∧
      c.rest = items.flatten ++ c'.rest

section

variable {s before : List Char} {c c₁ : Cursor}

/-- One piece in front of open code that is read as it is scanned. -/
theorem Scans.behind {r : Except Failure (List (List Char))} (h : Scans c₁ r)
    (hend : Zone.unnested.ends c = false) {ps : List Piece}
    (hpiece : Derives .sigil c (.piece .unnested ps) c₁) {front : List (List Char)}
    (hrest : c.rest = front.flatten ++ c₁.rest) : Scans c (r.map (front ++ ·)) := by
  cases r with
  | error f => exact (Enters.pieces hend hpiece).fails h
  | ok items =>
      rcases h with ⟨qs, c', hqs, hmore⟩
      refine ⟨ps ++ qs, c', .pieces hend hpiece hqs, ?_⟩
      rw [hrest, hmore, List.flatten_append, List.append_assoc]

/-- A group or a string in front of open code that is read as it is scanned. -/
theorem Scans.of_item {x : Char} {rest : List Char} (hend : Zone.unnested.ends c = false)
    (hrest : c.rest = x :: rest) (hx : Pattern.endsCode x = false)
    (h : ItemRead c (codeItem before x rest))
    (hmore : ∀ {ps item c₁}, Derives .sigil c (.piece .unnested ps) c₁ →
      c.rest = item ++ c₁.rest → c₁.Lexed → Scans c₁ (codeItems (before ++ item) c₁.rest)) :
    Scans c (codeItems before c.rest) := by
  cases hitem : codeItem before x rest with
  | error f =>
      rw [hitem] at h
      rw [hrest, codeItems_error hx hitem]
      exact (Enters.piece hend).fails h
  | ok item =>
      rw [hitem] at h
      rcases h with ⟨ps, c₁, hpiece, htext, hlexed⟩
      have hne : item ≠ [] := by
        rintro rfl
        have hlt := hpiece.size_lt hend
        rw [Cursor.size, Cursor.size, htext] at hlt
        exact absurd hlt (Nat.lt_irrefl _)
      have hscan := codeItems_ok hx hitem hne (hrest.symm.trans htext)
      rw [← hrest] at hscan
      rw [hscan]
      refine (hmore hpiece htext hlexed).behind hend hpiece ?_
      rw [List.flatten_singleton]
      exact htext

/-- A stretch in front of open code that is read as it is scanned. -/
theorem Scans.of_stretch (hend : Zone.unnested.ends c = false) (hclose : c.closer? = none)
    (hquote : c.isAt quotes = false)
    (hopen : ∀ x ∈ (c.split Pattern.codeStretch).1, Pattern.isOpenChar x = true)
    (hmore : ∀ {ps t}, Derives .sigil c (.piece .unnested ps) (c.split Pattern.codeStretch).2 →
      c.rest = t ++ (c.split Pattern.codeStretch).2.rest →
      Scans (c.split Pattern.codeStretch).2
        (codeItems (before ++ t) (c.split Pattern.codeStretch).2.rest)) :
    Scans c (codeItems before c.rest) := by
  have hpiece : Derives .sigil c (.piece .unnested [.text (c.split Pattern.codeStretch).1])
      (c.split Pattern.codeStretch).2 := .verbatim (.stretch hclose hquote)
  have htext := (c.rest_split Pattern.codeStretch).symm
  have hscan := codeItems_stretch hopen before (c.split Pattern.codeStretch).2.rest
  rw [← htext] at hscan
  rw [hscan]
  refine (hmore hpiece htext).behind hend hpiece ?_
  rw [← List.flatMap_def, List.flatMap_singleton']
  exact htext

/-- Open code is read as it is scanned. The induction is on how much there is
    left to read; a single pass of the rule is one item of the scan if that is a
    group or a string, and else an item for each character. -/
theorem scans {b : Bool} (hc : c.Placed s) (hs : s = before ++ c.rest)
    (hcut : c.unread = cut b c.rest) : Scans c (codeItems before c.rest) := by
  induction hn : c.size using Nat.strongRecOn generalizing c before b with
  | ind n ih =>
    have hhead := Zone.ends_unnested c
    rw [hcut, head?_cut] at hhead
    cases hend : Zone.unnested.ends c with
    | true =>
        rw [codeItems_eq_nil_iff.mpr (hhead.symm.trans hend)]
        exact ⟨[], c, .noPieces hend, rfl⟩
    | false =>
        have hlexed := lexed_of_cut hcut hend
        have hloc : c.loc = Location.behind before := by
          rcases hc.place with ⟨before', hs', hloc⟩
          rw [hloc, List.append_cancel_right (hs'.symm.trans hs)]
        -- Behind a piece there is less to read.
        have hmore : ∀ {ps t c₁}, Derives .sigil c (.piece .unnested ps) c₁ →
            c.rest = t ++ c₁.rest → (∃ b₁, c₁.unread = cut b₁ c₁.rest) →
            Scans c₁ (codeItems (before ++ t) c₁.rest) := by
          rintro ps t c₁ hpiece htext ⟨b₁, hcut₁⟩
          refine ih c₁.size (hn ▸ hpiece.size_lt hend) (hpiece.placed hc).1 ?_ hcut₁ rfl
          rw [hs, htext, List.append_assoc]
        have hitem : ∀ {ps t c₁}, Derives .sigil c (.piece .unnested ps) c₁ →
            c.rest = t ++ c₁.rest → c₁.Lexed → Scans c₁ (codeItems (before ++ t) c₁.rest) :=
          fun hpiece htext hlexed₁ => hmore hpiece htext hlexed₁.cut
        rw [hend] at hhead
        cases hrest : c.rest with
        | nil =>
            rw [hrest] at hhead
            cases hhead
        | cons x rest =>
            rw [hrest] at hhead
            have hx : Pattern.endsCode x = false := hhead.symm
            rw [← hrest]
            cases hclose : c.closer? with
            | some close =>
                have hopen : c.closer?.isSome = true := by rw [hclose]; rfl
                exact .of_item hend hrest hx (item_group hlexed hloc hopen hrest) hitem
            | none =>
                cases hquote : c.isAt quotes with
                | true => exact .of_item hend hrest hx (item_string hlexed hloc hquote hrest) hitem
                | false =>
                    rcases Cursor.cut_codeStretch hlexed hend hclose hquote with ⟨hopen, hcut₁⟩
                    exact .of_stretch hend hclose hquote hopen fun hpiece htext =>
                      hmore hpiece htext ⟨_, hcut₁ b⟩

end

/-! ### Code at the start of a source -/

/-- Pieces without elements are added to a run as the text they render as. -/
theorem PiecesRender.extend_text {g : Grammar} {ps : List Piece} {t : List Char}
    (h : PiecesRender g ps t) (hno : ps.findSome? Piece.element? = none) (r : Run) :
    r.extend ps = r.append t := by
  induction h generalizing r with
  | nil => rw [Run.extend_nil, Run.append, List.append_nil]
  | text _ ih =>
      rw [Run.extend_cons, ih hno, Run.add, Run.append, Run.append, Run.append, List.append_assoc]
  | inlay _ _ _ => cases hno

/-- Open code without elements is one segment of text. -/
theorem Derives.openCode_text {c c' : Cursor} {ps : List Piece} {t : List Char}
    (h : Derives .sigil c (.pieces .unnested ps) c') (hrest : c.rest = t ++ c'.rest) (ht : t ≠ [])
    (hno : ∀ e, Segment.element e ∉ (Run.extend { loc := c.loc } ps).flush.segments) :
    (Run.extend { loc := c.loc } ps).flush.segments = [.text t c.loc] := by
  have hnone : ps.findSome? Piece.element? = none := by
    have hseg : (Run.extend { loc := c.loc } ps).flush.segments.findSome? Segment.element? =
        none := by
      refine List.findSome?_eq_none_iff.mpr fun seg hseg => ?_
      cases seg with
      | text _ _ => rfl
      | element e => exact absurd hseg (hno e)
    rwa [Run.findElement_flush, Run.findElement_extend] at hseg
  rcases h.rendered with ⟨u, hu, hrest'⟩
  rw [hrest] at hrest'
  rw [hu.extend_text hnone, ← List.append_cancel_right hrest', Run.append, Run.flush,
    List.nil_append, if_neg (fun hnil => ht (List.isEmpty_iff.mp hnil))]
  rfl

/-- Code at the start of a source is read as the source is scanned. If a group
    or a string fails in the scan, the code fails likewise; if the scan takes
    nothing, there is no code. Otherwise the code is what the scan takes, and
    reading goes on right behind it, be it inside a fragment. Without elements,
    the code is that text. -/
theorem openCode_boundary (s : List Char) :
    match codeItems [] s with
    | .error f => ∃ c', Parser.openCode .sigil (Cursor.ofSource s) = .error f c'
    | .ok [] => ∃ c', Parser.openCode .sigil (Cursor.ofSource s) = .error ⟨.notCode, {}⟩ c'
    | .ok (item :: items) => ∃ code c',
        Parser.openCode .sigil (Cursor.ofSource s) = .ok code c' ∧
        s = (item :: items).flatten ++ c'.rest ∧
        c'.loc = Location.behind (item :: items).flatten ∧
        ((∀ e, Segment.element e ∉ code) → code = [.text (item :: items).flatten {}]) := by
  generalize hc : Cursor.ofSource s = c
  have hplaced : c.Placed s := hc ▸ Cursor.placed_start s
  have hunread : c.unread = tokenize s := hc ▸ Cursor.unread_ofTexts s
  have hloc : c.loc = {} := hc ▸ rfl
  have hrest : c.rest = s := Cursor.rest_of_unread hunread
  have hscan : Scans c (codeItems [] c.rest) :=
    scans hplaced hrest.symm ((Cursor.lexed_of_unread hunread).trans (cut_false _).symm)
  rw [hrest] at hscan
  have hends : codeItems [] s = .ok [] ↔ Zone.unnested.ends c = true := by
    rw [codeItems_eq_nil_iff, Zone.ends_unnested, hunread, head?_tokenize]
  cases hitems : codeItems [] s with
  | error f =>
      rw [hitems] at hscan
      exact Parser.openCode_eq_error_iff.mpr ((Enters.openCode rfl).fails hscan)
  | ok items =>
      rw [hitems] at hscan
      rcases hscan with ⟨ps, c', hps, htext⟩
      cases items with
      | nil =>
          refine Parser.openCode_eq_error_iff.mpr ?_
          rw [← hloc]
          exact (Raises.code rfl (hends.mp hitems)).fails
      | cons item items =>
          have hne : (Run.extend { loc := c.loc } ps).flush.segments ≠ [] := by
            intro hnil
            have hnone := hends.mpr (hps.ends_of_nothing hnil)
            rw [hitems] at hnone
            cases hnone
          refine ⟨_, c', Parser.openCode_eq_ok_iff.mpr (.openCode rfl hps hne), hrest ▸ htext, ?_, ?_⟩
          · rcases (hps.placed hplaced).1.place with ⟨before, hs, hbehind⟩
            rw [hbehind, List.append_cancel_right (hs.symm.trans (hrest ▸ htext))]
          · rw [← hloc]
            exact hps.openCode_text htext (hps.text_ne_nil hne htext)

example : codeItems [] ['f', '(', '>', ')', '*', '/', 'b'] =
    .ok [['f'], ['(', '>', ')'], ['*']] := by
  cbv

end Inlay
