import Inlay.Proofs.Delivery
import Inlay.Proofs.Layers

/-!
# Independence

Reading is logged, and logging goes through a good deal of shared state: the
shared settings are made or consulted, a logger is made and registered, and
records are written through whatever handlers it has. None of this has any
influence on a parse whose grammar is given, as long as the logger of the
parser can be had and what is logged gets across to those of its handlers that
it reaches. Its outcome is then that of the parse alone, whatever else the
session holds.

What is logged may fail to get across. A place-holder lays out nothing, no
layout writes a number with too many digits, and a stream may refuse a line.
Logging is not guarded against this, so the parse fails in its place
(`parse_outcome_iff`), and a session with a closed stream is all it takes
(`parse_dependent`).

The other way round, such a parse leaves alone what is not its own. The
sources of the shared settings stay as they are, though what they come to may
be kept from then on; and so does every registered logger, apart from the one
of the parser, which may be new.

Both follow from what the steps do to a session. Getting a logger changes the
settings and the journal in one way only, and a record can only be appended to
what has been written.

## Main definitions

* `Journal.LaysOut`: Loggers without a place-holder among their handlers.
* `Session.overriding`: An override of the grammar, if there is one.
* `Session.notes`: What is logged about a parse.
* `Session.Logs`: Sessions in which a parse can be logged.
* `Journal.held?`: A registered logger with its handlers.
* `Session.Spares`: What a parse leaves alone.

## Theorems

* `Session.getLogger_eq_ok`: The two ways to get a logger.
* `Session.conveys_of_accepting`, `Session.logs_of_accepting`: What is enough
  for logging to get across.
* `Session.parse_eq_parse`: A parse in a session, by the parse alone.
* `Session.parse_outcome_iff`: When its outcome is that of the parse alone.
* `Session.parse_independent`: Its outcome in any two sessions.
* `Session.parse_dependent`: Sessions in which logging fails.
-/

namespace Inlay

namespace Journal

/-- The number, the logger and the handlers that a registered name stands for. -/
def held? (j : Journal) (name : String) : Option (Nat × Logger × List Handler) := do
  let id ← j.registered? name
  let l ← j.logger? id
  let handlers ← j.families[l.family]?
  return (id, l, handlers)

/-- Loggers none of whose handlers is a place-holder that lays out nothing. -/
def LaysOut (j : Journal) (id : Nat) : Prop :=
  ∀ l ∈ j.logger? id, ∀ x ∈ j.handlers l, x.layout ≠ .blank

instance (j : Journal) (id : Nat) : Decidable (j.LaysOut id) :=
  inferInstanceAs (Decidable (∀ l ∈ j.logger? id, ∀ x ∈ j.handlers l, x.layout ≠ .blank))

theorem registered?_register (j : Journal) {name other : String} (h : other ≠ name) (level : Level)
    (handlers : List Handler) :
    (j.register name level handlers).2.registered? other = j.registered? other := by
  have hne : (name == other) = false := by simpa using Ne.symm h
  simp [registered?, register, create, List.find?_append, hne]

/-- Registering a logger adds to what there is and changes nothing of it. -/
theorem held?_register (j : Journal) {name other : String} (h : other ≠ name) (level : Level)
    (handlers : List Handler) {entry : Nat × Logger × List Handler}
    (hentry : j.held? other = some entry) :
    (j.register name level handlers).2.held? other = some entry := by
  simp only [held?, Option.bind_eq_bind, Option.bind_eq_some_iff] at hentry ⊢
  rcases hentry with ⟨id, hid, l, hl, hs, hhs, heq⟩
  refine ⟨id, (j.registered?_register h level handlers).trans hid, l, ?_, hs, ?_, heq⟩
  · simp only [logger?, register, create] at hl ⊢
    rw [List.getElem?_append_left (List.getElem?_eq_some_iff.mp hl).1, hl]
  · simp only [register, create]
    rw [List.getElem?_append_left (List.getElem?_eq_some_iff.mp hhs).1, hhs]

end Journal

namespace Session

variable {w w' : Session}

/-! ### Getting the logger -/

/-- A logger is found under its name, or it is made from the shared settings
    and registered. -/
theorem getLogger_eq_ok {name : String} {id : Nat} (h : getLogger name none w = .ok id w') :
    w.journal.registered? name = some id ∧ w' = w ∨
      ∃ s level handlers, (∀ s₀, w.settings = some s₀ → s.sources = s₀.sources) ∧
        w' = { w with
          settings := some s, journal := (w.journal.register name level handlers).2 } := by
  unfold getLogger at h
  rw [get_bind_eq] at h
  cases hname : w.journal.registered? name with
  | some id' =>
      rw [hname] at h
      simp only [pure_eq_ok_iff] at h
      exact Or.inl ⟨by rw [h.1], h.2⟩
  | none =>
      rw [hname] at h
      simp only [bind_eq_ok_iff, levelOfName_eq_ok_iff, ofJournal_eq_ok_iff,
        updateJournal_eq_ok_iff] at h
      rcases h with ⟨s, w₁, hs, levelName, w₂, hlevel, level, _, ⟨_, rfl⟩, formatName, w₃, hformat,
        layout, _, ⟨_, rfl⟩, _, rfl⟩
      -- Only the settings and the journal change, each in one step.
      rw [textSetting_eq_ok hformat, textSetting_eq_ok hlevel]
      rcases consultedSettings_eq_ok hs with ⟨rfl, hsources⟩
      exact Or.inr ⟨s, level, _, hsources, rfl⟩

/-! ### Logging -/

variable {id : Nat}

/-- More context can be written if the one before it can and all that is added
    can. -/
theorem writable_merged {entries context : Entries}
    (hentries : ∀ e ∈ entries, e.2.writable = true)
    (hcontext : ∀ e ∈ context, e.2.writable = true) :
    ∀ e ∈ context.foldl (fun entries e => entries.insert e.1 e.2) entries,
      e.2.writable = true := by
  induction context generalizing entries with
  | nil => exact hentries
  | cons e rest ih =>
      rcases List.forall_mem_cons.mp hcontext with ⟨he, hrest⟩
      refine ih (fun d hd => ?_) hrest
      rcases Entries.mem_insert hd with rfl | hd
      · exact he
      · exact hentries d hd

/-- A message gets across if no handler is a place-holder, no stream refuses
    anything, and nothing in the context is too long to be written. -/
theorem conveys_of_accepting (hlays : w.journal.LaysOut id)
    (haccepts : ∀ stream text, w.refuses stream text = false)
    (hlogger : ∀ l, w.journal.logger? id = some l → ∀ e ∈ l.context, e.2.writable = true)
    (level : Level) (message : String) {context : Entries}
    (hcontext : ∀ e ∈ context, e.2.writable = true) : w.Conveys id level message context := by
  intro l hl _ x hx _
  have hhandles : x.layout.Handles (w.recordOf l level message context none) := by
    refine ⟨writable_merged (hlogger l hl) hcontext, ?_⟩
    cases hlayout : x.layout with
    | text date => exact nofun
    | json => exact nofun
    | blank => exact absurd hlayout (hlays l hl x hx)
  rcases Layout.render_iff.mpr hhandles with ⟨text, htext⟩
  exact ⟨text, htext, haccepts x.stream (text ++ "\n")⟩

/-! ### Reading -/

/-- An override of the grammar, if there is one. -/
def overriding : Option Value → Entries
  | none => []
  | some v => [("jsx", v)]

/-- How the end of a parse is logged. -/
def ended : Except Diagnostic Root → String × Entries
  | .ok root => ("parse finished", [("segments", .int root.segments.length)])
  | .error d =>
    ("parse failed",
      [("error", .str d.message), ("line", .int d.loc.line), ("col", .int d.loc.col)])

/-- What is logged about a parse: that it started, and how it ended. -/
def notes (fragments : List (List Char)) (braces : Value) : List (String × Entries) :=
  [("parse started",
      [("fragments", .int (fragments.filter (!·.isEmpty)).length), ("jsx", braces)]),
    ended (Inlay.parse (grammarOf braces) fragments)]

theorem notes_free (fragments : List (List Char)) (braces : Value) :
    ∀ note ∈ notes fragments braces, ∀ e ∈ note.2, e.1 ∉ reservedForLogging := by
  unfold notes
  cases Inlay.parse (grammarOf braces) fragments <;>
    simp [ended, reservedForLogging, or_imp, forall_and]

/-- Notes that are logged one after the other. -/
def logAll (id : Nat) : List (String × Entries) → Act Unit
  | [] => pure ()
  | note :: rest => do
    log id .debug note.1 note.2
    logAll id rest

/-- If all of them get across, nothing changes but what has been written. -/
theorem logAll_of_conveyed {ns : List (String × Entries)}
    (hfree : ∀ note ∈ ns, ∀ e ∈ note.2, e.1 ∉ reservedForLogging)
    (h : ∀ note ∈ ns, w.Conveys id .debug note.1 note.2) :
    ∃ out, logAll id ns w = .ok () { w with written := w.written ++ out } := by
  induction ns generalizing w with
  | nil => exact ⟨[], by rw [List.append_nil]; rfl⟩
  | cons note rest ih =>
      rcases List.forall_mem_cons.mp hfree with ⟨hfree₁, hfree₂⟩
      rcases List.forall_mem_cons.mp h with ⟨h₁, h₂⟩
      rcases log_of_conveyed h₁ hfree₁ with ⟨out₁, hout₁⟩
      rcases ih (w := { w with written := w.written ++ out₁ }) hfree₂ h₂ with ⟨out₂, hout₂⟩
      refine ⟨out₁ ++ out₂, ?_⟩
      rw [logAll, bind_of_ok hout₁, ← List.append_assoc]
      exact hout₂

/-- If one does not, that is a problem, and none of those that reading a source
    has. -/
theorem logAll_refused {ns : List (String × Entries)}
    (hfree : ∀ note ∈ ns, ∀ e ∈ note.2, e.1 ∉ reservedForLogging)
    (h : ¬ ∀ note ∈ ns, w.Conveys id .debug note.1 note.2) :
    ∃ p w', logAll id ns w = .error p w' ∧ ∀ d, p ≠ .parse d := by
  induction ns generalizing w with
  | nil => exact absurd (fun _ hnote => absurd hnote List.not_mem_nil) h
  | cons note rest ih =>
      rcases List.forall_mem_cons.mp hfree with ⟨hfree₁, hfree₂⟩
      rw [logAll]
      by_cases h₁ : w.Conveys id .debug note.1 note.2
      · rcases log_of_conveyed h₁ hfree₁ with ⟨out₁, hout₁⟩
        rw [bind_of_ok hout₁]
        exact ih hfree₂ fun h₂ => h (List.forall_mem_cons.mpr ⟨h₁, h₂⟩)
      · rcases log_refused h₁ hfree₁ with ⟨p, w', hw', hp⟩
        exact ⟨p, w', by simp only [bind, EStateM.bind, hw'], hp⟩

/-- Sessions in which a parse can be logged: the logger of the parser is there or
    can be made, and what is logged gets across. -/
def Logs (w : Session) (fragments : List (List Char)) (braces : Value) : Prop :=
  ∃ id w', getLogger parserLogger none w = .ok id w' ∧
    ∀ note ∈ notes fragments braces, w'.Conveys id .debug note.1 note.2

/-- This is so if no handler is a place-holder, no stream refuses anything, and
    nothing that is logged is too long to be written. -/
theorem logs_of_accepting (hget : getLogger parserLogger none w = .ok id w')
    (hlays : w'.journal.LaysOut id) (haccepts : ∀ stream text, w'.refuses stream text = false)
    (hlogger : ∀ l, w'.journal.logger? id = some l → ∀ e ∈ l.context, e.2.writable = true)
    {fragments : List (List Char)} {braces : Value}
    (hnotes : ∀ note ∈ notes fragments braces, ∀ e ∈ note.2, e.2.writable = true) :
    w.Logs fragments braces :=
  ⟨id, w', hget, fun note hnote =>
    conveys_of_accepting hlays haccepts hlogger .debug note.1 (hnotes note hnote)⟩

/-- What a parse leaves alone: the sources of shared settings, and what is
    registered under any name but its own. -/
structure Spares (w w' : Session) : Prop where
  settings : ∀ s, w.settings = some s → ∃ s', w'.settings = some s' ∧ s'.sources = s.sources
  names : ∀ name, name ≠ parserLogger → w'.journal.registered? name = w.journal.registered? name
  entries : ∀ name, name ≠ parserLogger → ∀ entry, w.journal.held? name = some entry →
    w'.journal.held? name = some entry

theorem spares_getLogger {id : Nat} (h : getLogger parserLogger none w = .ok id w') :
    Spares w w' := by
  rcases getLogger_eq_ok h with ⟨_, rfl⟩ | ⟨s, level, handlers, hsources, rfl⟩
  · exact ⟨fun s hs => ⟨s, hs, rfl⟩, fun _ _ => rfl, fun _ _ _ hentry => hentry⟩
  · exact ⟨fun s₀ hs₀ => ⟨s, rfl, hsources s₀ hs₀⟩,
      fun name hname => w.journal.registered?_register hname level handlers,
      fun name hname entry hentry => w.journal.held?_register hname level handlers hentry⟩

theorem resolveBraces_given (given : Value) (override : Option Value) :
    resolveBraces (some given) (overriding override) w = .ok (override.getD given) w := by
  cases override <;> rfl

/-- What a parse comes to once it has been logged. -/
def verdict : Except Diagnostic Root → Act Root
  | .ok root => return root
  | .error d => throw (.parse d)

/-- A parse with a given grammar gets its logger, logs, and then has the outcome
    of the parse alone. -/
theorem parse_eq_logAll (fragments : List (List Char)) (given : Value) (override : Option Value)
    (hget : getLogger parserLogger none w = .ok id w') :
    parse fragments (some given) (overriding override) w =
      (logAll id (notes fragments (override.getD given)) >>= fun _ =>
        verdict (Inlay.parse (grammarOf (override.getD given)) fragments)) w' := by
  have hnames : checkNames reservedForFragments (overriding override) w = .ok () w := by
    cases override <;> rfl
  unfold parse
  rw [bind_of_ok hnames, bind_of_ok (resolveBraces_given given override), bind_of_ok hget]
  unfold notes
  cases Inlay.parse (grammarOf (override.getD given)) fragments <;>
    simp only [logAll, bind_assoc, pure_bind, ended, verdict]

/-- A parse with a given grammar has the outcome of the parse alone, and apart
    from what has been written it leaves the session as getting the logger
    does. -/
theorem parse_eq_parse (fragments : List (List Char)) (given : Value) (override : Option Value)
    (hget : getLogger parserLogger none w = .ok id w')
    (h : ∀ note ∈ notes fragments (override.getD given), w'.Conveys id .debug note.1 note.2) :
    ∃ out, parse fragments (some given) (overriding override) w =
      match Inlay.parse (grammarOf (override.getD given)) fragments with
      | .ok root => .ok root { w' with written := w'.written ++ out }
      | .error d => .error (.parse d) { w' with written := w'.written ++ out } := by
  rcases logAll_of_conveyed (notes_free fragments (override.getD given)) h with ⟨out, hout⟩
  refine ⟨out, ?_⟩
  rw [parse_eq_logAll fragments given override hget, bind_of_ok hout]
  cases Inlay.parse (grammarOf (override.getD given)) fragments <;> rfl

/-- The outcome is that of the parse alone exactly if all that is logged about it
    gets across. -/
theorem parse_outcome_iff (fragments : List (List Char)) (given : Value) (override : Option Value)
    (hget : getLogger parserLogger none w = .ok id w') :
    outcome (parse fragments (some given) (overriding override) w) =
        (Inlay.parse (grammarOf (override.getD given)) fragments).mapError Problem.parse ↔
      ∀ note ∈ notes fragments (override.getD given), w'.Conveys id .debug note.1 note.2 := by
  constructor
  · intro h
    by_contra hrefused
    rcases logAll_refused (notes_free fragments (override.getD given)) hrefused with
      ⟨p, w₁, hw₁, hp⟩
    rw [parse_eq_logAll fragments given override hget] at h
    simp only [bind, EStateM.bind, hw₁, outcome] at h
    cases hparse : Inlay.parse (grammarOf (override.getD given)) fragments with
    | ok root =>
        rw [hparse] at h
        cases h
    | error d =>
        rw [hparse] at h
        cases h
        exact hp d rfl
  · intro h
    rcases parse_eq_parse fragments given override hget h with ⟨out, hout⟩
    rw [hout]
    cases Inlay.parse (grammarOf (override.getD given)) fragments <;> rfl

theorem Logs.parse {w : Session} {fragments : List (List Char)} {given : Value}
    {override : Option Value} (h : w.Logs fragments (override.getD given)) :
    outcome (parse fragments (some given) (overriding override) w) =
        (Inlay.parse (grammarOf (override.getD given)) fragments).mapError Problem.parse ∧
      Spares w (left (parse fragments (some given) (overriding override) w)) := by
  rcases h with ⟨id, w', hget, hnotes⟩
  have hspares := spares_getLogger hget
  rcases parse_eq_parse fragments given override hget hnotes with ⟨out, hout⟩
  rw [hout]
  -- What has been written is no part of what is spared.
  cases Inlay.parse (grammarOf (override.getD given)) fragments with
  | ok root => exact ⟨rfl, hspares.settings, hspares.names, hspares.entries⟩
  | error d => exact ⟨rfl, hspares.settings, hspares.names, hspares.entries⟩

/-- What a session holds has no influence on a parse with a given grammar, if
    what is logged about it gets across, and the parse leaves alone what is not
    its own. -/
theorem parse_independent (fragments : List (List Char)) (given : Value) (override : Option Value)
    {w₁ w₂ : Session} (h₁ : w₁.Logs fragments (override.getD given))
    (h₂ : w₂.Logs fragments (override.getD given)) :
    outcome (parse fragments (some given) (overriding override) w₁) =
        outcome (parse fragments (some given) (overriding override) w₂) ∧
      outcome (parse fragments (some given) (overriding override) w₁) =
        (Inlay.parse (grammarOf (override.getD given)) fragments).mapError Problem.parse ∧
      Spares w₁ (left (parse fragments (some given) (overriding override) w₁)) :=
  ⟨h₁.parse.1.trans h₂.parse.1.symm, h₁.parse⟩

/-- A logger of the parser that lets everything pass. -/
def detailed : Logger :=
  { name := parserLogger, level := .debug, family := 1 }

/-- A session that asks for the other grammar and in which reading is logged in
    detail. -/
def busy : Session :=
  { environment := [("SPLICE_PARSER_JSX", "true")]
    settings := some
      { sources := [{ name := "mine", data := .object [("parser", .object [("jsx", .bool true)])] }] }
    journal :=
      { loggers := [{ name := "other", family := 0 }, detailed]
        families := [[{ layout := .blank }], [{ stream := "log", layout := .json }]]
        registry := [("other", 0), (parserLogger, 1)] }
    now := { year := 2026, month := 1, day := 15 } }

/-- In a fresh session the logger is made from the defaults, and lets nothing
    pass that is logged about a parse. -/
theorem logs_fresh (fragments : List (List Char)) (braces : Value) :
    fresh.Logs fragments braces := by
  have hs := consultedSettings_of_keep
    (sharedSettings_of_none (rfl : fresh.settings = none)) Settings.keep_defaults
  have hget := getLogger_of_new (by decide : fresh.journal.registered? parserLogger = none) hs rfl
    (by decide : Level.ofName? "WARNING" = some .warning) rfl
  refine ⟨_, _, hget, fun note _ l hl hlevel => ?_⟩
  cases hl
  cases hlevel

theorem logs_busy {fragments : List (List Char)} {braces : Value}
    (h : ∀ note ∈ notes fragments braces, ∀ e ∈ note.2, e.2.writable = true) :
    busy.Logs fragments braces := by
  have hget : getLogger parserLogger none busy = .ok 1 busy := rfl
  refine logs_of_accepting hget (by decide) (fun _ _ => rfl) (fun l hl => ?_) h
  cases hl
  exact nofun

theorem parse_independent_busy :
    fresh.Logs ["<".toList, "p ".toList, "@".toList, "m".toList, "/>".toList] (.bool false) ∧
      busy.Logs ["<".toList, "p ".toList, "@".toList, "m".toList, "/>".toList] (.bool false) ∧
      outcome (parse ["<".toList, "p ".toList, "@".toList, "m".toList, "/>".toList]
          (some (.bool true)) (overriding (some (.bool false))) fresh) =
        outcome (parse ["<".toList, "p ".toList, "@".toList, "m".toList, "/>".toList]
          (some (.bool true)) (overriding (some (.bool false))) busy) ∧
      Spares busy (left (parse ["<".toList, "p ".toList, "@".toList, "m".toList, "/>".toList]
          (some (.bool true)) (overriding (some (.bool false))) busy)) := by
  have hfresh := logs_fresh ["<".toList, "p ".toList, "@".toList, "m".toList, "/>".toList]
    (.bool false)
  have hbusy : busy.Logs ["<".toList, "p ".toList, "@".toList, "m".toList, "/>".toList]
      (.bool false) := logs_busy (by decide +kernel)
  exact ⟨hfresh, hbusy,
    (parse_independent _ (.bool true) (some (.bool false)) hfresh hbusy).1,
    (parse_independent _ (.bool true) (some (.bool false)) hbusy hfresh).2.2⟩

/-! ### Sessions in which logging fails -/

/-- A session like it whose streams are all closed. -/
def shut : Session :=
  { busy with refuses := fun _ _ => true }

theorem parse_of_log_error (fragments : List (List Char)) (given : Value)
    (override : Option Value) {p : Problem} {w₁ : Session}
    (hget : getLogger parserLogger none w = .ok id w')
    (hlog : log id .debug "parse started"
      [("fragments", .int (fragments.filter (!·.isEmpty)).length), ("jsx", override.getD given)]
      none w' = .error p w₁) :
    parse fragments (some given) (overriding override) w = .error p w₁ := by
  rw [parse_eq_logAll fragments given override hget]
  simp only [notes, logAll, bind, EStateM.bind, hlog]

theorem parse_shut : outcome (parse [['a']] (some (.bool false)) (overriding none) shut) =
    .error (.refusedWrite "log") := by
  have hhandles : Layout.json.Handles (shut.recordOf detailed .debug "parse started"
      [("fragments", .int 1), ("jsx", .bool false)] none) :=
    ⟨by decide, nofun⟩
  rcases Layout.render_iff.mpr hhandles with ⟨text, htext⟩
  have hlog : log 1 .debug "parse started" [("fragments", .int 1), ("jsx", .bool false)] none
      shut = .error (.refusedWrite "log") shut := by
    rw [log_of_some rfl (by decide), if_pos (by decide : Level.debug.passes detailed.level = true)]
    exact deliver_of_refuses rfl htext rfl
  have hget : getLogger parserLogger none shut = .ok 1 shut := rfl
  rw [parse_of_log_error [['a']] (.bool false) none hget hlog]
  rfl

theorem parse_overlong {n : Int} (h : Numeral.writable n = false) :
    outcome (parse [['a']] (some (.int n)) (overriding none) busy) = .error .unwritable := by
  have hrender : Layout.json.render (busy.recordOf detailed .debug "parse started"
      [("fragments", .int 1), ("jsx", .int n)] none) = .error .unwritable := by
    refine Layout.render_json_overlong rfl fun hall => ?_
    have hjsx : Numeral.writable n = true :=
      hall ("jsx", .int n) (by simp [recordOf, detailed, Entries.insert])
    rw [h] at hjsx
    cases hjsx
  have hlog : log 1 .debug "parse started" [("fragments", .int 1), ("jsx", .int n)] none busy =
      .error .unwritable busy := by
    rw [log_of_some rfl (by simp [reservedForLogging]),
      if_pos (by decide : Level.debug.passes detailed.level = true)]
    exact deliver_of_error rfl hrender
  have hget : getLogger parserLogger none busy = .ok 1 busy := rfl
  rw [parse_of_log_error [['a']] (.int n) none hget hlog]
  rfl

/-- A source that has nothing wrong with it cannot be read where reading is
    logged to a closed stream, nor with a choice of grammar that is too long to
    be logged, though the logger is there and has no place-holder among its
    handlers. -/
theorem parse_dependent :
    (∃ root, ∀ g, Inlay.parse g [['a']] = .ok root) ∧
      getLogger parserLogger none shut = .ok 1 shut ∧ shut.journal.LaysOut 1 ∧
      outcome (parse [['a']] (some (.bool false)) (overriding none) shut) =
        .error (.refusedWrite "log") ∧
      getLogger parserLogger none busy = .ok 1 busy ∧ busy.journal.LaysOut 1 ∧
      outcome (parse [['a']] (some (.int (10 ^ Numeral.digitLimit))) (overriding none) busy) =
        .error .unwritable :=
  ⟨⟨_, fun g => by cases g <;> rfl⟩, rfl, by decide, parse_shut, rfl, by decide,
    parse_overlong Numeral.writable_overlong⟩

end Session

end Inlay
