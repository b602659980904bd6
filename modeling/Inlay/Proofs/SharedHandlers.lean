import Inlay.Proofs.LoggerFamilies

/-!
# Sharing Handlers

Loggers are asked for by name, derived from one another, given handlers and
reconfigured, in any order and with any of these calls refused. Throughout,
handlers are shared within a family of loggers and not beyond it.

A family is told here by how its loggers came about, and not by the number
that the journal keeps: it is a logger that was asked for by name, and
whatever has been derived from it, step by step (`Stems`). What is proved
about numbers of families carries over, since a derived logger is made in the
family of the one it is derived from, and no call moves a logger to another.

A call that is refused may still have an effect. Asking for a logger that
cannot be made may have made the shared settings, but no logger; and a
reconfiguration with an unknown format has already set the stream for loggers
to come.

## Main definitions

* `Session.LogCall`, `Session.after`: Calls, and what they leave.
* `Session.Stems`: Loggers that were derived from another one.
* `Session.Shares`: How handlers are shared behind some calls.

## Theorems

* `Session.getLogger_cases`, `Session.withContext_cases`,
  `Session.reconfigures_configureLogging`: What a call does to the journal.
* `Session.LogCall.steps`, `Session.after_steps`: Calls are steps of the
  journal.
* `Session.Stems.family`: What stems from a logger is in its family.
* `Session.writesOnce_of_handlersOf`: With one handler, a record is written
  once.
* `Session.handlers_shared`: Handlers are shared within families.
-/

namespace Inlay

namespace Session

/-! ### Operations that leave the journal alone -/

/-- The journal stays as it is, also if the operation is refused. -/
def KeepsJournal {α : Type} (x : Act α) : Prop :=
  ∀ w, (left (x w)).journal = w.journal

section

variable {α β : Type} {x : Act α} {f : α → Act β}

theorem KeepsJournal.bind (hx : KeepsJournal x) (hf : ∀ a, KeepsJournal (f a)) :
    KeepsJournal (x >>= f) := by
  intro w
  have hfirst := hx w
  simp only [Bind.bind, EStateM.bind]
  cases hres : x w with
  | ok a w₁ =>
      rw [hres] at hfirst
      exact (hf a w₁).trans hfirst
  | error p w₁ =>
      rw [hres] at hfirst
      exact hfirst

/-- An operation behind one that leaves the journal alone is not reached, or it
    finds the same journal. -/
theorem KeepsJournal.bind_of {P : EStateM.Result Problem Session β → Prop} {j : Journal}
    {w : Session} (hx : KeepsJournal x) (hw : w.journal = j)
    (herror : ∀ p w', w'.journal = j → P (.error p w'))
    (hok : ∀ a w', x w = .ok a w' → w'.journal = j → P (f a w')) : P ((x >>= f) w) := by
  have hfirst := (hx w).trans hw
  simp only [Bind.bind, EStateM.bind]
  cases hres : x w with
  | ok a w₁ =>
      rw [hres] at hfirst
      exact hok a w₁ hres hfirst
  | error p w₁ =>
      rw [hres] at hfirst
      exact herror p w₁ hfirst

theorem keeps_ofSettings (r : Except Misfit α) : KeepsJournal (ofSettings r) := by
  intro w
  cases r <;> rfl

theorem keeps_ofJournal (r : Except Problem α) : KeepsJournal (ofJournal r) := by
  intro w
  cases r <;> rfl

theorem keeps_levelOfName (name : String) : KeepsJournal (levelOfName name) := by
  intro w
  unfold levelOfName
  cases Level.ofName? name <;> rfl

theorem keeps_textSetting (s : Settings) (key default : String) :
    KeepsJournal (textSetting s key default) :=
  (keeps_ofSettings _).bind fun _ => keeps_ofSettings _

theorem keeps_sharedSettings : KeepsJournal sharedSettings := by
  intro w
  cases hsettings : w.settings with
  | some s => rw [sharedSettings_of_some hsettings]; rfl
  | none =>
      rw [sharedSettings_of_none hsettings]
      cases Settings.defaults.loadEnvironment w.environment <;> rfl

theorem keeps_updateSettings (f : Settings → Except Misfit Settings) :
    KeepsJournal (updateSettings f) :=
  keeps_sharedSettings.bind fun _ => (keeps_ofSettings _).bind fun _ _ => rfl

theorem keeps_consultedSettings : KeepsJournal consultedSettings :=
  (keeps_updateSettings _).bind fun _ => keeps_sharedSettings

end

/-! ### What each call does to the journal -/

/-- A new logger has been registered, or none could be made. -/
def Registers (j : Journal) (name : String) : EStateM.Result Problem Session Nat → Prop
  | .ok id w => ∃ level handlers,
    id = (j.register name level handlers).1 ∧ w.journal = (j.register name level handlers).2
  | .error _ w => w.journal = j

/-- Every registered logger has been reconfigured, or none has and at most the
    stream for loggers to come is another one. -/
def Reconfigures (j : Journal) (level : Level) (format : String) (stream : Option String) :
    EStateM.Result Problem Session Unit → Prop
  | .ok _ w => ∃ layout, Layout.ofName format = .ok layout ∧
    w.journal = Journal.reconfigure { j with stream } level
      { stream := stream.getD "stderr", layout, level := .debug }
  | .error _ w => w.journal = j ∨ w.journal = { j with stream }

variable {w w' : Session} {name : String} {id : Nat} {l : Logger}

theorem getLogger_of_registered (hname : w.journal.registered? name = some id)
    (settings : Option Settings) : getLogger name settings w = .ok id w := by
  unfold getLogger
  rw [get_bind_eq, hname]
  rfl

theorem registers_getLogger (hname : w.journal.registered? name = none)
    (settings : Option Settings) : Registers w.journal name (getLogger name settings w) := by
  have hrefused : ∀ p w', w'.journal = w.journal → Registers w.journal name (.error p w') :=
    fun _ _ hj => hj
  -- Whatever settings it is made from, nothing before the last step touches the journal.
  have hmade : ∀ s w₁, w₁.journal = w.journal → Registers w.journal name ((do
      let level ← levelOfName (← textSetting s "log.level" "WARNING")
      let layout ← ofJournal (Layout.ofName (← textSetting s "log.format" "text"))
      updateJournal fun j => j.register name level [{ stream := j.defaultStream, layout }]) w₁) := by
    intro s w₁ hj
    refine (keeps_textSetting _ _ _).bind_of hj hrefused fun word w₂ _ hj => ?_
    refine (keeps_levelOfName _).bind_of hj hrefused fun level w₃ _ hj => ?_
    refine (keeps_textSetting _ _ _).bind_of hj hrefused fun format w₄ _ hj => ?_
    refine (keeps_ofJournal _).bind_of hj hrefused fun layout w₅ _ hj => ?_
    rw [← hj]
    exact ⟨level, _, rfl, rfl⟩
  unfold getLogger
  rw [get_bind_eq, hname]
  cases settings with
  | some s => exact hmade s w rfl
  | none =>
      exact keeps_consultedSettings.bind_of rfl hrefused fun s w₁ _ hj => hmade s w₁ hj

/-- Asking for a logger finds it, is refused, or makes a new one. -/
theorem getLogger_cases (name : String) (settings : Option Settings) (w : Session) :
    (∃ id, w.journal.registered? name = some id ∧ getLogger name settings w = .ok id w) ∨
      w.journal.registered? name = none ∧
        ((∃ p w', getLogger name settings w = .error p w' ∧ w'.journal = w.journal) ∨
          ∃ level handlers w', getLogger name settings w = .ok w.journal.loggers.length w' ∧
            w'.journal = (w.journal.register name level handlers).2) := by
  cases hname : w.journal.registered? name with
  | some id => exact Or.inl ⟨id, rfl, getLogger_of_registered hname settings⟩
  | none =>
      refine Or.inr ⟨rfl, ?_⟩
      have hmade := registers_getLogger hname settings
      cases hres : getLogger name settings w with
      | ok id w' =>
          rw [hres] at hmade
          rcases hmade with ⟨level, handlers, rfl, hj⟩
          exact Or.inr ⟨level, handlers, w', rfl, hj⟩
      | error p w' =>
          rw [hres] at hmade
          exact Or.inl ⟨p, w', rfl, hmade⟩

/-- Deriving a logger is refused, has nothing to derive from, or makes a new
    one. -/
theorem withContext_cases (id : Nat) (context : Entries) (w : Session) :
    (∃ p, withContext id context w = .error p w) ∨
      (w.journal.logger? id = none ∧ withContext id context w = .ok id w) ∨
      ∃ l, w.journal.logger? id = some l ∧ withContext id context w =
        .ok w.journal.loggers.length { w with journal := (w.journal.derive l context).2 } := by
  cases hfind : context.find? fun e => reservedForDeriving.contains e.1 with
  | some e =>
      refine Or.inl ⟨.reservedName e.1, ?_⟩
      simp only [withContext, checkNames, hfind]
      rfl
  | none =>
      have hfree : checkNames reservedForDeriving context w = .ok () w := by
        simp only [checkNames, hfind]
        rfl
      unfold withContext
      rw [bind_of_ok hfree, get_bind_eq]
      cases w.journal.logger? id with
      | none => exact Or.inr (Or.inl ⟨rfl, rfl⟩)
      | some l => exact Or.inr (Or.inr ⟨l, rfl, rfl⟩)

theorem addHandler_of_some (hl : w.journal.logger? id = some l) (h : Handler) :
    addHandler id h w = .ok () { w with journal := w.journal.addHandler l h } := by
  unfold addHandler
  rw [get_bind_eq, hl]
  rfl

theorem addHandler_of_none (hl : w.journal.logger? id = none) (h : Handler) :
    addHandler id h w = .ok () w := by
  unfold addHandler
  rw [get_bind_eq, hl]
  rfl

theorem reconfigures_configureLogging (level : Level) (format : String) (stream : Option String)
    (w : Session) :
    Reconfigures w.journal level format stream (configureLogging level format stream w) := by
  unfold configureLogging
  refine (keeps_updateSettings _).bind_of rfl (fun _ _ hj => Or.inl hj) fun _ w₁ _ hj => ?_
  refine (keeps_updateSettings _).bind_of hj (fun _ _ hj => Or.inl hj) fun _ w₂ _ hj => ?_
  have hstream : updateJournal (fun j => ((), { j with stream })) w₂ =
      .ok () { w₂ with journal := { w.journal with stream } } := by
    rw [← hj]
    rfl
  rw [bind_of_ok hstream]
  -- From here on the stream is another one, also if the format is refused.
  refine (keeps_ofJournal _).bind_of rfl (fun _ _ hj => Or.inr hj) fun layout w₃ hlayout hj => ?_
  rw [ofJournal_eq_ok_iff] at hlayout
  refine ⟨layout, hlayout.1, ?_⟩
  rw [hlayout.2]
  rfl

/-! ### Calls -/

/-- Calls that make loggers, derive them, give them handlers or reconfigure
    them. -/
inductive LogCall where
  | get (name : String) (settings : Option Settings)
  | derive (id : Nat) (context : Entries)
  | handle (id : Nat) (h : Handler)
  | configure (level : Level) (format : String) (stream : Option String)

/-- The session that a call leaves, be it refused or not. -/
def LogCall.perform (w : Session) : LogCall → Session
  | .get name settings => left (getLogger name settings w)
  | .derive id context => left (withContext id context w)
  | .handle id h => left (addHandler id h w)
  | .configure level format stream => left (configureLogging level format stream w)

/-- The session that some calls leave. -/
def after (calls : List LogCall) (w : Session) : Session :=
  calls.foldl LogCall.perform w

theorem after_behind (calls more : List LogCall) (call : LogCall) (w : Session) :
    after (calls ++ call :: more) w = after more (call.perform (after calls w)) := by
  simp only [after, List.foldl_append, List.foldl_cons]

theorem after_concat (calls : List LogCall) (call : LogCall) (w : Session) :
    after (calls ++ [call]) w = call.perform (after calls w) :=
  after_behind calls [] call w

theorem steps_getLogger (name : String) (settings : Option Settings) (w : Session) :
    w.journal.Steps (left (getLogger name settings w)).journal := by
  rcases getLogger_cases name settings w with
    ⟨id, _, hres⟩ | ⟨hname, ⟨p, w', hres, hj⟩ | ⟨level, handlers, w', hres, hj⟩⟩
  · rw [hres]
    exact .refl
  · simp only [hres, left, hj]
    exact .refl
  · simp only [hres, left, hj]
    exact .single (.register level handlers hname)

theorem steps_configureLogging (level : Level) (format : String) (stream : Option String)
    (w : Session) :
    w.journal.Steps (left (configureLogging level format stream w)).journal := by
  have hdone := reconfigures_configureLogging level format stream w
  have hstream : w.journal.Step { w.journal with stream } := .stream stream
  cases hres : configureLogging level format stream w with
  | ok u w' =>
      rw [hres] at hdone
      rcases hdone with ⟨layout, _, hj⟩
      simp only [left, hj]
      exact .tail (.single hstream) (.reconfigure level _)
  | error p w' =>
      rw [hres] at hdone
      rcases hdone with hj | hj
      · simp only [left, hj]
        exact .refl
      · simp only [left, hj]
        exact .single hstream

/-- A call takes the journal some steps further. -/
theorem LogCall.steps (call : LogCall) (w : Session) : w.journal.Steps (call.perform w).journal := by
  cases call with
  | get name settings => exact steps_getLogger name settings w
  | derive id context =>
      rw [perform]
      rcases withContext_cases id context w with ⟨p, hres⟩ | ⟨_, hres⟩ | ⟨l, hl, hres⟩
      · rw [hres]
        exact .refl
      · rw [hres]
        exact .refl
      · rw [hres]
        exact .single (.derive context hl)
  | handle id h =>
      rw [perform]
      cases hl : w.journal.logger? id with
      | none =>
          rw [addHandler_of_none hl]
          exact .refl
      | some l =>
          rw [addHandler_of_some hl]
          exact .single (.handle l h)
  | configure level format stream => exact steps_configureLogging level format stream w

theorem after_steps (calls : List LogCall) (w : Session) :
    w.journal.Steps (after calls w).journal := by
  induction calls generalizing w with
  | nil => exact .refl
  | cons call calls ih => exact (call.steps w).trans (ih (call.perform w))

/-! ### Loggers that stem from others -/

/-- In the course of some calls, a logger has been derived from another. -/
def Begets (w : Session) (calls : List LogCall) (parent child : Nat) : Prop :=
  ∃ before context later w', calls = before ++ .derive parent context :: later ∧
    withContext parent context (after before w) = .ok child w'

/-- A logger has been derived from another, in any number of steps. -/
def Stems (w : Session) (calls : List LogCall) : Nat → Nat → Prop :=
  Relation.ReflTransGen (Begets w calls)

variable {calls : List LogCall} {i k : Nat}

/-- A derived logger is in the family of the one it is derived from, and stays
    there. -/
theorem Begets.family (h : Begets w calls i k) :
    (after calls w).journal.familyOf? i = (after calls w).journal.familyOf? k := by
  rcases h with ⟨before, context, later, w', rfl, hres⟩
  rcases withContext_cases i context (after before w) with ⟨p, herr⟩ | ⟨_, hsame⟩ | ⟨l, hl, hnew⟩
  · rw [herr] at hres
    cases hres
  · rw [hsame] at hres
    cases hres
    rfl
  · -- From the moment it is derived, both have a family, and it is the same one.
    rw [hnew] at hres
    cases hres
    have hparent := Journal.familyOf?_of_logger? hl
    have hstep : (after before w).journal.Step _ := .derive context hl
    have hchild : ((after before w).journal.derive l context).2.familyOf?
        (after before w).journal.loggers.length = some l.family := by
      rw [Journal.familyOf?_derive, if_pos rfl]
    have hlater : after (before ++ .derive i context :: later) w = after later
        { after before w with journal := ((after before w).journal.derive l context).2 } := by
      rw [after_behind, LogCall.perform, hnew]
      rfl
    rw [hlater]
    have hmore := (after_steps later
      { after before w with journal := ((after before w).journal.derive l context).2 }).extends
    rw [hmore.family (hstep.extends.family hparent), hmore.family hchild]

theorem Stems.family (h : Stems w calls i k) :
    (after calls w).journal.familyOf? i = (after calls w).journal.familyOf? k := by
  induction h with
  | refl => rfl
  | tail _ hbegets ih => rw [ih, hbegets.family]

/-! ### Records -/

/-- Every record that a logger lets pass is written to one stream, once, if the
    layout lays it out (`Layout.render_iff`) and the stream accepts the line. No
    record comes about if its context uses a reserved name. -/
def WritesOnce (w : Session) (id : Nat) (stream : String) (layout : Layout) : Prop :=
  ∀ {l : Logger} {level : Level} {message : String} {context : Entries}
    {attached : Option Attachment} {text : String},
    w.journal.logger? id = some l → level.passes l.level = true →
    (∀ e ∈ context, e.1 ∉ reservedForLogging) →
    layout.render (w.recordOf l level message context attached) = .ok text →
    w.refuses stream (text ++ "\n") = false →
    log id level message context attached w =
      .ok () { w with written := w.written ++ [(stream, text ++ "\n")] }

/-- A single handler that lets everything pass writes every record once. -/
theorem writesOnce_of_handlersOf {stream : String} {layout : Layout}
    (hone : w.journal.handlersOf id = [{ stream, layout, level := .debug }]) :
    WritesOnce w id stream layout := by
  intro l level message context attached text hl hlevel hcontext htext haccepts
  have hhandlers : w.journal.handlers l = [{ stream, layout, level := .debug }] := by
    rw [Journal.handlersOf_of_family (Journal.familyOf?_of_logger? hl)] at hone
    exact hone
  have hpasses : level.passes .debug = true := by
    cases level <;> decide
  have hrefuses : ¬ w.refuses stream (text ++ "\n") = true := Bool.eq_false_iff.mp haccepts
  rw [log_of_some hl hcontext, if_pos hlevel, hhandlers, deliver_cons]
  simp only [recordOf] at htext ⊢
  simp only [if_pos hpasses, htext, if_neg hrefuses]
  rfl

/-! ### How handlers are shared -/

/-- How handlers are shared behind some calls. -/
structure Shares (w : Session) (calls : List LogCall) : Prop where
  /-- A logger and those that stem from it have the same handlers. -/
  same : ∀ {i k}, Stems w calls i k →
    (after calls w).journal.handlersOf i = (after calls w).journal.handlersOf k
  /-- A handler that is added through one of them is there for all of them. -/
  seen : ∀ {root i k l} (h : Handler), Stems w calls root i → Stems w calls root k →
    (after calls w).journal.logger? i = some l →
    (after (calls ++ [.handle i h]) w).journal.handlersOf k =
      (after calls w).journal.handlersOf k ++ [h]
  /-- It is not there for those that stem from a logger of another name. -/
  apart : ∀ {a b root root' i k} (h : Handler), a ≠ b →
    (after calls w).journal.registered? a = some root →
    (after calls w).journal.registered? b = some root' →
    Stems w calls root i → Stems w calls root' k →
    (after (calls ++ [.handle i h]) w).journal.handlersOf k = (after calls w).journal.handlersOf k
  /-- Asking for a logger, or deriving one, adds no handler to those there are. -/
  spared : ∀ {id l}, (after calls w).journal.logger? id = some l →
    (∀ name settings, (after (calls ++ [.get name settings]) w).journal.handlersOf id =
      (after calls w).journal.handlersOf id) ∧
    ∀ parent context, (after (calls ++ [.derive parent context]) w).journal.handlersOf id =
      (after calls w).journal.handlersOf id
  /-- A logger that was asked for is registered, and its name gives the same
      logger ever after. -/
  kept : ∀ {name settings id w'}, getLogger name settings (after calls w) = .ok id w' →
    ∀ more, (after (calls ++ .get name settings :: more) w).journal.registered? name = some id ∧
      ∀ settings', getLogger name settings' (after (calls ++ .get name settings :: more) w) =
        .ok id (after (calls ++ .get name settings :: more) w)
  /-- Asking for a logger that cannot be made leaves the journal as it was. -/
  refused : ∀ {name settings p w'}, getLogger name settings (after calls w) = .error p w' →
    w'.journal = (after calls w).journal
  /-- Reconfiguring gives every registered logger the level, and it and those
      that stem from it the one handler. -/
  reconfigured : ∀ {level format stream w'},
    configureLogging level format stream (after calls w) = .ok () w' →
    ∃ layout, Layout.ofName format = .ok layout ∧
      ∀ {name root}, w'.journal.registered? name = some root →
        (∃ l, w'.journal.logger? root = some l ∧ l.level = level) ∧
        ∀ {id}, Stems w calls root id →
          w'.journal.handlersOf id =
            [{ stream := stream.getD "stderr", layout, level := .debug }] ∧
          WritesOnce w' id (stream.getD "stderr") layout

/-- A handler is added for the family of a logger. -/
theorem handlersOf_handle (hsound : (after calls w).journal.Sound)
    (hl : (after calls w).journal.logger? i = some l) (h : Handler) (k : Nat) :
    (after (calls ++ [.handle i h]) w).journal.handlersOf k =
      if (after calls w).journal.familyOf? k = (after calls w).journal.familyOf? i then
        (after calls w).journal.handlersOf k ++ [h]
      else (after calls w).journal.handlersOf k := by
  rw [after_concat, LogCall.perform, addHandler_of_some hl]
  exact Journal.handlersOf_addHandler hsound hl h k

/-- Loggers that stem from those of different names are given handlers
    separately. -/
theorem handlersOf_apart {a b : String} {root root' : Nat} (hsound : (after calls w).journal.Sound)
    (hne : a ≠ b) (ha : (after calls w).journal.registered? a = some root)
    (hb : (after calls w).journal.registered? b = some root') (hi : Stems w calls root i)
    (hk : Stems w calls root' k) (h : Handler) :
    (after (calls ++ [.handle i h]) w).journal.handlersOf k =
      (after calls w).journal.handlersOf k := by
  cases hl : (after calls w).journal.logger? i with
  | none =>
      rw [after_concat, LogCall.perform, addHandler_of_none hl]
      rfl
  | some l =>
      rw [handlersOf_handle hsound hl, if_neg]
      rw [← hi.family, ← hk.family]
      exact Ne.symm (hsound.apart hne ha hb)

theorem handlersOf_get (hsound : (after calls w).journal.Sound)
    (hl : (after calls w).journal.logger? id = some l) (name : String)
    (settings : Option Settings) :
    (after (calls ++ [.get name settings]) w).journal.handlersOf id =
      (after calls w).journal.handlersOf id := by
  rw [after_concat, LogCall.perform]
  rcases getLogger_cases name settings (after calls w) with
    ⟨found, _, hres⟩ | ⟨_, ⟨p, w', hres, hj⟩ | ⟨level, handlers, w', hres, hj⟩⟩
  · rw [hres]
    rfl
  · simp only [hres, left, hj]
  · simp only [hres, left, hj]
    exact Journal.handlersOf_register hsound (Journal.familyOf?_of_logger? hl) name level handlers

theorem handlersOf_derive (hl : (after calls w).journal.logger? id = some l) (parent : Nat)
    (context : Entries) :
    (after (calls ++ [.derive parent context]) w).journal.handlersOf id =
      (after calls w).journal.handlersOf id := by
  rw [after_concat, LogCall.perform]
  rcases withContext_cases parent context (after calls w) with
    ⟨p, hres⟩ | ⟨_, hres⟩ | ⟨l', _, hres⟩
  · rw [hres]
    rfl
  · rw [hres]
    rfl
  · rw [hres]
    exact Journal.handlersOf_derive (Journal.familyOf?_of_logger? hl) l' context

/-- The logger that was handed out is registered from then on. -/
theorem registered?_of_getLogger {settings : Option Settings}
    (h : getLogger name settings w = .ok id w') : w'.journal.registered? name = some id := by
  rcases getLogger_cases name settings w with
    ⟨found, hname, hres⟩ | ⟨hname, ⟨p, w₁, hres, _⟩ | ⟨level, handlers, w₁, hres, hj⟩⟩
  · rw [hres] at h
    cases h
    exact hname
  · rw [hres] at h
    cases h
  · rw [hres] at h
    cases h
    rw [hj]
    exact Journal.registered?_register_self hname level handlers

/-- It stays registered, whatever is called behind it. -/
theorem registered?_after {settings : Option Settings}
    (h : getLogger name settings (after calls w) = .ok id w') (more : List LogCall) :
    (after (calls ++ .get name settings :: more) w).journal.registered? name = some id := by
  have hlater : after (calls ++ .get name settings :: more) w = after more w' := by
    rw [after_behind, LogCall.perform, h]
    rfl
  rw [hlater]
  exact (after_steps more w').extends.registered (registered?_of_getLogger h)

theorem getLogger_refused {settings : Option Settings} {p : Problem}
    (h : getLogger name settings w = .error p w') : w'.journal = w.journal := by
  rcases getLogger_cases name settings w with
    ⟨found, _, hres⟩ | ⟨_, ⟨q, w₁, hres, hj⟩ | ⟨level, handlers, w₁, hres, _⟩⟩
  · rw [hres] at h
    cases h
  · rw [hres] at h
    cases h
    exact hj
  · rw [hres] at h
    cases h

/-- Behind a reconfiguration, every registered logger and what stems from it
    have the one handler. -/
theorem shares_reconfigured {level : Level} {format : String} {stream : Option String}
    (hsound : (after calls w).journal.Sound)
    (h : configureLogging level format stream (after calls w) = .ok () w') :
    ∃ layout, Layout.ofName format = .ok layout ∧
      ∀ {name root}, w'.journal.registered? name = some root →
        (∃ l, w'.journal.logger? root = some l ∧ l.level = level) ∧
        ∀ {id}, Stems w calls root id →
          w'.journal.handlersOf id =
            [{ stream := stream.getD "stderr", layout, level := .debug }] ∧
          WritesOnce w' id (stream.getD "stderr") layout := by
  have hdone := reconfigures_configureLogging level format stream (after calls w)
  rw [h] at hdone
  rcases hdone with ⟨layout, hlayout, hj⟩
  have hstream : Journal.Sound { (after calls w).journal with stream } :=
    (Journal.Step.stream stream).sound hsound
  refine ⟨layout, hlayout, fun {name root} hname => ?_⟩
  -- No name is changed, so what is registered behind it was registered before.
  have hbefore : Journal.registered? { (after calls w).journal with stream } name = some root := by
    rw [hj, Journal.registered?_reconfigure] at hname
    exact hname
  refine ⟨?_, fun {id} hstems => ?_⟩
  · rw [hj]
    exact Journal.logger?_reconfigure hstream hbefore level _
  · have hone : w'.journal.handlersOf id =
        [{ stream := stream.getD "stderr", layout, level := .debug }] := by
      rw [hj]
      exact Journal.handlersOf_reconfigure hstream hbefore hstems.family.symm level _
    exact ⟨hone, writesOnce_of_handlersOf hone⟩

/-- Whatever is called, in a session that begins without any loggers, handlers
    are shared within families of loggers and not beyond them. -/
theorem handlers_shared (w : Session) (stream : Option String) (calls : List LogCall) :
    Shares { w with journal := { stream } } calls := by
  generalize hstart : ({ w with journal := { stream } } : Session) = start
  have hsound : (after calls start).journal.Sound := by
    refine (after_steps calls start).sound ?_
    rw [← hstart]
    exact Journal.sound_empty stream
  constructor
  case same => exact fun hstems => Journal.handlersOf_congr hstems.family
  case seen =>
    intro root i k l h hi hk hl
    rw [handlersOf_handle hsound hl, if_pos (hk.family.symm.trans hi.family)]
  case apart => exact fun h hne ha hb hi hk => handlersOf_apart hsound hne ha hb hi hk h
  case spared => exact fun hl => ⟨handlersOf_get hsound hl, handlersOf_derive hl⟩
  case kept =>
    intro name settings id w' h more
    have hname := registered?_after h more
    exact ⟨hname, getLogger_of_registered hname⟩
  case refused => exact fun h => getLogger_refused h
  case reconfigured => exact fun h => shares_reconfigured hsound h

/-- Settings that say nothing. -/
def silent : Settings := { kept := some [] }

/-- A logger, one that is derived from it, and a logger of another name. -/
def twoFamilies : List LogCall :=
  [.get "a" (some silent), .derive 0 [("n", .int 1)], .get "b" (some silent)]

theorem stems_twoFamilies : Stems fresh twoFamilies 0 1 :=
  .single ⟨[.get "a" (some silent)], [("n", .int 1)], [.get "b" (some silent)], _, rfl, rfl⟩

/-- A handler that is added through the derived logger is there for the first
    one, and not for the one of the other name. Reconfiguring reaches the derived
    logger as well. -/
theorem handlers_shared_derived :
    Stems fresh twoFamilies 0 1 ∧
      (after (twoFamilies ++ [.handle 1 { stream := "log" }]) fresh).journal.handlersOf 0 =
        [{}, { stream := "log" }] ∧
      (after (twoFamilies ++ [.handle 1 { stream := "log" }]) fresh).journal.handlersOf 2 =
        [{}] ∧
      ∃ w', configureLogging .error "json" (some "out") (after twoFamilies fresh) = .ok () w' ∧
        w'.journal.handlersOf 1 = [{ stream := "out", layout := .json }] ∧
        WritesOnce w' 1 "out" .json := by
  have hshares : Shares fresh twoFamilies := handlers_shared fresh none twoFamilies
  refine ⟨stems_twoFamilies, ?_, ?_, ?_⟩
  · rw [hshares.seen _ stems_twoFamilies .refl rfl]
    decide
  · have hb : (after twoFamilies fresh).journal.registered? "b" = some 2 := rfl
    rw [hshares.apart (a := "a") _ (by decide) rfl hb stems_twoFamilies .refl]
    decide
  · have hdone : configureLogging .error "json" (some "out") (after twoFamilies fresh) =
        .ok () _ := rfl
    rcases hshares.reconfigured hdone with ⟨layout, hlayout, hall⟩
    cases hlayout
    exact ⟨_, hdone, (@hall "a" 0 rfl).2 stems_twoFamilies⟩

end Session

end Inlay
