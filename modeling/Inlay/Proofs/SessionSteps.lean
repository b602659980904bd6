import Inlay.Proofs.Success
import Inlay.Session

/-!
# The Steps of a Session

What the operations of a session do, one lemma for each, so that later proofs
never open them. An operation that may be refused has one equation for each
way in which it can go, or says what follows from its success.

The shared settings have three such ways. If they are there, they are handed
over and nothing changes. If they are not, they are made from the defaults and
the environment; and if the environment does not fit, that is a problem, but
the defaults alone have been stored by then.

## Main definitions

* `Session.outcome`, `Session.left`: The two halves of what an operation does.
* `Session.fresh`: Where a session begins.

## Theorems

* `Session.sharedSettings_of_some`, `Session.sharedSettings_of_none`: The
  shared settings.
* `Session.updateSettings_of_some`: Changing them.
* `Session.consultedSettings_eq_ok`: Reading them leaves their sources alone.
* `Session.getLogger_of_new`: A logger that is not registered yet.
-/

namespace Inlay

theorem Settings.sources_keep {s s' : Settings} (h : s.keep = .ok s') : s'.sources = s.sources := by
  unfold Settings.keep at h
  cases hmerged : s.merged with
  | error m =>
      rw [hmerged] at h
      simp [bind, Except.bind] at h
  | ok entries =>
      rw [hmerged] at h
      simp only [bind, Except.bind, pure, Except.pure, Except.ok.injEq] at h
      rw [← h]

/-- One computation after another that succeeds. -/
theorem bind_of_ok {ε σ α β : Type} {x : EStateM ε σ α} {f : α → EStateM ε σ β} {st st' : σ} {a : α}
    (h : x st = .ok a st') : (x >>= f) st = f a st' := by
  simp only [bind, EStateM.bind, h]

namespace Session

/-- What an operation came to. -/
def outcome {α : Type} : EStateM.Result Problem Session α → Except Problem α
  | .ok a _ => .ok a
  | .error p _ => .error p

/-- The session that an operation left. -/
def left {α : Type} : EStateM.Result Problem Session α → Session
  | .ok _ w => w
  | .error _ w => w

/-- A session in which nothing has happened yet. -/
def fresh : Session :=
  { now := { year := 2026, month := 1, day := 15 } }

variable {w w' : Session} {s : Settings}

theorem sharedSettings_of_some (h : w.settings = some s) : sharedSettings w = .ok s w := by
  unfold sharedSettings
  rw [get_bind_eq, h]
  rfl

theorem sharedSettings_of_none (h : w.settings = none) :
    sharedSettings w =
      match Settings.defaults.loadEnvironment w.environment with
      | .ok s => .ok s { w with settings := some s }
      | .error m => .error (.misfit m) { w with settings := some Settings.defaults } := by
  -- The defaults are stored first, so a problem with the environment leaves them.
  have hstore : (modify fun w => { w with settings := some Settings.defaults } : Act PUnit) w =
      .ok ⟨⟩ { w with settings := some Settings.defaults } :=
    rfl
  unfold sharedSettings
  rw [get_bind_eq, h]
  simp only
  rw [bind_of_ok hstore, get_bind_eq]
  cases Settings.defaults.loadEnvironment w.environment <;> rfl

theorem updateSettings_of_some (h : w.settings = some s) (f : Settings → Except Misfit Settings) :
    updateSettings f w = match f s with
      | .ok s' => .ok () { w with settings := some s' }
      | .error m => .error (.misfit m) w := by
  unfold updateSettings
  simp only [bind, EStateM.bind, sharedSettings_of_some h]
  cases f s <;> rfl

theorem ofSettings_eq_ok_iff {α : Type} {r : Except Misfit α} {a : α} :
    ofSettings r w = .ok a w' ↔ r = .ok a ∧ w' = w := by
  cases r with
  | ok b =>
      simp only [ofSettings, pure_eq_ok_iff, Except.ok.injEq]
      exact and_congr_left' eq_comm
  | error m => simp [ofSettings, throw_ne_ok]

theorem ofJournal_eq_ok_iff {α : Type} {r : Except Problem α} {a : α} :
    ofJournal r w = .ok a w' ↔ r = .ok a ∧ w' = w := by
  cases r with
  | ok b =>
      simp only [ofJournal, pure_eq_ok_iff, Except.ok.injEq]
      exact and_congr_left' eq_comm
  | error m => simp [ofJournal, throw_ne_ok]

theorem levelOfName_eq_ok_iff {name : String} {level : Level} :
    levelOfName name w = .ok level w' ↔ Level.ofName? name = some level ∧ w' = w := by
  unfold levelOfName
  cases Level.ofName? name with
  | some l =>
      simp only [pure_eq_ok_iff, Option.some.injEq]
      exact and_congr_left' eq_comm
  | none => simp [throw_ne_ok]

theorem updateJournal_eq_ok_iff {α : Type} {f : Journal → α × Journal} {a : α} :
    updateJournal f w = .ok a w' ↔
      a = (f w.journal).1 ∧ w' = { w with journal := (f w.journal).2 } := by
  unfold updateJournal
  rw [get_bind_eq]
  simp only [bind_eq_ok_iff, modify_eq_ok_iff, pure_eq_ok_iff]
  constructor
  · rintro ⟨_, _, rfl, ha, hw⟩
    exact ⟨ha, hw⟩
  · rintro ⟨ha, hw⟩
    exact ⟨⟨⟩, _, rfl, ha, hw⟩

theorem textSetting_eq_ok {key default text : String} (h : textSetting s key default w = .ok text w') :
    w' = w := by
  unfold textSetting at h
  rw [bind_eq_ok_iff] at h
  rcases h with ⟨v, w₁, hv, h⟩
  rw [ofSettings_eq_ok_iff] at hv h
  rw [h.2, hv.2]

theorem sharedSettings_eq_ok (h : sharedSettings w = .ok s w') :
    w' = { w with settings := some s } ∧ ∀ s₀, w.settings = some s₀ → s₀ = s := by
  cases hsettings : w.settings with
  | some s₀ =>
      rw [sharedSettings_of_some hsettings] at h
      simp only [EStateM.Result.ok.injEq] at h
      rcases h with ⟨rfl, rfl⟩
      refine ⟨by rw [← hsettings], fun s₁ hs₁ => ?_⟩
      rw [Option.some.injEq] at hs₁
      exact hs₁.symm
  | none =>
      rw [sharedSettings_of_none hsettings] at h
      cases hload : Settings.defaults.loadEnvironment w.environment with
      | ok s₀ =>
          simp only [hload, EStateM.Result.ok.injEq] at h
          rcases h with ⟨rfl, rfl⟩
          exact ⟨rfl, fun s₁ hs₁ => by simp at hs₁⟩
      | error m => simp [hload] at h

/-- Reading the shared settings leaves their sources as they were. -/
theorem consultedSettings_eq_ok (h : consultedSettings w = .ok s w') :
    w' = { w with settings := some s } ∧ ∀ s₀, w.settings = some s₀ → s.sources = s₀.sources := by
  simp only [consultedSettings, updateSettings, bind_eq_ok_iff, ofSettings_eq_ok_iff,
    modify_eq_ok_iff] at h
  rcases h with ⟨_, _, ⟨s₁, w₁, hs₁, s₂, _, ⟨hkeep, rfl⟩, rfl⟩, h⟩
  rw [sharedSettings_of_some rfl] at h
  simp only [EStateM.Result.ok.injEq] at h
  rcases h with ⟨rfl, rfl⟩
  rcases sharedSettings_eq_ok hs₁ with ⟨rfl, hsame⟩
  refine ⟨rfl, fun s₀ hs₀ => ?_⟩
  rw [hsame s₀ hs₀, Settings.sources_keep hkeep]

theorem consultedSettings_of_keep {s' : Settings} (h : sharedSettings w = .ok s w')
    (hkeep : s.keep = .ok s') : consultedSettings w = .ok s' { w' with settings := some s' } := by
  have hupdate : updateSettings Settings.keep w = .ok () { w' with settings := some s' } := by
    unfold updateSettings
    rw [bind_of_ok h, hkeep]
    rfl
  unfold consultedSettings
  rw [bind_of_ok hupdate]
  exact sharedSettings_of_some rfl

/-- A logger that is not registered yet is made from the shared settings, and
    in the end it is the format that decides. -/
theorem getLogger_of_new {name word format : String} {level : Level}
    (hname : w.journal.registered? name = none) (hs : consultedSettings w = .ok s w')
    (hword : textSetting s "log.level" "WARNING" w' = .ok word w')
    (hlevel : Level.ofName? word = some level)
    (hformat : textSetting s "log.format" "text" w' = .ok format w') :
    getLogger name none w =
      match Layout.ofName format with
      | .ok layout =>
        let handlers := [{ stream := w'.journal.defaultStream, layout }]
        .ok (w'.journal.register name level handlers).1
          { w' with journal := (w'.journal.register name level handlers).2 }
      | .error p => .error p w' := by
  have hlevel' : levelOfName word w' = .ok level w' := levelOfName_eq_ok_iff.mpr ⟨hlevel, rfl⟩
  unfold getLogger
  rw [get_bind_eq, hname]
  simp only
  rw [bind_of_ok hs, bind_of_ok hword, bind_of_ok hlevel', bind_of_ok hformat]
  cases Layout.ofName format <;> rfl

end Session

end Inlay
