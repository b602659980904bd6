import Inlay.Proofs.Layers
import Inlay.Proofs.SessionSteps

/-!
# Handing out the Shared Settings

The shared settings are made at first use, from the defaults and the
environment, and can be dropped, so that they are made anew. What is handed
out should hold every setting of the environment, whatever has been asked for
and dropped before.

It does if the settings of the environment fit together. Then every request
gets the same settings. If they do not, the first request is refused, but the
defaults have been stored by then, and the next request gets these. So the
environment is left out exactly where it cannot be read, and only the first
request says so.

## Main definitions

* `Settings.Covers`: Settings that hold those of an environment.
* `Session.Call`, `Session.answers`: Requests for the shared settings, and
  what they get.

## Theorems

* `Settings.covers_loadEnvironment`: What is loaded is covered.
* `Session.answers_of_loaded`: The answers where the environment fits.
* `Session.answers_of_misfit`: The first two where it does not.
* `Session.answers_cover_iff`: Where every answer covers the environment.
* `Session.answers_uncovered`: An answer that does not.
-/

namespace Inlay

namespace Environment

/-- Variables that count. -/
def Counts (v : String × String) : Prop :=
  (settingName? v.1).isSome

/-- Without variables that count, there are no settings. -/
theorem overrides_of_none {env : Environment} (h : ∀ v ∈ env, ¬ Counts v) (found : Entries) :
    overrides env found = .ok found := by
  induction env with
  | nil => rfl
  | cons v rest ih =>
      have hv : settingName? v.1 = none := by simpa [Counts] using h v (by simp)
      rw [overrides, hv]
      exact ih fun u hu => h u (by simp [hu])

/-- Every variable that counts leaves a setting. -/
theorem overrides_eq_nil {env : Environment} {found : Entries} (h : overrides env found = .ok []) :
    found = [] ∧ ∀ v ∈ env, ¬ Counts v := by
  induction env generalizing found with
  | nil =>
      simp only [overrides, Except.ok.injEq] at h
      exact ⟨h, by simp⟩
  | cons v rest ih =>
      cases hv : settingName? v.1 with
      | none =>
          rw [overrides, hv] at h
          rcases ih h with ⟨hfound, hrest⟩
          refine ⟨hfound, fun u hu => ?_⟩
          rcases List.mem_cons.mp hu with rfl | hu
          · simp [Counts, hv]
          · exact hrest u hu
      | some key =>
          rw [overrides, hv] at h
          simp only [except_bind_eq_ok_iff] at h
          rcases h with ⟨value, _, h⟩
          -- What has been found is not lost again.
          have hget := found.get?_insert key key value
          rw [(ih h).1] at hget
          simp [Entries.get?] at hget

end Environment

/-- Settings that hold those of an environment, if it has any. -/
def Settings.Covers (s : Settings) (env : Environment) : Prop :=
  (∃ v ∈ env, Environment.Counts v) →
    ∃ found data, Environment.overrides env [] = .ok found ∧
      Environment.unflatten (.object []) found = .ok data ∧
      { name := Environment.sourceName, data, priority := Environment.sourcePriority } ∈ s.sources

theorem Settings.covers_loadEnvironment {s s' : Settings} {env : Environment}
    (h : s.loadEnvironment env = .ok s') : s'.Covers env := by
  rintro ⟨v, hv, hcounts⟩
  rcases Settings.loadEnvironment_eq_ok h with ⟨hfound, _⟩ | ⟨found, data, hfound, hdata, rfl⟩
  · exact absurd hcounts ((Environment.overrides_eq_nil hfound).2 v hv)
  · exact ⟨found, data, hfound, hdata, by simp [Settings.addSource]⟩

theorem Settings.not_covers_defaults {env : Environment} {v : String × String} (hv : v ∈ env)
    (hcounts : Environment.Counts v) : ¬ Settings.defaults.Covers env := by
  intro h
  rcases h ⟨v, hv, hcounts⟩ with ⟨found, data, _, _, hmem⟩
  simp [Settings.defaults, Settings.defaultsName, Environment.sourceName] at hmem

theorem Settings.exists_counts_of_misfit {s : Settings} {env : Environment} {m : Misfit}
    (h : s.loadEnvironment env = .error m) : ∃ v ∈ env, Environment.Counts v := by
  by_contra hnone
  push Not at hnone
  rw [Settings.loadEnvironment, Environment.overrides_of_none hnone] at h
  cases h

namespace Session

/-- Requests for the shared settings. -/
inductive Call where
  | get
  | reset

/-- What is handed out, request by request. -/
def answers : List Call → Session → List (Except Problem Settings)
  | [], _ => []
  | .get :: calls, w => outcome (sharedSettings w) :: answers calls (left (sharedSettings w))
  | .reset :: calls, w => answers calls (left (resetSettings w))

variable {w : Session} {s : Settings}

/-- Where the environment fits, every request gets the same settings. -/
theorem answers_of_loaded (hload : Settings.defaults.loadEnvironment w.environment = .ok s)
    (hw : w.settings = none ∨ w.settings = some s) (calls : List Call) :
    ∀ r ∈ answers calls w, r = .ok s := by
  induction calls generalizing w with
  | nil => simp [answers]
  | cons call calls ih =>
      cases call with
      | get =>
          have hget : sharedSettings w = .ok s { w with settings := some s } := by
            rcases hw with hw | hw
            · rw [sharedSettings_of_none hw, hload]
            · rw [sharedSettings_of_some hw, ← hw]
          intro r hr
          rw [answers, hget] at hr
          rcases List.mem_cons.mp hr with hr | hr
          · exact hr
          · exact ih (w := { w with settings := some s }) hload (.inr rfl) r hr
      | reset => exact ih hload (.inl rfl)

/-- Where it does not, the first request is refused and the second one is not. -/
theorem answers_of_misfit {m : Misfit} (h : w.settings = none)
    (hload : Settings.defaults.loadEnvironment w.environment = .error m) (calls : List Call) :
    answers (.get :: .get :: calls) w =
      .error (.misfit m) :: .ok Settings.defaults ::
        answers calls { w with settings := some Settings.defaults } := by
  have hsecond : sharedSettings { w with settings := some Settings.defaults } =
      .ok Settings.defaults { w with settings := some Settings.defaults } :=
    sharedSettings_of_some rfl
  simp only [answers, sharedSettings_of_none h, hload, outcome, left, hsecond]

/-- The environment is never left out if and only if it fits. -/
theorem answers_cover_iff (h : w.settings = none) :
    (∀ calls s, .ok s ∈ answers calls w → s.Covers w.environment) ↔
      ∃ s, Settings.defaults.loadEnvironment w.environment = .ok s := by
  constructor
  · intro hcovers
    cases hload : Settings.defaults.loadEnvironment w.environment with
    | ok s => exact ⟨s, rfl⟩
    | error m =>
        rcases Settings.exists_counts_of_misfit hload with ⟨v, hv, hcounts⟩
        have hdefaults : .ok Settings.defaults ∈ answers [.get, .get] w := by
          simp [answers_of_misfit h hload]
        exact absurd (hcovers _ _ hdefaults) (Settings.not_covers_defaults hv hcounts)
  · rintro ⟨s, hload⟩ calls s' hs'
    have hsame := answers_of_loaded hload (.inl h) calls _ hs'
    rw [Except.ok.injEq] at hsame
    rw [hsame]
    exact Settings.covers_loadEnvironment hload

/-- A session with an environment that fits. -/
def fitting : Session :=
  { fresh with environment := [("SPLICE_LOG_LEVEL", "debug"), ("HOME", "/"), ("SPLICE_PARSER_JSX", "yes")] }

theorem answers_cover_iff_fitting :
    fitting.settings = none ∧
      ∀ calls s, .ok s ∈ answers calls fitting → s.Covers fitting.environment := by
  let data : Value :=
    .object [("log", .object [("level", .str "debug")]), ("parser", .object [("jsx", .bool true)])]
  have hload : Settings.defaults.loadEnvironment fitting.environment =
      .ok (Settings.defaults.addSource
        { name := Environment.sourceName, data, priority := Environment.sourcePriority }) := by
    rfl
  exact ⟨rfl, (answers_cover_iff rfl).mpr ⟨_, hload⟩⟩

/-- A session with an environment in which one variable leads through another. -/
def clashing : Session :=
  { fresh with environment := [("SPLICE_LOG", "x"), ("SPLICE_LOG_LEVEL", "debug")] }

/-- The second of two requests gets settings without the environment. -/
theorem answers_uncovered :
    answers [.get, .get] clashing = [.error (.misfit .noEntries), .ok Settings.defaults] ∧
      ¬ Settings.defaults.Covers clashing.environment := by
  have hfound : Environment.overrides clashing.environment [] =
      .ok [("log", .str "x"), ("log.level", .str "debug")] := by
    rfl
  have hload : Settings.defaults.loadEnvironment clashing.environment = .error .noEntries := by
    rw [Settings.loadEnvironment, hfound]
    rfl
  refine ⟨answers_of_misfit rfl hload [], ?_⟩
  rcases Settings.exists_counts_of_misfit hload with ⟨v, hv, hcounts⟩
  exact Settings.not_covers_defaults hv hcounts

end Session

end Inlay
