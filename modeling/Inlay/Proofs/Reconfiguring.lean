import Inlay.Proofs.Layers
import Inlay.Proofs.SessionSteps

/-!
# Reconfiguring

Reconfiguring the log takes four steps. Two settings are written, the stream
for new loggers is changed, the name of the format is looked up, and then
every registered logger is given its new level and handler. The lookup may
fail, and it comes late.

So a reconfiguration that is refused is not always without effect. If the
settings cannot be written, nothing has changed, since the first one is
refused or both are accepted. But if the format is unknown, the settings and
the stream have changed by then, and the registered loggers have not. Until
the format is set again, a new logger cannot be had, because the unknown
format is what it would be made with, and a parse that has to make its logger
cannot run.

## Theorems

* `Value.write_beside`, `Settings.set_beside`: Where one entry of an object
  could be written, the others can.
* `Session.configureLogging_of_set`: The rest of a reconfiguration whose
  settings were accepted.
* `Session.configureLogging_refused`: What a refused reconfiguration leaves.
* `Session.configureLogging_half_done`: One that is not without effect.
-/

namespace Inlay

/-- Where one entry of an object could be written, the others can. -/
theorem Value.write_beside {v v' new : Value} {outer name : String}
    (h : v.write outer [name] new = .ok v') (other : String) (next : Value) :
    ∃ v'', v'.write outer [other] next = .ok v'' := by
  cases v with
  | object entries =>
      rw [Value.write, except_bind_eq_ok_iff] at h
      rcases h with ⟨inner, hinner, h⟩
      simp only [pure, Except.pure, Except.ok.injEq] at h
      subst h
      -- What was written is an object, so it takes one more entry.
      cases hold : (Entries.get? entries outer).getD (.object []) with
      | object es =>
          rw [hold] at hinner
          simp only [Value.write, Except.ok.injEq] at hinner
          subst hinner
          exact ⟨_, by simp [Value.write, Entries.get?_insert]; rfl⟩
      | _ =>
          rw [hold] at hinner
          simp [Value.write] at hinner
  | _ => simp [Value.write] at h

/-- Once a value has been set, others can be set beside it. -/
theorem Settings.set_beside {s s' : Settings} {key key' outer name other : String}
    (hkey : keyParts key = [outer, name]) (hkey' : keyParts key' = [outer, other])
    {new : Value} (h : s.set key new = .ok s') (next : Value) :
    ∃ s'', s'.set key' next = .ok s'' := by
  rcases Settings.set_eq_ok h with ⟨before, source, after, data, _, hname, hbefore, hdata, rfl⟩
  simp only [Value.writeKey, hkey] at hdata
  rcases Value.write_beside hdata other next with ⟨data', hdata'⟩
  have hnext : data.writeKey key' next = .ok data' := by
    simp only [Value.writeKey, hkey']
    exact hdata'
  refine ⟨{ sources := before ++ { source with data := data' } :: after }, ?_⟩
  have hset := Settings.set_of_runtime key' next
    (s := { sources := before ++ { source with data } :: after }) rfl hname hbefore
  rw [hset, hnext]
  rfl

theorem Layout.ofName_eq_error {name : String} {p : Problem} (h : Layout.ofName name = .error p) :
    p = .unknownFormat name := by
  unfold Layout.ofName at h
  grind

namespace Session

variable {w w' : Session} {s s₁ s₂ : Settings} {level : Level} {format : String}
  {stream : Option String} {p : Problem}

/-- Once the settings are written, only the format can be refused. -/
theorem configureLogging_of_set (hs : w.settings = some s)
    (hlevel : s.set "log.level" (.str level.name) = .ok s₁)
    (hformat : s₁.set "log.format" (.str format) = .ok s₂) :
    configureLogging level format stream w =
      match Layout.ofName format with
      | .ok layout =>
        let j := { w.journal with stream }
        .ok () { w with
          settings := some s₂
          journal := j.reconfigure level { stream := j.defaultStream, layout } }
      | .error p =>
        .error p { w with settings := some s₂, journal := { w.journal with stream } } := by
  have hset₁ : updateSettings (·.set "log.level" (.str level.name)) w =
      .ok () { w with settings := some s₁ } := by
    rw [updateSettings_of_some hs, hlevel]
  have hset₂ : updateSettings (·.set "log.format" (.str format)) { w with settings := some s₁ } =
      .ok () { w with settings := some s₂ } := by
    rw [updateSettings_of_some rfl, hformat]
  unfold configureLogging
  rw [bind_of_ok hset₁, bind_of_ok hset₂]
  cases Layout.ofName format <;> rfl

/-- What a refused reconfiguration leaves. Unless the format is unknown, it
    leaves everything as it was. -/
theorem configureLogging_refused (hs : w.settings = some s)
    (h : configureLogging level format stream w = .error p w') :
    (∃ m, s.set "log.level" (.str level.name) = .error m ∧ p = .misfit m ∧ w' = w) ∨
      ∃ s₁ s₂, s.set "log.level" (.str level.name) = .ok s₁ ∧
        s₁.set "log.format" (.str format) = .ok s₂ ∧
        Layout.ofName format = .error p ∧ p = .unknownFormat format ∧
        w' = { w with settings := some s₂, journal := { w.journal with stream } } := by
  cases hlevel : s.set "log.level" (.str level.name) with
  | error m =>
      have hset : updateSettings (·.set "log.level" (.str level.name)) w = .error (.misfit m) w := by
        rw [updateSettings_of_some hs, hlevel]
      unfold configureLogging at h
      simp only [bind, EStateM.bind, hset, EStateM.Result.error.injEq] at h
      exact .inl ⟨m, rfl, h.1.symm, h.2.symm⟩
  | ok s₁ =>
      -- Both names lead through one object, so the second is not refused either.
      rcases Settings.set_beside (by decide : keyParts "log.level" = ["log", "level"])
        (by decide : keyParts "log.format" = ["log", "format"]) hlevel (.str format)
        with ⟨s₂, hformat⟩
      rw [configureLogging_of_set hs hlevel hformat] at h
      cases hlayout : Layout.ofName format with
      | ok layout => simp [hlayout] at h
      | error q =>
          simp only [hlayout, EStateM.Result.error.injEq] at h
          rcases h with ⟨rfl, rfl⟩
          exact .inr ⟨s₁, s₂, rfl, hformat, rfl, Layout.ofName_eq_error hlayout, rfl⟩

/-- A session with shared settings and a registered logger. -/
def settled : Session :=
  { fresh with
    settings := some Settings.defaults
    journal := { loggers := [{ name := "a", family := 0 }], families := [[{}]], registry := [("a", 0)] } }

/-- The same after a reconfiguration that stopped half way. -/
def halfDone : Session :=
  { settled with
    settings := some (Settings.defaults.addSource
      { name := Settings.runtimeName
        data := .object [("log", .object [("level", .str "INFO"), ("format", .str "xml")])]
        priority := Settings.runtimePriority })
    journal := { settled.journal with stream := "log" } }

theorem configureLogging_refused_format :
    settled.settings = some Settings.defaults ∧
      configureLogging .info "xml" (some "log") settled = .error (.unknownFormat "xml") halfDone ∧
      ∃ s₁ s₂, Settings.defaults.set "log.level" (.str "INFO") = .ok s₁ ∧
        s₁.set "log.format" (.str "xml") = .ok s₂ ∧
        halfDone = { settled with
          settings := some s₂
          journal := { settled.journal with stream := "log" } } := by
  have h : configureLogging .info "xml" (some "log") settled =
      .error (.unknownFormat "xml") halfDone := by
    rfl
  refine ⟨rfl, h, ?_⟩
  rcases configureLogging_refused rfl h with ⟨m, _, hp, _⟩ | ⟨s₁, s₂, hlevel, hformat, _, _, hleft⟩
  · cases hp
  · exact ⟨s₁, s₂, hlevel, hformat, hleft⟩

/-- A reconfiguration that is refused and is not without effect: a logger that
    could be had before it cannot be had after it. -/
theorem configureLogging_half_done :
    settled.settings = some Settings.defaults ∧
      configureLogging .info "xml" (some "log") settled = .error (.unknownFormat "xml") halfDone ∧
      outcome (getLogger "b" none settled) = .ok 1 ∧
      outcome (getLogger "b" none halfDone) = .error (.unknownFormat "xml") := by
  let s : Settings :=
    { sources := (halfDone.settings.map (·.sources)).getD []
      kept := some
        [("parser", .object [("jsx", .bool false)]),
         ("log", .object [("level", .str "INFO"), ("format", .str "xml")])] }
  have hkeep : (halfDone.settings.getD {}).keep = .ok s := by
    unfold Settings.keep Settings.merged
    rw [Settings.ranked_of_ascending (by decide)]
    rfl
  have hbefore := getLogger_of_new (by decide : settled.journal.registered? "b" = none)
    (consultedSettings_of_keep (sharedSettings_of_some rfl) Settings.keep_defaults) rfl
    (by decide : Level.ofName? "WARNING" = some .warning) rfl
  have hafter := getLogger_of_new (by decide : halfDone.journal.registered? "b" = none)
    (consultedSettings_of_keep (sharedSettings_of_some rfl) hkeep) rfl
    (by decide : Level.ofName? "INFO" = some .info) rfl
  refine ⟨rfl, rfl, ?_, ?_⟩
  · rw [hbefore]
    rfl
  · rw [hafter]
    rfl

end Session

end Inlay
