import Inlay.Proofs.Independence
import Mathlib.Logic.Relation

/-!
# Families of Loggers

What can happen to a journal, and what becomes of its families. A logger is
given its family when it is made, and stays in it. A new family is founded
only for a logger that is registered, and always with the next free number, so
that two registered names never stand for loggers of one family.

All of this is about single steps of a journal (`Journal.Step`), of which the
operations of a session take none, one or two. `Journal.Sound` is what every
step keeps, and `Journal.Extends` is what a step cannot undo.

The handlers of a logger are those of its family. How they change is said for
each step by itself: one more for the family that a handler is added to, a
single one for every family that is reconfigured, and no change for any other.

## Main definitions

* `Journal.familyOf?`, `Journal.handlersOf`: The family and the handlers that
  a number stands for.
* `Journal.Step`, `Journal.Steps`: What can happen to a journal.
* `Journal.Sound`: What every step keeps.
* `Journal.Extends`: What no step undoes.

## Theorems

* `Journal.Steps.sound`, `Journal.Steps.extends`: Both hold along all steps.
* `Journal.handlersOf_addHandler`: One more handler for a family.
* `Journal.logger?_reconfigure`, `Journal.handlersOf_reconfigure`: What a
  reconfiguration comes to.
-/

namespace Inlay

namespace Journal

/-- The number of the family of a logger. -/
def familyOf? (j : Journal) (id : Nat) : Option Nat :=
  (j.logger? id).map Logger.family

/-- The handlers of the logger with a number, if there is one. -/
def handlersOf (j : Journal) (id : Nat) : List Handler :=
  match j.familyOf? id with
  | none => []
  | some family => (j.families[family]?).getD []

/-- What can happen to a journal. -/
inductive Step (j : Journal) : Journal → Prop where
  | stream (stream : Option String) : Step j { j with stream }
  | register {name : String} (level : Level) (handlers : List Handler) :
    j.registered? name = none → Step j (j.register name level handlers).2
  | derive {id : Nat} {l : Logger} (context : Entries) :
    j.logger? id = some l → Step j (j.derive l context).2
  | handle (l : Logger) (h : Handler) : Step j (j.addHandler l h)
  | reconfigure (level : Level) (h : Handler) : Step j (j.reconfigure level h)

/-- Any number of steps. -/
def Steps : Journal → Journal → Prop :=
  Relation.ReflTransGen Step

/-- What every step keeps: loggers have a family that is there, and different
    names stand for loggers of different families. -/
structure Sound (j : Journal) : Prop where
  family : ∀ {id f}, j.familyOf? id = some f → f < j.families.length
  registered : ∀ {name id}, j.registered? name = some id → ∃ f, j.familyOf? id = some f
  apart : ∀ {a b i k}, a ≠ b → j.registered? a = some i → j.registered? b = some k →
    j.familyOf? i ≠ j.familyOf? k

/-- What no step undoes: a logger stays in its family, and a name stands for
    the same logger. -/
structure Extends (j j' : Journal) : Prop where
  family : ∀ {id f}, j.familyOf? id = some f → j'.familyOf? id = some f
  registered : ∀ {name id}, j.registered? name = some id → j'.registered? name = some id

variable {j j' j'' : Journal} {id f : Nat} {l : Logger} {level : Level} {h : Handler}

theorem handlersOf_of_family (hf : j.familyOf? id = some f) :
    j.handlersOf id = (j.families[f]?).getD [] := by
  simp only [handlersOf, hf]

theorem familyOf?_of_logger? (hl : j.logger? id = some l) : j.familyOf? id = some l.family := by
  simp only [familyOf?, hl, Option.map_some]

/-! ### Loggers that are added -/

/-- The families of loggers when one more is added. -/
theorem familyOf?_concat (loggers : List Logger) (l : Logger) (id : Nat) :
    ((loggers ++ [l])[id]?).map Logger.family =
      if id = loggers.length then some l.family else (loggers[id]?).map Logger.family := by
  by_cases hid : id = loggers.length
  · simp [hid]
  · rw [if_neg hid]
    by_cases hlt : id < loggers.length
    · rw [List.getElem?_append_left hlt]
    · have hle : loggers.length ≤ id := by omega
      have hpos : id - loggers.length ≠ 0 := by omega
      rw [List.getElem?_append_right hle, List.getElem?_eq_none hle]
      simp [hpos]

theorem familyOf?_register (name : String) (level : Level) (handlers : List Handler) (id : Nat) :
    (j.register name level handlers).2.familyOf? id =
      if id = j.loggers.length then some j.families.length else j.familyOf? id :=
  familyOf?_concat j.loggers _ id

theorem familyOf?_derive (l : Logger) (context : Entries) (id : Nat) :
    (j.derive l context).2.familyOf? id =
      if id = j.loggers.length then some l.family else j.familyOf? id :=
  familyOf?_concat j.loggers _ id

/-- A name that is new stands for the logger that is made for it. -/
theorem registered?_register_self {name : String} (hname : j.registered? name = none)
    (level : Level) (handlers : List Handler) :
    (j.register name level handlers).2.registered? name = some j.loggers.length := by
  simp only [registered?, Option.map_eq_none_iff] at hname
  simp [registered?, register, create, List.find?_append, hname]

/-- The number that the next logger will have is nobody's yet. -/
theorem ne_length_of_family (hf : j.familyOf? id = some f) : id ≠ j.loggers.length := by
  rintro rfl
  simp [familyOf?, logger?] at hf

/-! ### Reconfiguring -/

/-- One logger is reconfigured: it has the new level. -/
theorem logger?_reconfigureOne (level : Level) (h : Handler) (j : Journal) (id other : Nat) :
    (reconfigureOne level h j id).logger? other =
      (j.logger? other).map fun l => if other = id then { l with level } else l := by
  unfold reconfigureOne
  by_cases hother : other = id
  · subst hother
    cases hl : j.logger? other with
    | none => simp [hl]
    | some l =>
        have hlt : other < j.loggers.length := (List.getElem?_eq_some_iff.mp hl).1
        simp [logger?, hlt]
  · cases j.logger? id with
    | none => simp [hother]
    | some l => simp [logger?, hother, Ne.symm hother]

theorem familyOf?_reconfigureOne (level : Level) (h : Handler) (j : Journal) (id other : Nat) :
    (reconfigureOne level h j id).familyOf? other = j.familyOf? other := by
  unfold familyOf?
  rw [logger?_reconfigureOne]
  cases j.logger? other with
  | none => rfl
  | some l => by_cases hother : other = id <;> simp [hother]

/-- One logger is reconfigured: its family has the new handler alone. -/
theorem families_reconfigureOne (level : Level) (h : Handler) (j : Journal) (id f : Nat) :
    (reconfigureOne level h j id).families[f]? =
      if j.familyOf? id = some f then (j.families[f]?).map fun _ => [h] else j.families[f]? := by
  unfold reconfigureOne familyOf?
  cases j.logger? id with
  | none => simp
  | some l =>
      by_cases hf : l.family = f
      · subst hf
        by_cases hlt : l.family < j.families.length
        · simp [hlt]
        · simp [hlt]
      · simp [hf]

theorem length_families_reconfigureOne (level : Level) (h : Handler) (j : Journal) (id : Nat) :
    (reconfigureOne level h j id).families.length = j.families.length := by
  unfold reconfigureOne
  cases j.logger? id <;> simp

theorem registry_reconfigureOne (level : Level) (h : Handler) (j : Journal) (id : Nat) :
    (reconfigureOne level h j id).registry = j.registry := by
  unfold reconfigureOne
  cases j.logger? id <;> rfl

/-- Reconfiguring founds no family, moves no logger to another one and changes
    no name. -/
theorem foldl_reconfigureOne (level : Level) (h : Handler) (ids : List Nat) (j : Journal) :
    (ids.foldl (reconfigureOne level h) j).families.length = j.families.length ∧
      (ids.foldl (reconfigureOne level h) j).registry = j.registry ∧
      ∀ id, (ids.foldl (reconfigureOne level h) j).familyOf? id = j.familyOf? id := by
  induction ids generalizing j with
  | nil => exact ⟨rfl, rfl, fun _ => rfl⟩
  | cons i ids ih =>
      rcases ih (reconfigureOne level h j i) with ⟨hlength, hregistry, hfamily⟩
      simp only [List.foldl_cons]
      refine ⟨?_, ?_, fun id => ?_⟩
      · rw [hlength, length_families_reconfigureOne]
      · rw [hregistry, registry_reconfigureOne]
      · rw [hfamily, familyOf?_reconfigureOne]

/-- The loggers that a reconfiguration is about have the new level behind it. -/
theorem logger?_foldl (level : Level) (h : Handler) (ids : List Nat) (j : Journal) (id : Nat) :
    (ids.foldl (reconfigureOne level h) j).logger? id =
      (j.logger? id).map fun l => if id ∈ ids then { l with level } else l := by
  induction ids generalizing j with
  | nil => simp
  | cons i ids ih =>
      rw [List.foldl_cons, ih, logger?_reconfigureOne]
      cases j.logger? id with
      | none => rfl
      | some l => by_cases hi : id = i <;> by_cases hids : id ∈ ids <;> simp [hi, hids]

/-- Their families have the new handler alone. -/
theorem families_foldl {ids : List Nat} (hid : id ∈ ids) (hf : j.familyOf? id = some f)
    (hlt : f < j.families.length) (level : Level) (h : Handler) :
    (ids.foldl (reconfigureOne level h) j).families[f]? = some [h] := by
  -- What has the handler keeps it, since there is only this one to be given.
  have hstay : ∀ (ids : List Nat) (j : Journal), j.families[f]? = some [h] →
      (ids.foldl (reconfigureOne level h) j).families[f]? = some [h] := by
    intro ids
    induction ids with
    | nil => exact fun _ hset => hset
    | cons i ids ih =>
        intro j hset
        refine ih _ ?_
        rw [families_reconfigureOne, hset]
        simp
  induction ids generalizing j with
  | nil => exact absurd hid List.not_mem_nil
  | cons i ids ih =>
      rw [List.foldl_cons]
      rcases List.mem_cons.mp hid with rfl | hmem
      · refine hstay ids _ ?_
        rw [families_reconfigureOne, if_pos hf, List.getElem?_eq_getElem hlt]
        rfl
      · refine ih hmem ?_ ?_
        · rw [familyOf?_reconfigureOne, hf]
        · rw [length_families_reconfigureOne]
          exact hlt

theorem familyOf?_reconfigure (j : Journal) (level : Level) (h : Handler) (id : Nat) :
    (j.reconfigure level h).familyOf? id = j.familyOf? id := by
  unfold reconfigure
  rw [(foldl_reconfigureOne level h _ j).2.2]

theorem registered?_reconfigure (j : Journal) (level : Level) (h : Handler) (name : String) :
    (j.reconfigure level h).registered? name = j.registered? name := by
  unfold reconfigure registered?
  rw [(foldl_reconfigureOne level h _ j).2.1]

theorem mem_of_registered? {name : String} (hname : j.registered? name = some id) :
    id ∈ j.registry.map (·.2) := by
  simp only [registered?, Option.map_eq_some_iff] at hname
  rcases hname with ⟨entry, hentry, rfl⟩
  exact List.mem_map_of_mem (List.mem_of_find?_eq_some hentry)

/-! ### Steps -/

theorem Extends.refl (j : Journal) : j.Extends j :=
  ⟨id, id⟩

theorem Extends.trans (h₁ : j.Extends j') (h₂ : j'.Extends j'') : j.Extends j'' :=
  ⟨fun hf => h₂.family (h₁.family hf), fun hname => h₂.registered (h₁.registered hname)⟩

theorem Step.extends (hstep : j.Step j') : j.Extends j' := by
  cases hstep with
  | stream _ => exact ⟨id, id⟩
  | register level handlers hnew =>
      refine ⟨fun hf => ?_, fun {name _} hname => ?_⟩
      · rw [familyOf?_register, if_neg (ne_length_of_family hf), hf]
      · have hother : name ≠ _ := fun heq => by
          rw [heq, hnew] at hname
          cases hname
        rw [registered?_register _ hother, hname]
  | derive context _ =>
      refine ⟨fun hf => ?_, id⟩
      rw [familyOf?_derive, if_neg (ne_length_of_family hf), hf]
  | handle _ _ => exact ⟨id, id⟩
  | reconfigure level h =>
      refine ⟨fun hf => ?_, fun hname => ?_⟩
      · rw [familyOf?_reconfigure, hf]
      · rw [registered?_reconfigure, hname]

theorem Sound.congr (hj : j.Sound) (hfamily : ∀ id, j'.familyOf? id = j.familyOf? id)
    (hname : ∀ name, j'.registered? name = j.registered? name)
    (hlength : j'.families.length = j.families.length) : j'.Sound := by
  refine ⟨fun hf => ?_, fun hid => ?_, fun hne ha hb => ?_⟩
  · rw [hlength]
    exact hj.family (hfamily _ ▸ hf)
  · rw [hfamily]
    exact hj.registered (hname _ ▸ hid)
  · rw [hfamily, hfamily]
    exact hj.apart hne (hname _ ▸ ha) (hname _ ▸ hb)

/-- A logger that is registered has a new family, which no other has. -/
theorem Sound.register {name : String} (hj : j.Sound) (hnew : j.registered? name = none)
    (level : Level) (handlers : List Handler) : (j.register name level handlers).2.Sound := by
  have hself := registered?_register_self hnew level handlers
  have hlength : (j.register name level handlers).2.families.length = j.families.length + 1 := by
    simp [Journal.register, create]
  -- What a name other than the new one stands for.
  have hold : ∀ {other id}, other ≠ name →
      (j.register name level handlers).2.registered? other = some id →
      j.registered? other = some id ∧ ∃ f, j.familyOf? id = some f ∧ f < j.families.length ∧
        (j.register name level handlers).2.familyOf? id = some f := by
    intro other id hother hid
    rw [registered?_register _ hother] at hid
    rcases hj.registered hid with ⟨f, hf⟩
    refine ⟨hid, f, hf, hj.family hf, ?_⟩
    rw [familyOf?_register, if_neg (ne_length_of_family hf), hf]
  have hfresh : (j.register name level handlers).2.familyOf? j.loggers.length =
      some j.families.length := by
    rw [familyOf?_register, if_pos rfl]
  refine ⟨fun {id f} hf => ?_, fun {other id} hid => ?_, fun {a b i k} hne ha hb => ?_⟩
  · rw [familyOf?_register] at hf
    rw [hlength]
    by_cases hid : id = j.loggers.length
    · rw [if_pos hid, Option.some.injEq] at hf
      omega
    · rw [if_neg hid] at hf
      have hlt := hj.family hf
      omega
  · by_cases hother : other = name
    · subst hother
      rw [hself, Option.some.injEq] at hid
      exact ⟨_, hid ▸ hfresh⟩
    · rcases hold hother hid with ⟨_, f, _, _, hf⟩
      exact ⟨f, hf⟩
  · by_cases hna : a = name
    · subst hna
      rw [hself, Option.some.injEq] at ha
      rcases hold (Ne.symm hne) hb with ⟨_, f, _, hlt, hf⟩
      rw [← ha, hfresh, hf]
      simp only [ne_eq, Option.some.injEq]
      omega
    · by_cases hnb : b = name
      · subst hnb
        rw [hself, Option.some.injEq] at hb
        rcases hold hne ha with ⟨_, f, _, hlt, hf⟩
        rw [← hb, hfresh, hf]
        simp only [ne_eq, Option.some.injEq]
        omega
      · rcases hold hna ha with ⟨hi, f, hf, _, hf'⟩
        rcases hold hnb hb with ⟨hk, f', hg, _, hg'⟩
        rw [hf', hg', ← hf, ← hg]
        exact hj.apart hne hi hk

theorem Step.sound (hstep : j.Step j') (hj : j.Sound) : j'.Sound := by
  cases hstep with
  | stream _ => exact hj.congr (fun _ => rfl) (fun _ => rfl) rfl
  | register level handlers hnew => exact hj.register hnew level handlers
  | derive context hl =>
      -- The new logger is in a family that is there, and it has no name.
      refine ⟨fun {id f} hf => ?_, fun hid => ?_, fun hne ha hb => ?_⟩
      · rw [familyOf?_derive] at hf
        by_cases hid : id = j.loggers.length
        · rw [if_pos hid] at hf
          exact hj.family ((familyOf?_of_logger? hl).trans hf)
        · rw [if_neg hid] at hf
          exact hj.family hf
      · rcases hj.registered hid with ⟨f, hf⟩
        exact ⟨f, (Step.derive context hl).extends.family hf⟩
      · rcases hj.registered ha with ⟨f, hf⟩
        rcases hj.registered hb with ⟨f', hf'⟩
        rw [(Step.derive context hl).extends.family hf, (Step.derive context hl).extends.family hf',
          ← hf, ← hf']
        exact hj.apart hne ha hb
  | handle l h => exact hj.congr (fun _ => rfl) (fun _ => rfl) (by simp [addHandler])
  | reconfigure level h =>
      exact hj.congr (j.familyOf?_reconfigure level h) (j.registered?_reconfigure level h)
        (foldl_reconfigureOne level h _ j).1

theorem Steps.extends (hsteps : j.Steps j') : j.Extends j' := by
  induction hsteps with
  | refl => exact Extends.refl j
  | tail _ hstep ih => exact ih.trans hstep.extends

theorem Steps.sound (hsteps : j.Steps j') (hj : j.Sound) : j'.Sound := by
  induction hsteps with
  | refl => exact hj
  | tail _ hstep ih => exact hstep.sound ih

theorem sound_empty (stream : Option String) : Sound { stream } := by
  refine ⟨fun hf => ?_, fun hid => ?_, fun _ ha _ => ?_⟩
  · simp [familyOf?, logger?] at hf
  · simp [registered?] at hid
  · simp [registered?] at ha

/-! ### Handlers -/

/-- Loggers of one family have the same handlers. -/
theorem handlersOf_congr {i k : Nat} (h : j.familyOf? i = j.familyOf? k) :
    j.handlersOf i = j.handlersOf k := by
  simp only [handlersOf, h]

/-- A handler that is added is there for its family and for nobody else. -/
theorem handlersOf_addHandler (hj : j.Sound) (hl : j.logger? id = some l) (h : Handler)
    (other : Nat) :
    (j.addHandler l h).handlersOf other =
      if j.familyOf? other = j.familyOf? id then j.handlersOf other ++ [h]
      else j.handlersOf other := by
  have hid := familyOf?_of_logger? hl
  have hlt : l.family < j.families.length := hj.family hid
  cases hf : j.familyOf? other with
  | none =>
      have hf' : (j.addHandler l h).familyOf? other = none := hf
      simp [handlersOf, hf, hf', hid]
  | some f =>
      have hf' : (j.addHandler l h).familyOf? other = some f := hf
      rw [handlersOf_of_family hf, handlersOf_of_family hf', hid]
      by_cases hsame : f = l.family
      · subst hsame
        simp [addHandler, hlt]
      · simp [addHandler, hsame, Ne.symm hsame]

/-- Making a logger adds no handler to those there are. -/
theorem handlersOf_register (hj : j.Sound) (hf : j.familyOf? id = some f) (name : String)
    (level : Level) (handlers : List Handler) :
    (j.register name level handlers).2.handlersOf id = j.handlersOf id := by
  have hf' : (j.register name level handlers).2.familyOf? id = some f := by
    rw [familyOf?_register, if_neg (ne_length_of_family hf), hf]
  rw [handlersOf_of_family hf, handlersOf_of_family hf']
  simp only [register, create]
  rw [List.getElem?_append_left (hj.family hf)]

theorem handlersOf_derive (hf : j.familyOf? id = some f) (l : Logger) (context : Entries) :
    (j.derive l context).2.handlersOf id = j.handlersOf id := by
  have hf' : (j.derive l context).2.familyOf? id = some f := by
    rw [familyOf?_derive, if_neg (ne_length_of_family hf), hf]
  rw [handlersOf_of_family hf, handlersOf_of_family hf']
  rfl

/-- Behind a reconfiguration, the family of a registered logger has the new
    handler alone. -/
theorem handlersOf_reconfigure {name : String} (hj : j.Sound) (hname : j.registered? name = some id)
    {other : Nat} (hother : j.familyOf? other = j.familyOf? id) (level : Level) (h : Handler) :
    (j.reconfigure level h).handlersOf other = [h] := by
  rcases hj.registered hname with ⟨f, hf⟩
  have hfamily : (j.reconfigure level h).familyOf? other = some f := by
    rw [familyOf?_reconfigure, hother, hf]
  rw [handlersOf_of_family hfamily, reconfigure,
    families_foldl (mem_of_registered? hname) hf (hj.family hf)]
  rfl

/-- Behind a reconfiguration, a registered logger has the new level. -/
theorem logger?_reconfigure {name : String} (hj : j.Sound) (hname : j.registered? name = some id)
    (level : Level) (h : Handler) :
    ∃ l, (j.reconfigure level h).logger? id = some l ∧ l.level = level := by
  rcases hj.registered hname with ⟨f, hf⟩
  simp only [familyOf?, Option.map_eq_some_iff] at hf
  rcases hf with ⟨l, hl, _⟩
  refine ⟨{ l with level }, ?_, rfl⟩
  rw [reconfigure, logger?_foldl, hl, Option.map_some, if_pos (mem_of_registered? hname)]

end Journal

end Inlay
