import Inlay.Proofs.SessionSteps
import Inlay.Proofs.Writing

/-!
# Setting Step by Step

Setting a value as it is really done. The objects that a name leads through are
made in the source one after the other, before it is known whether the value
can be written. A refusal could leave some of them behind. It does not, because
once an object had to be made, nothing stands below it that could refuse.

## Main definitions

* `Value.writeInPlace`, `Settings.setInPlace`: Setting step by step, which
  leaves something also when it is refused.
* `Value.left`: What is left if all or nothing is written.

## Theorems

* `Value.writeInPlace_eq`, `Settings.setInPlace_eq`: Setting step by step leaves
  nothing behind.
-/

namespace Inlay

namespace Entries

/-- Writing to a name twice is writing once. -/
theorem insert_insert (entries : Entries) (name : String) (v w : Value) :
    (entries.insert name v).insert name w = entries.insert name w := by
  induction entries with
  | nil => simp [insert]
  | cons e rest ih =>
      rcases e with ⟨n, u⟩
      by_cases hn : n = name
      · simp [insert, hn]
      · simp [insert, hn, ih]

/-- Writing what is there already changes nothing. -/
theorem insert_of_get? {entries : Entries} {name : String} {v : Value}
    (h : entries.get? name = some v) : entries.insert name v = entries := by
  induction entries with
  | nil => cases h
  | cons e rest ih =>
      rcases e with ⟨n, u⟩
      rw [get?_cons] at h
      by_cases hn : n = name
      · rw [if_pos hn, Option.some.injEq] at h
        simp [insert, hn, h]
      · rw [if_neg hn] at h
        simp [insert, hn, ih h]

end Entries

namespace Value

/-- What writing leaves when it is done step by step, and why it was refused if
    it was. A missing object is made before anything is written into it, and
    whatever has been made by then stays. -/
def writeInPlace : Value → String → List String → Value → Value × Option Misfit
  | object entries, name, [], new => (object (Entries.insert entries name new), none)
  | object entries, name, next :: path, new =>
    let made := if (Entries.get? entries name).isSome then entries
      else Entries.insert entries name (object [])
    let inner := (inside entries name).writeInPlace next path new
    (object (Entries.insert made name inner.1), inner.2)
  | v, _, [], _ => (v, some .noEntries)
  | v, _, _ :: _, _ => (v, some .noObject)

/-- Writing under a dotted name, step by step. -/
def writeKeyInPlace (v : Value) (key : String) (new : Value) : Value × Option Misfit :=
  match keyParts key with
  | [] => (v, none)
  | name :: path => v.writeInPlace name path new

/-- What a step leaves if all or nothing is written. -/
def left {α : Type} (before : α) : Except Misfit α → α × Option Misfit
  | .ok after => (after, none)
  | .error m => (before, some m)

/-- Writing step by step leaves nothing behind when it is refused. -/
theorem writeInPlace_eq (v : Value) (name : String) (path : List String) (new : Value) :
    v.writeInPlace name path new = left v (v.write name path new) := by
  induction path generalizing v name with
  | nil => cases v <;> rfl
  | cons next path ih =>
      cases hentries : v.entries? with
      | none =>
          rw [write_of_plain hentries]
          cases v with
          | object entries => cases hentries
          | _ => rfl
      | some entries =>
          rw [eq_object hentries, write_object_cons, writeInPlace, ih]
          cases hget : Entries.get? entries name with
          | some u =>
              -- Nothing had to be made, and what was refused is unchanged.
              have hinside : inside entries name = u := by rw [inside, hget]; rfl
              rw [hinside]
              cases u.write next path new with
              | ok inner => rfl
              | error m => exact Prod.ext (congrArg object (Entries.insert_of_get? hget)) rfl
          | none =>
              -- Where an object was made, nothing is refused.
              have hinside : inside entries name = object [] := by rw [inside, hget]; rfl
              rcases write_empty next path new with ⟨inner, hinner⟩
              rw [hinside, hinner]
              exact Prod.ext (congrArg object (Entries.insert_insert entries name _ inner)) rfl

theorem writeKeyInPlace_eq (v : Value) (key : String) (new : Value) :
    v.writeKeyInPlace key new = left v (v.writeKey key new) := by
  unfold writeKeyInPlace writeKey
  cases keyParts key with
  | nil => rfl
  | cons name path => exact v.writeInPlace_eq name path new

end Value

namespace Settings

/-- Some sources with a value written step by step into the first that holds
    what is set at run time. If there is none, it is made at the end. -/
def writeRuntimeInPlace (key : String) (new : Value) : List Source → List Source × Option Misfit
  | [] =>
    let r := (Value.object []).writeKeyInPlace key new
    ([{ name := runtimeName, data := r.1, priority := runtimePriority }], r.2)
  | source :: rest =>
    if source.name == runtimeName then
      let r := source.data.writeKeyInPlace key new
      ({ source with data := r.1 } :: rest, r.2)
    else
      let r := writeRuntimeInPlace key new rest
      (source :: r.1, r.2)

/-- What setting a value leaves when it is done step by step, and why it was
    refused if it was. What was kept is let go of at the very end. -/
def setInPlace (s : Settings) (key : String) (new : Value) : Settings × Option Misfit :=
  let r := writeRuntimeInPlace key new s.sources
  ({ sources := r.1, kept := if r.2.isSome then s.kept else none }, r.2)

theorem writeRuntimeInPlace_of_none (key : String) {new data : Value} {sources : List Source}
    (h : ∀ x ∈ sources, x.name ≠ runtimeName)
    (hdata : (Value.object []).writeKey key new = .ok data) :
    writeRuntimeInPlace key new sources =
      (sources ++ [{ name := runtimeName, data, priority := runtimePriority }], none) := by
  induction sources with
  | nil => rw [writeRuntimeInPlace, Value.writeKeyInPlace_eq, hdata]; rfl
  | cons x rest ih =>
      have hx := h x List.mem_cons_self
      rw [writeRuntimeInPlace, if_neg (by simp [hx]), ih fun y hy => h y (List.mem_cons_of_mem _ hy)]
      rfl

theorem writeRuntimeInPlace_append (key : String) (new : Value) {before after : List Source}
    {source : Source} (hname : source.name = runtimeName)
    (hbefore : ∀ x ∈ before, x.name ≠ runtimeName) :
    writeRuntimeInPlace key new (before ++ source :: after) =
      (before ++ { source with data := (source.data.writeKeyInPlace key new).1 } :: after,
        (source.data.writeKeyInPlace key new).2) := by
  induction before with
  | nil => rw [List.nil_append, writeRuntimeInPlace, if_pos (by simp [hname])]; rfl
  | cons x rest ih =>
      have hx := hbefore x List.mem_cons_self
      rw [List.cons_append, writeRuntimeInPlace, if_neg (by simp [hx]),
        ih fun y hy => hbefore y (List.mem_cons_of_mem _ hy)]
      rfl

/-- Setting step by step leaves nothing behind when it is refused. -/
theorem setInPlace_eq (s : Settings) (key : String) (new : Value) :
    s.setInPlace key new = Value.left s (s.set key new) := by
  cases hfind : s.sources.find? (·.name == runtimeName) with
  | none =>
      have hall : ∀ x ∈ s.sources, x.name ≠ runtimeName := by simpa using hfind
      rcases Value.writeKey_empty key new with ⟨data, hdata⟩
      rw [setInPlace, writeRuntimeInPlace_of_none key hall hdata, set, writeRuntime_none key new hall]
      simp only
      rw [hdata]
      rfl
  | some source =>
      rcases List.find?_eq_some_iff_append.mp hfind with ⟨hname, before, after, hsources, hbefore⟩
      have hname' : source.name = runtimeName := by simpa using hname
      have hbefore' : ∀ x ∈ before, x.name ≠ runtimeName := by simpa using hbefore
      rw [set_of_runtime key new hsources hname' hbefore', setInPlace, hsources,
        writeRuntimeInPlace_append key new hname' hbefore', Value.writeKeyInPlace_eq]
      cases source.data.writeKey key new with
      | ok data => rfl
      | error m =>
          rcases s with ⟨sources, kept⟩
          simp only at hsources
          subst hsources
          rfl

end Settings

end Inlay
