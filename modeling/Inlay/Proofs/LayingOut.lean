import Inlay.Journal.Layout
import Mathlib.Algebra.Ring.Int.Defs
import Mathlib.Algebra.Ring.Nat

/-!
# Laying Out Records

Which records become lines of a log. A number with too many digits can be
written nowhere, so a record whose context holds one is laid out by no layout.
Beyond that it depends on what is attached. The text layout needs an incident,
if anything; the JSON layout also takes a plain value, if it can be shown. The
place-holder lays out nothing.

An object or a list can be written if everything in it can be, so all of this
comes down to the integers, wherever they are.

## Main definitions

* `Layout.Handles`: The records that a layout lays out.

## Theorems

* `Numeral.writable_iff`: Integers that can be written are below a power of
  ten.
* `Value.display?_iff`: What can be shown.
* `Layout.render_iff`: A layout lays out the records it handles and no others.
* `Layout.render_error`: What can be wrong with the others.
-/

namespace Inlay

namespace Numeral

theorem writable_iff {i : Int} : writable i = true ↔ i.natAbs < 10 ^ digitLimit := by
  rw [writable, decide_eq_true_iff]
  exact Nat.length_toDigits_le_iff (by decide) (by decide)

/-- A power of ten in between makes the comparison with the limit a short one. -/
theorem writable_of_lt {i : Int} {k : Nat} (hk : k ≤ digitLimit) (h : i.natAbs < 10 ^ k) :
    writable i = true :=
  writable_iff.mpr (Nat.lt_of_lt_of_le h (Nat.pow_le_pow_right (by decide) hk))

/-- The least number with one digit too many. -/
theorem writable_overlong : writable (10 ^ digitLimit) = false := by
  rw [← Bool.not_eq_true, writable_iff, Int.natAbs_pow]
  simp

end Numeral

namespace Value

theorem writable_list_iff {items : List Value} :
    (list items).writable = true ↔ ∀ v ∈ items, v.writable = true := by
  rw [writable]
  induction items with
  | nil => simp [writableItems]
  | cons v rest ih => rw [writableItems, Bool.and_eq_true, ih, List.forall_mem_cons]

theorem writable_object_iff {entries : Entries} :
    (object entries).writable = true ↔ ∀ e ∈ entries, e.2.writable = true := by
  rw [writable]
  induction entries with
  | nil => simp [writableEntries]
  | cons e rest ih => rw [writableEntries, Bool.and_eq_true, ih, List.forall_mem_cons]

/-- A value can be shown if its integers can be written. -/
theorem display?_iff {v : Value} : (∃ s, v.display? = some s) ↔ v.writable = true := by
  cases v with
  | str s => exact ⟨fun _ => rfl, fun _ => ⟨s, rfl⟩⟩
  | _ => simp [display?]

end Value

/-- So can a value as JSON. -/
theorem Json.render?_iff {v : Value} : (∃ s, render? v = some s) ↔ v.writable = true := by
  simp [render?]

/-! ### Records -/

theorem Attachment.message?_iff {a : Attachment} :
    (∃ s, a.message? = some s) ↔ ∀ v, a = .value v → v.writable = true := by
  cases a with
  | incident i => simp [message?]
  | value v => simpa [message?] using Value.display?_iff

namespace Record

/-- A record has an outline if what is attached can be shown. -/
theorem outline?_iff {r : Record} :
    (∃ data, r.outline? = some data) ↔ ∀ v, r.attached = some (.value v) → v.writable = true := by
  unfold outline? attachedMember?
  cases r.attached with
  | none => simp
  | some a =>
      simp only [Option.some.injEq, ← Attachment.message?_iff]
      cases a.message? <;> simp

/-- What tells an attachment consists of texts. -/
theorem writable_attachedMember {r : Record} {attached : Entries}
    (h : r.attachedMember? = some attached) : ∀ e ∈ attached, e.2.writable = true := by
  unfold attachedMember? at h
  cases hattached : r.attached with
  | none =>
      rw [hattached, Option.some.injEq] at h
      exact h ▸ fun e he => absurd he List.not_mem_nil
  | some a =>
      simp only [hattached, Option.pure_def, Option.bind_eq_bind, Option.bind_eq_some_iff,
        Option.some.injEq] at h
      rcases h with ⟨message, _, rfl⟩
      exact List.forall_mem_singleton.mpr rfl

/-- Nothing but the context can keep an outline from being written. -/
theorem writable_outline {r : Record} {data : Value} (h : r.outline? = some data) :
    data.writable = true ↔ ∀ e ∈ r.context, e.2.writable = true := by
  have hcontext : (∀ e ∈ r.contextMember, e.2.writable = true) ↔
      ∀ e ∈ r.context, e.2.writable = true := by
    unfold contextMember
    cases r.context with
    | nil => exact Iff.rfl
    | cons e rest => exact List.forall_mem_singleton.trans Value.writable_object_iff
  simp only [outline?, Option.pure_def, Option.bind_eq_bind, Option.bind_eq_some_iff,
    Option.some.injEq] at h
  rcases h with ⟨attached, hattached, rfl⟩
  rw [Value.writable_object_iff, List.forall_mem_append, List.forall_mem_append, hcontext,
    and_iff_left (writable_attachedMember hattached)]
  simp [mainMembers, Value.writable]

end Record

/-! ### Layouts -/

namespace Layout

theorem contextText?_iff {entries : Entries} :
    (∃ s, contextText? entries = some s) ↔ ∀ e ∈ entries, e.2.writable = true := by
  induction entries with
  | nil => simp [contextText?]
  | cons e rest ih =>
      rcases e with ⟨name, v⟩
      rw [List.forall_mem_cons, ← ih, ← Value.display?_iff, contextText?]
      cases v.display? <;> cases contextText? rest <;> simp

/-- The records that a layout lays out. -/
def Handles (l : Layout) (r : Record) : Prop :=
  (∀ e ∈ r.context, e.2.writable = true) ∧
    match l with
    | text _ => ∀ v, r.attached ≠ some (.value v)
    | json => ∀ v, r.attached = some (.value v) → v.writable = true
    | blank => False

theorem textOf_iff {date : String} {r : Record} :
    (∃ s, textOf date r = .ok s) ↔ (text date).Handles r := by
  unfold textOf Handles
  rw [← contextText?_iff]
  cases contextText? r.context with
  | none => simp [written, bind, Except.bind]
  | some context =>
      simp only [written, bind, Except.bind]
      cases r.attached with
      | none => simp [pure, Except.pure]
      | some a => cases a <;> simp [pure, Except.pure]

theorem jsonOf_iff {r : Record} : (∃ s, jsonOf r = .ok s) ↔ json.Handles r := by
  unfold jsonOf Handles
  rw [← Record.outline?_iff]
  cases houtline : r.outline? with
  | none => simp [written, bind, Except.bind]
  | some data =>
      rw [← Record.writable_outline houtline, ← Json.render?_iff]
      simp only [written, bind, Except.bind]
      cases Json.render? data <;> simp [pure, Except.pure]

/-- A number that is too long keeps a record from having a line of JSON, whatever
    else it holds. -/
theorem render_json_overlong {r : Record} {data : Value} (h : r.outline? = some data)
    (hlong : ¬ ∀ e ∈ r.context, e.2.writable = true) : json.render r = .error .unwritable := by
  rw [← Record.writable_outline h] at hlong
  rw [render, jsonOf, h]
  simp only [written, bind, Except.bind, Json.render?, if_neg hlong]

/-- A layout lays out the records that it handles and no others. -/
theorem render_iff {l : Layout} {r : Record} :
    (∃ s, l.render r = .ok s) ↔ l.Handles r := by
  cases l with
  | text date => exact textOf_iff
  | json => exact jsonOf_iff
  | blank => simp [render, Handles]

/-- What can be wrong with a record, or with the layout. -/
theorem render_error {l : Layout} {r : Record} {p : Problem} (h : l.render r = .error p) :
    p = .unwritable ∨ p = .noIncident ∨ p = .noLayout := by
  cases l with
  | text date =>
      rw [render, textOf] at h
      cases hcontext : contextText? r.context with
      | none => simp_all [written, bind, Except.bind]
      | some context =>
          simp only [hcontext, written, bind, Except.bind] at h
          cases hattached : r.attached with
          | none => simp [hattached, pure, Except.pure] at h
          | some a => cases a <;> simp_all [pure, Except.pure]
  | json =>
      rw [render, jsonOf] at h
      cases houtline : r.outline? with
      | none => simp_all [written, bind, Except.bind]
      | some data =>
          simp only [houtline, written, bind, Except.bind] at h
          cases hrender : Json.render? data with
          | none => simp_all
          | some s => simp [hrender, pure, Except.pure] at h
  | blank =>
      cases h
      exact Or.inr (Or.inr rfl)

end Layout

end Inlay
