import Inlay.Proofs.LayingOut
import Inlay.Proofs.SessionSteps
import Mathlib.Data.List.Forall2

/-!
# Delivering Records

What becomes of a record once a logger lets it pass. It goes through the
handlers of the logger in their order, past those whose level is above its own.
A handler takes the record if its layout lays it out and its stream accepts the
line. If all do, there is one line more for each of them, and nothing else has
changed. The first one that does not take it stops everything behind it, and
whoever logs is stopped too, with a problem that tells a layout from a stream.

## Main definitions

* `Session.recordOf`: The record that a logger makes.
* `Session.Takes`: A handler takes a record.
* `Session.Conveys`: So do all handlers of a logger that it reaches.
* `Session.LineOf`: A handler and the line that it writes.

## Theorems

* `Session.deliver_cons`: One handler.
* `Session.deliver_of_taken`: All handlers, if they take the record.
* `Session.deliver_refused`: All handlers, if one does not.
* `Session.deliver_ok_iff`: Which of the two it is.
* `Session.log_of_conveyed`, `Session.log_refused`: Logging a message.
-/

namespace Inlay

namespace Session

variable {w : Session} {r : Record} {x : Handler} {handlers rest : List Handler}

/-! ### One handler -/

/-- A handler takes a record: its layout lays the record out, and its stream
    accepts the line. -/
def Takes (w : Session) (r : Record) (x : Handler) : Prop :=
  ∃ text, x.layout.render r = .ok text ∧ w.refuses x.stream (text ++ "\n") = false

/-- A handler and the line that it writes. -/
def LineOf (r : Record) (x : Handler) (line : String × String) : Prop :=
  ∃ text, x.layout.render r = .ok text ∧ line = (x.stream, text ++ "\n")

theorem write_eq (w : Session) (stream text : String) :
    write stream text w =
      if w.refuses stream text = true then .error (.refusedWrite stream) w
      else .ok () { w with written := w.written ++ [(stream, text)] } := by
  unfold write
  rw [get_bind_eq]
  split <;> rfl

theorem deliver_cons (r : Record) (x : Handler) (rest : List Handler) (w : Session) :
    deliver r (x :: rest) w =
      if r.level.passes x.level = true then
        match x.layout.render r with
        | .error p => .error p w
        | .ok text =>
          if w.refuses x.stream (text ++ "\n") = true then .error (.refusedWrite x.stream) w
          else deliver r rest { w with written := w.written ++ [(x.stream, text ++ "\n")] }
      else deliver r rest w := by
  rw [deliver]
  by_cases hlevel : r.level.passes x.level = true
  · simp only [if_pos hlevel]
    cases x.layout.render r with
    | error p => rfl
    | ok text =>
        simp only [ofJournal, bind, EStateM.bind, pure, EStateM.pure, write_eq]
        by_cases hrefuses : w.refuses x.stream (text ++ "\n") = true
        · simp only [if_pos hrefuses]
        · simp only [if_neg hrefuses]
  · simp only [if_neg hlevel]

/-- A handler that cannot lay the record out is the last that is tried. -/
theorem deliver_of_error {p : Problem} (hlevel : r.level.passes x.level = true)
    (hrender : x.layout.render r = .error p) : deliver r (x :: rest) w = .error p w := by
  rw [deliver_cons, if_pos hlevel, hrender]

/-- So is one whose stream refuses the line. -/
theorem deliver_of_refuses {text : String} (hlevel : r.level.passes x.level = true)
    (hrender : x.layout.render r = .ok text) (hrefuses : w.refuses x.stream (text ++ "\n") = true) :
    deliver r (x :: rest) w = .error (.refusedWrite x.stream) w := by
  rw [deliver_cons, if_pos hlevel, hrender]
  simp only [if_pos hrefuses]

/-! ### All handlers -/

/-- If every handler that a record reaches takes it, each writes one line, and
    nothing else happens. -/
theorem deliver_of_taken (h : ∀ x ∈ handlers, r.level.passes x.level = true → w.Takes r x) :
    ∃ out, deliver r handlers w = .ok () { w with written := w.written ++ out } ∧
      List.Forall₂ (LineOf r) (handlers.filter fun x => r.level.passes x.level) out := by
  induction handlers generalizing w with
  | nil => exact ⟨[], by rw [List.append_nil]; rfl, .nil⟩
  | cons x rest ih =>
      rcases List.forall_mem_cons.mp h with ⟨hx, hrest⟩
      rw [deliver_cons]
      by_cases hlevel : r.level.passes x.level = true
      · rcases hx hlevel with ⟨text, htext, haccepts⟩
        -- What a stream refuses does not depend on what has been written.
        rcases ih (w := { w with written := w.written ++ [(x.stream, text ++ "\n")] }) hrest with
          ⟨out, hout, hlines⟩
        refine ⟨(x.stream, text ++ "\n") :: out, ?_, ?_⟩
        · rw [if_pos hlevel, htext]
          simp only [haccepts, Bool.false_eq_true, if_false, hout, List.append_assoc,
            List.singleton_append]
        · rw [List.filter_cons, if_pos hlevel]
          exact .cons ⟨text, htext, rfl⟩ hlines
      · rcases ih hrest with ⟨out, hout, hlines⟩
        refine ⟨out, ?_, ?_⟩
        · rw [if_neg hlevel, hout]
        · rw [List.filter_cons, if_neg hlevel]
          exact hlines

/-- A handler that does not take the record stops everything, with a problem
    that no reading of a source has. -/
theorem deliver_refused (hx : x ∈ handlers) (hlevel : r.level.passes x.level = true)
    (hrefused : ¬ w.Takes r x) :
    ∃ p out, deliver r handlers w = .error p { w with written := w.written ++ out } ∧
      ∀ d, p ≠ .parse d := by
  induction handlers generalizing w with
  | nil => exact absurd hx List.not_mem_nil
  | cons y rest ih =>
      rw [deliver_cons]
      by_cases hlevel' : r.level.passes y.level = true
      swap
      · rcases List.mem_cons.mp hx with rfl | hx
        · exact absurd hlevel hlevel'
        · rw [if_neg hlevel']
          exact ih hx hrefused
      rw [if_pos hlevel']
      cases hrender : y.layout.render r with
      | error p =>
          refine ⟨p, [], by rw [List.append_nil], ?_⟩
          rcases Layout.render_error hrender with rfl | rfl | rfl <;> exact fun _ => nofun
      | ok text =>
          by_cases hrefuses : w.refuses y.stream (text ++ "\n") = true
          · simp only [if_pos hrefuses]
            exact ⟨.refusedWrite y.stream, [], by rw [List.append_nil], fun _ => nofun⟩
          · -- This handler takes the record, so it is a later one that does not.
            rcases List.mem_cons.mp hx with rfl | hx
            · exact absurd ⟨text, hrender, Bool.eq_false_iff.mpr hrefuses⟩ hrefused
            · simp only [if_neg hrefuses]
              rcases ih (w := { w with written := w.written ++ [(y.stream, text ++ "\n")] }) hx
                hrefused with ⟨p, out, hout, hp⟩
              refine ⟨p, (y.stream, text ++ "\n") :: out, ?_, hp⟩
              rw [hout, List.append_assoc, List.singleton_append]

/-- A record is delivered exactly if every handler that it reaches takes it. -/
theorem deliver_ok_iff : (∃ w', deliver r handlers w = .ok () w') ↔
    ∀ x ∈ handlers, r.level.passes x.level = true → w.Takes r x := by
  constructor
  · rintro ⟨w', hw'⟩ x hx hlevel
    by_contra hrefused
    rcases deliver_refused hx hlevel hrefused with ⟨p, out, hout, _⟩
    rw [hout] at hw'
    cases hw'
  · intro h
    rcases deliver_of_taken h with ⟨out, hout, _⟩
    exact ⟨_, hout⟩

/-! ### Logging -/

variable {id : Nat} {l : Logger} {level : Level} {message : String} {context : Entries}
  {attached : Option Attachment}

theorem checkNames_of_free {reserved : List String} {entries : Entries}
    (h : ∀ e ∈ entries, e.1 ∉ reserved) : checkNames reserved entries w = .ok () w := by
  unfold checkNames
  have hnone : (entries.find? fun e => reserved.contains e.1) = none := by
    simpa [List.find?_eq_none] using h
  rw [hnone]
  rfl

/-- The record that a logger makes. -/
def recordOf (w : Session) (l : Logger) (level : Level) (message : String) (context : Entries)
    (attached : Option Attachment) : Record where
  level := level
  message := message
  time := w.now
  context := context.foldl (fun entries e => entries.insert e.1 e.2) l.context
  attached := attached
  logger := l.name

theorem log_of_some (hl : w.journal.logger? id = some l)
    (hcontext : ∀ e ∈ context, e.1 ∉ reservedForLogging) :
    log id level message context attached w =
      if level.passes l.level = true then
        deliver (w.recordOf l level message context attached) (w.journal.handlers l) w
      else .ok () w := by
  unfold log
  rw [bind_of_ok (checkNames_of_free hcontext), get_bind_eq, hl]
  by_cases hlevel : level.passes l.level = true
  · simp only [if_pos hlevel, get_bind_eq]
    rfl
  · simp only [if_neg hlevel]
    rfl

/-- The handlers that a message reaches take the record that is made of it. -/
def Conveys (w : Session) (id : Nat) (level : Level) (message : String) (context : Entries) :
    Prop :=
  ∀ l, w.journal.logger? id = some l → level.passes l.level = true →
    ∀ x ∈ w.journal.handlers l, level.passes x.level = true →
      w.Takes (w.recordOf l level message context none) x

/-- Logging a message that is conveyed changes nothing but what has been
    written. -/
theorem log_of_conveyed (h : w.Conveys id level message context)
    (hcontext : ∀ e ∈ context, e.1 ∉ reservedForLogging) :
    ∃ out, log id level message context none w =
      .ok () { w with written := w.written ++ out } := by
  cases hl : w.journal.logger? id with
  | none =>
      refine ⟨[], ?_⟩
      unfold log
      rw [bind_of_ok (checkNames_of_free hcontext), get_bind_eq, hl, List.append_nil]
      rfl
  | some l =>
      rw [log_of_some hl hcontext]
      by_cases hlevel : level.passes l.level = true
      · rcases deliver_of_taken (r := w.recordOf l level message context none) (h l hl hlevel) with
          ⟨out, hout, _⟩
        exact ⟨out, by rw [if_pos hlevel, hout]⟩
      · exact ⟨[], by rw [if_neg hlevel, List.append_nil]⟩

/-- Logging one that is not conveyed is a problem, and none of those that
    reading a source has. -/
theorem log_refused (h : ¬ w.Conveys id level message context)
    (hcontext : ∀ e ∈ context, e.1 ∉ reservedForLogging) :
    ∃ p w', log id level message context none w = .error p w' ∧ ∀ d, p ≠ .parse d := by
  unfold Conveys at h
  push Not at h
  rcases h with ⟨l, hl, hlevel, x, hx, hlevel', hrefused⟩
  rw [log_of_some hl hcontext, if_pos hlevel]
  rcases deliver_refused hx hlevel' hrefused with ⟨p, out, hout, hp⟩
  exact ⟨p, _, hout, hp⟩

end Session

end Inlay
