import Inlay.Proofs.JsonRereading
import Inlay.Proofs.LayingOut
import Mathlib.Data.List.TakeDrop

/-!
# Lines of a JSON Log

A record in the JSON layout is one line, whatever is in it, and nothing of it is
lost. There is no line break in the line and no other character that anything
could take for one, because only visible ASCII characters are written. So a log
is cut into the lines that were written, and each of them is read as the data
of its record: its moment, level, message and logger, and the context and the
attachment if it has them. Nothing in a message, a name or a value can end its
line, start another one or pass for a member of the record.

What a record has to keep to is that its integers have few enough digits. One
with too many cannot be written, and such a record has no line.

## Main definitions

* `Json.Visible`: Texts of visible ASCII characters.
* `Record.Told`: The members by which data tells a record.

## Theorems

* `Value.Portable.visible`: A value is written in visible characters.
* `Record.told_outline`: The data of a record tells all of it.
* `Record.portable_outline`: The data of a record has a form in JSON.
* `Record.json_line`: The line of a record.
* `Record.json_line_overlong`: A record without one.
-/

namespace Inlay

namespace Json

/-! ### Visible characters -/

/-- Whether a text consists of visible ASCII characters, the space included. -/
def Visible (s : List Char) : Prop :=
  ∀ c ∈ s, 0x20 ≤ c.toNat ∧ c.toNat < 0x7F

instance : DecidablePred Visible := fun s => List.decidableBAll _ s

theorem Visible.append {s t : List Char} (hs : Visible s) (ht : Visible t) : Visible (s ++ t) :=
  List.forall_mem_append.mpr ⟨hs, ht⟩

theorem visible_joined {mark : List Char} {ss : List (List Char)} (hmark : Visible mark)
    (hss : ∀ s ∈ ss, Visible s) : Visible (joined mark ss) := by
  intro c hc
  rcases mem_joined hc with hc | ⟨s, hs, hc⟩
  · exact hmark c hc
  · exact hss s hs c hc

theorem visible_unit {n : Nat} (h : n < 0x10000) : Visible (unit n) := by
  have hall : ∀ d < 16, Visible [d.digitChar] := by decide
  rw [unit, Text.hex_four h]
  exact Visible.append (t := _ ++ _ ++ _ ++ _) (by decide : Visible ['\\', 'u'])
    (((hall _ (by omega)).append (hall _ (by omega))).append (hall _ (by omega))
      |>.append (hall _ (by omega)))

theorem visible_escaped (c : Char) : Visible (escaped c) := by
  have hmax := toNat_lt c
  have hescape := escape_escaped c
  generalize escaped c = s at hescape ⊢
  cases hescape with
  | short h =>
      have hletter := lt_of_shortEscape? h
      exact Visible.append (by decide : Visible ['\\'])
        (List.forall_mem_singleton.mpr ⟨hletter.1, hletter.2.1⟩)
  | plain _ _ hmin hmax => exact List.forall_mem_singleton.mpr ⟨hmin, hmax⟩
  | unit h => exact visible_unit h
  | pair h => exact (visible_unit (by omega)).append (visible_unit (by omega))

theorem visible_string (s : List Char) : Visible (string s) := by
  have hbody : Visible (s.flatMap escaped) := by
    intro c hc
    rcases List.mem_flatMap.mp hc with ⟨d, _, hc⟩
    exact visible_escaped d c hc
  exact (Visible.append (by decide : Visible ['"']) hbody).append (by decide : Visible ['"'])

theorem visible_toString (i : Int) : Visible (toString i).toList := by
  have hdigits : ∀ n, Visible (Nat.toDigits 10 n) := by
    intro n c hc
    have hdigit := isDigit_toDigits c hc
    rw [Char.isDigit_iff_toNat] at hdigit
    exact ⟨Nat.le_trans (by decide) hdigit.1, Nat.lt_of_le_of_lt hdigit.2 (by decide)⟩
  cases i with
  | ofNat n =>
      rw [toList_toString_ofNat]
      exact hdigits n
  | negSucc n =>
      rw [toList_toString_negSucc]
      exact Visible.append (by decide : Visible ['-']) (hdigits (n + 1))

theorem mem_spelledItems {items : List Value} {s : List Char} (h : s ∈ spelledItems items) :
    ∃ v ∈ items, s = spelled v := by
  induction items with
  | nil => cases h
  | cons v rest ih =>
      rcases List.mem_cons.mp h with rfl | h
      · exact ⟨v, List.mem_cons_self, rfl⟩
      · rcases ih h with ⟨u, hu, hs⟩
        exact ⟨u, List.mem_cons_of_mem v hu, hs⟩

theorem mem_spelledEntries {entries : Entries} {s : List Char} (h : s ∈ spelledEntries entries) :
    ∃ e ∈ entries, s = string e.1.toList ++ ':' :: ' ' :: spelled e.2 := by
  induction entries with
  | nil => cases h
  | cons e rest ih =>
      rcases List.mem_cons.mp h with rfl | h
      · exact ⟨e, List.mem_cons_self, rfl⟩
      · rcases ih h with ⟨u, hu, hs⟩
        exact ⟨u, List.mem_cons_of_mem e hu, hs⟩

end Json

/-- Whatever a value holds, only visible characters are written. -/
theorem Value.Portable.visible {v : Value} (h : v.Portable) : Json.Visible (Json.spelled v) := by
  induction h with
  | null => decide
  | bool b => cases b <;> decide
  | int _ => exact Json.visible_toString _
  | str s => exact Json.visible_string s.toList
  | list _ ih =>
      refine (Json.Visible.append (by decide : Json.Visible ['['])
        (Json.visible_joined (by decide) fun s hs => ?_)).append (by decide : Json.Visible [']'])
      rcases Json.mem_spelledItems hs with ⟨v, hv, rfl⟩
      exact ih v hv
  | object _ _ ih =>
      refine (Json.Visible.append (by decide : Json.Visible ['{'])
        (Json.visible_joined (by decide) fun s hs => ?_)).append (by decide : Json.Visible ['}'])
      rcases Json.mem_spelledEntries hs with ⟨e, he, rfl⟩
      exact (Json.visible_string _).append
        (Json.Visible.append (by decide : Json.Visible [':', ' ']) (ih e he))

/-! ### Records -/

theorem Value.Portable.add {entries : Entries} (h : (Value.object entries).Portable)
    {name : String} (hname : name ∉ entries.names) {v : Value} (hv : v.Portable) :
    (Value.object (entries ++ [(name, v)])).Portable := by
  cases h with
  | object distinct inner =>
      refine .object ?_ (List.forall_mem_append.mpr ⟨inner, List.forall_mem_singleton.mpr hv⟩)
      rw [Entries.names, List.map_append, List.map_singleton, ← List.concat_eq_append]
      exact distinct.concat hname

/-- A value that JSON has a form for can be written. -/
theorem Value.Portable.writable {v : Value} (h : v.Portable) : v.writable = true := by
  induction h with
  | null => rfl
  | bool b => rfl
  | int short => exact short
  | str s => rfl
  | list _ ih => exact Value.writable_list_iff.mpr ih
  | object _ _ ih => exact Value.writable_object_iff.mpr ih

namespace Record

/-- The members by which data tells a record. -/
structure Told (r : Record) (members : Entries) : Prop where
  /-- They are these and no others, in this order. -/
  names : members.names = ["timestamp", "level", "message", "logger"]
    ++ (if r.context.isEmpty then [] else ["context"])
    ++ (if r.attached.isNone then [] else ["exception"])
  timestamp : members.get? "timestamp" = some (.str (String.ofList r.time.iso))
  level : members.get? "level" = some (.str r.level.name)
  message : members.get? "message" = some (.str r.message)
  logger : members.get? "logger" = some (.str r.logger)
  context : r.context ≠ [] → members.get? "context" = some (.object r.context)
  exception : ∀ a, r.attached = some a → ∃ text, a.message? = some text ∧
    members.get? "exception" = some (.object [("type", .str a.name), ("message", .str text)])

/-- What tells the attachment of a record. -/
theorem attachedMember?_eq_some {r : Record} {attached : Entries}
    (h : r.attachedMember? = some attached) :
    r.attached = none ∧ attached = [] ∨
      ∃ a text, r.attached = some a ∧ a.message? = some text ∧
        attached = [("exception", .object [("type", .str a.name), ("message", .str text)])] := by
  unfold attachedMember? at h
  cases hattached : r.attached with
  | none =>
      rw [hattached, Option.some.injEq] at h
      exact Or.inl ⟨rfl, h.symm⟩
  | some a =>
      simp only [hattached, Option.pure_def, Option.bind_eq_bind, Option.bind_eq_some_iff,
        Option.some.injEq] at h
      rcases h with ⟨text, htext, rfl⟩
      exact Or.inr ⟨a, text, rfl, htext, rfl⟩

/-- The data of a record tells all of it. -/
theorem told_outline {r : Record} {data : Value} (h : r.outline? = some data) :
    ∃ members, data = .object members ∧ r.Told members := by
  simp only [outline?, Option.pure_def, Option.bind_eq_bind, Option.bind_eq_some_iff,
    Option.some.injEq] at h
  rcases h with ⟨attached, hattached, rfl⟩
  refine ⟨_, rfl, ?_⟩
  -- Context and attachment may be left out, which makes four cases.
  rcases attachedMember?_eq_some hattached with ⟨hnone, rfl⟩ | ⟨a, text, hsome, htext, rfl⟩
  · cases hcontext : r.context with
    | nil =>
        constructor <;>
          simp [mainMembers, contextMember, hcontext, hnone, Entries.names, Entries.get?]
    | cons e rest =>
        constructor <;>
          simp [mainMembers, contextMember, hcontext, hnone, Entries.names, Entries.get?]
  · cases hcontext : r.context with
    | nil =>
        constructor <;>
          simp [mainMembers, contextMember, hcontext, hsome, htext, Entries.names, Entries.get?]
    | cons e rest =>
        constructor <;>
          simp [mainMembers, contextMember, hcontext, hsome, htext, Entries.names, Entries.get?]

/-- The data of a record has a form in JSON if its context has. -/
theorem portable_outline {r : Record} {data : Value} (h : r.outline? = some data)
    (hdistinct : r.context.names.Nodup) (hcontext : ∀ e ∈ r.context, e.2.Portable) :
    data.Portable := by
  have hmain : (Value.object r.mainMembers).Portable :=
    .object (by simp [mainMembers, Entries.names]) (by simp [mainMembers, Value.Portable.str])
  have hwith : (Value.object (r.mainMembers ++ r.contextMember)).Portable := by
    unfold contextMember
    cases r.context.isEmpty with
    | true => exact hmain
    | false =>
        exact hmain.add (by simp [mainMembers, Entries.names]) (.object hdistinct hcontext)
  simp only [outline?, Option.pure_def, Option.bind_eq_bind, Option.bind_eq_some_iff,
    Option.some.injEq] at h
  rcases h with ⟨attached, hattached, rfl⟩
  rcases attachedMember?_eq_some hattached with ⟨_, rfl⟩ | ⟨a, text, _, _, rfl⟩
  · rw [List.append_nil]
    exact hwith
  · refine hwith.add ?_ (.object (by simp [Entries.names]) (by simp [Value.Portable.str]))
    unfold contextMember
    cases r.context.isEmpty <;> simp [mainMembers, Entries.names]

/-- A record in the JSON layout is one line of visible characters, and the line
    is read as the data that tells the record, its members in their order. Behind
    any other text the line is cut off at its line break and nowhere else. -/
theorem json_line {r : Record} (hdistinct : r.context.names.Nodup)
    (hcontext : ∀ e ∈ r.context, e.2.Portable)
    (hattached : ∀ v, r.attached = some (.value v) → v.writable = true) :
    ∃ (line : String) (members : Entries), Layout.json.render r = .ok line ∧
      r.outline? = some (.object members) ∧ r.Told members ∧
      (∀ c ∈ line.toList, 0x20 ≤ c.toNat ∧ c.toNat ≤ 0x7F) ∧
      (∀ limit, Numeral.digitLimit ≤ limit →
        Json.readWithin limit line.toList = .ok (.object members)) ∧
      ∀ rest, (line.toList ++ '\n' :: rest).span (· ≠ '\n') = (line.toList, '\n' :: rest) := by
  rcases outline?_iff.mpr hattached with ⟨data, hdata⟩
  rcases told_outline hdata with ⟨members, rfl, htold⟩
  have hportable := portable_outline hdata hdistinct hcontext
  have hvisible := hportable.visible
  refine ⟨String.ofList (Json.spelled (.object members)), members, ?_, hdata, htold, ?_, ?_, ?_⟩
  · rw [Layout.render, Layout.jsonOf, hdata]
    simp only [Layout.written, bind, Except.bind, Json.render?, if_pos hportable.writable, pure,
      Except.pure]
  · intro c hc
    rw [String.toList_ofList] at hc
    exact ⟨(hvisible c hc).1, Nat.le_of_lt (hvisible c hc).2⟩
  · intro limit hlimit
    rw [String.toList_ofList]
    exact Json.readWithin_spelled hportable hlimit
  · intro rest
    have hbreak : ∀ c ∈ Json.spelled (.object members), decide (c ≠ '\n') = true := by
      intro c hc
      refine decide_eq_true ?_
      rintro rfl
      exact absurd (hvisible '\n' hc).1 (by decide)
    rw [String.toList_ofList, List.span_eq_takeWhile_dropWhile,
      List.takeWhile_append_of_pos hbreak, List.dropWhile_append_of_pos hbreak]
    simp

/-- A record that tries to break its line and to look like others. -/
def hostile : Record :=
  { level := .warning
    message := "done\r\n\x7b\"level\": \"ERROR\"\x7d\u2028\\"
    time := { year := 2026, month := 1, day := 15 }
    context :=
      [("level\", \"", .str "\x00\x1b\x7f\u0085é😀"), ("message", .int (-12345678901234567890)),
        ("", .list [.null, .bool true, .object [("\n", .list []), ("\t", .object [])]])]
    attached := some (.incident (Incident.ofMissingKey (some "a\nb")))
    logger := "\u2029" }

theorem json_line_hostile :
    hostile.context.names.Nodup ∧ (∀ e ∈ hostile.context, e.2.Portable) ∧
      ∃ (line : String) (members : Entries), Layout.json.render hostile = .ok line ∧
        hostile.outline? = some (.object members) ∧ hostile.Told members ∧
        (∀ c ∈ line.toList, 0x20 ≤ c.toNat ∧ c.toNat ≤ 0x7F) ∧
        (∀ limit, Numeral.digitLimit ≤ limit →
          Json.readWithin limit line.toList = .ok (.object members)) ∧
        ∀ rest, (line.toList ++ '\n' :: rest).span (· ≠ '\n') = (line.toList, '\n' :: rest) := by
  have hdistinct : hostile.context.names.Nodup := by
    decide
  have hinner : (Value.object [("\n", .list []), ("\t", .object [])]).Portable := by
    refine .object (by decide) ?_
    simp [Value.Portable.list, Value.Portable.object, Entries.names]
  have hshort : Numeral.writable (-12345678901234567890) = true :=
    Numeral.writable_of_lt (k := 20) (by decide) (by decide)
  have hcontext : ∀ e ∈ hostile.context, e.2.Portable := by
    refine List.forall_mem_cons.mpr ⟨.str _, List.forall_mem_cons.mpr ⟨.int hshort, ?_⟩⟩
    refine List.forall_mem_singleton.mpr (.list ?_)
    simp [Value.Portable.null, Value.Portable.bool, hinner]
  have hattached : ∀ v, hostile.attached = some (.value v) → v.writable = true := by
    intro v hv
    cases hv
  exact ⟨hdistinct, hcontext, json_line hdistinct hcontext hattached⟩

/-- A record with a number in its context. -/
def counting (n : Int) : Record :=
  { level := .info
    message := "done"
    time := { year := 2026, month := 1, day := 15 }
    context := [("count", .int n)] }

theorem render_counting {n : Int} (h : Numeral.writable n = false) :
    Layout.json.render (counting n) = .error .unwritable := by
  have hdata : (counting n).outline? = some _ := rfl
  refine Layout.render_json_overlong hdata fun hall => ?_
  have hcount : Numeral.writable n = true := hall ("count", .int n) (List.mem_singleton.mpr rfl)
  rw [h] at hcount
  cases hcount

/-- With one digit too many in its context, a record has data like any other but
    no line. -/
theorem json_line_overlong :
    (counting (10 ^ Numeral.digitLimit)).context.names.Nodup ∧
      (∃ members, (counting (10 ^ Numeral.digitLimit)).outline? = some (.object members)) ∧
      ¬ ∃ line, Layout.json.render (counting (10 ^ Numeral.digitLimit)) = .ok line := by
  refine ⟨List.nodup_singleton _, ⟨_, rfl⟩, ?_⟩
  rw [render_counting Numeral.writable_overlong]
  exact nofun

end Record

end Inlay
