import Inlay.Proofs.Layers

/-!
# Writing along a Path

What a value that is written at the end of a path of names changes in an
object. It is what is read at the end of that path afterwards, and whatever it
holds is read beyond. On the way there are objects afterwards, old ones and
some that were missing. Paths that lead elsewhere read as before.

Writing is refused exactly if the path leads through something that is no
object. Since nothing stands below an object that is missing, this can only be
something that was there before, and so the refusal does not depend on how far
writing has come.

The same holds of a setting if the object that is written into is laid over
others, since every name is laid over on its own: a path that leads elsewhere
does so in all of them, and an object that is made on the way adds nothing to
what is below it.

## Main definitions

* `Divergent`: Paths of which neither leads through the other.
* `Value.Blocked`: Paths that lead through something that is no object.

## Theorems

* `Value.write_refused_iff`: When writing is refused.
* `Value.lookup?_write`, `Value.lookup?_write_above`,
  `Value.lookup?_write_divergent`: What is read afterwards.
* `Value.writeKey_refused_iff` and the others: The same for a dotted name.
* `lookup?_overlay_of_plain`, `lookup?_overlay_divergent`: The same with other
  objects below.
* `Value.Proper.overlayValue_none`: A proper value laid over nothing.
-/

namespace Inlay

/-- Paths of which neither leads through the other. -/
def Divergent (p q : List String) : Prop :=
  ¬ p <+: q ∧ ¬ q <+: p

instance : DecidableRel Divergent := fun p q => inferInstanceAs (Decidable (¬ p <+: q ∧ ¬ q <+: p))

theorem Divergent.symm {p q : List String} (h : Divergent p q) : Divergent q p :=
  ⟨h.2, h.1⟩

theorem Divergent.tail {name : String} {p q : List String} (h : Divergent (name :: p) (name :: q)) :
    Divergent p q :=
  ⟨fun hpq => h.1 (List.cons_prefix_cons.mpr ⟨rfl, hpq⟩),
    fun hqp => h.2 (List.cons_prefix_cons.mpr ⟨rfl, hqp⟩)⟩

theorem Divergent.head_ne {n name : String} {q : List String} (h : Divergent (n :: q) [name]) :
    name ≠ n :=
  fun heq => h.2 (List.cons_prefix_cons.mpr ⟨heq, List.nil_prefix⟩)

theorem Divergent.ne_nil {p q : List String} (h : Divergent p q) : p ≠ [] ∧ q ≠ [] :=
  ⟨fun hp => h.1 (hp ▸ List.nil_prefix), fun hq => h.2 (hq ▸ List.nil_prefix)⟩

/-- A dotted name has at least one part. -/
theorem keyParts_ne_nil (key : String) : keyParts key ≠ [] := by
  have hsplit : ∀ s : List Char, splitParts '.' s ≠ [] := by
    intro s
    cases s with
    | nil => simp [splitParts]
    | cons c rest =>
        rw [splitParts]
        cases splitParts '.' rest with
        | nil => simp
        | cons part parts => by_cases hc : c = '.' <;> simp [hc]
  simp [keyParts, hsplit]

namespace Value

/-! ### Reading along a path -/

theorem proper_empty : (object []).Proper :=
  .object List.nodup_nil fun _ he => absurd he List.not_mem_nil

@[simp]
theorem lookup?_nil (v : Value) : v.lookup? [] = some v := by
  cases v <;> rfl

theorem lookup?_object (entries : Entries) (name : String) (path : List String) :
    (object entries).lookup? (name :: path) = (entries.get? name).bind (·.lookup? path) := by
  rw [lookup?]
  cases entries.get? name <;> rfl

theorem lookup?_of_plain {v : Value} (h : v.entries? = none) (name : String) (path : List String) :
    v.lookup? (name :: path) = none := by
  cases v with
  | object entries => simp [entries?] at h
  | _ => rfl

/-- Nothing but its root is read from an empty object. -/
theorem lookup?_empty {path : List String} (h : path ≠ []) : (object []).lookup? path = none := by
  cases path with
  | nil => exact absurd rfl h
  | cons name path => rw [lookup?_object]; rfl

theorem Proper.lookup? {v w : Value} (hv : v.Proper) {path : List String}
    (h : v.lookup? path = some w) : w.Proper := by
  induction path generalizing v with
  | nil =>
      rw [lookup?_nil, Option.some.injEq] at h
      exact h ▸ hv
  | cons name path ih =>
      cases hentries : v.entries? with
      | none =>
          rw [lookup?_of_plain hentries] at h
          cases h
      | some entries =>
          rw [eq_object hentries] at hv h
          rw [lookup?_object, Option.bind_eq_some_iff] at h
          rcases h with ⟨u, hu, hw⟩
          exact ih (hv.get? hu) hw

/-! ### Writing along a path -/

/-- What stands under a name, or the object that is made there. -/
def inside (entries : Entries) (name : String) : Value :=
  (entries.get? name).getD (object [])

theorem lookup?_inside {path : List String} (h : path ≠ []) (entries : Entries) (name : String) :
    (inside entries name).lookup? path = (object entries).lookup? (name :: path) := by
  rw [lookup?_object, inside]
  cases entries.get? name with
  | none => exact lookup?_empty h
  | some u => rfl

theorem write_object_nil (entries : Entries) (name : String) (new : Value) :
    (object entries).write name [] new = .ok (object (entries.insert name new)) := by
  rw [write]

theorem write_object_cons (entries : Entries) (name next : String) (path : List String)
    (new : Value) :
    (object entries).write name (next :: path) new =
      ((inside entries name).write next path new).map fun v => object (entries.insert name v) := by
  rw [write, inside]
  cases ((entries.get? name).getD (object [])).write next path new <;> rfl

theorem write_of_plain {v : Value} (h : v.entries? = none) (name : String) (path : List String)
    (new : Value) :
    v.write name path new = .error (if path = [] then .noEntries else .noObject) := by
  cases v with
  | object entries => simp [entries?] at h
  | _ => cases path <;> simp [write]

/-- The object that a value was written into, and what was written into it. -/
theorem write_eq_ok_iff {v v' new : Value} {name next : String} {path : List String} :
    v.write name (next :: path) new = .ok v' ↔
      ∃ (entries : Entries) (inner : Value), v = object entries ∧
        (inside entries name).write next path new = .ok inner ∧
        v' = object (entries.insert name inner) := by
  constructor
  · intro h
    cases hentries : v.entries? with
    | none =>
        rw [write_of_plain hentries] at h
        cases h
    | some entries =>
        rw [eq_object hentries, write_object_cons] at h
        cases hinner : (inside entries name).write next path new with
        | error m =>
            rw [hinner] at h
            cases h
        | ok inner =>
            rw [hinner] at h
            simp only [Except.map, Except.ok.injEq] at h
            exact ⟨entries, inner, eq_object hentries, hinner, h.symm⟩
  · rintro ⟨entries, inner, rfl, hinner, rfl⟩
    rw [write_object_cons, hinner]
    rfl

theorem write_nil_eq_ok_iff {v v' new : Value} {name : String} :
    v.write name [] new = .ok v' ↔
      ∃ entries : Entries, v = object entries ∧ v' = object (entries.insert name new) := by
  constructor
  · intro h
    cases hentries : v.entries? with
    | none =>
        rw [write_of_plain hentries] at h
        cases h
    | some entries =>
        rw [eq_object hentries, write_object_nil, Except.ok.injEq] at h
        exact ⟨entries, eq_object hentries, h.symm⟩
  · rintro ⟨entries, rfl, rfl⟩
    rw [write_object_nil]

/-- Only an object can be written into, and it is one afterwards. -/
theorem write_object {v v' new : Value} {name : String} {path : List String}
    (h : v.write name path new = .ok v') :
    ∃ entries entries', v = object entries ∧ v' = object entries' := by
  cases path with
  | nil =>
      rcases write_nil_eq_ok_iff.mp h with ⟨entries, hv, hv'⟩
      exact ⟨_, _, hv, hv'⟩
  | cons next path =>
      rcases write_eq_ok_iff.mp h with ⟨entries, inner, hv, _, hv'⟩
      exact ⟨_, _, hv, hv'⟩

/-- Paths that lead through something that is no object. -/
def Blocked (v : Value) (path : List String) : Prop :=
  ∃ q w, q <+: path ∧ q ≠ path ∧ v.lookup? q = some w ∧ w.entries? = none

theorem blocked_of_plain {v : Value} (h : v.entries? = none) (name : String) (path : List String) :
    v.Blocked (name :: path) :=
  ⟨[], v, List.nil_prefix, (List.cons_ne_nil _ _).symm, lookup?_nil v, h⟩

/-- An object stands in nobody's way itself. -/
theorem ne_nil_of_plain {entries : Entries} {q : List String} {w : Value}
    (hw : (object entries).lookup? q = some w) (h : w.entries? = none) : q ≠ [] := by
  rintro rfl
  rw [lookup?_nil, Option.some.injEq] at hw
  rw [← hw] at h
  cases h

theorem not_blocked_empty (path : List String) : ¬ (object []).Blocked path := by
  rintro ⟨q, w, _, _, hw, hplain⟩
  rw [lookup?_empty (ne_nil_of_plain hw hplain)] at hw
  cases hw

theorem not_blocked_single (entries : Entries) (name : String) :
    ¬ (object entries).Blocked [name] := by
  rintro ⟨q, w, hq, hne, hw, hplain⟩
  rcases List.prefix_cons_iff.mp hq with rfl | ⟨q', rfl, hq'⟩
  · exact ne_nil_of_plain hw hplain rfl
  · rw [List.prefix_nil.mp hq'] at hne
    exact hne rfl

/-- What is in the way stands inside, and an object that is made there is not. -/
theorem blocked_cons_iff {entries : Entries} {name next : String} {path : List String} :
    (object entries).Blocked (name :: next :: path) ↔
      (inside entries name).Blocked (next :: path) := by
  constructor
  · rintro ⟨q, w, hq, hne, hw, hplain⟩
    rcases List.prefix_cons_iff.mp hq with rfl | ⟨q', rfl, hq'⟩
    · exact absurd rfl (ne_nil_of_plain hw hplain)
    · refine ⟨q', w, hq', fun heq => hne (by rw [heq]), ?_, hplain⟩
      rw [lookup?_object, Option.bind_eq_some_iff] at hw
      rcases hw with ⟨u, hu, hw⟩
      rw [inside, hu]
      exact hw
  · intro h
    cases hget : entries.get? name with
    | none =>
        rw [inside, hget] at h
        exact absurd h (not_blocked_empty _)
    | some u =>
        rw [inside, hget] at h
        rcases h with ⟨q, w, hq, hne, hw, hplain⟩
        refine ⟨name :: q, w, List.cons_prefix_cons.mpr ⟨rfl, hq⟩,
          fun heq => hne (List.cons.inj heq).2, ?_, hplain⟩
        rw [lookup?_object, hget]
        exact hw

/-- Writing is refused exactly if the path leads through something that is no
    object. -/
theorem write_refused_iff {v new : Value} {name : String} {path : List String} :
    (∃ m, v.write name path new = .error m) ↔ v.Blocked (name :: path) := by
  induction path generalizing v name with
  | nil =>
      cases hentries : v.entries? with
      | none =>
          exact iff_of_true ⟨_, write_of_plain hentries name [] new⟩ (blocked_of_plain hentries _ _)
      | some entries =>
          rw [eq_object hentries, write_object_nil]
          exact iff_of_false (by simp) (not_blocked_single entries name)
  | cons next path ih =>
      cases hentries : v.entries? with
      | none =>
          exact iff_of_true ⟨_, write_of_plain hentries name _ new⟩ (blocked_of_plain hentries _ _)
      | some entries =>
          rw [eq_object hentries, blocked_cons_iff, ← ih, write_object_cons]
          cases (inside entries name).write next path new <;> simp [Except.map]

/-- Into an empty object everything can be written. -/
theorem write_empty (name : String) (path : List String) (new : Value) :
    ∃ v', (object []).write name path new = .ok v' := by
  cases h : (object []).write name path new with
  | ok v' => exact ⟨v', rfl⟩
  | error m => exact absurd (write_refused_iff.mp ⟨m, h⟩) (not_blocked_empty _)

theorem write_error {v new : Value} {name : String} {path : List String} {m : Misfit}
    (h : v.write name path new = .error m) : m = .noEntries ∨ m = .noObject := by
  induction path generalizing v name with
  | nil =>
      cases hentries : v.entries? with
      | none =>
          rw [write_of_plain hentries, Except.error.injEq] at h
          exact Or.inl h.symm
      | some entries =>
          rw [eq_object hentries, write_object_nil] at h
          cases h
  | cons next path ih =>
      cases hentries : v.entries? with
      | none =>
          rw [write_of_plain hentries, Except.error.injEq] at h
          exact Or.inr h.symm
      | some entries =>
          rw [eq_object hentries, write_object_cons] at h
          cases hinner : (inside entries name).write next path new with
          | ok inner =>
              rw [hinner] at h
              cases h
          | error m' =>
              rw [hinner] at h
              cases h
              exact ih hinner

section

variable {v v' new : Value} {name : String} {path : List String}

/-- What has been written is read at the end of the path and beyond. -/
theorem lookup?_write (h : v.write name path new = .ok v') (rest : List String) :
    v'.lookup? (name :: path ++ rest) = new.lookup? rest := by
  induction path generalizing v v' name with
  | nil =>
      rcases write_nil_eq_ok_iff.mp h with ⟨entries, rfl, rfl⟩
      rw [List.cons_append, lookup?_object, Entries.get?_insert, if_pos rfl]
      rfl
  | cons next path ih =>
      rcases write_eq_ok_iff.mp h with ⟨entries, inner, rfl, hinner, rfl⟩
      rw [List.cons_append, lookup?_object, Entries.get?_insert, if_pos rfl]
      exact ih hinner

/-- On the way there are objects. -/
theorem lookup?_write_above (h : v.write name path new = .ok v') {q : List String}
    (hq : q <+: name :: path) (hne : q ≠ name :: path) :
    ∃ entries, v'.lookup? q = some (object entries) := by
  induction path generalizing v v' name q with
  | nil =>
      rcases write_nil_eq_ok_iff.mp h with ⟨entries, rfl, rfl⟩
      rcases List.prefix_cons_iff.mp hq with rfl | ⟨q', rfl, hq'⟩
      · exact ⟨_, lookup?_nil _⟩
      · rw [List.prefix_nil.mp hq'] at hne
        exact absurd rfl hne
  | cons next path ih =>
      rcases write_eq_ok_iff.mp h with ⟨entries, inner, rfl, hinner, rfl⟩
      rcases List.prefix_cons_iff.mp hq with rfl | ⟨q', rfl, hq'⟩
      · exact ⟨_, lookup?_nil _⟩
      · rw [lookup?_object, Entries.get?_insert, if_pos rfl]
        exact ih hinner hq' fun heq => hne (by rw [heq])

/-- Paths that lead elsewhere read as before. -/
theorem lookup?_write_divergent (h : v.write name path new = .ok v') {q : List String}
    (hq : Divergent q (name :: path)) : v'.lookup? q = v.lookup? q := by
  induction path generalizing v v' name q with
  | nil =>
      rcases write_nil_eq_ok_iff.mp h with ⟨entries, rfl, rfl⟩
      cases q with
      | nil => exact absurd rfl hq.ne_nil.1
      | cons n q =>
          rw [lookup?_object, lookup?_object, Entries.get?_insert, if_neg hq.head_ne]
  | cons next path ih =>
      rcases write_eq_ok_iff.mp h with ⟨entries, inner, rfl, hinner, rfl⟩
      cases q with
      | nil => exact absurd rfl hq.ne_nil.1
      | cons n q =>
          by_cases hname : name = n
          · subst hname
            rw [lookup?_object, Entries.get?_insert, if_pos rfl, Option.bind_some,
              ← lookup?_inside hq.tail.ne_nil.1]
            exact ih hinner hq.tail
          · rw [lookup?_object, lookup?_object, Entries.get?_insert, if_neg hname]

end

/-! ### Dotted names -/

theorem writeKey_eq {key name : String} {path : List String} (h : keyParts key = name :: path)
    (v new : Value) : v.writeKey key new = v.write name path new := by
  rw [writeKey, h]

section

variable {v v' new : Value} {key : String}

theorem writeKey_refused_iff :
    (∃ m, v.writeKey key new = .error m) ↔ v.Blocked (keyParts key) := by
  rcases List.exists_cons_of_ne_nil (keyParts_ne_nil key) with ⟨name, path, hkey⟩
  rw [writeKey_eq hkey, hkey]
  exact write_refused_iff

theorem writeKey_empty (key : String) (new : Value) : ∃ v', (object []).writeKey key new = .ok v' := by
  rcases List.exists_cons_of_ne_nil (keyParts_ne_nil key) with ⟨name, path, hkey⟩
  rw [writeKey_eq hkey]
  exact write_empty name path new

theorem writeKey_error {m : Misfit} (h : v.writeKey key new = .error m) :
    m = .noEntries ∨ m = .noObject := by
  rcases List.exists_cons_of_ne_nil (keyParts_ne_nil key) with ⟨name, path, hkey⟩
  rw [writeKey_eq hkey] at h
  exact write_error h

theorem lookup?_writeKey (h : v.writeKey key new = .ok v') (rest : List String) :
    v'.lookup? (keyParts key ++ rest) = new.lookup? rest := by
  rcases List.exists_cons_of_ne_nil (keyParts_ne_nil key) with ⟨name, path, hkey⟩
  rw [writeKey_eq hkey] at h
  rw [hkey]
  exact lookup?_write h rest

theorem lookup?_writeKey_above (h : v.writeKey key new = .ok v') {q : List String}
    (hq : q <+: keyParts key) (hne : q ≠ keyParts key) :
    ∃ entries, v'.lookup? q = some (object entries) := by
  rcases List.exists_cons_of_ne_nil (keyParts_ne_nil key) with ⟨name, path, hkey⟩
  rw [writeKey_eq hkey] at h
  rw [hkey] at hq hne
  exact lookup?_write_above h hq hne

theorem lookup?_writeKey_divergent (h : v.writeKey key new = .ok v') {q : List String}
    (hq : Divergent q (keyParts key)) : v'.lookup? q = v.lookup? q := by
  rcases List.exists_cons_of_ne_nil (keyParts_ne_nil key) with ⟨name, path, hkey⟩
  rw [writeKey_eq hkey] at h
  rw [hkey] at hq
  exact lookup?_write_divergent h hq

end

end Value

/-! ### Laid over other objects -/

/-- An object laid over a value goes onto its entries, if it has some. -/
theorem overlayValue_entries (old : Option Value) (entries : Entries) :
    overlayValue old (.object entries) =
      .object (overlay ((old.bind Value.entries?).getD []) entries) := by
  cases old with
  | none => rfl
  | some v => cases v <;> rfl

/-- Below a name, there are the entries of its value. -/
theorem lookup?_below {path : List String} (h : path ≠ []) (old : Option Value) :
    (Value.object ((old.bind Value.entries?).getD [])).lookup? path = old.bind (·.lookup? path) := by
  cases old with
  | none => exact Value.lookup?_empty h
  | some v =>
      rw [Option.bind_some, Option.bind_some]
      cases hentries : v.entries? with
      | none =>
          rcases List.exists_cons_of_ne_nil h with ⟨name, path, rfl⟩
          rw [Value.lookup?_of_plain hentries]
          exact Value.lookup?_empty h
      | some entries => rw [Option.getD_some, Value.eq_object hentries]

/-- A value that is no object is read whatever is below it. -/
theorem lookup?_overlay_of_plain {base entries : Entries} (h : (Value.object entries).Proper)
    {path : List String} (hpath : path ≠ []) {v : Value}
    (hv : (Value.object entries).lookup? path = some v) (hplain : v.entries? = none) :
    (Value.object (overlay base entries)).lookup? path = some v := by
  induction path generalizing base entries with
  | nil => exact absurd rfl hpath
  | cons name path ih =>
      rw [Value.lookup?_object, Option.bind_eq_some_iff] at hv
      rcases hv with ⟨u, hu, hv⟩
      rw [Value.lookup?_object, get?_overlay base h.distinct, hu, Option.elim_some, Option.bind_some]
      cases hentries : u.entries? with
      | none =>
          rw [overlayValue_plain hentries]
          exact hv
      | some inner =>
          rw [Value.eq_object hentries] at hv hu ⊢
          rw [overlayValue_entries]
          exact ih (h.get? hu) (Value.ne_nil_of_plain hv hplain) hv

/-- Paths that lead elsewhere read as before, whatever is below. -/
theorem lookup?_overlay_divergent {base entries entries' : Entries} {new : Value} {name : String}
    {path q : List String} (h : (Value.object entries).Proper)
    (h' : (Value.object entries').Proper)
    (hwrite : (Value.object entries).write name path new = .ok (.object entries'))
    (hq : Divergent q (name :: path)) :
    (Value.object (overlay base entries')).lookup? q =
      (Value.object (overlay base entries)).lookup? q := by
  induction path generalizing base entries entries' name q with
  | nil =>
      rcases Value.write_nil_eq_ok_iff.mp hwrite with ⟨es, hes, hes'⟩
      cases hes
      cases hes'
      cases q with
      | nil => exact absurd rfl hq.ne_nil.1
      | cons n q =>
          rw [Value.lookup?_object, Value.lookup?_object, get?_overlay base h.distinct,
            get?_overlay base h'.distinct, Entries.get?_insert, if_neg hq.head_ne]
  | cons next path ih =>
      rcases Value.write_eq_ok_iff.mp hwrite with ⟨es, inner, hes, hinner, hes'⟩
      cases hes
      cases hes'
      cases q with
      | nil => exact absurd rfl hq.ne_nil.1
      | cons n q =>
          rw [Value.lookup?_object, Value.lookup?_object, get?_overlay base h.distinct,
            get?_overlay base h'.distinct, Entries.get?_insert]
          by_cases hname : name = n
          swap
          · rw [if_neg hname]
          subst hname
          rw [if_pos rfl, Option.elim_some, Option.bind_some]
          rcases Value.write_object hinner with ⟨old, new', hold, rfl⟩
          have hnew' : (Value.object new').Proper :=
            h'.get? (by rw [Entries.get?_insert, if_pos rfl])
          rw [hold] at hinner
          rw [Value.inside] at hold
          cases hget : entries.get? name with
          | some u =>
              rw [hget, Option.getD_some] at hold
              subst hold
              rw [Option.elim_some, Option.bind_some, overlayValue_entries, overlayValue_entries]
              exact ih (h.get? hget) hnew' hinner hq.tail
          | none =>
              -- An object that is made adds nothing to the entries below it.
              rw [hget, Option.getD_none, Value.object.injEq] at hold
              subst hold
              rw [Option.elim_none, overlayValue_entries,
                ih Value.proper_empty hnew' hinner hq.tail, overlay,
                lookup?_below hq.tail.ne_nil.1]

/-! ### Laid over nothing -/

/-- Entries with names that are all new are added as they are, if their values
    are what they come to over nothing. -/
theorem overlay_of_new {base entries : Entries} (hnames : entries.names.Nodup)
    (hnew : ∀ name ∈ entries.names, name ∉ base.names)
    (hvalues : ∀ e ∈ entries, overlayValue none e.2 = e.2) :
    overlay base entries = base ++ entries := by
  induction entries generalizing base with
  | nil => rw [overlay, List.append_nil]
  | cons e rest ih =>
      rcases e with ⟨n, v⟩
      simp only [Entries.names, List.map_cons, List.nodup_cons, List.mem_cons, forall_eq_or_imp]
        at hnames hnew hvalues
      rw [overlay, Entries.get?_eq_none hnew.1, hvalues.1, Entries.insert_of_not_mem hnew.1,
        ih hnames.2 (fun name hname => ?_) hvalues.2, List.append_assoc, List.singleton_append]
      simp only [Entries.names, List.map_append, List.mem_append, List.map_cons, List.map_nil,
        List.mem_singleton, not_or]
      exact ⟨hnew.2 name hname, fun heq => hnames.1 (heq ▸ hname)⟩

/-- A proper value laid over nothing stays as it is. -/
theorem Value.Proper.overlayValue_none {v : Value} (h : v.Proper) : overlayValue none v = v := by
  induction h with
  | @scalar v hscalar =>
      refine overlayValue_plain ?_ none
      cases v with
      | object entries => cases hscalar
      | _ => rfl
  | list _ _ => rfl
  | object distinct _ ih =>
      rw [overlayValue_entries]
      exact congrArg Value.object (overlay_of_new distinct (fun _ _ => List.not_mem_nil) ih)

end Inlay
