import Inlay.Settings.Environment
import Mathlib.Data.List.Nodup

/-!
# Proper Values

An object is kept as a list of entries, and a list could name an entry twice.
Reading takes the first entry of a name and writing changes the first, so as
long as values are built by writing, no name comes twice. A value is proper if
this holds of every object in it, at any depth.

Everything that settings are made of is proper: what is read from JSON, what a
variable of the environment is taken for, and what results when a proper value
is written into another one.

## Main definitions

* `Entries.names`: The names of some entries.
* `Value.Proper`: Values in which no object names an entry twice.
* `Value.ProperObject`: Objects of that kind.

## Theorems

* `Entries.get?_insert`: What is read after a value has been written.
* `Value.ProperObject.write`: Writing into a proper object gives one.
* `Json.read_proper`: What is read from JSON is proper.
* `Environment.coerce_proper`: What a text looks like is proper.
* `Environment.unflatten_proper`: The settings of an environment make a proper
  object.
-/

namespace Inlay

/-- A step that may be refused, and one after it. -/
theorem except_bind_eq_ok_iff {ε α β : Type} {x : Except ε α} {f : α → Except ε β} {b : β} :
    (x >>= f) = .ok b ↔ ∃ a, x = .ok a ∧ f a = .ok b := by
  cases x with
  | error e => simp [bind, Except.bind]
  | ok a => simp [bind, Except.bind]

/-! ### Entries -/

namespace Entries

/-- The names of some entries, in their order. -/
def names (entries : Entries) : List String :=
  entries.map Prod.fst

@[simp]
theorem get?_nil (name : String) : get? [] name = none :=
  rfl

theorem get?_cons (n : String) (v : Value) (rest : Entries) (name : String) :
    get? ((n, v) :: rest) name = if n = name then some v else get? rest name := by
  unfold get?
  by_cases h : n = name
  · simp [h]
  · simp [h, List.find?_cons_of_neg]

theorem get?_insert (entries : Entries) (name other : String) (v : Value) :
    (entries.insert name v).get? other = if name = other then some v else entries.get? other := by
  induction entries with
  | nil => rw [insert, get?_cons]
  | cons e rest ih =>
      rcases e with ⟨n, u⟩
      unfold insert
      by_cases hn : n = name
      · -- The entry is changed in place, and any other name is looked for
        -- behind it, before as well as after.
        rw [if_pos (by simp [hn]), get?_cons, get?_cons, hn]
        by_cases ho : name = other <;> simp [ho]
      · rw [if_neg (by simp [hn]), get?_cons, get?_cons, ih]
        by_cases ho : n = other
        · have hno : name ≠ other := fun h => hn (ho.trans h.symm)
          simp [ho, hno]
        · simp [ho]

theorem mem_of_get? {entries : Entries} {name : String} {v : Value}
    (h : entries.get? name = some v) : (name, v) ∈ entries := by
  induction entries with
  | nil => simp at h
  | cons e rest ih =>
      rcases e with ⟨n, u⟩
      rw [get?_cons] at h
      by_cases hn : n = name
      · rw [if_pos hn, Option.some.injEq] at h
        simp [hn, h]
      · rw [if_neg hn] at h
        exact List.mem_cons_of_mem _ (ih h)

theorem get?_eq_none {entries : Entries} {name : String} (h : name ∉ entries.names) :
    entries.get? name = none := by
  by_contra hsome
  rcases Option.ne_none_iff_exists'.mp hsome with ⟨v, hv⟩
  exact h (List.mem_map_of_mem (mem_of_get? hv))

theorem mem_insert {entries : Entries} {name : String} {v : Value} {e : String × Value}
    (h : e ∈ entries.insert name v) : e = (name, v) ∨ e ∈ entries := by
  induction entries with
  | nil => simpa [insert] using h
  | cons d rest ih =>
      rcases d with ⟨n, u⟩
      unfold insert at h
      by_cases hn : n = name
      · rw [if_pos (by simp [hn]), List.mem_cons] at h
        exact h.imp_right (List.mem_cons_of_mem _)
      · rw [if_neg (by simp [hn]), List.mem_cons] at h
        rcases h with rfl | h
        · exact Or.inr List.mem_cons_self
        · exact (ih h).imp_right (List.mem_cons_of_mem _)

/-- A name that is new goes to the end, and any other stays where it is. -/
theorem names_insert (entries : Entries) (name : String) (v : Value) :
    (entries.insert name v).names =
      if name ∈ entries.names then entries.names else entries.names ++ [name] := by
  induction entries with
  | nil => rfl
  | cons e rest ih =>
      rcases e with ⟨n, u⟩
      unfold insert
      by_cases hn : n = name
      · rw [if_pos (by simp [hn])]
        simp [names, hn]
      · have hn' : ¬ name = n := fun h => hn h.symm
        rw [if_neg (by simp [hn])]
        simp only [names, List.map_cons, List.mem_cons, hn', false_or] at ih ⊢
        rw [ih]
        by_cases hmem : name ∈ List.map Prod.fst rest <;> simp [hmem]

theorem insert_of_not_mem {entries : Entries} {name : String} (h : name ∉ entries.names)
    (v : Value) : entries.insert name v = entries ++ [(name, v)] := by
  induction entries with
  | nil => rfl
  | cons e rest ih =>
      rcases e with ⟨n, u⟩
      simp only [names, List.map_cons, List.mem_cons, not_or] at h
      rw [insert, if_neg (by simpa using fun heq => h.1 heq.symm), ih h.2, List.cons_append]

theorem nodup_names_insert {entries : Entries} (h : entries.names.Nodup) (name : String)
    (v : Value) : (entries.insert name v).names.Nodup := by
  rw [names_insert]
  by_cases hmem : name ∈ entries.names
  · rwa [if_pos hmem]
  · rw [if_neg hmem, ← List.concat_eq_append]
    exact h.concat hmem

/-- Entries with names of their own stay as they are when they are written one
    after the other. -/
theorem ofPairs_of_nodup {entries : Entries} (h : entries.names.Nodup) :
    ofPairs entries = entries := by
  suffices ∀ base : Entries, (base ++ entries).names.Nodup →
      entries.foldl (fun es e => insert es e.1 e.2) base = base ++ entries from this [] h
  clear h
  induction entries with
  | nil =>
      intro base _
      exact (List.append_nil base).symm
  | cons e rest ih =>
      intro base hbase
      have hnew : e.1 ∉ names base := by
        intro hmem
        rw [names, List.map_append, List.map_cons] at hbase
        exact (List.nodup_append.mp hbase).2.2 _ hmem _ List.mem_cons_self rfl
      rw [List.foldl_cons, insert_of_not_mem hnew, ih _ (by simpa using hbase)]
      simp only [List.append_assoc, List.singleton_append]

end Entries

/-! ### Proper values -/

namespace Value

/-- Whether a value holds no others. -/
def isScalar : Value → Bool
  | list _ | object _ => false
  | null | bool _ | int _ | float _ | str _ | location _ => true

/-- Values in which no object names an entry twice, at any depth. -/
inductive Proper : Value → Prop
  | scalar {v : Value} (h : v.isScalar = true) : Proper v
  | list {items : List Value} (inner : ∀ v ∈ items, v.Proper) : Proper (list items)
  | object {entries : Entries} (distinct : entries.names.Nodup)
      (inner : ∀ e ∈ entries, e.2.Proper) : Proper (object entries)

/-- Objects in which, at any depth, no entry is named twice. -/
def ProperObject (v : Value) : Prop :=
  ∃ entries, v = object entries ∧ v.Proper

theorem properObject_nil : ProperObject (object []) :=
  ⟨[], rfl, .object List.nodup_nil fun _ he => absurd he List.not_mem_nil⟩

@[simp]
theorem proper_bool (b : Bool) : (bool b).Proper :=
  .scalar rfl

@[simp]
theorem proper_str (s : String) : (str s).Proper :=
  .scalar rfl

theorem proper_object_iff {entries : Entries} :
    (Value.object entries).Proper ↔ entries.names.Nodup ∧ ∀ e ∈ entries, e.2.Proper := by
  constructor
  · intro h
    cases h with
    | scalar h => simp [isScalar] at h
    | object distinct inner => exact ⟨distinct, inner⟩
  · intro h
    exact .object h.1 h.2

theorem Proper.distinct {entries : Entries} (h : (Value.object entries).Proper) :
    entries.names.Nodup :=
  (proper_object_iff.mp h).1

theorem Proper.entry {entries : Entries} (h : (Value.object entries).Proper) {e : String × Value}
    (he : e ∈ entries) : e.2.Proper :=
  (proper_object_iff.mp h).2 e he

theorem Proper.get? {entries : Entries} (h : (Value.object entries).Proper) {name : String} {v : Value}
    (hv : entries.get? name = some v) : v.Proper :=
  h.entry (Entries.mem_of_get? hv)

theorem Proper.insert {entries : Entries} (h : (Value.object entries).Proper) {v : Value}
    (hv : v.Proper) (name : String) : (Value.object (entries.insert name v)).Proper := by
  refine .object (Entries.nodup_names_insert h.distinct name v) fun e he => ?_
  rcases Entries.mem_insert he with rfl | he
  · exact hv
  · exact h.entry he

/-- Pairs that are written one after the other. -/
theorem Proper.ofPairs {pairs : List (String × Value)} (h : ∀ p ∈ pairs, p.2.Proper) :
    (Value.object (Entries.ofPairs pairs)).Proper := by
  suffices ∀ entries : Entries, (Value.object entries).Proper →
      (Value.object (pairs.foldl (fun es p => Entries.insert es p.1 p.2) entries)).Proper from
    this [] (.object List.nodup_nil fun _ he => absurd he List.not_mem_nil)
  induction pairs with
  | nil =>
      intro entries hentries
      exact hentries
  | cons p rest ih =>
      intro entries hentries
      rw [List.foldl_cons]
      exact ih (fun q hq => h q (List.mem_cons_of_mem p hq)) _
        (hentries.insert (h p List.mem_cons_self) p.1)

/-- Writing into a proper object gives one. The objects that are made on the
    way are empty at first, so they are proper too. -/
theorem ProperObject.write {v new v' : Value} {name : String} {path : List String}
    (hv : v.ProperObject) (hnew : new.Proper) (h : v.write name path new = .ok v') :
    v'.ProperObject := by
  induction path generalizing v v' name with
  | nil =>
      rcases hv with ⟨entries, rfl, hproper⟩
      simp only [Value.write, Except.ok.injEq] at h
      subst h
      exact ⟨_, rfl, hproper.insert hnew name⟩
  | cons next path ih =>
      rcases hv with ⟨entries, rfl, hproper⟩
      rw [Value.write, except_bind_eq_ok_iff] at h
      rcases h with ⟨inner, hinner, h⟩
      simp only [pure, Except.pure, Except.ok.injEq] at h
      subst h
      refine ⟨_, rfl, hproper.insert ?_ name⟩
      -- Only an object can be written into, so what stood under the name was
      -- one, or nothing stood there.
      have hobject : ((Entries.get? entries name).getD (Value.object [])).ProperObject := by
        cases hget : Entries.get? entries name with
        | none => exact properObject_nil
        | some old =>
            have hold : old.Proper := hproper.get? hget
            rw [hget, Option.getD_some] at hinner
            cases old with
            | object es => exact ⟨es, rfl, hold⟩
            | _ => cases path <;> simp [Value.write] at hinner
      rcases ih hobject hinner with ⟨es, rfl, hes⟩
      exact hes

theorem ProperObject.writeKey {v new v' : Value} {key : String} (hv : v.ProperObject)
    (hnew : new.Proper) (h : v.writeKey key new = .ok v') : v'.ProperObject := by
  unfold Value.writeKey at h
  cases hparts : keyParts key with
  | nil =>
      rw [hparts] at h
      simp only [Except.ok.injEq] at h
      exact h ▸ hv
  | cons name path =>
      rw [hparts] at h
      exact hv.write hnew h

end Value

/-! ### What is read -/

namespace Json

theorem numeral_isScalar {limit : Nat} {s rest : List Char} {v : Value}
    (h : numeral limit s = .ok (v, rest)) : v.isScalar = true := by
  unfold numeral at h
  split at h
  rename_i negative body _
  split at h
  · simp at h
  · split at h
    split at h
    split at h
    · split at h
      · simp at h
      · simp only [Except.ok.injEq, Prod.mk.injEq] at h
        rw [← h.1]
        rfl
    · simp only [Except.ok.injEq, Prod.mk.injEq] at h
      rw [← h.1]
      rfl

theorem scalar_isScalar {limit : Nat} {s rest : List Char} {v : Value}
    (h : scalar limit s = .ok (v, rest)) : v.isScalar = true := by
  unfold scalar at h
  cases hfind : named.find? fun p => p.1.toList.isPrefixOf s with
  | none =>
      rw [hfind] at h
      exact numeral_isScalar h
  | some p =>
      rw [hfind] at h
      simp only [Except.ok.injEq, Prod.mk.injEq] at h
      have hmem := List.mem_of_find?_eq_some hfind
      rw [← h.1]
      have hall : ∀ q ∈ named, q.2.isScalar = true := by decide
      exact hall p hmem

/-- What the readers of values, items and members find within a bound. -/
structure ReadsProper (limit n : Nat) : Prop where
  value : ∀ {s rest : List Char} {v : Value}, value limit n s = .ok (v, rest) → v.Proper
  items : ∀ {s rest : List Char} {vs : List Value}, items limit n s = .ok (vs, rest) →
    ∀ v ∈ vs, v.Proper
  members : ∀ {s rest : List Char} {pairs : List (String × Value)},
    members limit n s = .ok (pairs, rest) → ∀ p ∈ pairs, p.2.Proper

section

variable {limit n : Nat} {s rest : List Char}

theorem ReadsProper.value_succ (ih : ReadsProper limit n) {v : Value}
    (h : Json.value limit (n + 1) s = .ok (v, rest)) : v.Proper := by
  rw [Json.value.eq_def] at h
  simp only at h
  split at h
  · -- A string.
    split at h
    · simp only [Except.ok.injEq, Prod.mk.injEq] at h
      exact h.1 ▸ .scalar rfl
    · simp at h
  · -- A list, which may end at once.
    split at h
    · simp only [Except.ok.injEq, Prod.mk.injEq] at h
      exact h.1 ▸ .list fun v hv => absurd hv List.not_mem_nil
    · rw [except_bind_eq_ok_iff] at h
      rcases h with ⟨⟨vs, rest'⟩, hvs, h⟩
      simp only [pure, Except.pure, Except.ok.injEq, Prod.mk.injEq] at h
      exact h.1 ▸ .list (ih.items hvs)
  · -- An object, which may end at once.
    split at h
    · simp only [Except.ok.injEq, Prod.mk.injEq] at h
      exact h.1 ▸ Value.Proper.ofPairs fun p hp => absurd hp List.not_mem_nil
    · rw [except_bind_eq_ok_iff] at h
      rcases h with ⟨⟨pairs, rest'⟩, hpairs, h⟩
      simp only [pure, Except.pure, Except.ok.injEq, Prod.mk.injEq] at h
      exact h.1 ▸ Value.Proper.ofPairs (ih.members hpairs)
  · exact .scalar (scalar_isScalar h)

theorem ReadsProper.items_succ (ih : ReadsProper limit n) {vs : List Value}
    (h : Json.items limit (n + 1) s = .ok (vs, rest)) : ∀ v ∈ vs, v.Proper := by
  rw [Json.items, except_bind_eq_ok_iff] at h
  rcases h with ⟨⟨v, rest₁⟩, hv, h⟩
  simp only at h
  split at h
  · simp only [pure, Except.pure, Except.ok.injEq, Prod.mk.injEq] at h
    rw [← h.1]
    simpa using ih.value hv
  · rw [except_bind_eq_ok_iff] at h
    rcases h with ⟨⟨us, rest₂⟩, hus, h⟩
    simp only [pure, Except.pure, Except.ok.injEq, Prod.mk.injEq] at h
    rw [← h.1]
    exact List.forall_mem_cons.mpr ⟨ih.value hv, ih.items hus⟩
  · simp at h

theorem ReadsProper.members_succ (ih : ReadsProper limit n) {pairs : List (String × Value)}
    (h : Json.members limit (n + 1) s = .ok (pairs, rest)) : ∀ p ∈ pairs, p.2.Proper := by
  rw [Json.members.eq_def] at h
  simp only at h
  -- A member is a string, a colon and a value; all else is malformed.
  split at h
  swap
  · simp at h
  split at h
  · simp at h
  split at h
  swap
  · simp at h
  rw [except_bind_eq_ok_iff] at h
  rcases h with ⟨⟨v, rest₁⟩, hv, h⟩
  simp only at h
  split at h
  · simp only [pure, Except.pure, Except.ok.injEq, Prod.mk.injEq] at h
    rw [← h.1]
    simpa using ih.value hv
  · rw [except_bind_eq_ok_iff] at h
    rcases h with ⟨⟨us, rest₂⟩, hus, h⟩
    simp only [pure, Except.pure, Except.ok.injEq, Prod.mk.injEq] at h
    rw [← h.1]
    exact List.forall_mem_cons.mpr ⟨ih.value hv, ih.members hus⟩
  · simp at h

end

/-- Each reader asks the others within the next smaller bound. -/
theorem readsProper (limit n : Nat) : ReadsProper limit n := by
  induction n with
  | zero =>
      constructor
      · intro s rest v h
        simp [Json.value] at h
      · intro s rest vs h
        simp [Json.items] at h
      · intro s rest pairs h
        simp [Json.members] at h
  | succ n ih => exact ⟨ih.value_succ, ih.items_succ, ih.members_succ⟩

theorem read_proper {s : List Char} {v : Value} (h : read s = .ok v) : v.Proper := by
  rw [read, readWithin, except_bind_eq_ok_iff] at h
  rcases h with ⟨⟨u, rest⟩, hu, h⟩
  simp only at h
  split at h
  · simp only [pure, Except.pure, Except.ok.injEq] at h
    exact h ▸ (readsProper _ _).value hu
  · simp at h

end Json

namespace Environment

theorem coerce_proper {text : String} {v : Value} (h : coerce text = .ok v) : v.Proper := by
  unfold coerce at h
  simp only at h
  -- Only a text that reads as JSON can give anything but a scalar.
  split at h
  · simp only [Except.ok.injEq] at h
    exact h ▸ .scalar rfl
  split at h
  · simp only [Except.ok.injEq] at h
    exact h ▸ .scalar rfl
  split at h
  · simp only [Except.ok.injEq] at h
    exact h ▸ .scalar rfl
  split at h
  · simp only [Except.ok.injEq] at h
    exact h ▸ .scalar rfl
  split at h
  · split at h
    · rename_i u hread
      simp only [Except.ok.injEq] at h
      exact h ▸ Json.read_proper hread
    · simp at h
    · simp only [Except.ok.injEq] at h
      exact h ▸ .scalar rfl
  · simp only [Except.ok.injEq] at h
    exact h ▸ .scalar rfl

theorem overrides_proper {env : Environment} {found found' : Entries}
    (hfound : ∀ e ∈ found, e.2.Proper) (h : overrides env found = .ok found') :
    ∀ e ∈ found', e.2.Proper := by
  induction env generalizing found with
  | nil =>
      simp only [overrides, Except.ok.injEq] at h
      exact h ▸ hfound
  | cons p rest ih =>
      rcases p with ⟨name, text⟩
      rw [overrides] at h
      cases hname : settingName? name with
      | none =>
          rw [hname] at h
          exact ih hfound h
      | some key =>
          rw [hname] at h
          simp only [except_bind_eq_ok_iff] at h
          rcases h with ⟨v, hv, h⟩
          refine ih (fun e he => ?_) h
          rcases Entries.mem_insert he with rfl | he
          · exact coerce_proper hv
          · exact hfound e he

theorem unflatten_proper {base data : Value} {found : Entries} (hbase : base.ProperObject)
    (hfound : ∀ e ∈ found, e.2.Proper) (h : unflatten base found = .ok data) :
    data.ProperObject := by
  induction found generalizing base with
  | nil =>
      simp only [unflatten, Except.ok.injEq] at h
      exact h ▸ hbase
  | cons e rest ih =>
      rcases e with ⟨key, v⟩
      rw [unflatten, except_bind_eq_ok_iff] at h
      rcases h with ⟨next, hnext, h⟩
      exact ih (hbase.writeKey (hfound _ List.mem_cons_self) hnext)
        (fun e he => hfound e (List.mem_cons_of_mem _ he)) h

end Environment

end Inlay
