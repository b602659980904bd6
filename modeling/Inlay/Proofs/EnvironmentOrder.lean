import Inlay.Proofs.Coercion
import Inlay.Proofs.RuntimeValues
import Inlay.Proofs.SharedSettings
import Mathlib.Data.List.Perm.Basic

/-!
# Loading an Environment in Any Order

The settings of an environment are written one after the other into one object,
so each is written into what the ones before it have made. Which variable comes
first is up to whoever made the environment. It does not matter if no variable
leads to or through the place of another one. Such an environment is called
compatible here.

What carries this is that an object holds some settings: each is read at its
place, above it there are objects, and nothing else is there. This says all
that can be read, and it does not mention an order. Writing one more setting
that is compatible with the others is never refused, and keeps it.

So a compatible environment is refused only if a text has no value, which the
order does not change either. The objects above the settings may have their
entries in another order, and this is the only difference that can be seen.

## Main definitions

* `Environment.parts?`: The place that the name of a variable leads to.
* `Environment.Compatible`: Environments in which these are apart.
* `Value.Alike`: Values that differ at most in the order of entries.
* `Environment.Reads`: The settings of an environment.
* `Holds`: An object with some settings and nothing else.

## Theorems

* `Environment.parts?_eq`: The place is the name of the setting, in parts.
* `Value.Alike.of_lookup?`: Values that read the same are alike.
* `Holds.write`: What one more setting preserves.
* `Environment.unflatten_holds`: Compatible settings are never refused.
* `Holds.sameShape`: Objects that hold the same settings read the same.
* `Settings.loadEnvironment_eq`: What loading a compatible environment comes to.
* `Settings.load_compatible`: What is read after that, in whatever order.
-/

namespace Inlay

/-! ### Places -/

namespace Environment

/-- The place that the name of a variable leads to: what stands behind the
    prefix, in lower case, cut at its underscores and dots. -/
def parts? (name : String) : Option (List String) :=
  if variablePrefix.isPrefixOf name.toList then
    let rest := String.ofList (name.toList.drop variablePrefix.length)
    some (((Text.lowerCase rest).toList.splitOnP fun c => c = '_' || c = '.').map String.ofList)
  else none

theorem splitParts_eq (s : List Char) :
    splitParts '.' (s.map fun c => if c = '_' then '.' else c) =
      s.splitOnP fun c => c = '_' || c = '.' := by
  induction s with
  | nil => rfl
  | cons c rest ih =>
      rw [List.map_cons, splitParts, ih, List.splitOnP_cons_eq_if_modifyHead]
      rcases List.exists_cons_of_ne_nil
        (List.splitOnP_ne_nil (fun c => c = '_' || c = '.') rest) with ⟨part, parts, hrest⟩
      rw [hrest]
      by_cases hscore : c = '_'
      · simp [hscore]
      · by_cases hdot : c = '.'
        · simp [hdot]
        · simp [hscore, hdot]

/-- The place is the dotted name of the setting, in parts. -/
theorem parts?_eq (name : String) : parts? name = (settingName? name).map keyParts := by
  unfold parts? settingName?
  split
  · rw [Option.map_some, keyParts, String.toList_ofList, splitParts_eq]
  · rfl

/-- Environments in which no variable leads to or through the place of another
    one. -/
def Compatible (env : Environment) : Prop :=
  (env.filterMap fun v => parts? v.1).Pairwise Divergent

instance : DecidablePred Compatible := fun _ => inferInstanceAs (Decidable (List.Pairwise _ _))

theorem Compatible.perm {env env' : Environment} (h : env.Compatible) (hperm : env'.Perm env) :
    env'.Compatible :=
  ((hperm.filterMap _).pairwise_iff Divergent.symm).mpr h

/-! ### What the variables say -/

instance : DecidablePred Counts := fun _ => inferInstanceAs (Decidable (_ = true))

/-- Variables that do not count have no effect. -/
theorem overrides_filter (env : Environment) (found : Entries) :
    overrides (env.filter Counts) found = overrides env found := by
  induction env generalizing found with
  | nil => rfl
  | cons v rest ih =>
      rcases v with ⟨name, text⟩
      cases hname : settingName? name with
      | none =>
          rw [List.filter_cons_of_neg (by simp [Counts, hname]), ih, overrides, hname]
      | some key =>
          rw [List.filter_cons_of_pos (by simp [Counts, hname]), overrides, overrides, hname]
          simp only [ih]

/-- The only reason for a refusal is a text without a value. -/
theorem overrides_refused_iff (env : Environment) (found : Entries) :
    (∃ m, overrides env found = .error m) ↔
      ∃ v ∈ env, Counts v ∧ coerce v.2 = .error .tooManyDigits := by
  induction env generalizing found with
  | nil => simp [overrides]
  | cons v rest ih =>
      rcases v with ⟨name, text⟩
      rw [overrides]
      cases hname : settingName? name with
      | none => simp [Counts, hname, ih]
      | some key =>
          cases hcoerce : coerce text with
          | error m =>
              have hm := (coerce_error_iff.mp hcoerce).1
              simp [Counts, hname, hcoerce, hm, bind, Except.bind]
          | ok w => simp [Counts, hname, hcoerce, ih, bind, Except.bind]

/-- Settings that are those of an environment, one from each variable that
    counts. -/
structure Reads (env : Environment) (pairs : Entries) : Prop where
  places : pairs.map (fun p => keyParts p.1) = env.filterMap fun v => parts? v.1
  source : ∀ p ∈ pairs, ∃ v ∈ env, settingName? v.1 = some p.1 ∧ coerce v.2 = .ok p.2
  value : ∀ v ∈ env, ∀ key, settingName? v.1 = some key →
    ∃ w, coerce v.2 = .ok w ∧ (key, w) ∈ pairs

namespace Reads

variable {env : Environment} {pairs : Entries} {name text key : String} {w : Value}

theorem nil : Reads [] [] :=
  ⟨rfl, fun _ hp => absurd hp List.not_mem_nil, fun _ hv => absurd hv List.not_mem_nil⟩

theorem skip (h : Reads env pairs) (hname : settingName? name = none) :
    Reads ((name, text) :: env) pairs := by
  refine ⟨?_, fun p hp => ?_, fun v hv key hkey => ?_⟩
  · rw [List.filterMap_cons_none (by rw [parts?_eq, hname]; rfl), h.places]
  · rcases h.source p hp with ⟨v, hv, hsource⟩
    exact ⟨v, List.mem_cons_of_mem _ hv, hsource⟩
  · rcases List.mem_cons.mp hv with rfl | hv
    · rw [hname] at hkey
      cases hkey
    · exact h.value v hv key hkey

theorem cons (h : Reads env pairs) (hname : settingName? name = some key)
    (hcoerce : coerce text = .ok w) : Reads ((name, text) :: env) ((key, w) :: pairs) := by
  refine ⟨?_, fun p hp => ?_, fun v hv key' hkey' => ?_⟩
  · rw [List.filterMap_cons_some (by rw [parts?_eq, hname]; rfl), List.map_cons, h.places]
  · rcases List.mem_cons.mp hp with rfl | hp
    · exact ⟨_, List.mem_cons_self, hname, hcoerce⟩
    · rcases h.source p hp with ⟨v, hv, hsource⟩
      exact ⟨v, List.mem_cons_of_mem _ hv, hsource⟩
  · rcases List.mem_cons.mp hv with rfl | hv
    · rw [hname, Option.some.injEq] at hkey'
      subst hkey'
      exact ⟨w, hcoerce, List.mem_cons_self⟩
    · rcases h.value v hv key' hkey' with ⟨w', hw', hmem⟩
      exact ⟨w', hw', List.mem_cons_of_mem _ hmem⟩

/-- In whatever order the variables come, the settings are the same. -/
theorem mem_of_perm {env' : Environment} {pairs' : Entries} (h : Reads env pairs)
    (h' : Reads env' pairs') (hperm : env.Perm env') {p : String × Value} (hp : p ∈ pairs) :
    p ∈ pairs' := by
  rcases h.source p hp with ⟨v, hv, hname, hcoerce⟩
  rcases h'.value v (hperm.subset hv) p.1 hname with ⟨w, hw, hmem⟩
  rw [hcoerce, Except.ok.injEq] at hw
  rwa [← hw] at hmem

/-- The settings of a compatible environment are apart. -/
theorem divergent (h : Reads env pairs) (hcompatible : env.Compatible) :
    pairs.Pairwise fun p q => Divergent (keyParts p.1) (keyParts q.1) := by
  rw [Compatible, ← h.places, List.pairwise_map] at hcompatible
  exact hcompatible

end Reads

/-- As long as no two variables stand for the same setting, each adds its own. -/
theorem overrides_eq_ok {env : Environment} {found found' : Entries}
    (hnames : (found.names ++ env.filterMap fun v => settingName? v.1).Nodup)
    (h : overrides env found = .ok found') : ∃ pairs, found' = found ++ pairs ∧ Reads env pairs := by
  induction env generalizing found with
  | nil =>
      rw [overrides, Except.ok.injEq] at h
      exact ⟨[], by rw [List.append_nil, h], .nil⟩
  | cons v rest ih =>
      rcases v with ⟨name, text⟩
      rw [overrides] at h
      cases hname : settingName? name with
      | none =>
          rw [hname] at h
          simp only [List.filterMap_cons, hname] at hnames
          rcases ih hnames h with ⟨pairs, hpairs, hreads⟩
          exact ⟨pairs, hpairs, hreads.skip hname⟩
      | some key =>
          rw [hname] at h
          simp only [except_bind_eq_ok_iff] at h
          rcases h with ⟨w, hcoerce, h⟩
          simp only [List.filterMap_cons, hname] at hnames
          have hnew : key ∉ found.names :=
            fun hmem => (List.nodup_append.mp hnames).2.2 key hmem key List.mem_cons_self rfl
          -- So the name is new to what has been found, and comes to its end.
          rw [Entries.insert_of_not_mem hnew] at h
          have hnames' : (Entries.names (found ++ [(key, w)]) ++
              rest.filterMap fun v => settingName? v.1).Nodup := by
            simpa [Entries.names] using hnames
          rcases ih hnames' h with ⟨pairs, hpairs, hreads⟩
          exact ⟨(key, w) :: pairs, by simpa using hpairs, hreads.cons hname hcoerce⟩

/-- Variables that lead to places apart stand for different settings. -/
theorem Compatible.names {env : Environment} (h : env.Compatible) :
    (env.filterMap fun v => settingName? v.1).Nodup := by
  have hparts : (env.filterMap fun v => parts? v.1) =
      (env.filterMap fun v => settingName? v.1).map keyParts := by
    rw [List.map_filterMap]
    simp only [parts?_eq]
  rw [Compatible, hparts] at h
  refine List.Nodup.of_map keyParts (h.imp fun hdivergent heq => ?_)
  exact hdivergent.1 (heq ▸ List.prefix_refl _)

end Environment

/-! ### Values up to the order of entries -/

namespace Entries

theorem mem_names_iff {entries : Entries} {name : String} :
    name ∈ entries.names ↔ ∃ v, entries.get? name = some v := by
  constructor
  · intro h
    by_contra hnone
    push Not at hnone
    simp only [names, List.mem_map] at h
    rcases h with ⟨e, he, rfl⟩
    have hget : entries.get? e.1 = none := Option.eq_none_iff_forall_not_mem.mpr hnone
    rw [get?, Option.map_eq_none_iff, List.find?_eq_none] at hget
    exact hget e he (beq_self_eq_true e.1)
  · rintro ⟨v, hv⟩
    exact List.mem_map_of_mem (mem_of_get? hv)

end Entries

namespace Value

/-- Values that differ at most in the order of the entries of objects. -/
inductive Alike : Value → Value → Prop
  | refl (v : Value) : Alike v v
  | object {entries entries' : Entries} (names : entries.names.Perm entries'.names)
      (inner : ∀ name v v', entries.get? name = some v → entries'.get? name = some v' → Alike v v') :
      Alike (object entries) (object entries')

/-- What reading along one path may find in two values that are alike. -/
def SameShape (found found' : Option Value) : Prop :=
  found = found' ∨
    ∃ entries entries', found = some (object entries) ∧ found' = some (object entries')

theorem SameShape.root {v v' : Value} (h : SameShape (v.lookup? []) (v'.lookup? [])) :
    v = v' ∨ ∃ entries entries', v = object entries ∧ v' = object entries' := by
  simpa [SameShape] using h

/-- Proper values that read the same are alike. -/
theorem Alike.of_lookup? {v v' : Value} (hv : v.Proper) (hv' : v'.Proper)
    (h : ∀ path, SameShape (v.lookup? path) (v'.lookup? path)) : Alike v v' := by
  induction hv generalizing v' with
  | scalar hscalar =>
      rcases (h []).root with rfl | ⟨_, _, rfl, _⟩
      · exact .refl _
      · cases hscalar
  | list _ _ =>
      rcases (h []).root with rfl | ⟨_, _, hentries, _⟩
      · exact .refl _
      · cases hentries
  | @object entries distinct _ ih =>
      rcases (h []).root with rfl | ⟨_, entries', _, rfl⟩
      · exact .refl _
      have hget : ∀ name path, SameShape ((entries.get? name).bind (·.lookup? path))
          ((Entries.get? entries' name).bind (·.lookup? path)) := by
        intro name path
        rw [← lookup?_object, ← lookup?_object]
        exact h (name :: path)
      refine .object ((List.perm_ext_iff_of_nodup distinct hv'.distinct).mpr fun name => ?_) ?_
      · -- The names are those under which something is read.
        rw [Entries.mem_names_iff, Entries.mem_names_iff]
        have hname := hget name []
        simp only [lookup?_nil, Option.bind_fun_some] at hname
        rcases hname with heq | ⟨_, _, hfound, hfound'⟩
        · rw [heq]
        · simp [hfound, hfound']
      · -- Below a name, the values read the same again.
        intro name u u' hu hu'
        refine ih _ (Entries.mem_of_get? hu) (hv'.get? hu') fun path => ?_
        have hpath := hget name path
        rwa [hu, hu'] at hpath

theorem lookup?_append (v : Value) (path rest : List String) :
    v.lookup? (path ++ rest) = (v.lookup? path).bind (·.lookup? rest) := by
  induction path generalizing v with
  | nil => rw [List.nil_append, lookup?_nil, Option.bind_some]
  | cons name path ih =>
      cases hentries : v.entries? with
      | none =>
          rw [List.cons_append, lookup?_of_plain hentries, lookup?_of_plain hentries,
            Option.bind_none]
      | some entries =>
          rw [eq_object hentries, List.cons_append, lookup?_object, lookup?_object,
            Option.bind_assoc]
          simp only [ih]

/-- What is found along a path in values that read the same is alike. -/
theorem Alike.of_lookup?_getD {v v' : Value} (hv : v.Proper) (hv' : v'.Proper)
    (h : ∀ path, SameShape (v.lookup? path) (v'.lookup? path)) (path : List String)
    (default : Value) :
    Alike ((v.lookup? path).getD default) ((v'.lookup? path).getD default) := by
  rcases h path with heq | ⟨entries, entries', hfound, hfound'⟩
  · rw [heq]
    exact .refl _
  · rw [hfound, hfound']
    refine .of_lookup? (hv.lookup? hfound) (hv'.lookup? hfound') fun rest => ?_
    have hrest := h (path ++ rest)
    rwa [lookup?_append, lookup?_append, hfound, hfound'] at hrest

end Value

/-! ### Holding some settings -/

/-- An object that holds some settings and nothing else. -/
structure Holds (v : Value) (pairs : Entries) : Prop where
  root : ∃ entries, v = .object entries
  values : ∀ p ∈ pairs, ∀ rest, v.lookup? (keyParts p.1 ++ rest) = p.2.lookup? rest
  above : ∀ p ∈ pairs, ∀ q, q <+: keyParts p.1 → q ≠ keyParts p.1 →
    ∃ entries, v.lookup? q = some (.object entries)
  absent : ∀ q, q ≠ [] → (∀ p ∈ pairs, Divergent q (keyParts p.1)) → v.lookup? q = none

theorem Divergent.append {p q : List String} (h : Divergent p q) (rest : List String) :
    Divergent (p ++ rest) q := by
  refine ⟨fun hle => h.1 ((List.prefix_append p rest).trans hle), fun hle => ?_⟩
  rcases List.prefix_or_prefix_of_prefix hle (List.prefix_append p rest) with hqp | hpq
  · exact h.2 hqp
  · exact h.1 hpq

namespace Holds

variable {v v' new : Value} {pairs pairs' : Entries} {key : String}

theorem empty : Holds (.object []) [] :=
  ⟨⟨[], rfl⟩, fun _ hp => absurd hp List.not_mem_nil, fun _ hp => absurd hp List.not_mem_nil,
    fun _ hq _ => Value.lookup?_empty hq⟩

/-- Where no setting leads to or through, there is nothing, and elsewhere there
    is what the settings say. -/
theorem lookup?_cases (h : Holds v pairs) {q : List String} (hq : q ≠ []) :
    (∀ p ∈ pairs, Divergent q (keyParts p.1)) ∧ v.lookup? q = none ∨
      ∃ p ∈ pairs, (∃ rest, q = keyParts p.1 ++ rest ∧ v.lookup? q = p.2.lookup? rest) ∨
        q <+: keyParts p.1 ∧ q ≠ keyParts p.1 ∧ ∃ entries, v.lookup? q = some (.object entries) := by
  by_cases hdivergent : ∀ p ∈ pairs, Divergent q (keyParts p.1)
  · exact Or.inl ⟨hdivergent, h.absent q hq hdivergent⟩
  · push Not at hdivergent
    rcases hdivergent with ⟨p, hp, hcross⟩
    refine Or.inr ⟨p, hp, ?_⟩
    by_cases hbelow : keyParts p.1 <+: q
    · rcases hbelow with ⟨rest, rfl⟩
      exact Or.inl ⟨rest, rfl, h.values p hp rest⟩
    · have habove : q <+: keyParts p.1 := by
        by_contra hnot
        exact hcross ⟨hnot, hbelow⟩
      have hne : q ≠ keyParts p.1 := fun heq => hbelow (heq ▸ List.prefix_refl _)
      exact Or.inr ⟨habove, hne, h.above p hp q habove hne⟩

/-- Nothing stands in the way of a setting whose place is apart from the others. -/
theorem writable (h : Holds v pairs) (hkey : ∀ p ∈ pairs, Divergent (keyParts p.1) (keyParts key))
    (new : Value) : ∃ v', v.writeKey key new = .ok v' := by
  cases hwrite : v.writeKey key new with
  | ok v' => exact ⟨v', rfl⟩
  | error m =>
      rcases Value.writeKey_refused_iff.mp ⟨m, hwrite⟩ with ⟨q, w, hq, _, hw, hplain⟩
      rcases h.root with ⟨root, rfl⟩
      exfalso
      rcases h.lookup?_cases (Value.ne_nil_of_plain hw hplain) with
        ⟨_, hnone⟩ | ⟨p, hp, ⟨rest, hrest, _⟩ | ⟨_, _, entries, hq'⟩⟩
      · rw [hnone] at hw
        cases hw
      · -- The place of another setting would be on the way.
        exact (hkey p hp).1 ((hrest ▸ List.prefix_append _ rest : keyParts p.1 <+: q).trans hq)
      · rw [hq', Option.some.injEq] at hw
        rw [← hw] at hplain
        cases hplain

/-- One more setting whose place is apart from the others is held with them. -/
theorem write (h : Holds v pairs) (hkey : ∀ p ∈ pairs, Divergent (keyParts p.1) (keyParts key))
    (hwrite : v.writeKey key new = .ok v') : Holds v' (pairs ++ [(key, new)]) := by
  refine ⟨?_, fun p hp rest => ?_, fun p hp q hq hne => ?_, fun q hq hdivergent => ?_⟩
  · rcases Value.lookup?_writeKey_above hwrite List.nil_prefix (keyParts_ne_nil key).symm with
      ⟨entries, hentries⟩
    rw [Value.lookup?_nil, Option.some.injEq] at hentries
    exact ⟨entries, hentries⟩
  · rcases List.mem_append.mp hp with hp | hp
    · rw [Value.lookup?_writeKey_divergent hwrite ((hkey p hp).append rest), h.values p hp rest]
    · rw [List.mem_singleton.mp hp]
      exact Value.lookup?_writeKey hwrite rest
  · rcases List.mem_append.mp hp with hp | hp
    · -- The way to another setting may lead along the way to the new one.
      by_cases halong : q <+: keyParts key
      · refine Value.lookup?_writeKey_above hwrite halong fun heq => ?_
        exact (hkey p hp).2 (heq ▸ hq)
      · have hapart : Divergent q (keyParts key) :=
          ⟨halong, fun hle => (hkey p hp).2 (hle.trans hq)⟩
        rw [Value.lookup?_writeKey_divergent hwrite hapart]
        exact h.above p hp q hq hne
    · rw [List.mem_singleton.mp hp] at hq hne
      exact Value.lookup?_writeKey_above hwrite hq hne
  · -- Apart from all settings is apart from the new one and from the others.
    rw [Value.lookup?_writeKey_divergent hwrite (hdivergent (key, new) (by simp))]
    exact h.absent q hq fun p hp => hdivergent p (List.mem_append_left _ hp)

/-- Objects that hold the same settings read the same, up to the order of entries. -/
theorem sameShape (h : Holds v pairs) (h' : Holds v' pairs') (hsame : ∀ p, p ∈ pairs ↔ p ∈ pairs')
    (q : List String) : Value.SameShape (v.lookup? q) (v'.lookup? q) := by
  by_cases hnil : q = []
  · rcases h.root with ⟨entries, rfl⟩
    rcases h'.root with ⟨entries', rfl⟩
    rw [hnil, Value.lookup?_nil, Value.lookup?_nil]
    exact Or.inr ⟨entries, entries', rfl, rfl⟩
  rcases h.lookup?_cases hnil with
    ⟨hdivergent, hnone⟩ | ⟨p, hp, ⟨rest, rfl, hvalue⟩ | ⟨hq, hne, hobject⟩⟩
  · left
    rw [hnone, h'.absent q hnil fun p hp => hdivergent p ((hsame p).mpr hp)]
  · left
    rw [hvalue, h'.values p ((hsame p).mp hp) rest]
  · right
    rcases hobject with ⟨entries, hentries⟩
    rcases h'.above p ((hsame p).mp hp) q hq hne with ⟨entries', hentries'⟩
    exact ⟨entries, entries', hentries, hentries'⟩

end Holds

/-- Settings that are apart are written one after the other without a refusal,
    and all of them are held then. -/
theorem Environment.unflatten_holds {base : Value} {done pairs : Entries} (h : Holds base done)
    (hdivergent : (done ++ pairs).Pairwise fun p q => Divergent (keyParts p.1) (keyParts q.1)) :
    ∃ data, Environment.unflatten base pairs = .ok data ∧ Holds data (done ++ pairs) := by
  induction pairs generalizing base done with
  | nil => exact ⟨base, rfl, by rwa [List.append_nil]⟩
  | cons e rest ih =>
      rcases e with ⟨key, new⟩
      have hkey : ∀ p ∈ done, Divergent (keyParts p.1) (keyParts key) :=
        fun p hp => (List.pairwise_append.mp hdivergent).2.2 p hp (key, new) List.mem_cons_self
      rcases h.writable hkey new with ⟨next, hnext⟩
      have happend : done ++ (key, new) :: rest = done ++ [(key, new)] ++ rest := by simp
      rw [happend] at hdivergent ⊢
      rcases ih (h.write hkey hnext) hdivergent with ⟨data, hdata, hholds⟩
      refine ⟨data, ?_, hholds⟩
      rw [Environment.unflatten, hnext]
      exact hdata

namespace Settings

/-- Variables that do not count have no effect. -/
theorem loadEnvironment_filter (s : Settings) (env : Environment) :
    s.loadEnvironment (env.filter Environment.Counts) = s.loadEnvironment env := by
  rw [loadEnvironment, loadEnvironment, Environment.overrides_filter]

/-- Settings from which an object is read that holds those of an environment. -/
structure Loaded (s : Settings) (env : Environment) (pairs : Entries) (data : Value) : Prop where
  reads : Environment.Reads env pairs
  proper : data.Proper
  holds : Holds data pairs
  get : ∀ key default, s.get key default = .ok ((data.lookup? (keyParts key)).getD default)

namespace Loaded

variable {s s' : Settings} {env env' : Environment} {pairs pairs' : Entries} {data data' : Value}

/-- Every variable that counts is read at its own place. -/
theorem get_place (h : s.Loaded env pairs data) {v : String × String} (hv : v ∈ env) {key : String}
    (hplace : Environment.parts? v.1 = some (keyParts key)) :
    ∃ w, Environment.coerce v.2 = .ok w ∧ ∀ default, s.get key default = .ok w := by
  rw [Environment.parts?_eq, Option.map_eq_some_iff] at hplace
  rcases hplace with ⟨key', hname, hkey⟩
  rcases h.reads.value v hv key' hname with ⟨w, hw, hmem⟩
  refine ⟨w, hw, fun default => ?_⟩
  rw [h.get, ← hkey, ← (keyParts key').append_nil, h.holds.values _ hmem, Value.lookup?_nil]
  rfl

/-- Nothing is read apart from all places. -/
theorem get_apart (h : s.Loaded env pairs data) {key : String}
    (hapart : ∀ v ∈ env, ∀ place, Environment.parts? v.1 = some place →
      Divergent (keyParts key) place) (default : Value) : s.get key default = .ok default := by
  have hnone : data.lookup? (keyParts key) = none := by
    refine h.holds.absent _ (keyParts_ne_nil key) fun p hp => ?_
    rcases h.reads.source p hp with ⟨v, hv, hname, _⟩
    exact hapart v hv _ (by rw [Environment.parts?_eq, hname]; rfl)
  rw [h.get, hnone]
  rfl

/-- Another order of the variables makes no difference. -/
theorem get_alike (h : s.Loaded env pairs data) (h' : s'.Loaded env' pairs' data')
    (hperm : env'.Perm env) (key : String) (default : Value) :
    ∃ w w', s.get key default = .ok w ∧ s'.get key default = .ok w' ∧ Value.Alike w w' := by
  have hsame : ∀ p, p ∈ pairs ↔ p ∈ pairs' := fun p =>
    ⟨h.reads.mem_of_perm h'.reads hperm.symm, h'.reads.mem_of_perm h.reads hperm⟩
  exact ⟨_, _, h.get key default, h'.get key default, .of_lookup?_getD h.proper h'.proper
    (h.holds.sameShape h'.holds hsame) (keyParts key) default⟩

end Loaded

theorem get_bare (key : String) (default : Value) :
    (made false).get key default = .ok (((Value.object []).lookup? (keyParts key)).getD default) := by
  have hlaid : (made false).layers.laid = [] := by
    simp [layers, ranked, made, Layers.laid]
  rw [get, get?, (sound_made false).merged, hlaid]
  rfl

/-- What is read from a single source. -/
theorem get_single (name : String) (priority : Int) {entries : Entries}
    (h : (Value.object entries).Proper) (key : String) (default : Value) :
    ((made false).addSource { name, data := .object entries, priority }).get key default =
      .ok (((Value.object entries).lookup? (keyParts key)).getD default) := by
  have hsound : ((made false).addSource { name, data := .object entries, priority }).Sound :=
    (sound_made false).addSource ⟨entries, rfl, h⟩
  have hsources : ((made false).addSource { name, data := .object entries, priority }).sources =
      [] ++ { name, data := .object entries, priority } :: [] := rfl
  have hlaid : ({ sources := [] ++ [] } : Settings).layers.laid = [] := by
    simp [layers, ranked, Layers.laid]
  have hself : Value.object (overlay [] entries) = .object entries :=
    (overlayValue_entries none entries).symm.trans h.overlayValue_none
  rw [hsound.get_of_top hsources (by simp) rfl, hlaid, hself]

/-- A compatible environment is loaded unless a text has no value, and then its
    settings are all that is read. -/
theorem loadEnvironment_eq {env : Environment} (h : env.Compatible) :
    (∃ m, (made false).loadEnvironment env = .error m ∧ Environment.overrides env [] = .error m) ∨
      ∃ s pairs data, (made false).loadEnvironment env = .ok s ∧ Loaded s env pairs data := by
  cases hfound : Environment.overrides env [] with
  | error m => exact Or.inl ⟨m, by rw [loadEnvironment, hfound]; rfl, rfl⟩
  | ok found =>
      right
      rcases Environment.overrides_eq_ok (by simpa [Entries.names] using h.names) hfound with
        ⟨pairs, hpairs, hreads⟩
      rw [List.nil_append] at hpairs
      subst hpairs
      rcases Environment.unflatten_holds .empty (hreads.divergent h) with ⟨data, hdata, hholds⟩
      have hproper := Environment.overrides_proper (fun e he => absurd he List.not_mem_nil) hfound
      rcases Environment.unflatten_proper Value.properObject_nil hproper hdata with
        ⟨entries, rfl, hentries⟩
      cases found with
      | nil =>
          -- Without a variable that counts, no source is added.
          cases hdata
          exact ⟨made false, [], .object [], by rw [loadEnvironment, hfound]; rfl,
            ⟨hreads, hentries, hholds, get_bare⟩⟩
      | cons e rest =>
          refine ⟨_, e :: rest, .object entries, ?_, ⟨hreads, hentries, hholds,
            get_single Environment.sourceName Environment.sourcePriority hentries⟩⟩
          rw [loadEnvironment, hfound]
          simp only [bind, Except.bind, hdata]
          rfl

theorem load_refused_iff {env : Environment} (h : env.Compatible) :
    (∃ m, (made false).loadEnvironment env = .error m) ↔
      ∃ v ∈ env, Environment.Counts v ∧ Environment.coerce v.2 = .error .tooManyDigits := by
  rw [← env.overrides_refused_iff []]
  constructor
  · rintro ⟨m, hm⟩
    rcases loadEnvironment_eq h with ⟨m', _, hm'⟩ | ⟨s, _, _, hs, _⟩
    · exact ⟨m', hm'⟩
    · rw [hs] at hm
      cases hm
  · rintro ⟨m, hm⟩
    exact ⟨m, by rw [loadEnvironment, hm]; rfl⟩

/-- A compatible environment is refused only if a variable that counts holds an
    integer with too many digits in a list or an object. Otherwise every
    variable is read at its own place, nothing is read that leads nowhere near
    one, and another order of the variables makes no difference.

    Two things are idealised. Nesting is limited by no call stack, and an escape
    for half of a surrogate pair is read as U+FFFD (`Json.charOf`). -/
theorem load_compatible {env : Environment} (h : env.Compatible) :
    ((∃ m, (made false).loadEnvironment env = .error m) ↔
      ∃ v ∈ env, Environment.Counts v ∧ Environment.LooksNested v.2 ∧
        Json.read v.2.toList = .error .tooManyDigits) ∧
    (∀ s : Settings,
      s.loadEnvironment (env.filter Environment.Counts) = s.loadEnvironment env) ∧
    ∀ s, (made false).loadEnvironment env = .ok s →
      (∀ v ∈ env, ∀ key, Environment.parts? v.1 = some (keyParts key) →
        ∃ w, Environment.coerce v.2 = .ok w ∧ ∀ default, s.get key default = .ok w) ∧
      (∀ key, (∀ v ∈ env, ∀ place, Environment.parts? v.1 = some place →
        Divergent (keyParts key) place) → ∀ default, s.get key default = .ok default) ∧
      ∀ env' : Environment, env'.Perm env → ∃ s', (made false).loadEnvironment env' = .ok s' ∧
        ∀ key default, ∃ w w', s.get key default = .ok w ∧ s'.get key default = .ok w' ∧
          Value.Alike w w' := by
  refine ⟨?_, fun s => s.loadEnvironment_filter env, fun s hs => ?_⟩
  · rw [load_refused_iff h]
    simp only [Environment.coerce_error_iff, true_and]
  rcases loadEnvironment_eq h with ⟨m, hm, _⟩ | ⟨s₁, pairs, data, hs₁, hloaded⟩
  · rw [hs] at hm
    cases hm
  rw [hs, Except.ok.injEq] at hs₁
  subst hs₁
  refine ⟨fun v hv key => hloaded.get_place hv, fun key => hloaded.get_apart, fun env' hperm => ?_⟩
  rcases loadEnvironment_eq (h.perm hperm) with ⟨m, hm, _⟩ | ⟨s', pairs', data', hs', hloaded'⟩
  · -- The texts are the same ones, so one without a value would have been met before.
    rcases (load_refused_iff (h.perm hperm)).mp ⟨m, hm⟩ with ⟨v, hv, hcounts, hcoerce⟩
    rcases (load_refused_iff h).mpr ⟨v, hperm.subset hv, hcounts, hcoerce⟩ with ⟨m', hm'⟩
    rw [hs] at hm'
    cases hm'
  · exact ⟨s', hs', hloaded.get_alike hloaded' hperm⟩

/-- An environment with two settings beside each other. -/
def neighbours : Environment :=
  [("SPLICE_LOG_LEVEL", "debug"), ("HOME", "/"), ("SPLICE_log.Color", "no")]

theorem load_compatible_neighbours :
    neighbours.Compatible ∧ ∃ s s', (made false).loadEnvironment neighbours = .ok s ∧
      s.get "log.level" = .ok (.str "debug") ∧ s.get "log.color" = .ok (.bool false) ∧
      s.get "parser.jsx" (.bool true) = .ok (.bool true) ∧
      (made false).loadEnvironment neighbours.reverse = .ok s' ∧
      ∃ w w', s.get "log" = .ok w ∧ s'.get "log" = .ok w' ∧ w.Alike w' := by
  have hplaces : neighbours.filterMap (fun v => Environment.parts? v.1) =
      [["log", "level"], ["log", "color"]] := by decide
  have hcompatible : neighbours.Compatible := by
    rw [Environment.Compatible, hplaces]
    decide
  have hfound : Environment.overrides neighbours [] =
      .ok [("log.level", .str "debug"), ("log.color", .bool false)] := by rfl
  have hload : ∃ s, (made false).loadEnvironment neighbours = .ok s := by
    rw [loadEnvironment, hfound]
    exact ⟨_, rfl⟩
  rcases hload with ⟨s, hload⟩
  rcases (load_compatible hcompatible).2.2 _ hload with ⟨hvalues, habsent, hperm⟩
  rcases hvalues ("SPLICE_LOG_LEVEL", "debug") (by simp [neighbours]) "log.level" (by decide) with
    ⟨level, hlevel, hget⟩
  rcases hvalues ("SPLICE_log.Color", "no") (by simp [neighbours]) "log.color" (by decide) with
    ⟨color, hcolor, hget'⟩
  have hlevel' : Environment.coerce "debug" = .ok (.str "debug") := by rfl
  have hcolor' : Environment.coerce "no" = .ok (.bool false) := by rfl
  rw [hlevel', Except.ok.injEq] at hlevel
  rw [hcolor', Except.ok.injEq] at hcolor
  have hapart : ∀ v ∈ neighbours, ∀ place, Environment.parts? v.1 = some place →
      Divergent (keyParts "parser.jsx") place := by
    intro v hv place hplace
    have hmem : place ∈ [["log", "level"], ["log", "color"]] := by
      rw [← hplaces]
      exact List.mem_filterMap.mpr ⟨v, hv, hplace⟩
    have hall : ∀ place ∈ [["log", "level"], ["log", "color"]],
        Divergent (keyParts "parser.jsx") place := by decide
    exact hall place hmem
  rcases hperm _ neighbours.reverse_perm with ⟨s', hs', halike⟩
  exact ⟨hcompatible, s, s', hload, hlevel ▸ hget .null, hcolor ▸ hget' .null,
    habsent "parser.jsx" hapart _, hs', halike "log" .null⟩

/-- An environment with a list of one integer that is too long. -/
def overlong : Environment :=
  [("SPLICE_A", String.ofList ('[' :: (List.replicate 4301 '9' ++ [']'])))]

theorem load_overlong :
    overlong.Compatible ∧ (made false).loadEnvironment overlong = .error .tooManyDigits := by
  have hcoerce : Environment.coerce (String.ofList ('[' :: (List.replicate 4301 '9' ++ [']']))) =
      .error .tooManyDigits := by
    refine Environment.coerce_long (fun c hc => ?_) ?_ ?_
    · rw [List.eq_of_mem_replicate hc]
      rfl
    · rw [List.head?_replicate]
      decide
    · rw [List.length_replicate]
      decide
  have hname : Environment.settingName? "SPLICE_A" = some "a" := by decide
  refine ⟨?_, ?_⟩
  · rw [Environment.Compatible, overlong, List.filterMap_cons, List.filterMap_nil,
      Environment.parts?_eq, hname]
    exact List.pairwise_singleton _ _
  · rw [loadEnvironment, overlong, Environment.overrides, hname]
    simp only [hcoerce]
    rfl

end Settings

end Inlay
