import Inlay.Proofs.ProperValues
import Mathlib.Data.List.DropRight

/-!
# Layers of Settings

What a name means in settings that come from several sources, said without
laying anything over anything. The sources are put in the order of their
priorities, and the values that they give to a name make a stack. Only the
last value counts, unless it is an object: then the objects right below it
count too, down to the first value that is none, and each of their entries is
looked up among them in the same way.

So a value that is no object hides whatever is below it, and an object above
such a value starts afresh. The sources laid over each other come to exactly
this, for every depth and every mixture of objects and other values.

Settings keep what their sources come to, and an answer may be taken from what
was kept. That it is never out of date is an invariant of everything that can
be asked of settings, requests that are refused included, so that whatever was
asked before, an answer is the one that the sources give now.

## Main definitions

* `Layers`: Objects, from the lowest to the highest.
* `Resolution`: What a name comes to.
* `Resolution.ofValues`: What the values of a name come to.
* `Layers.resolve`: What a path of names comes to.
* `Resolution.Yields`: The value that a name has, if it has one.
* `Ranking`: Sources in the order of their priorities.
* `Settings.Sound`: What every request preserves.
* `Request`: What can be asked of settings.

## Theorems

* `get?_overlay`: An entry of an object laid over another.
* `overlaid_eq`: Values laid over each other come to what the rule says.
* `Layers.Proper.yields`: Layers laid over each other have the entries that
  the rule gives them.
* `Layers.Proper.lookup?_laid`: The same along a path.
* `Settings.ranking_ranked`: The sources are ranked, and sorting them is stable.
* `Settings.set_eq_ok`, `Settings.loadEnvironment_eq_ok`: What a request that
  is served does to the sources.
* `Settings.Sound.after`: A request keeps settings sound.
* `Settings.answers_resolve`: After any requests, every answer is the one that
  the rule gives for the sources as they are.
-/

namespace Inlay

/-! ### The rule -/

/-- The entries of an object. -/
def Value.entries? : Value → Option Entries
  | object entries => some entries
  | null | bool _ | int _ | float _ | str _ | list _ | location _ => none

theorem Value.eq_object {v : Value} {entries : Entries} (h : v.entries? = some entries) :
    v = .object entries := by
  cases v with
  | object es => exact congrArg Value.object (Option.some.inj h)
  | _ => simp [Value.entries?] at h

/-- Objects, from the lowest to the highest. -/
abbrev Layers := List Entries

/-- The values that some layers give to a name. -/
def Layers.values (layers : Layers) (name : String) : List Value :=
  layers.filterMap fun entries => entries.get? name

/-- What a name comes to. -/
inductive Resolution where
  /-- It has no value. -/
  | absent
  /-- It has a value that is no object. -/
  | plain (v : Value)
  /-- It has the entries of some layers. -/
  | layered (layers : Layers)

/-- The longest tail of some values that is made of objects only. -/
def objectTail (values : List Value) : Layers :=
  (values.rtakeWhile fun v => v.entries?.isSome).filterMap Value.entries?

/-- What the values of a name come to. The last one decides, and if it is an
    object, the objects right below it belong to it. -/
def Resolution.ofValues (values : List Value) : Resolution :=
  match values.getLast? with
  | none => absent
  | some v => if v.entries?.isSome then layered (objectTail values) else plain v

/-- What a path of names comes to. It leads on only through layers. -/
def Layers.resolve (layers : Layers) : List String → Resolution
  | [] => .layered layers
  | name :: path =>
    match Resolution.ofValues (layers.values name) with
    | .layered tail => resolve tail path
    | .plain v => if path.isEmpty then .plain v else .absent
    | .absent => .absent

/-- The value that a name has, if it has one. Layers have an object for a
    value, with every entry that the rule gives them and no other. -/
inductive Resolution.Yields : Resolution → Option Value → Prop
  | absent : Yields absent none
  | plain (v : Value) : Yields (plain v) (some v)
  | layered {layers : Layers} {entries : Entries} (distinct : entries.names.Nodup)
      (inner : ∀ name, Yields (ofValues (layers.values name)) (entries.get? name)) :
      Yields (layered layers) (some (.object entries))

/-! ### Laying layers over each other -/

/-- Some layers laid over each other. -/
def Layers.laid (layers : Layers) : Entries :=
  layers.foldl overlay []

/-- The values of a name laid over each other. -/
def overlaid (values : List Value) : Option Value :=
  values.foldl (fun old v => some (overlayValue old v)) none

/-- What a resolution comes to by laying its layers over each other. -/
def Resolution.laid : Resolution → Option Value
  | absent => none
  | plain v => some v
  | layered layers => some (.object layers.laid)

theorem overlayValue_plain {v : Value} (h : v.entries? = none) (old : Option Value) :
    overlayValue old v = v := by
  cases v with
  | object entries => simp [Value.entries?] at h
  | _ => rfl

/-- An entry of an object laid over another. -/
theorem get?_overlay (base : Entries) {entries : Entries} (h : entries.names.Nodup)
    (name : String) :
    (overlay base entries).get? name =
      (entries.get? name).elim (base.get? name) fun v => some (overlayValue (base.get? name) v) := by
  induction entries generalizing base with
  | nil => simp [overlay]
  | cons e rest ih =>
      rcases e with ⟨n, v⟩
      simp only [Entries.names, List.map_cons, List.nodup_cons] at h
      rw [overlay, ih _ h.2, Entries.get?_insert, Entries.get?_cons]
      by_cases hn : n = name
      · -- The name does not come again, so what was written stays.
        subst hn
        rw [Entries.get?_eq_none h.1]
        simp
      · simp [hn]

theorem nodup_names_overlay {base : Entries} (h : base.names.Nodup) (entries : Entries) :
    (overlay base entries).names.Nodup := by
  induction entries generalizing base with
  | nil => simpa [overlay] using h
  | cons e rest ih =>
      rcases e with ⟨n, v⟩
      rw [overlay]
      exact ih (Entries.nodup_names_insert h _ _)

namespace Layers

/-- Layers in which no object names an entry twice. -/
def Proper (layers : Layers) : Prop :=
  ∀ entries ∈ layers, (Value.object entries).Proper

theorem nodup_names_laid (layers : Layers) : layers.laid.names.Nodup := by
  suffices ∀ base : Entries, base.names.Nodup → (layers.foldl overlay base).names.Nodup from
    this [] List.nodup_nil
  induction layers with
  | nil =>
      intro base hbase
      exact hbase
  | cons entries rest ih =>
      intro base hbase
      exact ih _ (nodup_names_overlay hbase entries)

/-- Every name is laid over on its own. -/
theorem Proper.get?_laid {layers : Layers} (h : layers.Proper) (name : String) :
    layers.laid.get? name = overlaid (layers.values name) := by
  suffices ∀ base : Entries, (layers.foldl overlay base).get? name =
      (layers.values name).foldl (fun old v => some (overlayValue old v)) (base.get? name) from
    this []
  induction layers with
  | nil =>
      intro base
      rfl
  | cons entries rest ih =>
      intro base
      have hentries := h entries List.mem_cons_self
      rw [List.foldl_cons, ih (fun es hes => h es (List.mem_cons_of_mem _ hes)),
        get?_overlay base hentries.distinct]
      cases hget : entries.get? name with
      | none => simp [values, hget]
      | some v => simp [values, hget]

end Layers

/-- An object laid over values goes onto the objects at their end. -/
theorem overlayValue_object (values : List Value) (entries : Entries) :
    overlayValue (Resolution.ofValues values).laid (.object entries) =
      .object (overlay (objectTail values).laid entries) := by
  induction values using List.reverseRecOn with
  | nil => rfl
  | append_singleton values v _ =>
      cases hv : v.entries? with
      | none =>
          -- There is no object at the end, so the new one starts afresh.
          have htail : objectTail (values ++ [v]) = [] := by simp [objectTail, hv]
          rw [htail]
          cases v with
          | object es => simp [Value.entries?] at hv
          | _ => simp [Resolution.ofValues, Value.entries?, Resolution.laid, overlayValue, Layers.laid]
      | some es => simp [Resolution.ofValues, hv, Resolution.laid, overlayValue]

/-- Values laid over each other come to what the rule says. -/
theorem overlaid_eq (values : List Value) : overlaid values = (Resolution.ofValues values).laid := by
  induction values using List.reverseRecOn with
  | nil => rfl
  | append_singleton values v ih =>
      have hstep : overlaid (values ++ [v]) = some (overlayValue (overlaid values) v) := by
        simp [overlaid, List.foldl_append]
      cases hv : v.entries? with
      | none => simp [hstep, Resolution.ofValues, hv, overlayValue_plain hv, Resolution.laid]
      | some es =>
          have hobject : v = .object es := Value.eq_object hv
          subst hobject
          have htail : objectTail (values ++ [.object es]) = objectTail values ++ [es] := by
            simp [objectTail, Value.entries?]
          rw [hstep, ih, overlayValue_object]
          simp [Resolution.ofValues, Value.entries?, Resolution.laid, htail, Layers.laid,
            List.foldl_append]

namespace Layers

/-! ### The layers of a name -/

theorem mem_objectTail {values : List Value} {entries : Entries} (h : entries ∈ objectTail values) :
    Value.object entries ∈ values := by
  rcases List.mem_filterMap.mp h with ⟨v, hv, hentries⟩
  rw [← Value.eq_object hentries]
  exact (List.rtakeWhile_suffix _ values).subset hv

theorem ofValues_layered {values : List Value} {tail : Layers}
    (h : Resolution.ofValues values = .layered tail) : tail = objectTail values := by
  unfold Resolution.ofValues at h
  split at h
  · simp at h
  · split at h
    · simpa using h.symm
    · simp at h

theorem ofValues_plain {values : List Value} {v : Value}
    (h : Resolution.ofValues values = .plain v) : v.entries? = none := by
  unfold Resolution.ofValues at h
  split at h
  · simp at h
  · split at h
    · simp at h
    · rename_i hlast hnone
      simp only [Resolution.plain.injEq] at h
      subst h
      simpa using hnone

/-- A layer of a name stands under that name in a layer. -/
theorem mem_layer {layers tail : Layers} {name : String}
    (h : Resolution.ofValues (layers.values name) = .layered tail) {entries : Entries}
    (hentries : entries ∈ tail) :
    ∃ outer ∈ layers, (name, Value.object entries) ∈ outer := by
  rw [ofValues_layered h] at hentries
  rcases List.mem_filterMap.mp (mem_objectTail hentries) with ⟨outer, houter, hget⟩
  exact ⟨outer, houter, Entries.mem_of_get? hget⟩

theorem Proper.inner {layers tail : Layers} (hproper : layers.Proper) {name : String}
    (h : Resolution.ofValues (layers.values name) = .layered tail) : tail.Proper := by
  intro entries hentries
  rcases mem_layer h hentries with ⟨outer, houter, hmem⟩
  exact (hproper outer houter).entry hmem

/-- If it holds for the layers of every name that layers laid over each other
    have the entries of the rule, it holds for the layers themselves. -/
theorem Proper.yields_of_inner {layers : Layers} (hproper : layers.Proper)
    (hinner : ∀ name tail, Resolution.ofValues (layers.values name) = .layered tail →
      (Resolution.layered tail).Yields (some (.object tail.laid))) :
    (Resolution.layered layers).Yields (some (.object layers.laid)) := by
  refine .layered layers.nodup_names_laid fun name => ?_
  rw [hproper.get?_laid, overlaid_eq]
  cases hres : Resolution.ofValues (layers.values name) with
  | absent => exact .absent
  | plain v => exact .plain v
  | layered tail => exact hinner name tail hres

/-- Layers laid over each other have the entries that the rule gives them. -/
theorem Proper.yields {layers : Layers} (h : layers.Proper) :
    (Resolution.layered layers).Yields (some (.object layers.laid)) := by
  -- The induction is on a bound for the size of every layer, since the layers
  -- of a name are parts of the layers that it stands in.
  suffices ∀ (n : Nat) (layers : Layers), layers.Proper → (∀ entries ∈ layers, sizeOf entries < n) →
      (Resolution.layered layers).Yields (some (.object layers.laid)) from
    this (sizeOf layers) layers h fun _ hentries => List.sizeOf_lt_of_mem hentries
  intro n
  induction n with
  | zero =>
      intro layers hproper hsize
      have hnil : layers = [] :=
        List.eq_nil_iff_forall_not_mem.mpr fun entries hentries =>
          absurd (hsize entries hentries) (Nat.not_lt_zero _)
      subst hnil
      exact hproper.yields_of_inner fun name tail hres => by simp [values, Resolution.ofValues] at hres
  | succ n ih =>
      intro layers hproper hsize
      refine hproper.yields_of_inner fun name tail hres => ?_
      refine ih tail (hproper.inner hres) fun entries hentries => ?_
      rcases mem_layer hres hentries with ⟨outer, houter, hmem⟩
      have hpart := List.sizeOf_lt_of_mem hmem
      have hbound := hsize outer houter
      simp only [Prod.mk.sizeOf_spec, Value.object.sizeOf_spec] at hpart
      omega

/-- What a path comes to is laid over what it comes to by the rule. -/
theorem Proper.lookup?_laid {layers : Layers} (h : layers.Proper) (path : List String) :
    (Value.object layers.laid).lookup? path = (layers.resolve path).laid := by
  induction path generalizing layers with
  | nil => simp [Value.lookup?, resolve, Resolution.laid]
  | cons name path ih =>
      rw [Value.lookup?, h.get?_laid, overlaid_eq, resolve]
      cases hres : Resolution.ofValues (layers.values name) with
      | absent => rfl
      | plain v =>
          have hv : v.entries? = none := ofValues_plain hres
          cases path with
          | nil => simp [Resolution.laid, Value.lookup?]
          | cons next path =>
              cases v with
              | object es => simp [Value.entries?] at hv
              | _ => rfl
      | layered tail => exact ih (h.inner hres)

theorem Proper.yields_resolve {layers : Layers} (h : layers.Proper) (path : List String) :
    (layers.resolve path).Yields (layers.resolve path).laid := by
  induction path generalizing layers with
  | nil => exact h.yields
  | cons name path ih =>
      rw [resolve]
      cases hres : Resolution.ofValues (layers.values name) with
      | absent => exact .absent
      | plain v =>
          cases path with
          | nil => exact .plain v
          | cons next path => exact .absent
      | layered tail => exact ih (h.inner hres)

end Layers

/-! ### Ranked sources -/

/-- Sources from the lowest priority to the highest, where those of equal
    priority are in the order in which they were added. -/
structure Ranking (sources ranked : List Source) : Prop where
  ascending : ranked.Pairwise fun a b => a.priority ≤ b.priority
  stable : ∀ p : Int, ranked.filter (·.priority = p) = sources.filter (·.priority = p)

namespace Settings

theorem ranked_perm (s : Settings) : s.ranked.Perm s.sources :=
  List.mergeSort_perm _ _

/-- Sorting keeps sorted parts as they are, and sources of equal priority are
    such a part. -/
theorem ranking_ranked (s : Settings) : Ranking s.sources s.ranked := by
  have htrans : ∀ a b c : Source, decide (a.priority ≤ b.priority) = true →
      decide (b.priority ≤ c.priority) = true → decide (a.priority ≤ c.priority) = true := by
    intro a b c hab hbc
    simp only [decide_eq_true_eq] at hab hbc ⊢
    omega
  have htotal : ∀ a b : Source,
      (decide (a.priority ≤ b.priority) || decide (b.priority ≤ a.priority)) = true := by
    intro a b
    simp only [Bool.or_eq_true, decide_eq_true_eq]
    omega
  constructor
  · exact (List.pairwise_mergeSort htrans htotal s.sources).imp of_decide_eq_true
  · intro p
    let level : Source → Bool := fun source => decide (source.priority = p)
    have hlevel : (s.sources.filter level).Pairwise
        fun a b => decide (a.priority ≤ b.priority) = true := by
      refine List.pairwise_of_forall_mem_list fun a ha b hb => ?_
      simp only [level, List.mem_filter, decide_eq_true_eq] at ha hb ⊢
      omega
    have hsub : (s.sources.filter level).Sublist (s.ranked.filter level) := by
      have hkept := List.sublist_mergeSort htrans htotal hlevel List.filter_sublist
      simpa [Settings.ranked] using hkept.filter level
    exact (hsub.eq_of_length (s.ranked_perm.filter level).length_eq.symm).symm

theorem ranked_of_ascending {s : Settings}
    (h : s.sources.Pairwise fun a b => a.priority ≤ b.priority) : s.ranked = s.sources :=
  List.mergeSort_of_pairwise (h.imp decide_eq_true)

/-- The defaults alone come to themselves. -/
theorem keep_defaults :
    defaults.keep = .ok
      { defaults with
        kept := some
          [("parser", .object [("jsx", .bool false)]),
           ("log", .object [("level", .str "WARNING"), ("format", .str "text")])] } := by
  unfold Settings.keep Settings.merged
  rw [ranked_of_ascending (by decide)]
  rfl

/-- The layers of some settings: their sources as ranked. -/
def layers (s : Settings) : Layers :=
  s.ranked.filterMap fun source => source.data.entries?

theorem overlayAll_eq {sources : List Source}
    (h : ∀ source ∈ sources, source.data.ProperObject) (base : Entries) :
    overlayAll base sources =
      .ok ((sources.filterMap fun source => source.data.entries?).foldl overlay base) := by
  induction sources generalizing base with
  | nil => rfl
  | cons source rest ih =>
      rcases h source List.mem_cons_self with ⟨entries, hdata, _⟩
      rw [overlayAll, hdata]
      simp only [List.filterMap_cons, hdata, Value.entries?, List.foldl_cons]
      exact ih (fun x hx => h x (List.mem_cons_of_mem _ hx)) _

/-! ### What requests preserve -/

/-- Settings whose sources are proper objects, and that keep nothing but what
    these come to. -/
structure Sound (s : Settings) : Prop where
  objects : ∀ source ∈ s.sources, source.data.ProperObject
  fresh : ∀ entries, s.kept = some entries → entries = s.layers.laid

theorem Sound.proper_layers {s : Settings} (h : s.Sound) : s.layers.Proper := by
  intro entries hentries
  rcases List.mem_filterMap.mp hentries with ⟨source, hsource, hdata⟩
  rcases h.objects source (s.ranked_perm.subset hsource) with ⟨es, _, hproper⟩
  rwa [Value.eq_object hdata] at hproper

/-- What is kept is what the sources come to now. -/
theorem Sound.merged {s : Settings} (h : s.Sound) : s.merged = .ok s.layers.laid := by
  unfold Settings.merged
  cases hkept : s.kept with
  | none => exact overlayAll_eq (fun source hsource => h.objects source (s.ranked_perm.subset hsource)) []
  | some entries => rw [h.fresh entries hkept]

theorem sound_bare : Settings.Sound {} :=
  ⟨fun source hsource => absurd hsource List.not_mem_nil, fun entries h => by simp at h⟩

theorem Sound.addSource {s : Settings} (h : s.Sound) {source : Source}
    (hsource : source.data.ProperObject) : (s.addSource source).Sound := by
  constructor
  · intro x hx
    rcases List.mem_append.mp hx with hx | hx
    · exact h.objects x hx
    · rw [List.mem_singleton.mp hx]
      exact hsource
  · intro entries hkept
    simp [Settings.addSource] at hkept

theorem Sound.keep {s s' : Settings} (h : s.Sound) (hkeep : s.keep = .ok s') : s'.Sound := by
  rw [Settings.keep, h.merged] at hkeep
  simp only [bind, Except.bind, pure, Except.pure, Except.ok.injEq] at hkeep
  subst hkeep
  refine ⟨h.objects, fun entries hkept => ?_⟩
  simp only [Option.some.injEq] at hkept
  exact hkept.symm

/-- The sources with one for what is set at run time, which is empty if there
    was none. -/
def withRuntime (s : Settings) : List Source :=
  if s.sources.any (·.name == runtimeName) then s.sources
  else s.sources ++ [{ name := runtimeName, priority := runtimePriority }]

theorem writeRuntime_none (key : String) (new : Value) {sources : List Source}
    (h : ∀ x ∈ sources, x.name ≠ runtimeName) : writeRuntime key new sources = none := by
  induction sources with
  | nil => rfl
  | cons source rest ih =>
      have hname := h source List.mem_cons_self
      rw [writeRuntime, if_neg (by simp [hname]), ih fun x hx => h x (List.mem_cons_of_mem _ hx)]
      rfl

/-- A value is written into the first source of that name. -/
theorem writeRuntime_append (key : String) (new : Value) {before after : List Source}
    {source : Source} (hname : source.name = runtimeName)
    (hbefore : ∀ x ∈ before, x.name ≠ runtimeName) :
    writeRuntime key new (before ++ source :: after) =
      some ((source.data.writeKey key new).map fun data =>
        before ++ { source with data } :: after) := by
  induction before with
  | nil => rw [List.nil_append, writeRuntime, if_pos (by simp [hname])]; rfl
  | cons x rest ih =>
      have hx := hbefore x List.mem_cons_self
      rw [List.cons_append, writeRuntime, if_neg (by simp [hx]),
        ih fun y hy => hbefore y (List.mem_cons_of_mem _ hy)]
      cases source.data.writeKey key new <;> rfl

/-- Setting a value where values have been set before. -/
theorem set_of_runtime (key : String) (new : Value) {s : Settings} {before after : List Source}
    {source : Source} (hsources : s.sources = before ++ source :: after)
    (hname : source.name = runtimeName) (hbefore : ∀ x ∈ before, x.name ≠ runtimeName) :
    s.set key new = (source.data.writeKey key new).map fun data =>
      { sources := before ++ { source with data } :: after, kept := none } := by
  rw [Settings.set, hsources, writeRuntime_append key new hname hbefore]
  simp only
  cases source.data.writeKey key new <;> rfl

/-- Setting a value writes it into the first source for what is set at run
    time, and lets go of what was kept. -/
theorem set_eq (s : Settings) (key : String) (new : Value) :
    ∃ before source after, s.withRuntime = before ++ source :: after ∧
      source.name = runtimeName ∧ (∀ x ∈ before, x.name ≠ runtimeName) ∧
      s.set key new = (source.data.writeKey key new).map fun data =>
        { sources := before ++ { source with data } :: after, kept := none } := by
  unfold withRuntime
  cases hfind : s.sources.find? (·.name == runtimeName) with
  | none =>
      have hall : ∀ x ∈ s.sources, x.name ≠ runtimeName := by simpa using hfind
      have hany : s.sources.any (·.name == runtimeName) = false := by simpa using hall
      refine ⟨s.sources, _, [], by rw [hany]; rfl, rfl, hall, ?_⟩
      rw [Settings.set, writeRuntime_none key new hall]
      simp only
      cases (Value.object []).writeKey key new <;> rfl
  | some source =>
      rcases List.find?_eq_some_iff_append.mp hfind with ⟨hname, before, after, hsources, hbefore⟩
      have hname' : source.name = runtimeName := by simpa using hname
      have hbefore' : ∀ x ∈ before, x.name ≠ runtimeName := by simpa using hbefore
      have hany : s.sources.any (·.name == runtimeName) = true := by simp [hsources, hname']
      exact ⟨before, source, after, by rw [hany]; exact hsources, hname', hbefore',
        set_of_runtime key new hsources hname' hbefore'⟩

theorem set_eq_ok {s s' : Settings} {key : String} {new : Value} (h : s.set key new = .ok s') :
    ∃ before source after data, s.withRuntime = before ++ source :: after ∧
      source.name = runtimeName ∧ (∀ x ∈ before, x.name ≠ runtimeName) ∧
      source.data.writeKey key new = .ok data ∧
      s' = { sources := before ++ { source with data } :: after, kept := none } := by
  rcases s.set_eq key new with ⟨before, source, after, hsources, hname, hbefore, heq⟩
  rw [heq] at h
  cases hdata : source.data.writeKey key new with
  | error m =>
      rw [hdata] at h
      simp [Except.map] at h
  | ok data =>
      rw [hdata] at h
      simp only [Except.map, Except.ok.injEq] at h
      exact ⟨before, source, after, data, hsources, hname, hbefore, hdata, h.symm⟩

/-- An environment adds one source, or none if no variable counts. -/
theorem loadEnvironment_eq_ok {s s' : Settings} {env : Environment}
    (h : s.loadEnvironment env = .ok s') :
    Environment.overrides env [] = .ok [] ∧ s' = s ∨
      ∃ found data, Environment.overrides env [] = .ok found ∧
        Environment.unflatten (.object []) found = .ok data ∧
        s' = s.addSource
          { name := Environment.sourceName, data, priority := Environment.sourcePriority } := by
  rw [Settings.loadEnvironment, except_bind_eq_ok_iff] at h
  rcases h with ⟨found, hfound, h⟩
  split at h
  · simp only [pure, Except.pure, Except.ok.injEq] at h
    exact Or.inl ⟨hfound, h.symm⟩
  · rw [except_bind_eq_ok_iff] at h
    rcases h with ⟨data, hdata, h⟩
    simp only [pure, Except.pure, Except.ok.injEq] at h
    exact Or.inr ⟨found, data, hfound, hdata, h.symm⟩

theorem Sound.withRuntime {s : Settings} (h : s.Sound) :
    ∀ source ∈ s.withRuntime, source.data.ProperObject := by
  intro source hsource
  unfold Settings.withRuntime at hsource
  split at hsource
  · exact h.objects source hsource
  · rcases List.mem_append.mp hsource with hsource | hsource
    · exact h.objects source hsource
    · rw [List.mem_singleton.mp hsource]
      exact Value.properObject_nil

theorem Sound.set {s s' : Settings} (h : s.Sound) {key : String} {new : Value}
    (hnew : new.Proper) (hset : s.set key new = .ok s') : s'.Sound := by
  rcases set_eq_ok hset with ⟨before, source, after, data, hsources, _, _, hdata, rfl⟩
  have hobjects := h.withRuntime
  rw [hsources] at hobjects
  refine ⟨fun x hx => ?_, fun entries hkept => by simp at hkept⟩
  rcases List.mem_append.mp hx with hx | hx
  · exact hobjects x (List.mem_append_left _ hx)
  · rcases List.mem_cons.mp hx with rfl | hx
    · exact (hobjects source (by simp)).writeKey hnew hdata
    · exact hobjects x (by simp [hx])

theorem Sound.loadEnvironment {s s' : Settings} (h : s.Sound) {env : Environment}
    (hload : s.loadEnvironment env = .ok s') : s'.Sound := by
  rcases loadEnvironment_eq_ok hload with ⟨_, rfl⟩ | ⟨found, data, hfound, hdata, rfl⟩
  · exact h
  · have hproper := Environment.overrides_proper (fun e he => absurd he List.not_mem_nil) hfound
    exact h.addSource (Environment.unflatten_proper Value.properObject_nil hproper hdata)

end Settings

/-! ### Requests -/

/-- What can be asked of settings. A reading may be for a value, for whether
    there is one, or for all of them. -/
inductive Request where
  | addSource (source : Source)
  | loadEnvironment (env : Environment)
  | set (key : String) (new : Value)
  | read

/-- Requests that hand over proper values, and objects for sources. -/
def Request.Proper : Request → Prop
  | addSource source => source.data.ProperObject
  | set _ new => new.Proper
  | loadEnvironment _ | read => True

namespace Settings

/-- Settings that have just been made, with the defaults or without. -/
def made (withDefaults : Bool) : Settings :=
  if withDefaults then defaults else {}

/-- The settings that a request leaves, unless it is refused. -/
def serve (s : Settings) : Request → Except Misfit Settings
  | .addSource source => .ok (s.addSource source)
  | .loadEnvironment env => s.loadEnvironment env
  | .set key new => s.set key new
  | .read => s.keep

/-- The settings after a request. One that is refused leaves them as they
    were. -/
def after (s : Settings) (r : Request) : Settings :=
  match s.serve r with
  | .ok s' => s'
  | .error _ => s

theorem properObject_defaultData : defaultData.ProperObject :=
  ⟨_, rfl, by simp [defaultData, Value.proper_object_iff, Entries.names]⟩

theorem sound_made (withDefaults : Bool) : (made withDefaults).Sound := by
  cases withDefaults with
  | false => exact sound_bare
  | true => exact sound_bare.addSource properObject_defaultData

/-- A request keeps settings sound, whether it is served or refused. -/
theorem Sound.after {s : Settings} (h : s.Sound) {r : Request} (hr : r.Proper) :
    (s.after r).Sound := by
  unfold Settings.after
  cases hserve : s.serve r with
  | error m => exact h
  | ok s' =>
      cases r with
      | addSource source =>
          simp only [Settings.serve, Except.ok.injEq] at hserve
          exact hserve ▸ h.addSource hr
      | loadEnvironment env => exact h.loadEnvironment hserve
      | set key new => exact h.set hr hserve
      | read => exact h.keep hserve

theorem Sound.afterAll {s : Settings} (h : s.Sound) {requests : List Request}
    (hrequests : ∀ r ∈ requests, r.Proper) : (requests.foldl Settings.after s).Sound := by
  induction requests generalizing s with
  | nil => exact h
  | cons r rest ih =>
      rw [List.foldl_cons]
      exact ih (h.after (hrequests r List.mem_cons_self))
        fun q hq => hrequests q (List.mem_cons_of_mem _ hq)

/-- After any requests, every answer is the one that the rule gives for the
    sources as they are. -/
theorem answers_resolve (withDefaults : Bool) {requests : List Request}
    (hrequests : ∀ r ∈ requests, r.Proper) {s : Settings}
    (hs : requests.foldl Settings.after (made withDefaults) = s) :
    Ranking s.sources s.ranked ∧
      (∀ key, ∃ found, (s.layers.resolve (keyParts key)).Yields found ∧
        ∀ default, s.get key default = .ok (found.getD default)) ∧
      ∃ entries, s.merged = .ok entries ∧
        (Resolution.layered s.layers).Yields (some (.object entries)) := by
  have hsound : s.Sound := hs ▸ (sound_made withDefaults).afterAll hrequests
  have hproper := hsound.proper_layers
  refine ⟨s.ranking_ranked, fun key => ?_, s.layers.laid, hsound.merged, hproper.yields⟩
  refine ⟨_, hproper.yields_resolve (keyParts key), fun default => ?_⟩
  rw [Settings.get, Settings.get?, hsound.merged, ← hproper.lookup?_laid]
  rfl

/-- Requests by which a text comes to hide the defaults, a setting beneath it is
    refused, and an object above it starts afresh. -/
def shadowing : List Request :=
  [.read, .set "log" (.str "quiet"), .set "log.level" (.str "INFO"),
    .addSource
      { name := "late", data := .object [("log", .object [("format", .str "json")])],
        priority := 2000 }]

theorem answers_resolve_shadowing :
    (∀ r ∈ shadowing, r.Proper) ∧ ∃ s, shadowing.foldl Settings.after (made true) = s ∧
      s.get "log.level" (.str "none") = .ok (.str "none") ∧
      (∃ found, (s.layers.resolve (keyParts "log.level")).Yields found ∧
        s.get "log.level" (.str "none") = .ok (found.getD (.str "none"))) ∧
      ∃ entries, s.merged = .ok entries ∧
        (Resolution.layered s.layers).Yields (some (.object entries)) := by
  have hproper : ∀ r ∈ shadowing, r.Proper := by
    simp [shadowing, Request.Proper, Value.ProperObject, Value.proper_object_iff, Entries.names]
  let s : Settings :=
    { sources :=
        [{ name := defaultsName, data := defaultData },
         { name := runtimeName, data := .object [("log", .str "quiet")], priority := runtimePriority },
         { name := "late", data := .object [("log", .object [("format", .str "json")])],
           priority := 2000 }] }
  have hs : shadowing.foldl Settings.after (made true) = s := by
    have hmade : made true = defaults := rfl
    rw [shadowing, List.foldl_cons, hmade, Settings.after, Settings.serve, keep_defaults]
    rfl
  have hget : s.get "log.level" (.str "none") = .ok (.str "none") := by
    unfold Settings.get Settings.get? Settings.merged
    rw [ranked_of_ascending (by decide)]
    rfl
  have h := answers_resolve true hproper hs
  rcases h.2.1 "log.level" with ⟨found, hfound, hfound'⟩
  exact ⟨hproper, s, hs, hget, ⟨found, hfound, hfound' _⟩, h.2.2⟩

end Settings

end Inlay
