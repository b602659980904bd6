import Inlay.Proofs.Shelving

/-!
# Values Set at Run Time

What setting a value comes to, seen from outside. A value that is set goes
into a source of its own, and what is read are all sources laid over each
other. As long as nobody adds a source that is as high, or one of the same
name, that source is the last to be laid over the others. So a value that is
set is the one that is read, unless it is an object and is laid over what is
below it, and what is read elsewhere stays as it was.

Setting is refused exactly if the name leads through a value in that source
that is no object. What other sources have under these names does not matter:
a scalar below gives way to an object above it.

All this is about values, and it is about a shelf as well, where objects are
changed in place, as long as nothing that was handed over is led to twice. An
object under two names changes under both.

## Main definitions

* `Settings.runtime`: The object of what has been set.
* `RuntimeOnTop`: The source of it is above all others and the only one of its
  name.
* `Request.BelowRuntime`: Requests that leave it there.

## Theorems

* `Settings.ranked_of_top`: A source above all others is ranked last.
* `Settings.Sound.get_of_top`: What is read then.
* `RuntimeOnTop.afterAll`: It stays on top.
* `Settings.set_exact`: When setting is refused, and what it changes.
* `Settings.set_inexact`: What it changes besides, if an object is under two
  names.
-/

namespace Inlay

namespace Settings

/-! ### The source on top -/

/-- The first of ranked sources has the lowest priority. -/
theorem le_of_ascending {a b : Source} {ranked : List Source}
    (h : (a :: ranked).Pairwise fun a b => a.priority ≤ b.priority) (hb : b ∈ a :: ranked) :
    a.priority ≤ b.priority := by
  rcases List.mem_cons.mp hb with rfl | hb
  · exact Int.le_refl _
  · exact (List.pairwise_cons.mp h).1 b hb

/-- Sources that agree for every priority are the same ones in some order. -/
theorem mem_of_filter_eq {ranked ranked' : List Source}
    (hsame : ∀ p : Int, ranked.filter (·.priority = p) = ranked'.filter (·.priority = p))
    {a : Source} (ha : a ∈ ranked) : a ∈ ranked' := by
  have hfilter : a ∈ ranked'.filter (·.priority = a.priority) := by
    rw [← hsame]
    exact List.mem_filter.mpr ⟨ha, by simp⟩
  exact (List.mem_filter.mp hfilter).1

/-- Sources that are ranked and agree for every priority are the same. -/
theorem eq_of_ascending {ranked ranked' : List Source}
    (h : ranked.Pairwise fun a b => a.priority ≤ b.priority)
    (h' : ranked'.Pairwise fun a b => a.priority ≤ b.priority)
    (hsame : ∀ p : Int, ranked.filter (·.priority = p) = ranked'.filter (·.priority = p)) :
    ranked = ranked' := by
  induction ranked generalizing ranked' with
  | nil =>
      cases ranked' with
      | nil => rfl
      | cons b rest' => cases mem_of_filter_eq (fun p => (hsame p).symm) List.mem_cons_self
  | cons a rest ih =>
      cases ranked' with
      | nil => cases mem_of_filter_eq hsame List.mem_cons_self
      | cons b rest' =>
          -- Either of the first two is somewhere among the others.
          have hle : b.priority ≤ a.priority :=
            le_of_ascending h' (mem_of_filter_eq hsame List.mem_cons_self)
          have hle' : a.priority ≤ b.priority :=
            le_of_ascending h (mem_of_filter_eq (fun p => (hsame p).symm) List.mem_cons_self)
          have heq : a.priority = b.priority := Int.le_antisymm hle' hle
          have hfirst := hsame a.priority
          rw [List.filter_cons_of_pos (by simp), List.filter_cons_of_pos (by simp [heq])] at hfirst
          obtain ⟨rfl, _⟩ := List.cons.inj hfirst
          congr 1
          refine ih (List.pairwise_cons.mp h).2 (List.pairwise_cons.mp h').2 fun p => ?_
          have hp := hsame p
          by_cases hpa : a.priority = p
          · rw [List.filter_cons_of_pos (by simpa using hpa),
              List.filter_cons_of_pos (by simpa using hpa)] at hp
            exact (List.cons.inj hp).2
          · rwa [List.filter_cons_of_neg (by simpa using hpa),
              List.filter_cons_of_neg (by simpa using hpa)] at hp

variable {s : Settings} {before after : List Source} {source : Source}

/-- A source above all others is ranked last. -/
theorem ranked_of_top (hsources : s.sources = before ++ source :: after)
    (hbelow : ∀ x ∈ before ++ after, x.priority < source.priority) :
    s.ranked = ({ sources := before ++ after } : Settings).ranked ++ [source] := by
  generalize hlower : ({ sources := before ++ after } : Settings) = lower
  have hsub : lower.sources = before ++ after := hlower ▸ rfl
  refine eq_of_ascending s.ranking_ranked.ascending ?_ fun p => ?_
  · refine List.pairwise_append.mpr ⟨lower.ranking_ranked.ascending, by simp, ?_⟩
    intro x hx y hy
    have hmem := lower.ranked_perm.subset hx
    rw [hsub] at hmem
    rw [List.mem_singleton.mp hy]
    exact Int.le_of_lt (hbelow x hmem)
  · rw [s.ranking_ranked.stable p, List.filter_append, lower.ranking_ranked.stable p, hsub, hsources,
      List.filter_append, List.filter_append]
    by_cases hp : source.priority = p
    · -- No other source has the priority of the top one.
      have hafter : after.filter (·.priority = p) = [] := by
        refine List.filter_eq_nil_iff.mpr fun x hx => ?_
        have hlt := hbelow x (List.mem_append_right _ hx)
        simp only [decide_eq_true_eq]
        omega
      rw [List.filter_cons_of_pos (by simpa using hp), hafter, List.append_nil,
        List.filter_cons_of_pos (by simpa using hp), List.filter_nil]
    · rw [List.filter_cons_of_neg (by simpa using hp), List.filter_cons_of_neg (by simpa using hp),
        List.filter_nil, List.append_nil]

/-- What is read is the source on top laid over the others. -/
theorem Sound.get_of_top (h : s.Sound) (hsources : s.sources = before ++ source :: after)
    (hbelow : ∀ x ∈ before ++ after, x.priority < source.priority) {entries : Entries}
    (hdata : source.data = .object entries) (key : String) (default : Value) :
    s.get key default = .ok (((Value.object (overlay
      ({ sources := before ++ after } : Settings).layers.laid entries)).lookup?
        (keyParts key)).getD default) := by
  have hlaid : s.layers.laid =
      overlay ({ sources := before ++ after } : Settings).layers.laid entries := by
    rw [layers, ranked_of_top hsources hbelow, List.filterMap_append, Layers.laid, List.foldl_append]
    simp only [List.filterMap_cons, hdata, Value.entries?, List.filterMap_nil, List.foldl_cons,
      List.foldl_nil]
    rfl
  rw [get, get?, h.merged, hlaid]
  rfl

end Settings

/-- The source of what is set at run time is above all others, and no other has
    its name. -/
structure RuntimeOnTop (sources : List Source) : Prop where
  top : ∀ x ∈ sources, x.name = Settings.runtimeName → x.priority = Settings.runtimePriority
  below : ∀ x ∈ sources, x.name ≠ Settings.runtimeName → x.priority < Settings.runtimePriority
  single : sources.Pairwise fun x y =>
    x.name = Settings.runtimeName → y.name ≠ Settings.runtimeName

namespace RuntimeOnTop

variable {sources before after : List Source} {source : Source}

theorem others (h : RuntimeOnTop (before ++ source :: after))
    (hname : source.name = Settings.runtimeName) :
    ∀ x ∈ before ++ after, x.name ≠ Settings.runtimeName := by
  have hsingle := List.pairwise_append.mp h.single
  intro x hx
  rcases List.mem_append.mp hx with hx | hx
  · exact fun hxname => hsingle.2.2 x hx source List.mem_cons_self hxname hname
  · exact (List.pairwise_cons.mp hsingle.2.1).1 x hx hname

theorem others_below (h : RuntimeOnTop (before ++ source :: after))
    (hname : source.name = Settings.runtimeName) :
    ∀ x ∈ before ++ after, x.priority < source.priority := by
  intro x hx
  have hmem : x ∈ before ++ source :: after :=
    List.mem_append.mpr ((List.mem_append.mp hx).imp_right (List.mem_cons_of_mem source))
  rw [h.top source (by simp) hname]
  exact h.below x hmem (h.others hname x hx)

theorem concat (h : RuntimeOnTop sources) (hname : source.name ≠ Settings.runtimeName)
    (hbelow : source.priority < Settings.runtimePriority) : RuntimeOnTop (sources ++ [source]) := by
  refine ⟨fun x hx => ?_, fun x hx => ?_, List.pairwise_append.mpr ⟨h.single, by simp, ?_⟩⟩
  · rcases List.mem_append.mp hx with hx | hx
    · exact h.top x hx
    · rw [List.mem_singleton.mp hx]
      exact fun heq => absurd heq hname
  · rcases List.mem_append.mp hx with hx | hx
    · exact h.below x hx
    · rw [List.mem_singleton.mp hx]
      exact fun _ => hbelow
  · intro x _ y hy _
    rw [List.mem_singleton.mp hy]
    exact hname

/-- The source may be made where there is none. -/
theorem withRuntime {s : Settings} (h : RuntimeOnTop s.sources) : RuntimeOnTop s.withRuntime := by
  unfold Settings.withRuntime
  by_cases hany : s.sources.any (·.name == Settings.runtimeName) = true
  · rwa [if_pos hany]
  · rw [if_neg hany]
    have hnone : ∀ x ∈ s.sources, x.name ≠ Settings.runtimeName := by simpa using hany
    refine ⟨fun x hx hname => ?_, fun x hx hname => ?_,
      List.pairwise_append.mpr ⟨h.single, by simp, fun x hx _ _ hname => absurd hname (hnone x hx)⟩⟩
    · rcases List.mem_append.mp hx with hx | hx
      · exact absurd hname (hnone x hx)
      · rw [List.mem_singleton.mp hx]
    · rcases List.mem_append.mp hx with hx | hx
      · exact h.below x hx hname
      · rw [List.mem_singleton.mp hx] at hname
        exact absurd rfl hname

/-- Only names and priorities count. -/
theorem replace {data : Value} (h : RuntimeOnTop (before ++ source :: after)) :
    RuntimeOnTop (before ++ { source with data } :: after) := by
  rcases h with ⟨htop, hbelow, hsingle⟩
  refine ⟨?_, ?_, ?_⟩
  · simpa [or_imp, forall_and] using htop
  · simpa [or_imp, forall_and] using hbelow
  · simpa [List.pairwise_append, or_imp, forall_and] using hsingle

end RuntimeOnTop

/-- Requests that add no source of the name for what is set at run time, and
    none that is as high. -/
def Request.BelowRuntime : Request → Prop
  | addSource source =>
    source.name ≠ Settings.runtimeName ∧ source.priority < Settings.runtimePriority
  | loadEnvironment _ | set _ _ | read => True

namespace RuntimeOnTop

theorem after {s : Settings} (h : RuntimeOnTop s.sources) {r : Request} (hr : r.BelowRuntime) :
    RuntimeOnTop (s.after r).sources := by
  unfold Settings.after
  cases hserve : s.serve r with
  | error m => exact h
  | ok s' =>
      cases r with
      | addSource source =>
          cases hserve
          exact h.concat hr.1 hr.2
      | loadEnvironment env =>
          rcases Settings.loadEnvironment_eq_ok hserve with ⟨_, rfl⟩ | ⟨_, data, _, _, rfl⟩
          · exact h
          · refine h.concat ?_ ?_
            · show Environment.sourceName ≠ Settings.runtimeName
              decide
            · show Environment.sourcePriority < Settings.runtimePriority
              decide
      | set key new =>
          rcases Settings.set_eq_ok hserve with ⟨before, source, after, data, hsources, _, _, _, rfl⟩
          have htop := h.withRuntime
          rw [hsources] at htop
          exact htop.replace
      | read =>
          rw [← Settings.sources_keep hserve] at h
          exact h

theorem afterAll {s : Settings} (h : RuntimeOnTop s.sources) {requests : List Request}
    (hrequests : ∀ r ∈ requests, r.BelowRuntime) :
    RuntimeOnTop (requests.foldl Settings.after s).sources := by
  induction requests generalizing s with
  | nil => exact h
  | cons r rest ih =>
      rw [List.foldl_cons]
      exact ih (h.after (hrequests r List.mem_cons_self))
        fun q hq => hrequests q (List.mem_cons_of_mem _ hq)

end RuntimeOnTop

namespace Settings

theorem runtimeOnTop_made (withDefaults : Bool) : RuntimeOnTop (made withDefaults).sources := by
  have hbare : RuntimeOnTop [] :=
    ⟨fun _ hx => absurd hx List.not_mem_nil, fun _ hx => absurd hx List.not_mem_nil, .nil⟩
  cases withDefaults with
  | false => exact hbare
  | true => exact hbare.concat (by decide) (by decide)

/-- The object of what has been set at run time. -/
def runtime (s : Settings) : Value :=
  match s.sources.find? (·.name == runtimeName) with
  | some source => source.data
  | none => .object []

variable {s s' : Settings} {before after : List Source} {source : Source}

theorem runtime_eq (hsources : s.withRuntime = before ++ source :: after)
    (hname : source.name = runtimeName) (hbefore : ∀ x ∈ before, x.name ≠ runtimeName) :
    s.runtime = source.data := by
  have hfind : s.withRuntime.find? (·.name == runtimeName) = some source := by
    rw [hsources, List.find?_append, List.find?_eq_none.mpr (by simpa using hbefore)]
    simp [hname]
  unfold withRuntime at hfind
  unfold runtime
  by_cases hany : s.sources.any (·.name == runtimeName) = true
  · rw [if_pos hany] at hfind
    rw [hfind]
  · rw [if_neg hany] at hfind
    have hnone : s.sources.find? (·.name == runtimeName) = none := by simpa using hany
    rw [List.find?_append, hnone] at hfind
    rw [hnone]
    simp at hfind
    rw [← hfind]

/-- An empty source on top changes nothing of what is read. -/
theorem Sound.get_withRuntime (h : s.Sound) (htop : RuntimeOnTop s.sources) (key : String)
    (default : Value) :
    s.get key default = ({ sources := s.withRuntime } : Settings).get key default := by
  have hsound : ({ sources := s.withRuntime } : Settings).Sound := ⟨h.withRuntime, nofun⟩
  have htop' := htop.withRuntime
  unfold Settings.withRuntime at hsound htop' ⊢
  by_cases hany : s.sources.any (·.name == runtimeName) = true
  · rw [if_pos hany] at hsound ⊢
    rw [get, get?, h.merged, get, get?, hsound.merged]
    rfl
  · rw [if_neg hany] at hsound htop' ⊢
    rw [hsound.get_of_top rfl (htop'.others_below rfl) rfl, get, get?, h.merged, overlay,
      List.append_nil]
    rfl

/-! ### What setting comes to -/

/-- Setting is refused exactly if the name leads through something set before
    that is no object. -/
theorem set_refused_iff (s : Settings) (key : String) (new : Value) :
    (∃ m, s.set key new = .error m) ↔ s.runtime.Blocked (keyParts key) := by
  rcases s.set_eq key new with ⟨before, source, after, hsources, hname, hbefore, hset⟩
  rw [runtime_eq hsources hname hbefore, ← Value.writeKey_refused_iff, hset]
  cases source.data.writeKey key new <;> simp [Except.map]

theorem set_error {key : String} {new : Value} {m : Misfit} (h : s.set key new = .error m) :
    m = .noEntries ∨ m = .noObject := by
  rcases s.set_eq key new with ⟨before, source, after, _, _, _, hset⟩
  rw [hset] at h
  cases hdata : source.data.writeKey key new with
  | ok data =>
      rw [hdata] at h
      cases h
  | error m' =>
      rw [hdata] at h
      cases h
      exact Value.writeKey_error hdata

/-- What is read before and after setting: what has been set, then and now,
    laid over one and the same object. -/
theorem Sound.get_set (h : s.Sound) (htop : RuntimeOnTop s.sources) {key : String} {new : Value}
    (hnew : new.Proper) (hset : s.set key new = .ok s') :
    ∃ base entries entries' : Entries,
      (Value.object entries).Proper ∧ (Value.object entries').Proper ∧
      (Value.object entries).writeKey key new = .ok (.object entries') ∧
      (∀ key' default, s.get key' default =
        .ok (((Value.object (overlay base entries)).lookup? (keyParts key')).getD default)) ∧
      ∀ key' default, s'.get key' default =
        .ok (((Value.object (overlay base entries')).lookup? (keyParts key')).getD default) := by
  have hsound' := h.set hnew hset
  rcases set_eq_ok hset with ⟨before, source, after, data, hsources, hname, _, hdata, rfl⟩
  have hobjects := h.withRuntime
  have htop' := htop.withRuntime
  rw [hsources] at hobjects htop'
  have hsource := hobjects source (by simp)
  rcases hsource.writeKey hnew hdata with ⟨entries', hentries', hproper'⟩
  rcases hsource with ⟨entries, hentries, hproper⟩
  refine ⟨({ sources := before ++ after } : Settings).layers.laid, entries, entries', ?_, ?_, ?_,
    fun key' default => ?_, fun key' default => ?_⟩
  · exact hentries ▸ hproper
  · exact hentries' ▸ hproper'
  · rw [← hentries, ← hentries', hdata]
  · -- Before, the source may not have been there, which is as if it were empty.
    have hbefore : ({ sources := s.withRuntime } : Settings).Sound := ⟨h.withRuntime, nofun⟩
    rw [h.get_withRuntime htop]
    exact hbefore.get_of_top hsources (htop'.others_below hname) hentries key' default
  · exact hsound'.get_of_top rfl (htop'.others_below hname) hentries' key' default

/-- After any requests that stay below it, setting a value is refused exactly
    if the name leads through something set before that is no object, and
    nothing of it is left then. Otherwise a value that is no object is read
    under its name, and what is read elsewhere has not changed. A shelf on which
    nothing is shared does the same in place. -/
theorem set_exact (withDefaults : Bool) {requests : List Request}
    (hrequests : ∀ r ∈ requests, r.Proper ∧ r.BelowRuntime) {s : Settings}
    (hs : requests.foldl Settings.after (made withDefaults) = s) (key : String) {new : Value}
    (hnew : new.Proper) :
    ((∃ m, s.set key new = .error m) ↔ s.runtime.Blocked (keyParts key)) ∧
    (∀ m, s.set key new = .error m →
      (m = .noEntries ∨ m = .noObject) ∧ s.setInPlace key new = (s, some m)) ∧
    (∀ s', s.set key new = .ok s' → s.setInPlace key new = (s', none) ∧
      (new.entries? = none → ∀ default, s'.get key default = .ok new) ∧
      ∀ key', Divergent (keyParts key') (keyParts key) →
        ∀ default, s'.get key' default = s.get key' default) ∧
    ∀ (shelf : Shelf) (slot : Slot), shelf.Unshared s slot new →
      (shelf.set key slot).2 = (s.setInPlace key new).2 ∧
      ∃ places, places.Nodup ∧
        (shelf.set key slot).1.Keeps (s.setInPlace key new).1.sources places := by
  have hsound : s.Sound := hs ▸ (sound_made withDefaults).afterAll fun r hr => (hrequests r hr).1
  have htop : RuntimeOnTop s.sources :=
    hs ▸ (runtimeOnTop_made withDefaults).afterAll fun r hr => (hrequests r hr).2
  refine ⟨s.set_refused_iff key new, fun m hm => ⟨set_error hm, ?_⟩, fun s' hs' => ⟨?_, ?_⟩,
    fun shelf slot hshelf => hshelf.set key⟩
  · rw [setInPlace_eq, hm]
    rfl
  · rw [setInPlace_eq, hs']
    rfl
  rcases hsound.get_set htop hnew hs' with
    ⟨base, entries, entries', hproper, hproper', hwrite, hget, hget'⟩
  rcases List.exists_cons_of_ne_nil (keyParts_ne_nil key) with ⟨name, path, hkey⟩
  refine ⟨fun hplain default => ?_, fun key' hkey' default => ?_⟩
  · have hnew' : (Value.object entries').lookup? (keyParts key) = some new := by
      rw [← (keyParts key).append_nil, Value.lookup?_writeKey hwrite, Value.lookup?_nil]
    rw [hget', lookup?_overlay_of_plain hproper' (keyParts_ne_nil key) hnew' hplain]
    rfl
  · rw [Value.writeKey_eq hkey] at hwrite
    rw [hget, hget', lookup?_overlay_divergent hproper hproper' hwrite (hkey ▸ hkey')]

/-- Requests by which a text comes to stand where the defaults have an object. -/
def hushing : List Request :=
  [.read, .set "log" (.str "quiet"),
    .addSource
      { name := "late", data := .object [("log", .object [("format", .str "json")])],
        priority := 999 }]

/-- What they come to on a shelf. -/
def hushed : Shelf where
  heap :=
    [[("parser", .object 1), ("log", .object 2)], [("jsx", .scalar (.bool false))],
     [("level", .scalar (.str "WARNING")), ("format", .scalar (.str "text"))],
     [("log", .scalar (.str "quiet"))], [("log", .object 5)], [("format", .scalar (.str "json"))]]
  sources :=
    [{ name := defaultsName, data := .object 0 },
     { name := runtimeName, data := .object 3, priority := runtimePriority },
     { name := "late", data := .object 4, priority := 999 }]

theorem set_exact_hushing :
    (∀ r ∈ hushing, r.Proper ∧ r.BelowRuntime) ∧
      ∃ s s', hushing.foldl Settings.after (made true) = s ∧
        s.set "log.level" (.str "INFO") = .error .noEntries ∧
        s.setInPlace "log.level" (.str "INFO") = (s, some .noEntries) ∧
        s.set "parser.jsx.deep" (.str "on") = .ok s' ∧
        s'.get "parser.jsx.deep" = .ok (.str "on") ∧ s'.get "log" = s.get "log" ∧
        hushed.Unshared s (.scalar (.str "on")) (.str "on") ∧
        ∃ places, places.Nodup ∧
          (hushed.set "parser.jsx.deep" (.scalar (.str "on"))).1.Keeps s'.sources places := by
  have hrequests : ∀ r ∈ hushing, r.Proper ∧ r.BelowRuntime := by
    simp [hushing, Request.Proper, Request.BelowRuntime, Value.ProperObject,
      Value.proper_object_iff, Entries.names, runtimeName, runtimePriority]
  let written (data : Value) : Settings :=
    { sources :=
        [{ name := defaultsName, data := defaultData },
         { name := runtimeName, data, priority := runtimePriority },
         { name := "late", data := .object [("log", .object [("format", .str "json")])],
           priority := 999 }] }
  let s := written (.object [("log", .str "quiet")])
  let s' := written (.object [("log", .str "quiet"),
    ("parser", .object [("jsx", .object [("deep", .str "on")])])])
  have hs : hushing.foldl Settings.after (made true) = s := by
    have hmade : made true = defaults := rfl
    rw [hushing, List.foldl_cons, hmade, Settings.after, Settings.serve, keep_defaults]
    rfl
  have hrefused : s.set "log.level" (.str "INFO") = .error .noEntries := rfl
  have hset : s.set "parser.jsx.deep" (.str "on") = .ok s' := rfl
  have hdefaults : hushed.heap.Holds (.object 0) defaultData _ :=
    .object rfl rfl (.cons (.object rfl rfl (.cons (.scalar rfl) .nil))
      (.cons (.object rfl rfl (.cons (.scalar rfl) (.cons (.scalar rfl) .nil))) .nil))
  have hquiet : hushed.heap.Holds (.object 3) (.object [("log", .str "quiet")]) _ :=
    .object rfl rfl (.cons (.scalar rfl) .nil)
  have hlate : hushed.heap.Holds (.object 4)
      (.object [("log", .object [("format", .str "json")])]) _ :=
    .object rfl rfl (.cons (.object rfl rfl (.cons (.scalar rfl) .nil)) .nil)
  have hshelf : hushed.Unshared s (.scalar (.str "on")) (.str "on") :=
    ⟨_, [], ⟨rfl, .cons hdefaults (.cons hquiet (.cons hlate .nil))⟩, .scalar rfl, by decide⟩
  have h := set_exact true hrequests hs "log.level" (Value.proper_str "INFO")
  have h' := set_exact true hrequests hs "parser.jsx.deep" (Value.proper_str "on")
  rcases h'.2.2.1 s' hset with ⟨hplace, hget, hother⟩
  rcases h'.2.2.2 hushed _ hshelf with ⟨_, places, hnodup, hkept⟩
  rw [hplace] at hkept
  exact ⟨hrequests, s, s', hs, hrefused, (h.2.1 _ hrefused).2, hset, hget rfl .null,
    hother "log" ⟨by decide, by decide⟩ .null, hshelf, places, hnodup, hkept⟩

/-- A shelf on which one empty object has been set under two names. -/
def twiceShelf : Shelf :=
  ((({ heap := [[]] } : Shelf).set "a" (.object 0)).1.set "b" (.object 0)).1

/-- The settings with equal objects under these names. -/
def twice (inner : Entries) : Settings :=
  { sources := [{ name := runtimeName, data := .object [("a", .object inner), ("b", .object inner)],
                  priority := runtimePriority }] }

/-- With a source that is no object, what has been set cannot be read. And an
    object that was set under two names changes under both. -/
theorem set_inexact :
    (∃ s, ((made false).addSource { name := "bad", data := .list [.int 1] }).set "a" (.int 1) =
        .ok s ∧ s.get "a" = .error .noObject) ∧
    twiceShelf.Keeps (twice []).sources [1, 0, 0] ∧
    (twiceShelf.set "a.x" (.scalar (.int 1))).2 = none ∧
    (twiceShelf.set "a.x" (.scalar (.int 1))).1.Keeps (twice [("x", .int 1)]).sources [1, 0, 0] ∧
    Divergent (keyParts "b.x") (keyParts "a.x") ∧
    (twice []).get "b.x" = .ok .null ∧ (twice [("x", .int 1)]).get "b.x" = .ok (.int 1) := by
  have hbefore : twiceShelf.Keeps (twice []).sources _ :=
    ⟨rfl, .cons (.object rfl rfl (.cons (.object rfl rfl .nil)
      (.cons (.object rfl rfl .nil) .nil))) .nil⟩
  have hafter : (twiceShelf.set "a.x" (.scalar (.int 1))).1.Keeps
      (twice [("x", .int 1)]).sources _ :=
    ⟨rfl, .cons (.object rfl rfl (.cons (.object rfl rfl (.cons (.scalar rfl) .nil))
      (.cons (.object rfl rfl (.cons (.scalar rfl) .nil)) .nil))) .nil⟩
  have hget (inner : Entries) : (twice inner).get "b.x" =
      .ok (((Value.object (overlay [] [("a", .object inner), ("b", .object inner)])).lookup?
        (keyParts "b.x")).getD .null) := by
    rw [get, get?, merged, ranked_of_ascending (List.pairwise_singleton _ _)]
    rfl
  refine ⟨⟨_, rfl, ?_⟩, hbefore, rfl, hafter, by decide, hget [], hget [("x", .int 1)]⟩
  rw [get, get?, merged, ranked_of_ascending (by decide)]
  rfl

end Settings

end Inlay
