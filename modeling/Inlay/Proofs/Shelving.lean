import Inlay.Proofs.InPlace
import Inlay.Settings.Shelf

/-!
# Setting on a Shelf

An object that was handed over may be in more than one place: under two names,
in two sources, or still in the hands of whoever gave it. On a shelf, whose
objects are in a heap, setting changes an object for all who lead to it. It is
the same as setting in values if nothing is led to twice.

This is proved along a path of names first and along the sources then. Either
way the statement has to say more than what is held: every other place of the
heap stays as it is, and what is held afterwards leads to nothing twice again.
So the rest of an object may be kept while something under one of its names is
written into (`Heap.HoldsFields.refill`), and one may go on setting
(`Shelf.Keeps.setAll`).

## Main definitions

* `Heap.Holds`: A heap holds a value in a slot.
* `Heap.Written`: What writing leaves alone in a heap.
* `Shelf.Keeps`: A shelf keeps sources of settings.
* `Shelf.Unshared`: Nothing in them is led to twice.

## Theorems

* `Heap.Holds.frame`: Only the places of a value matter for it.
* `Heap.Holds.unique`, `Shelf.Keeps.unique`: A slot holds one value only, and a
  shelf keeps one list of sources.
* `Heap.Holds.write`: Writing in a heap is writing into the value that it holds.
* `Shelf.Keeps.set`, `Shelf.Keeps.setAll`: What is set on a shelf is set in the
  settings that it keeps.
-/

namespace Inlay

/-! ### What a heap holds -/

namespace Heap

mutual

/-- A heap holds a value in a slot. The places of all objects in it are listed,
    a place as often as it is led to. -/
inductive Holds (heap : Heap) : Slot → Value → List Nat → Prop where
  | scalar {v : Value} (h : v.isScalar = true) : Holds heap (.scalar v) v []
  | list {items : List Slot} {values : List Value} {places : List Nat}
      (all : HoldsAll heap items values places) : Holds heap (.list items) (.list values) places
  | object {place : Nat} {fields : Fields} {entries : Entries} {places : List Nat}
      (here : heap[place]? = some fields) (names : fields.map (·.1) = entries.map (·.1))
      (all : HoldsAll heap (fields.map (·.2)) (entries.map (·.2)) places) :
      Holds heap (.object place) (.object entries) (place :: places)

/-- A heap holds values in slots, one after the other. -/
inductive HoldsAll (heap : Heap) : List Slot → List Value → List Nat → Prop where
  | nil : HoldsAll heap [] [] []
  | cons {slot : Slot} {slots : List Slot} {v : Value} {values : List Value} {p q : List Nat}
      (head : Holds heap slot v p) (tail : HoldsAll heap slots values q) :
      HoldsAll heap (slot :: slots) (v :: values) (p ++ q)

end

mutual

/-- What is held is in the heap. -/
theorem Holds.lt_length {heap : Heap} :
    ∀ {slot : Slot} {v : Value} {places : List Nat},
      heap.Holds slot v places → ∀ n ∈ places, n < heap.length
  | _, _, _, .scalar _, _, hn => absurd hn List.not_mem_nil
  | _, _, _, .list all, n, hn => all.lt_length n hn
  | _, _, _, .object here _ all, n, hn => by
      rcases List.mem_cons.mp hn with rfl | hn
      · exact (List.getElem?_eq_some_iff.mp here).1
      · exact all.lt_length n hn

theorem HoldsAll.lt_length {heap : Heap} :
    ∀ {slots : List Slot} {values : List Value} {places : List Nat},
      heap.HoldsAll slots values places → ∀ n ∈ places, n < heap.length
  | _, _, _, .nil, _, hn => absurd hn List.not_mem_nil
  | _, _, _, .cons head tail, n, hn =>
      (List.mem_append.mp hn).elim (head.lt_length n) (tail.lt_length n)

end

mutual

/-- Only the places of a value matter for it. -/
theorem Holds.frame {heap heap' : Heap} :
    ∀ {slot : Slot} {v : Value} {places : List Nat}, heap.Holds slot v places →
      (∀ n ∈ places, heap'[n]? = heap[n]?) → heap'.Holds slot v places
  | _, _, _, .scalar h, _ => .scalar h
  | _, _, _, .list all, hsame => .list (all.frame hsame)
  | _, _, _, .object here names all, hsame =>
      .object ((hsame _ List.mem_cons_self).trans here) names
        (all.frame fun n hn => hsame n (List.mem_cons_of_mem _ hn))

@[inherit_doc Holds.frame]
theorem HoldsAll.frame {heap heap' : Heap} :
    ∀ {slots : List Slot} {values : List Value} {places : List Nat},
      heap.HoldsAll slots values places → (∀ n ∈ places, heap'[n]? = heap[n]?) →
      heap'.HoldsAll slots values places
  | _, _, _, .nil, _ => .nil
  | _, _, _, .cons head tail, hsame =>
      .cons (head.frame fun n hn => hsame n (List.mem_append_left _ hn))
        (tail.frame fun n hn => hsame n (List.mem_append_right _ hn))

end

mutual

/-- A slot holds one value only. -/
theorem Holds.unique {heap : Heap} :
    ∀ {slot : Slot} {v w : Value} {p q : List Nat},
      heap.Holds slot v p → heap.Holds slot w q → v = w ∧ p = q
  | _, _, _, _, _, .scalar _, .scalar _ => ⟨rfl, rfl⟩
  | _, _, _, _, _, .list all, .list all' => by
      rcases all.unique all' with ⟨rfl, rfl⟩
      exact ⟨rfl, rfl⟩
  | _, _, _, _, _, .object here names all, .object here' names' all' => by
      rw [here, Option.some.injEq] at here'
      subst here'
      rcases all.unique all' with ⟨hvalues, rfl⟩
      have hentries := List.zip_of_prod (names.symm.trans names') hvalues
      rw [hentries, ← List.zip_of_prod rfl rfl]
      exact ⟨rfl, rfl⟩

@[inherit_doc Holds.unique]
theorem HoldsAll.unique {heap : Heap} :
    ∀ {slots : List Slot} {values values' : List Value} {p q : List Nat},
      heap.HoldsAll slots values p → heap.HoldsAll slots values' q → values = values' ∧ p = q
  | _, _, _, _, _, .nil, .nil => ⟨rfl, rfl⟩
  | _, _, _, _, _, .cons head tail, .cons head' tail' => by
      rcases head.unique head' with ⟨rfl, rfl⟩
      rcases tail.unique tail' with ⟨rfl, rfl⟩
      exact ⟨rfl, rfl⟩

end

variable {heap heap' : Heap} {slot : Slot} {v : Value} {fields : Fields} {entries : Entries}
  {place : Nat} {places given : List Nat}

/-- A heap holds the entries of an object in some fields. -/
def HoldsFields (heap : Heap) (fields : Fields) (entries : Entries) (places : List Nat) : Prop :=
  fields.map (·.1) = entries.map (·.1) ∧
    heap.HoldsAll (fields.map (·.2)) (entries.map (·.2)) places

theorem holdsFields_nil (heap : Heap) : heap.HoldsFields [] [] [] :=
  ⟨rfl, .nil⟩

theorem HoldsFields.cons {p q : List Nat} (name : String) (head : heap.Holds slot v p)
    (tail : heap.HoldsFields fields entries q) :
    heap.HoldsFields ((name, slot) :: fields) ((name, v) :: entries) (p ++ q) :=
  ⟨congrArg (name :: ·) tail.1, .cons head tail.2⟩

theorem holdsFields_nil_iff :
    heap.HoldsFields [] entries places ↔ entries = [] ∧ places = [] := by
  constructor
  · rintro ⟨hnames, hall⟩
    cases entries with
    | nil => cases hall; exact ⟨rfl, rfl⟩
    | cons e rest => cases hnames
  · rintro ⟨rfl, rfl⟩
    exact holdsFields_nil heap

theorem HoldsFields.uncons {name : String}
    (h : heap.HoldsFields ((name, slot) :: fields) entries places) :
    ∃ v rest p q, entries = (name, v) :: rest ∧ places = p ++ q ∧
      heap.Holds slot v p ∧ heap.HoldsFields fields rest q := by
  rcases h with ⟨hnames, hall⟩
  cases entries with
  | nil => cases hnames
  | cons e rest =>
      rcases e with ⟨n, v⟩
      rcases List.cons.inj hnames with ⟨rfl, hnames'⟩
      cases hall with
      | cons head tail => exact ⟨v, rest, _, _, rfl, rfl, head, hnames', tail⟩

theorem HoldsFields.frame (h : heap.HoldsFields fields entries places)
    (hsame : ∀ n ∈ places, heap'[n]? = heap[n]?) : heap'.HoldsFields fields entries places :=
  ⟨h.1, h.2.frame hsame⟩

theorem HoldsFields.holds (h : heap.HoldsFields fields entries places)
    (here : heap[place]? = some fields) :
    heap.Holds (.object place) (.object entries) (place :: places) :=
  .object here h.1 h.2

/-- The places of an object are those of what stands under one of its names, if
    something does, and some others. As long as the others stay as they are,
    something else may be put there. -/
theorem HoldsFields.focus (h : heap.HoldsFields fields entries places) (name : String) :
    ∃ q others, places.Perm (q ++ others) ∧
      (fields.lookup name = none → entries.get? name = none) ∧
      (∀ slot, fields.lookup name = some slot →
        ∃ v, entries.get? name = some v ∧ heap.Holds slot v q) ∧
      ∀ {heap' : Heap} {slot : Slot} {v : Value} {q' : List Nat},
        (∀ n ∈ others, heap'[n]? = heap[n]?) → heap'.Holds slot v q' →
        ∃ places', places'.Perm (q' ++ others) ∧
          heap'.HoldsFields (fields.put name slot) (entries.insert name v) places' := by
  induction fields generalizing entries places with
  | nil =>
      rcases holdsFields_nil_iff.mp h with ⟨rfl, rfl⟩
      refine ⟨[], [], .nil, fun _ => rfl, nofun, fun {heap' slot v q'} _ hv => ?_⟩
      exact ⟨q' ++ [], .refl _, .cons name hv (holdsFields_nil heap')⟩
  | cons f rest ih =>
      rcases f with ⟨n, old⟩
      rcases h.uncons with ⟨v, rest', p, r, rfl, rfl, hold, hrest⟩
      by_cases hn : n = name
      · subst hn
        refine ⟨p, r, .refl _, ?_, fun slot hslot => ⟨v, ?_, ?_⟩, fun hsame hv => ?_⟩
        · simp
        · rw [Entries.get?_cons, if_pos rfl]
        · have hslot' : old = slot := by simpa using hslot
          exact hslot' ▸ hold
        · refine ⟨_, .refl _, ?_⟩
          simpa [Fields.put, Entries.insert] using HoldsFields.cons n hv (hrest.frame hsame)
      · -- The first entry is one of the others then, and stays where it is.
        have hname : (name == n) = false := beq_false_of_ne fun heq => hn heq.symm
        have hlookup : List.lookup name ((n, old) :: rest) = List.lookup name rest := by
          rw [List.lookup_cons, hname]
        rcases ih hrest with ⟨q, others, hperm, hnone, hsome, hput⟩
        refine ⟨q, p ++ others, ?_, fun hslot => ?_, fun slot hslot => ?_, fun hsame hv => ?_⟩
        · exact (hperm.append_left p).trans (List.perm_append_comm_assoc p q others)
        · rw [Entries.get?_cons, if_neg hn]
          exact hnone (hlookup ▸ hslot)
        · rw [Entries.get?_cons, if_neg hn]
          exact hsome slot (hlookup ▸ hslot)
        · rcases hput (fun m hm => hsame m (List.mem_append_right _ hm)) hv with
            ⟨places', hperm', hfields⟩
          have hold' := hold.frame fun m hm => hsame m (List.mem_append_left _ hm)
          refine ⟨p ++ places', ?_, ?_⟩
          · exact (hperm'.append_left p).trans (List.perm_append_comm_assoc p _ others)
          · simpa [Fields.put, Entries.insert, hn] using HoldsFields.cons n hold' hfields

/-! ### Making an object -/

theorem fields_eq (h : heap[place]? = some fields) : heap.fields place = fields := by
  rw [Heap.fields, h, Option.getD_some]

@[simp]
theorem length_make (heap : Heap) (place : Nat) (name : String) :
    (heap.make place name).length = heap.length + 1 := by
  simp [make]

theorem make_spared {n : Nat} {name : String} (hlt : n < heap.length) (hne : n ≠ place) :
    (heap.make place name)[n]? = heap[n]? := by
  rw [make, List.getElem?_append_left (by simpa using hlt), List.getElem?_set_ne hne.symm]

theorem make_here (h : heap[place]? = some fields) (name : String) :
    (heap.make place name)[place]? = some (fields.put name (.object heap.length)) := by
  have hlt := (List.getElem?_eq_some_iff.mp h).1
  rw [make, fields_eq h, List.getElem?_append_left (by simpa using hlt), List.getElem?_set_self hlt]

/-- The object that is made is empty. -/
theorem holds_make (heap : Heap) (place : Nat) (name : String) :
    (heap.make place name).Holds (.object heap.length) (.object []) [heap.length] :=
  (holdsFields_nil _).holds (by simp [make])

theorem Holds.make (h : heap.Holds slot v places) (hplace : place ∉ places) (name : String) :
    (heap.make place name).Holds slot v places :=
  h.frame fun n hn => make_spared (h.lt_length n hn) fun heq => hplace (heq ▸ hn)

/-! ### Writing into a heap -/

/-- What writing does to a heap: it leaves alone the places that were not
    touched, and what is held afterwards is where it was before, where the new
    value is, or in places that are new. -/
structure Written (heap heap' : Heap) (touched given places : List Nat) : Prop where
  longer : heap.length ≤ heap'.length
  spared : ∀ n < heap.length, n ∉ touched → heap'[n]? = heap[n]?
  origin : ∀ n ∈ places, n ∈ touched ∨ n ∈ given ∨ heap.length ≤ n
  nodup : places.Nodup

namespace Written

variable {touched others : List Nat}

theorem refl (heap : Heap) (given : List Nat) (h : places.Nodup) :
    Written heap heap places given places :=
  ⟨Nat.le_refl _, fun _ _ _ => rfl, fun _ hn => .inl hn, h⟩

/-- Places beside those that are touched stay as they are. -/
theorem same_others (h : Written heap heap' touched given places)
    (hdisjoint : touched.Disjoint others) (hlt : ∀ n ∈ others, n < heap.length) :
    ∀ n ∈ others, heap'[n]? = heap[n]? :=
  fun n hn => h.spared n (hlt n hn) fun htouched => hdisjoint htouched hn

/-- Writing into a part of what is held. -/
theorem beside (h : Written heap heap' touched given places) {all after : List Nat}
    (hall : all.Perm (touched ++ others)) (hafter : after.Perm (places ++ others))
    (hnodup : (all ++ given).Nodup) (hlt : ∀ n ∈ all, n < heap.length) :
    Written heap heap' all given after := by
  have hlt' : ∀ n ∈ others, n < heap.length := fun n hn =>
    hlt n (hall.mem_iff.mpr (List.mem_append_right _ hn))
  have hnodup' := (hall.append_right given).nodup_iff.mp hnodup
  rcases List.nodup_append'.mp hnodup' with ⟨hparts, -, hgiven⟩
  rcases List.nodup_append'.mp hparts with ⟨-, hothers, htouched⟩
  refine ⟨h.longer, fun n hn hmem => ?_, fun n hn => ?_, hafter.nodup_iff.mpr ?_⟩
  · exact h.spared n hn fun ht => hmem (hall.mem_iff.mpr (List.mem_append_left _ ht))
  · rcases List.mem_append.mp (hafter.mem_iff.mp hn) with hn | hn
    · exact (h.origin n hn).imp_left fun ht => hall.mem_iff.mpr (List.mem_append_left _ ht)
    · exact .inl (hall.mem_iff.mpr (List.mem_append_right _ hn))
  · -- The others are apart from what was touched and from the new value, and what
    -- is new was not there when they were held.
    refine List.nodup_append'.mpr ⟨h.nodup, hothers, fun n hn hn' => ?_⟩
    rcases h.origin n hn with ht | hg | hnew
    · exact htouched ht hn'
    · exact hgiven (List.mem_append_right _ hn') hg
    · exact absurd (hlt' n hn') (Nat.not_lt.mpr hnew)

/-- Writing into what an object leads to. -/
theorem inside (h : Written heap heap' touched given places)
    (hnodup : (place :: touched ++ given).Nodup)
    (hlt : ∀ n ∈ place :: touched, n < heap.length) :
    Written heap heap' (place :: touched) given (place :: places) :=
  h.beside (List.perm_append_singleton place touched).symm
    (List.perm_append_singleton place places).symm hnodup hlt

/-- Changing the object in one place. -/
theorem set (hnodup : (place :: given).Nodup) (fields : Fields) (q : List Nat) :
    Written heap (heap.set place fields) (place :: q) given (place :: given) := by
  refine ⟨by simp, fun n _ hn => ?_, fun n hn => ?_, hnodup⟩
  · exact List.getElem?_set_ne fun heq : place = n => hn (heq ▸ List.mem_cons_self)
  · rcases List.mem_cons.mp hn with rfl | hn
    · exact .inl List.mem_cons_self
    · exact .inr (.inl hn)

/-- Writing into an object that is new. -/
theorem of_new {made : Heap} (h : Written made heap' [heap.length] given places)
    (hlength : made.length = heap.length + 1)
    (hsame : ∀ n < heap.length, n ∉ touched → made[n]? = heap[n]?) :
    Written heap heap' touched given places := by
  have hlonger := h.longer
  refine ⟨by omega, fun n hn hmem => ?_, fun n hn => ?_, h.nodup⟩
  · rw [h.spared n (by omega) (by simp; omega), hsame n hn hmem]
  · rcases h.origin n hn with hn | hn | hn
    · exact .inr (.inr (List.mem_singleton.mp hn ▸ Nat.le_refl _))
    · exact .inr (.inl hn)
    · exact .inr (.inr (by omega))

/-- Writing into an object that was made under a name of another one. -/
theorem of_make {name : String}
    (h : Written (heap.make place name) heap' [heap.length] given places)
    (hlt : place < heap.length) (hplace : place ∉ given) (q : List Nat) :
    Written heap heap' (place :: q) given (place :: places) := by
  have hnew : Written heap heap' (place :: q) given places :=
    h.of_new (length_make heap place name) fun n hn hmem =>
      make_spared hn fun heq => hmem (heq ▸ List.mem_cons_self)
  refine ⟨hnew.longer, hnew.spared, fun n hn => ?_, List.nodup_cons.mpr ⟨fun hmem => ?_, h.nodup⟩⟩
  · rcases List.mem_cons.mp hn with rfl | hn
    · exact .inl List.mem_cons_self
    · exact hnew.origin n hn
  · rcases h.origin place hmem with hn | hn | hn
    · rw [List.mem_singleton.mp hn] at hlt
      exact Nat.lt_irrefl _ hlt
    · exact hplace hn
    · rw [length_make] at hn
      omega

end Written

/-- Nothing can be written into a slot, or there is an object in its place. -/
theorem Holds.plain_or_object (h : heap.Holds slot v places) :
    (v.entries? = none ∧ ∀ name path new, heap.write slot name path new =
      (heap, some (if path = [] then .noEntries else .noObject))) ∨
    ∃ place fields entries inner, slot = .object place ∧ v = .object entries ∧
      places = place :: inner ∧ heap[place]? = some fields ∧
      heap.HoldsFields fields entries inner := by
  cases h with
  | @scalar v hv =>
      refine .inl ⟨?_, fun name path new => by cases path <;> rfl⟩
      cases v with
      | object entries => cases hv
      | _ => rfl
  | list all => exact .inl ⟨rfl, fun name path new => by cases path <;> rfl⟩
  | object here names all => exact .inr ⟨_, _, _, _, rfl, rfl, rfl, here, names, all⟩

/-- The places of an object, where nothing is led to twice, seen from one of
    its names: whatever is done to what stands there, if the object has the
    result under that name afterwards, it is held with that change only. -/
theorem HoldsFields.refill {inner : List Nat} (h : heap.HoldsFields fields entries inner)
    (here : heap[place]? = some fields) (hnodup : (place :: inner ++ given).Nodup)
    (name : String) :
    ∃ q, (place :: q ++ given).Nodup ∧
      (fields.lookup name = none → entries.get? name = none) ∧
      (∀ slot, fields.lookup name = some slot →
        ∃ v, entries.get? name = some v ∧ heap.Holds slot v q) ∧
      ∀ {heap' : Heap} {slot : Slot} {v : Value} {q' : List Nat},
        heap'[place]? = some (fields.put name slot) → heap'.Holds slot v q' →
        Written heap heap' (place :: q) given (place :: q') →
        ∃ places', heap'.Holds (.object place) (.object (entries.insert name v)) places' ∧
          Written heap heap' (place :: inner) given places' := by
  have hlt := (h.holds here).lt_length
  rcases h.focus name with ⟨q, others, hperm, hnone, hsome, hput⟩
  have hall : (place :: inner).Perm ((place :: q) ++ others) := hperm.cons place
  have hparts := (hall.append_right given).nodup_iff.mp hnodup
  have hdisjoint : (place :: q).Disjoint others :=
    List.disjoint_of_nodup_append hparts.of_append_left
  refine ⟨q, ?_, hnone, hsome, fun hhere hv hwritten => ?_⟩
  · exact hparts.sublist ((List.sublist_append_left _ others).append_right given)
  · have hothers := hwritten.same_others hdisjoint fun n hn =>
      hlt n (hall.mem_iff.mpr (List.mem_append_right _ hn))
    rcases hput hothers hv with ⟨places', hperm', hfields⟩
    exact ⟨place :: places', hfields.holds hhere,
      hwritten.beside hall (hperm'.cons place) hnodup hlt⟩

/-- A slot that is put where it was changes nothing. -/
theorem put_of_lookup {name : String} (h : fields.lookup name = some slot) :
    fields.put name slot = fields := by
  induction fields with
  | nil => cases h
  | cons f rest ih =>
      rcases f with ⟨n, old⟩
      by_cases hn : n = name
      · have hslot : old = slot := by simpa [hn] using h
        simp [Fields.put, hn, hslot]
      · have hname : (name == n) = false := beq_false_of_ne fun heq => hn heq.symm
        rw [List.lookup_cons, hname] at h
        simp [Fields.put, hn, ih h]

/-- Where nothing is led to twice, writing in a heap is writing into the value
    that it holds. -/
theorem Holds.write (h : heap.Holds slot v places) {new : Slot} {w : Value}
    (hnew : heap.Holds new w given) (hnodup : (places ++ given).Nodup) (name : String)
    (path : List String) :
    ∃ places', (heap.write slot name path new).1.Holds slot (v.writeInPlace name path w).1 places' ∧
      (heap.write slot name path new).2 = (v.writeInPlace name path w).2 ∧
      Written heap (heap.write slot name path new).1 places given places' := by
  induction path generalizing heap slot v places given name with
  | nil =>
      rcases h.plain_or_object with
        ⟨hplain, hwrite⟩ | ⟨place, fields, entries, inner, rfl, rfl, rfl, here, hfields⟩
      · rw [hwrite, Value.writeInPlace_eq, Value.write_of_plain hplain]
        exact ⟨places, h, rfl, .refl heap given (List.nodup_append'.mp hnodup).1⟩
      · rcases hfields.refill here hnodup name with ⟨q, hq, -, -, hrefill⟩
        rcases List.nodup_append'.mp hq with ⟨-, hgiven, hdisjoint⟩
        have hplace : place ∉ given := hdisjoint List.mem_cons_self
        have hlt := h.lt_length place List.mem_cons_self
        rw [Heap.write, fields_eq here, Value.writeInPlace]
        have hnew' : Heap.Holds (heap.set place (fields.put name new)) new w given :=
          hnew.frame fun n hn => List.getElem?_set_ne fun heq : place = n => hplace (heq ▸ hn)
        rcases hrefill (List.getElem?_set_self hlt) hnew'
          (.set (List.nodup_cons.mpr ⟨hplace, hgiven⟩) _ q) with ⟨places', hholds, hwritten⟩
        exact ⟨places', hholds, rfl, hwritten⟩
  | cons next path ih =>
      rcases h.plain_or_object with
        ⟨hplain, hwrite⟩ | ⟨place, fields, entries, inner, rfl, rfl, rfl, here, hfields⟩
      · rw [hwrite, Value.writeInPlace_eq, Value.write_of_plain hplain]
        exact ⟨places, h, rfl, .refl heap given (List.nodup_append'.mp hnodup).1⟩
      · rcases hfields.refill here hnodup name with ⟨q, hq, hnone, hsome, hrefill⟩
        have hlt := h.lt_length place List.mem_cons_self
        rw [Heap.write, fields_eq here, Value.writeInPlace]
        cases hlookup : fields.lookup name with
        | some slot =>
            -- The object keeps its fields, and what it leads to is written into.
            rcases hsome slot hlookup with ⟨u, hget, hslot⟩
            rcases ih hslot hnew (List.nodup_cons.mp hq).2 next with ⟨q', hholds, herror, hwritten⟩
            have hwritten' := hwritten.inside hq fun n hn =>
              (List.mem_cons.mp hn).elim (fun heq => heq ▸ hlt) (hslot.lt_length n)
            have hplace : place ∉ q := fun hn =>
              (List.nodup_cons.mp hq).1 (List.mem_append_left _ hn)
            have here' := (hwritten.spared place hlt hplace).trans here
            rw [← put_of_lookup hlookup] at here'
            rcases hrefill here' hholds hwritten' with ⟨places', hobject, hall⟩
            simp only [Value.inside, hget, Option.isSome_some, if_true, Option.getD_some]
            exact ⟨places', hobject, herror, hall⟩
        | none =>
            -- An object is made, and nothing else leads to it.
            have hplace : place ∉ given := fun hn =>
              (List.nodup_append'.mp hq).2.2 List.mem_cons_self hn
            have hgiven : ([heap.length] ++ given).Nodup :=
              List.nodup_cons.mpr ⟨fun hn => Nat.lt_irrefl _ (hnew.lt_length _ hn),
                (List.nodup_append'.mp hq).2.1⟩
            rcases ih (holds_make heap place name) (hnew.make hplace name) hgiven next with
              ⟨q', hholds, herror, hwritten⟩
            have here' := (hwritten.spared place (by simp; omega) (by simp; omega)).trans
              (make_here here name)
            rcases hrefill here' hholds (hwritten.of_make hlt hplace q) with
              ⟨places', hobject, hall⟩
            simp only [Value.inside, hnone hlookup, Option.isSome_none, Bool.false_eq_true,
              if_false, Option.getD_none, Entries.insert_insert]
            exact ⟨places', hobject, herror, hall⟩

theorem Holds.writeKey (h : heap.Holds slot v places) {new : Slot} {w : Value}
    (hnew : heap.Holds new w given) (hnodup : (places ++ given).Nodup) (key : String) :
    ∃ places', (heap.writeKey slot key new).1.Holds slot (v.writeKeyInPlace key w).1 places' ∧
      (heap.writeKey slot key new).2 = (v.writeKeyInPlace key w).2 ∧
      Written heap (heap.writeKey slot key new).1 places given places' := by
  rcases List.exists_cons_of_ne_nil (keyParts_ne_nil key) with ⟨name, path, hkey⟩
  rw [Heap.writeKey, Value.writeKeyInPlace, hkey]
  exact h.write hnew hnodup name path

end Heap

/-! ### Setting on a shelf -/

namespace Shelf

/-- A shelf keeps sources of settings if its heap holds their data. The places
    of all objects in them are listed, a place as often as it is led to. -/
def Keeps (shelf : Shelf) (sources : List Source) (places : List Nat) : Prop :=
  shelf.sources.map (fun x => (x.name, x.priority)) = sources.map (fun x => (x.name, x.priority)) ∧
    shelf.heap.HoldsAll (shelf.sources.map (·.data)) (sources.map (·.data)) places

variable {shelf : Shelf} {heap heap' : Heap} {shelved : List Shelved} {sources : List Source}
  {s : Settings} {slot : Slot} {new : Value} {places given : List Nat}

theorem keeps_nil_iff : Keeps ⟨heap, []⟩ sources places ↔ sources = [] ∧ places = [] := by
  constructor
  · rintro ⟨hnames, hall⟩
    cases sources with
    | nil => cases hall; exact ⟨rfl, rfl⟩
    | cons source rest => cases hnames
  · rintro ⟨rfl, rfl⟩
    exact ⟨rfl, .nil⟩

theorem Keeps.cons {x : Shelved} {source : Source} {p q : List Nat} (hname : x.name = source.name)
    (hpriority : x.priority = source.priority) (head : heap.Holds x.data source.data p)
    (tail : Keeps ⟨heap, shelved⟩ sources q) :
    Keeps ⟨heap, x :: shelved⟩ (source :: sources) (p ++ q) :=
  ⟨by rw [List.map_cons, List.map_cons, hname, hpriority, tail.1], .cons head tail.2⟩

theorem Keeps.uncons {x : Shelved} (h : Keeps ⟨heap, x :: shelved⟩ sources places) :
    ∃ source rest p q, sources = source :: rest ∧ places = p ++ q ∧ x.name = source.name ∧
      x.priority = source.priority ∧ heap.Holds x.data source.data p ∧
      Keeps ⟨heap, shelved⟩ rest q := by
  rcases h with ⟨hnames, hall⟩
  cases sources with
  | nil => cases hnames
  | cons source rest =>
      rcases List.cons.inj hnames with ⟨hhead, hnames'⟩
      rcases Prod.mk.inj hhead with ⟨hname, hpriority⟩
      cases hall with
      | cons head tail =>
          exact ⟨source, rest, _, _, rfl, rfl, hname, hpriority, head, hnames', tail⟩

theorem Keeps.frame (h : Keeps ⟨heap, shelved⟩ sources places)
    (hsame : ∀ n ∈ places, heap'[n]? = heap[n]?) : Keeps ⟨heap', shelved⟩ sources places :=
  ⟨h.1, h.2.frame hsame⟩

/-- A shelf keeps one list of sources only. -/
theorem Keeps.unique {sources' : List Source} {p q : List Nat}
    (h : Keeps ⟨heap, shelved⟩ sources p) (h' : Keeps ⟨heap, shelved⟩ sources' q) :
    sources = sources' := by
  induction shelved generalizing sources sources' p q with
  | nil => rw [(keeps_nil_iff.mp h).1, (keeps_nil_iff.mp h').1]
  | cons x rest ih =>
      rcases h.uncons with ⟨a, as, _, _, rfl, _, hname, hpriority, hhead, htail⟩
      rcases h'.uncons with ⟨b, bs, _, _, rfl, _, hname', hpriority', hhead', htail'⟩
      have hab : a = b := by
        rcases a with ⟨name, data, priority⟩
        rcases b with ⟨name', data', priority'⟩
        rw [Source.mk.injEq]
        exact ⟨hname.symm.trans hname', (hhead.unique hhead').1, hpriority.symm.trans hpriority'⟩
      rw [hab, ih htail htail']

/-- Where nothing is led to twice, what is set on a shelf is set in the
    settings that it keeps. -/
theorem Keeps.writeRuntime (h : Keeps ⟨heap, shelved⟩ sources places)
    (hnew : heap.Holds slot new given) (hnodup : (places ++ given).Nodup) (key : String) :
    ∃ places', (writeRuntime key slot heap shelved).1.Keeps
        (Settings.writeRuntimeInPlace key new sources).1 places' ∧
      (writeRuntime key slot heap shelved).2 = (Settings.writeRuntimeInPlace key new sources).2 ∧
      heap.Written (writeRuntime key slot heap shelved).1.heap places given places' := by
  induction shelved generalizing sources places with
  | nil =>
      -- The source is made first, with an object that nothing else leads to.
      rcases keeps_nil_iff.mp h with ⟨rfl, rfl⟩
      have hmade : Heap.Holds (heap ++ [[]]) (.object heap.length) (.object []) [heap.length] :=
        (Heap.holdsFields_nil _).holds (by simp)
      have hsame : ∀ n < heap.length, (heap ++ [[]])[n]? = heap[n]? := fun n hn =>
        List.getElem?_append_left hn
      have hgiven : ([heap.length] ++ given).Nodup :=
        List.nodup_cons.mpr ⟨fun hn => Nat.lt_irrefl _ (hnew.lt_length _ hn), hnodup⟩
      rcases hmade.writeKey (hnew.frame fun n hn => hsame n (hnew.lt_length n hn)) hgiven key with
        ⟨places', hholds, herror, hwritten⟩
      refine ⟨places' ++ [], .cons rfl rfl hholds (keeps_nil_iff.mpr ⟨rfl, rfl⟩), herror, ?_⟩
      rw [List.append_nil]
      exact hwritten.of_new (by simp) fun n hn _ => hsame n hn
  | cons x rest ih =>
      rcases h.uncons with ⟨source, rest', p, q, rfl, rfl, hname, hpriority, hhead, htail⟩
      have hlt : ∀ n ∈ p ++ q, n < heap.length := h.2.lt_length
      have hdisjoint : p.Disjoint q := List.disjoint_of_nodup_append hnodup.of_append_left
      by_cases hruntime : source.name = Settings.runtimeName
      · rw [writeRuntime, if_pos (by simp [hname, hruntime]), Settings.writeRuntimeInPlace,
          if_pos (by simp [hruntime])]
        have hp := hnodup.sublist ((List.sublist_append_left p q).append_right given)
        rcases hhead.writeKey hnew hp key with ⟨p', hholds, herror, hwritten⟩
        have hq := hwritten.same_others hdisjoint fun n hn => hlt n (List.mem_append_right _ hn)
        exact ⟨p' ++ q, .cons hname hpriority hholds (htail.frame hq), herror,
          hwritten.beside (.refl _) (.refl _) hnodup hlt⟩
      · rw [writeRuntime, if_neg (by simp [hname, hruntime]), Settings.writeRuntimeInPlace,
          if_neg (by simp [hruntime])]
        have hq := hnodup.sublist ((List.sublist_append_right p q).append_right given)
        rcases ih htail hq with ⟨q', hkeeps, herror, hwritten⟩
        have hp := hwritten.same_others (List.disjoint_comm.mp hdisjoint)
          fun n hn => hlt n (List.mem_append_left _ hn)
        exact ⟨p ++ q', .cons hname hpriority (hhead.frame hp) hkeeps, herror,
          hwritten.beside List.perm_append_comm List.perm_append_comm hnodup hlt⟩

theorem Keeps.set (h : shelf.Keeps s.sources places)
    (hnew : shelf.heap.Holds slot new given) (hnodup : (places ++ given).Nodup) (key : String) :
    ∃ places', (shelf.set key slot).1.Keeps (s.setInPlace key new).1.sources places' ∧
      (shelf.set key slot).2 = (s.setInPlace key new).2 ∧
      shelf.heap.Written (shelf.set key slot).1.heap places given places' :=
  h.writeRuntime hnew hnodup key

/-- Any number of values may be set, if at first nothing leads into one of them
    and nothing is led to twice. -/
theorem Keeps.setAll {slots : Fields} {news : Entries} (h : shelf.Keeps s.sources places)
    (hnews : shelf.heap.HoldsFields slots news given) (hnodup : (places ++ given).Nodup) :
    ∃ places', places'.Nodup ∧
      (slots.foldl (fun shelf f => (shelf.set f.1 f.2).1) shelf).Keeps
        (news.foldl (fun s e => (s.setInPlace e.1 e.2).1) s).sources places' := by
  induction slots generalizing shelf s news places given with
  | nil =>
      rcases Heap.holdsFields_nil_iff.mp hnews with ⟨rfl, rfl⟩
      exact ⟨places, hnodup.of_append_left, h⟩
  | cons f rest ih =>
      rcases f with ⟨key, slot⟩
      rcases hnews.uncons with ⟨new, news', p, q, rfl, rfl, hnew, hrest⟩
      rw [List.foldl_cons, List.foldl_cons]
      -- What is still to be set waits beside what the shelf keeps.
      have hlt : ∀ n ∈ places ++ q, n < shelf.heap.length := by
        intro n hn
        rcases List.mem_append.mp hn with hn | hn
        · exact h.2.lt_length n hn
        · exact hrest.2.lt_length n hn
      have hperm : (places ++ (p ++ q)).Perm (places ++ q ++ p) := by
        rw [List.append_assoc]
        exact List.perm_append_comm.append_left places
      have hnodup' := hperm.nodup_iff.mp hnodup
      have hdisjoint : places.Disjoint q := List.disjoint_of_nodup_append hnodup'.of_append_left
      have hgiven := hnodup'.sublist ((List.sublist_append_left places q).append_right p)
      rcases h.set hnew hgiven key with ⟨places', hkeeps, -, hwritten⟩
      have hq := hwritten.same_others hdisjoint fun n hn => hlt n (List.mem_append_right _ hn)
      exact ih hkeeps (hrest.frame hq) (hwritten.beside (.refl _) (.refl _) hnodup' hlt).nodup

/-- A shelf keeps settings, and a value to be set is in a slot of its heap, and
    nothing in them is led to twice. -/
def Unshared (shelf : Shelf) (s : Settings) (slot : Slot) (new : Value) : Prop :=
  ∃ places given, shelf.Keeps s.sources places ∧ shelf.heap.Holds slot new given ∧
    (places ++ given).Nodup

/-- The settings are kept as they are after setting, and nothing in them is led
    to twice. -/
theorem Unshared.set (h : shelf.Unshared s slot new) (key : String) :
    (shelf.set key slot).2 = (s.setInPlace key new).2 ∧
      ∃ places', places'.Nodup ∧
        (shelf.set key slot).1.Keeps (s.setInPlace key new).1.sources places' := by
  rcases h with ⟨places, given, hkeeps, hnew, hnodup⟩
  rcases hkeeps.set hnew hnodup key with ⟨places', hkeeps', herror, hwritten⟩
  exact ⟨herror, places', hwritten.nodup, hkeeps'⟩

end Shelf

end Inlay
