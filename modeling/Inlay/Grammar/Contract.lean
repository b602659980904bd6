import Inlay.Grammar.Reader

/-!
# Contracts

What a computation promises: started in a state where `P` holds, it either
succeeds, and then `Q` holds of its result and the state it leaves, or it
stops, and then `E` holds of the reason and the state.

Contracts compose along the structure of a computation, so a property of a
rule follows from the same property of the rules it is made of. The rule for
`many` asks that each pass keeps an invariant and makes the state smaller,
and in return the loop keeps the invariant and ends at the condition rather
than at its limit.

## Main definitions

* `Contract`: A promise about success and about stopping.

## Theorems

* `Contract.bind`: One computation after another.
* `Contract.get_bind`: A computation that looks at its state first.
* `Contract.many`: Repetition.
-/

namespace Inlay

/-- Started where `P` holds, `x` succeeds with `Q` or stops with `E`. -/
def Contract {ε σ α : Type} (P : σ → Prop) (x : EStateM ε σ α) (Q : α → σ → Prop)
    (E : ε → σ → Prop) : Prop :=
  ∀ s, P s → match x s with
    | .ok a s' => Q a s'
    | .error e s' => E e s'

namespace Contract

variable {ε σ α β : Type} {P P' : σ → Prop} {x : EStateM ε σ α} {Q Q' : α → σ → Prop}
  {E : ε → σ → Prop}

/-- A contract may ask for more and promise less. -/
theorem weaken (h : Contract P x Q E) (hP : ∀ s, P' s → P s) (hQ : ∀ a s, Q a s → Q' a s) :
    Contract P' x Q' E := by
  intro s hs
  have hx := h s (hP s hs)
  cases hr : x s with
  | ok a s' =>
    rw [hr] at hx
    exact hQ a s' hx
  | error e s' =>
    rw [hr] at hx
    exact hx

/-- A contract may ask for more. -/
theorem strengthen (h : Contract P x Q E) (hP : ∀ s, P' s → P s) : Contract P' x Q E :=
  h.weaken hP fun _ _ hs => hs

/-- A result without effects. -/
theorem of_pure {a : α} (h : ∀ s, P s → Q a s) :
    Contract P (pure a : EStateM ε σ α) Q E :=
  fun s hs => h s hs

/-- One computation after another. -/
theorem bind {f : α → EStateM ε σ β} {R : β → σ → Prop} (hx : Contract P x Q E)
    (hf : ∀ a, Contract (Q a) (f a) R E) : Contract P (x >>= f) R E := by
  intro s hs
  have h := hx s hs
  simp only [Bind.bind, EStateM.bind]
  cases hr : x s with
  | ok a s' =>
    rw [hr] at h
    exact hf a s' h
  | error e s' =>
    rw [hr] at h
    exact h

/-- A computation that looks at its state first. -/
theorem get_bind {f : σ → EStateM ε σ β} {R : β → σ → Prop}
    (h : ∀ s, P s → Contract (· = s) (f s) R E) : Contract P (get >>= f) R E := by
  intro s hs
  exact h s hs s rfl

/-- A change of state that computes a result. -/
theorem of_modifyGet {f : σ → α × σ} (h : ∀ s, P s → Q (f s).1 (f s).2) :
    Contract P (MonadStateOf.modifyGet f : EStateM ε σ α) Q E :=
  fun s hs => h s hs

/-- A change of state. -/
theorem of_modify {f : σ → σ} {Q : PUnit → σ → Prop} (h : ∀ s, P s → Q ⟨⟩ (f s)) :
    Contract P (modify f : EStateM ε σ PUnit) Q E :=
  fun s hs => h s hs

/-- A choice between two computations. -/
theorem of_ite {b : Prop} [Decidable b] {y : EStateM ε σ α} (hx : b → Contract P x Q E)
    (hy : ¬ b → Contract P y Q E) : Contract P (if b then x else y) Q E := by
  by_cases h : b
  · rw [if_pos h]
    exact hx h
  · rw [if_neg h]
    exact hy h

/-- Repetition: each pass keeps the invariant and makes the state smaller. A
    loop whose limit is above the size of the state therefore ends at its
    condition, with the invariant, before it reaches the limit. -/
theorem many (size : σ → Nat) {stop : σ → Bool} {body : EStateM Stop σ α} {I : σ → Prop}
    {E : Stop → σ → Prop} {limit : Nat}
    (h : ∀ s, I s → stop s = false →
      Contract (· = s) body (fun _ s' => I s' ∧ size s' < size s) E) :
    Contract (fun s => I s ∧ size s < limit) (Inlay.many stop body limit)
      (fun _ s => I s ∧ stop s = true) E := by
  induction limit with
  | zero => exact fun s hs => absurd hs.2 (Nat.not_lt_zero _)
  | succ limit ih =>
    refine get_bind fun s hs => ?_
    refine of_ite (fun hstop => of_pure fun s' hs' => ?_) fun hstop => ?_
    · exact hs' ▸ ⟨hs.1, hstop⟩
    -- The pass made progress, so the rest of the loop has room to spare.
    have hpass : Contract (· = s) body (fun _ s' => I s' ∧ size s' < limit) E :=
      (h s hs.1 (Bool.eq_false_iff.mpr hstop)).weaken (fun _ hs' => hs') fun _ _ hs' =>
        ⟨hs'.1, Nat.lt_of_lt_of_le hs'.2 (Nat.le_of_lt_succ hs.2)⟩
    exact hpass.bind fun _ => ih.bind fun _ => of_pure fun _ hs' => hs'

end Contract

end Inlay
