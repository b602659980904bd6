import Inlay.Tree.Basic

/-!
# Equality of Trees

Whether two trees are the same, texts and locations included. The test goes
down both trees side by side, and its answer is equality: `Root.same_iff`.

## Main definitions

* `Root.same`: Whether two trees are the same.

## Theorems

* `Root.same_iff`: The test decides equality.
-/

namespace Inlay

mutual

/-- Whether two elements are the same. -/
def Element.same : Element → Element → Bool
  | .mk t as c l, .mk t' as' c' l' =>
    t == t' && sameAttributes as as' && sameContent c c' && l == l'

/-- Whether two attributes are the same. -/
def Attribute.same : Attribute → Attribute → Bool
  | .fixed n v, .fixed n' v' => n == n' && v == v'
  | .computed n c l, .computed n' c' l' => n == n' && sameCode c c' && l == l'
  | .mixin c l, .mixin c' l' => sameCode c c' && l == l'
  | _, _ => false

/-- Whether two entries of content are the same. -/
def Child.same : Child → Child → Bool
  | .element e, .element e' => e.same e'
  | .insertion c l, .insertion c' l' => sameCode c c' && l == l'
  | .comment t, .comment t' => t == t'
  | .text t, .text t' => t == t'
  | _, _ => false

/-- Whether two segments are the same. -/
def Segment.same : Segment → Segment → Bool
  | .text t l, .text t' l' => t == t' && l == l'
  | .element e, .element e' => e.same e'
  | _, _ => false

/-- Whether two lists of attributes are the same. -/
def sameAttributes : List Attribute → List Attribute → Bool
  | [], [] => true
  | a :: rest, a' :: rest' => a.same a' && sameAttributes rest rest'
  | _, _ => false

/-- Whether two lists of content are the same. -/
def sameContent : List Child → List Child → Bool
  | [], [] => true
  | c :: rest, c' :: rest' => c.same c' && sameContent rest rest'
  | _, _ => false

/-- Whether two pieces of code are the same. -/
def sameCode : List Segment → List Segment → Bool
  | [], [] => true
  | s :: rest, s' :: rest' => s.same s' && sameCode rest rest'
  | _, _ => false

end

mutual

theorem Element.same_iff : ∀ e e' : Element, e.same e' = true ↔ e = e'
  | .mk t as c l, .mk t' as' c' l' => by
    simp only [Element.same, Bool.and_eq_true, beq_iff_eq, sameAttributes_iff as as',
      sameContent_iff c c', Element.mk.injEq, and_assoc]

theorem Attribute.same_iff : ∀ a a' : Attribute, a.same a' = true ↔ a = a'
  | .fixed n v, a' => by
    cases a' <;> simp [Attribute.same]
  | .computed n c l, a' => by
    cases a' <;> simp [Attribute.same, sameCode_iff c, and_assoc]
  | .mixin c l, a' => by
    cases a' <;> simp [Attribute.same, sameCode_iff c]

theorem Child.same_iff : ∀ c c' : Child, c.same c' = true ↔ c = c'
  | .element e, c' => by
    cases c' <;> simp [Child.same, Element.same_iff e]
  | .insertion s l, c' => by
    cases c' <;> simp [Child.same, sameCode_iff s]
  | .comment t, c' => by
    cases c' <;> simp [Child.same]
  | .text t, c' => by
    cases c' <;> simp [Child.same]

theorem Segment.same_iff : ∀ s s' : Segment, s.same s' = true ↔ s = s'
  | .text t l, s' => by
    cases s' <;> simp [Segment.same]
  | .element e, s' => by
    cases s' <;> simp [Segment.same, Element.same_iff e]

theorem sameAttributes_iff : ∀ as as' : List Attribute, sameAttributes as as' = true ↔ as = as'
  | [], as' => by
    cases as' <;> simp [sameAttributes]
  | a :: rest, as' => by
    cases as' <;> simp [sameAttributes, Attribute.same_iff a, sameAttributes_iff rest]

theorem sameContent_iff : ∀ cs cs' : List Child, sameContent cs cs' = true ↔ cs = cs'
  | [], cs' => by
    cases cs' <;> simp [sameContent]
  | c :: rest, cs' => by
    cases cs' <;> simp [sameContent, Child.same_iff c, sameContent_iff rest]

theorem sameCode_iff : ∀ ss ss' : List Segment, sameCode ss ss' = true ↔ ss = ss'
  | [], ss' => by
    cases ss' <;> simp [sameCode]
  | s :: rest, ss' => by
    cases ss' <;> simp [sameCode, Segment.same_iff s, sameCode_iff rest]

end

/-- Whether two trees are the same. -/
def Root.same (r r' : Root) : Bool :=
  sameCode r.segments r'.segments

/-- The test decides equality. -/
theorem Root.same_iff (r r' : Root) : r.same r' = true ↔ r = r' := by
  cases r
  cases r'
  simp only [Root.same, sameCode_iff, Root.mk.injEq]

instance : DecidableEq Root := fun r r' =>
  decidable_of_iff _ (Root.same_iff r r')

end Inlay
