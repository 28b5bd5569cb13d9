import Mathlib
import TreeSelectors.Selector.Query

/-!
# Proofs/Tree/Neighbourhood — how far a selector looks

A selector asks for a node's own data, whether its parent is an element, which siblings it is
counted among and what kind of children it has.  Two trees that agree on this much around a node
(`SameAround`) give it the same answers, however a selector nests.  A selector that counts nothing
(`looksUp`) asks less: children and siblings may differ then (`SameUpward`).
-/

namespace TreeSelectors

universe u

namespace TreeView

/-- Both trees show the same of `n` itself, and as much of its parent as selectors ask. -/
structure SameUpward {ν : Type u} (t t' : TreeView ν) (n : ν) : Prop where
  isElement : t'.isElement n = t.isElement n
  tagName : t'.tagName n = t.tagName n
  attributes : t'.attributes n = t.attributes n
  parent? : t'.parent? n = t.parent? n
  parent : ∀ p, t.parent? n = some p → t'.isElement p = t.isElement p

/-- Both trees show the same of `n`, of its children, its parent and its siblings, as far as
selectors ask. -/
structure SameAround {ν : Type u} (t t' : TreeView ν) (n : ν) : Prop where
  isElement : t'.isElement n = t.isElement n
  tagName : t'.tagName n = t.tagName n
  attributes : t'.attributes n = t.attributes n
  children : t'.children n = t.children n
  child : ∀ c ∈ t.children n, t'.isElement c = t.isElement c ∧ t'.text? c = t.text? c
  parent? : t'.parent? n = t.parent? n
  parent : ∀ p, t.parent? n = some p →
    t'.isElement p = t.isElement p ∧ t'.children p = t.children p
  sibling : ∀ p, t.parent? n = some p → ∀ c ∈ t.children p,
    t'.isElement c = t.isElement c ∧ t'.tagName c = t.tagName c

namespace SameAround

variable {ν : Type u} {t t' : TreeView ν} {n : ν} (h : t.SameAround t' n)

include h

theorem sameUpward : t.SameUpward t' n :=
  ⟨h.isElement, h.tagName, h.attributes, h.parent?, fun p hp => (h.parent p hp).1⟩

/-- The siblings that count are the same ones. -/
theorem siblings? (sameTag : Bool) : t'.siblings? sameTag n = t.siblings? sameTag n := by
  rw [TreeView.siblings?, TreeView.siblings?, h.isElement, h.parent?]
  cases hp : t.parent? n with
  | none => rfl
  | some p =>
    have hcounted : t'.counted sameTag n p = t.counted sameTag n p := by
      rw [counted, counted, (h.parent p hp).2]
      refine List.filter_congr fun c hc => ?_
      obtain ⟨he, ht⟩ := h.sibling p hp c hc
      rw [he, ht, h.tagName]
    rw [Option.map_some, Option.map_some, hcounted]

end SameAround

end TreeView

namespace Selector

variable {ν : Type u} [DecidableEq ν] {t t' : TreeView ν} {n : ν}

/-! ## Looking up -/

/-- Whether no part of the selector counts siblings or looks at children. -/
def looksUp : Selector → Bool
  | universal | tag _ | id _ | className _ | attr _ _ | root => true
  | inter left right => left.looksUp && right.looksUp
  | negation inner => inner.looksUp
  | nthChild _ _ _ | onlyChild _ | empty => false

/-- **A selector that looks up sees a node and its parent only.** -/
theorem selects_eq_of_sameUpward (h : t.SameUpward t' n) {s : Selector} (hs : s.looksUp) :
    s.selects t' n = s.selects t n := by
  induction s with
  | universal => exact h.isElement
  | tag name => rw [selects, selects, h.isElement, h.tagName]
  | id value | className name | attr key test =>
    rw [selects, selects, TreeView.hasAttribute, TreeView.hasAttribute, h.isElement, h.attributes]
  | inter left right ihl ihr =>
    rw [looksUp, Bool.and_eq_true] at hs
    rw [selects, selects, ihl hs.1, ihr hs.2]
  | negation inner ih => rw [selects, selects, ih hs]
  | nthChild nth fromEnd sameTag => cases hs
  | onlyChild sameTag => cases hs
  | empty => cases hs
  | root =>
    rw [selects, selects, h.isElement, h.parent?]
    cases hp : t.parent? n with
    | none => rfl
    | some p => rw [Option.all_some, Option.all_some, h.parent p hp]

/-! ## Looking around -/

/-- **A selector does not look beyond the neighbourhood of a node.** -/
theorem selects_eq_of_sameAround (h : t.SameAround t' n) (s : Selector) :
    s.selects t' n = s.selects t n := by
  induction s with
  | universal | tag _ | id _ | className _ | attr _ _ | root =>
    exact selects_eq_of_sameUpward h.sameUpward rfl
  | inter left right ihl ihr => rw [selects, selects, ihl, ihr]
  | negation inner ih => rw [selects, selects, ih]
  | nthChild nth fromEnd sameTag => rw [selects, selects, h.siblings?]
  | onlyChild sameTag => rw [selects, selects, h.siblings?]
  | empty =>
    rw [selects, selects, h.isElement, h.children, Bool.eq_iff_iff]
    simp only [Bool.and_eq_true, List.all_eq_true]
    refine and_congr_right fun _ => forall₂_congr fun c hc => ?_
    rw [(h.child c hc).1, (h.child c hc).2]

end Selector

end TreeSelectors
