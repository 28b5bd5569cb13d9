import Mathlib
import TreeSelectors.Selector.Query

/-!
# Proofs/Tree/Polarity — more attributes, more answers or fewer

An id, a class and an attribute each ask for one attribute that will do, so where a tree gets more
attributes they select at least what they did.  A negation turns this round.  Hence it is decisive
under how many negations the questions for attributes lie (`attributeDepths`): if each number is
even the selector can only gain nodes, and if each is odd it can only lose some.
-/

namespace TreeSelectors

universe u

namespace TreeView

variable {ν : Type u} {t : TreeView ν} {f : ν → List Attribute} {n : ν}

/-- The tree with other attributes. -/
def withAttributes (t : TreeView ν) (f : ν → List Attribute) : TreeView ν :=
  { t with attributes := f }

/-- An attribute is not hidden by those that come to it, whatever their names. -/
theorem hasAttribute_withAttributes (h : t.attributes n ⊆ f n) {key : String}
    {test : String → Bool} (ha : t.hasAttribute n key test) :
    (t.withAttributes f).hasAttribute n key test := by
  rw [hasAttribute, Bool.and_eq_true, List.any_eq_true] at ha ⊢
  obtain ⟨he, a, hmem, htest⟩ := ha
  exact ⟨he, a, h hmem, htest⟩

end TreeView

namespace Selector

/-! ## Depths under negations -/

/-- For each id, class and attribute of the selector, the number of negations that it lies under. -/
def attributeDepths : Selector → List ℕ
  | id _ | className _ | attr _ _ => [0]
  | inter left right => left.attributeDepths ++ right.attributeDepths
  | negation inner => inner.attributeDepths.map (· + 1)
  | _ => []

/-- Every id, class and attribute lies under an even number of negations. -/
def Positive (s : Selector) : Prop :=
  ∀ k ∈ s.attributeDepths, Even k

/-- Every id, class and attribute lies under an odd number of negations. -/
def Negative (s : Selector) : Prop :=
  ∀ k ∈ s.attributeDepths, Odd k

instance : DecidablePred Positive := fun s =>
  inferInstanceAs (Decidable (∀ k ∈ s.attributeDepths, Even k))

instance : DecidablePred Negative := fun s =>
  inferInstanceAs (Decidable (∀ k ∈ s.attributeDepths, Odd k))

variable {s left right : Selector}

/-- A conjunction has the questions of both its parts. -/
theorem positive_inter : (inter left right).Positive ↔ left.Positive ∧ right.Positive :=
  List.forall_mem_append

theorem negative_inter : (inter left right).Negative ↔ left.Negative ∧ right.Negative :=
  List.forall_mem_append

/-- **A negation takes even to odd…** -/
theorem positive_negation : (negation s).Positive ↔ s.Negative := by
  simp only [Positive, Negative, attributeDepths, List.forall_mem_map, Nat.even_add_one,
    Nat.not_even_iff_odd]

/-- **…and odd to even.** -/
theorem negative_negation : (negation s).Negative ↔ s.Positive := by
  simp only [Positive, Negative, attributeDepths, List.forall_mem_map, Nat.odd_add_one,
    Nat.not_odd_iff_even]

/-! ## Answers -/

variable {ν : Type u} [DecidableEq ν] {t : TreeView ν} {f : ν → List Attribute} {n : ν}

/-- **More attributes act through the parity of negations.**  The two halves are proved together by
induction on the selector, since a negation takes each to the other. -/
theorem selects_withAttributes (h : t.attributes n ⊆ f n) (s : Selector) :
    (s.Positive → s.selects t n → s.selects (t.withAttributes f) n) ∧
      (s.Negative → s.selects (t.withAttributes f) n → s.selects t n) := by
  induction s with
  | id value | className name | attr key test =>
    refine ⟨fun _ => TreeView.hasAttribute_withAttributes h, fun hodd => ?_⟩
    have hzero : Odd 0 := hodd 0 (List.mem_singleton_self 0)
    exact absurd hzero (by decide)
  | inter left right ihl ihr =>
    rw [positive_inter, negative_inter, selects, selects, Bool.and_eq_true, Bool.and_eq_true]
    exact ⟨fun hs hn => ⟨ihl.1 hs.1 hn.1, ihr.1 hs.2 hn.2⟩,
      fun hs hn => ⟨ihl.2 hs.1 hn.1, ihr.2 hs.2 hn.2⟩⟩
  | negation inner ih =>
    rw [positive_negation, negative_negation, selects, selects, Bool.not_eq_true',
      Bool.not_eq_true', ← Bool.not_eq_true, ← Bool.not_eq_true]
    exact ⟨fun hs => mt (ih.2 hs), fun hs => mt (ih.1 hs)⟩
  | universal | tag name | nthChild nth fromEnd sameTag | onlyChild sameTag | empty | root =>
    exact ⟨fun _ hn => hn, fun _ hn => hn⟩

/-- A selector that asks for no attribute is both, so its answers stay. -/
theorem selects_withAttributes_eq (h : t.attributes n ⊆ f n) (hs : s.attributeDepths = []) :
    s.selects (t.withAttributes f) n = s.selects t n := by
  obtain ⟨hgains, hloses⟩ := selects_withAttributes h s
  have hpos : s.Positive := fun k hk => absurd (hs ▸ hk) List.not_mem_nil
  have hneg : s.Negative := fun k hk => absurd (hs ▸ hk) List.not_mem_nil
  exact Bool.eq_iff_iff.2 ⟨hloses hneg, hgains hpos⟩

end Selector

end TreeSelectors
