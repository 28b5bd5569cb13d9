import TreeSelectors.Selector.Basic

/-!
# Selector/Specificity — how much a selector says, as three counts

A specificity counts the ids of a selector, then its classes, attributes and pseudo-classes, then
its tags. The counts are words of 16 bits that stay at their top value once they reach it, and the
order is lexicographic: one id outweighs any number of classes.
-/

namespace TreeSelectors

/-- Three counts, the weightiest first. -/
structure Specificity where
  ids : UInt16
  classes : UInt16
  tags : UInt16
  deriving DecidableEq, Repr

/-- The sum of two counts, or the largest count if the sum lies beyond it. -/
def clampedAdd (a b : UInt16) : UInt16 :=
  UInt16.ofNat (min (a.toNat + b.toNat) 65535)

namespace Specificity

/-- No count at all. -/
def zero : Specificity :=
  ⟨0, 0, 0⟩

/-- The sum, count by count. -/
def add (a b : Specificity) : Specificity :=
  ⟨clampedAdd a.ids b.ids, clampedAdd a.classes b.classes, clampedAdd a.tags b.tags⟩

instance : Add Specificity := ⟨add⟩

/-- Ids decide before classes, and classes before tags. -/
instance : Ord Specificity where
  compare a b :=
    ((compare a.ids b.ids).then (compare a.classes b.classes)).then (compare a.tags b.tags)

end Specificity

/-- The specificity of a selector: a negation says as much as what it negates, and the universal
selector says nothing. -/
def Selector.specificity : Selector → Specificity
  | universal => .zero
  | tag _ => ⟨0, 0, 1⟩
  | id _ => ⟨1, 0, 0⟩
  | inter left right => left.specificity + right.specificity
  | negation inner => inner.specificity
  | className _ | attr _ _ | nthChild _ _ _ | onlyChild _ | empty | root => ⟨0, 1, 0⟩

/-- Below the top the clamped sum is the sum, and at the top it stays there. -/
theorem toNat_clampedAdd (a b : UInt16) :
    (clampedAdd a b).toNat = min (a.toNat + b.toNat) 65535 := by
  rw [clampedAdd, UInt16.toNat_ofNat_of_lt']
  exact Nat.lt_of_le_of_lt (Nat.min_le_right _ _) (by decide)

end TreeSelectors
