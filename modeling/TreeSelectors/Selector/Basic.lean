import TreeSelectors.Selector.AttributeTest
import TreeSelectors.Selector.Nth

/-!
# Selector/Basic — selectors and how they are built

A selector, as style sheets write them, is a condition on a node of a tree: on its tag and its
attributes, its parent, its siblings and its children. The constructors of `Selector` store a name
as it stands; `Selector.ofTag` and `Selector.ofAttribute` fold the letter case of tags and keys,
which is how a reader builds them.
-/

namespace TreeSelectors

/-- A condition on a node of a tree. -/
inductive Selector
  /-- Every element. -/
  | universal
  /-- The elements whose tag is `name`. -/
  | tag (name : String)
  /-- The elements with an `id` attribute equal to `value`. -/
  | id (value : String)
  /-- The elements whose `class` attribute has the token `name`. -/
  | className (name : String)
  /-- The elements with an attribute named `key` that passes `test`. -/
  | attr (key : String) (test : AttributeTest)
  /-- What both selectors match. -/
  | inter (left right : Selector)
  /-- What `inner` does not match. -/
  | negation (inner : Selector)
  /-- The elements whose position among their siblings is one that `nth` picks; counted from the end
  if `fromEnd`, among the siblings of the same tag if `sameTag`. -/
  | nthChild (nth : Nth) (fromEnd sameTag : Bool)
  /-- The elements without a sibling element, or without one of the same tag if `sameTag`. -/
  | onlyChild (sameTag : Bool)
  /-- The elements without a child element and without text. -/
  | empty
  /-- The elements at the top of a tree. -/
  | root
  deriving DecidableEq, Repr

namespace Selector

/-- The elements whose tag is `name` in any letter case. -/
def ofTag (name : String) : Selector :=
  tag (Text.fold name)

/-- The elements with an attribute named `key`, in any letter case, that passes `test`. -/
def ofAttribute (key : String) (test : AttributeTest) : Selector :=
  attr (Text.fold key) test

end Selector

end TreeSelectors
