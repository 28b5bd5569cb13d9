import TreeSelectors.Selector.Basic
import TreeSelectors.Tree.Walk

/-!
# Selector/Query — which nodes a selector selects

`selects` answers for one node of a tree. The searches go through the tree below a grounded node in
document order, that node included, and answer for each visit.
-/

namespace TreeSelectors.Selector

universe u

variable {ν : Type u} [DecidableEq ν]

/-- Whether the selector selects the node `n` of the tree `t`. -/
def selects (t : TreeView ν) (n : ν) : Selector → Bool
  | universal => t.isElement n
  | tag name => t.isElement n && Text.sameFolded (t.tagName n) name
  | id value => t.hasAttribute n "id" fun v => v == value
  | className name => t.hasAttribute n "class" (Text.hasToken name)
  | attr key test => t.hasAttribute n key test.accepts
  | inter left right => left.selects t n && right.selects t n
  | negation inner => !inner.selects t n
  | nthChild nth fromEnd sameTag =>
    (t.siblings? sameTag n).any fun l => (place? fromEnd n l).any nth.picks
  | onlyChild sameTag => (t.siblings? sameTag n).any fun l => l.length == 1
  | empty =>
    t.isElement n && (t.children n).all fun c => !t.isElement c && (t.text? c).all String.isEmpty
  | root => t.isElement n && (t.parent? n).all fun p => !t.isElement p

/-- The nodes of `ns` that the selector selects, in the order of `ns`. -/
def filter (s : Selector) (t : TreeView ν) (ns : List ν) : List ν :=
  ns.filter fun n => s.selects t n

/-- The selected nodes at and below `top`, in document order. -/
def selectAll (s : Selector) (t : TreeView ν) (top : t.Ground) : List ν :=
  s.filter t (t.preOrder [top])

/-- The first of the selected nodes at and below `top`. -/
def selectFirst (s : Selector) (t : TreeView ν) (top : t.Ground) : Option ν :=
  (t.preOrder [top]).find? fun n => s.selects t n

end TreeSelectors.Selector
