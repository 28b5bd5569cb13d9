import TreeSelectors.Tree.Walk

/-!
# Tree/Stack — visiting a tree with one stack

The nodes to be visited wait on a stack whose top is its last entry. A visit takes that entry off
and pushes its children in their order, then turns the pushed stretch round, so that the first child
is the next to come off. Nothing is asked of the tree, and where taking children does not end the
visits do not end either: `Visits` and `Finds` hold of a stack from which the loop does end.
-/

namespace TreeSelectors.TreeView

universe u

variable {ν : Type u} (t : TreeView ν)

/-- The node that comes off the stack, and the stack with its children turned round on top. -/
def visit? (stack : List ν) : Option (ν × List ν) :=
  stack.getLast?.map fun n =>
    let left := stack.dropLast
    let pushed := left ++ t.children n
    (n, pushed.take left.length ++ (pushed.drop left.length).reverse)

@[simp] theorem visit?_concat (left : List ν) (n : ν) :
    t.visit? (left ++ [n]) = some (n, left ++ (t.children n).reverse) := by
  simp [visit?]

/-- Visiting on from `stack` comes to an end, and the nodes visited on the way are `ns`, in this
order. -/
inductive Visits : (stack ns : List ν) → Prop
  | done {stack : List ν} (h : t.visit? stack = none) : Visits stack []
  | visit {stack stack' ns : List ν} {n : ν} (h : t.visit? stack = some (n, stack'))
      (hs : Visits stack' ns) : Visits stack (n :: ns)

/-- Visiting on from `stack` up to the first node with the property `p` comes to an end, with that
node or without one. -/
inductive Finds (p : ν → Bool) : (stack : List ν) → (found : Option ν) → Prop
  | done {stack : List ν} (h : t.visit? stack = none) : Finds p stack none
  | here {stack stack' : List ν} {n : ν} (h : t.visit? stack = some (n, stack')) (hp : p n = true) :
      Finds p stack (some n)
  | later {stack stack' : List ν} {n : ν} {found : Option ν}
      (h : t.visit? stack = some (n, stack')) (hp : p n = false) (hs : Finds p stack' found) :
      Finds p stack found

end TreeSelectors.TreeView
