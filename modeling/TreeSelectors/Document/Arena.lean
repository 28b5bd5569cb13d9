import TreeSelectors.Document.Edit

/-!
# Document/Arena — appending in place

A node can be appended in two steps, without a new document: it is made first, next to the document,
and linked to its parent then. Linking takes a node from wherever it stands, so it has faults of its
own: the node is its own parent, one of the two is missing, or the parent lies under the node. An
`Arena` holds what there is between the two steps.
-/

namespace TreeSelectors

namespace Forest

/-- The trees of two forests, side by side. -/
def beside : Forest → Forest → Forest
  | nil, g => g
  | cons l c below right, g => cons l c below (right.beside g)

/-- The forest with the trees of `g` behind the last child of the node labelled `p`. -/
def graft (p : Nat) : Forest → Forest → Forest
  | nil, _ => nil
  | cons l c below right, g =>
    cons l c (if l = p then below.beside g else below.graft p g) (right.graft p g)

end Forest

/-- Trees side by side: a document, and next to it what has no place in it yet. -/
structure Arena where
  trees : Forest
  /-- The label that the next node gets. -/
  next : Nat

/-- Why a node cannot be linked to a parent. -/
inductive LinkError
  /-- The node would be its own parent. -/
  | toItself
  /-- One of the two is not there. -/
  | missing
  /-- The parent lies under the node. -/
  | toItsBranch
  deriving DecidableEq, Repr

namespace Arena

/-- The arena with a new node of the given content, which has no parent. -/
def make (a : Arena) (content : Content) : Arena where
  trees := a.trees.snoc a.next content
  next := a.next + 1

/-- Takes `n`, with all that is below it, from its place and makes it the last child of `parent`. -/
def link (a : Arena) (parent n : Nat) : Except LinkError Arena :=
  if parent = n then .error .toItself
  else
    match a.trees.find? parent, a.trees.find? n with
    | some _, some (content, below) =>
      if parent ∈ below.labels then .error .toItsBranch
      else .ok { a with trees := (a.trees.prune n).graft parent (.cons n content below .nil) }
    | _, _ => .error .missing

/-- Appends a node in place.  The arena is returned as it is left, after a failure too. -/
def append (a : Arena) (parent : Nat) (content : Content) :
    Except (EditError ⊕ LinkError) Nat × Arena :=
  if (a.trees.find? parent).isSome then
    match (a.make content).link parent a.next with
    | .ok a' => (.ok a.next, a')
    | .error cause => (.error (.inr cause), a.make content)
  else (.error (.inl (.appendToMissing parent)), a)

end Arena

namespace Document

/-- The document with nothing next to it. -/
def arena (d : Document) : Arena :=
  ⟨d.tree, d.next⟩

end Document

end TreeSelectors
