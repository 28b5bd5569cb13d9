import TreeSelectors.Text.Ascii

/-!
# Tree/View — what a selector can see of a tree

A `TreeView` answers six questions about the nodes of a tree, whatever holds the tree. Nothing ties
the answers together: `children` may repeat a node or disagree with `parent?`, and a node that no
tree holds has a view too. The counting of siblings is made precise here, since only it depends on
how the answers fit: the siblings of a node are the element children of its parent, with the node
itself among them as a rule.
-/

namespace TreeSelectors

universe u

/-- A named value on an element. -/
structure Attribute where
  name : String
  value : String
  deriving DecidableEq, Repr

/-- A tree, as far as selectors look at it. -/
structure TreeView (ν : Type u) where
  isElement : ν → Bool
  /-- The tag of an element; selectors ask no other node for it. -/
  tagName : ν → String
  /-- The attributes in order; a name may occur more than once. -/
  attributes : ν → List Attribute
  text? : ν → Option String
  parent? : ν → Option ν
  children : ν → List ν

namespace TreeView

variable {ν : Type u} (t : TreeView ν)

/-- Whether `n` is an element with an attribute named `key`, in any letter case, whose value passes
`test`. One of several attributes of that name is enough. -/
def hasAttribute (n : ν) (key : String) (test : String → Bool) : Bool :=
  t.isElement n && (t.attributes n).any fun a => Text.sameFolded a.name key && test a.value

/-! ## Siblings -/

/-- The element children of `p`, or those of them with the tag of `n` exactly if `sameTag`. -/
def counted (sameTag : Bool) (n p : ν) : List ν :=
  (t.children p).filter fun c => t.isElement c && (!sameTag || t.tagName c == t.tagName n)

/-- The siblings that an element with a parent is counted among. -/
def siblings? (sameTag : Bool) (n : ν) : Option (List ν) :=
  if t.isElement n then (t.parent? n).map (t.counted sameTag n) else none

end TreeView

/-- The place of `n` in `l`, counted from one and from the end if `fromEnd`. A node that occurs more
than once has the first place on the way. -/
def place? {ν : Type u} [DecidableEq ν] (fromEnd : Bool) (n : ν) (l : List ν) : Option Nat :=
  ((if fromEnd then l.reverse else l).idxOf? n).map (· + 1)

end TreeSelectors
