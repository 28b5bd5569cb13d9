import TreeSelectors.Document.Forest
import TreeSelectors.Tree.Walk

/-!
# Document/Basic — documents and the view selectors have of them

A document is one tree. Its top, the document node, has label 0; the other nodes are elements, texts
and comments. Labels are handed out in rising order and never twice, so a label is either live, that
is, in the tree, or names nothing. A label that is not live has an empty view.

Children have greater labels than their parents, and every label is below the next one; so every
label is grounded (`Document.grounded`) and can be searched from.
-/

namespace TreeSelectors

/-! ## Contents -/

namespace Content

/-- Whether the content is an element's. -/
def isElement : Content → Bool
  | element _ _ => true
  | _ => false

/-- The tag of an element; other nodes have an empty one. -/
def tagName : Content → String
  | element tag _ => tag
  | _ => ""

/-- The attributes of an element, in the order in which they were added. -/
def attributes : Content → List Attribute
  | element _ attributes => attributes
  | _ => []

/-- The text of a text node; comments have none to offer. -/
def text? : Content → Option String
  | text s => some s
  | _ => none

/-- The content with one more attribute at the end; only elements take it. -/
def addAttribute (a : Attribute) : Content → Content
  | element tag attributes => element tag (attributes ++ [a])
  | c => c

end Content

/-! ## Documents -/

/-- A tree of labelled nodes below the document node. -/
structure Document where
  tree : Forest
  /-- The label that the next node gets. -/
  next : Nat
  /-- The document node is alone at the top. -/
  rooted : ∃ below, tree = .cons 0 .document below .nil
  /-- No label names two nodes. -/
  nodup : tree.labels.Nodup
  /-- Every label has been handed out. -/
  handedOut : ∀ n ∈ tree.labels, n < next
  rising : tree.Rising

namespace Document

/-- The document that holds its document node alone. -/
def new : Document where
  tree := .cons 0 .document .nil .nil
  next := 1
  rooted := ⟨.nil, rfl⟩
  nodup := by decide
  handedOut := by decide
  rising := ⟨fun _ h => absurd h List.not_mem_nil, trivial, trivial⟩

instance : Inhabited Document := ⟨new⟩

variable (d : Document)

/-- Whether `n` names a node of the document. -/
def isLive (n : Nat) : Bool :=
  (d.tree.find? n).isSome

theorem isLive_iff {n : Nat} : d.isLive n = true ↔ n ∈ d.tree.labels :=
  Forest.isSome_find?

/-- What the node `n` holds. -/
def content? (n : Nat) : Option Content :=
  (d.tree.find? n).map Prod.fst

/-- The document as selectors see it. -/
def view : TreeView Nat where
  isElement n := (d.content? n).any Content.isElement
  tagName n := ((d.content? n).map Content.tagName).getD ""
  attributes n := ((d.content? n).map Content.attributes).getD []
  text? n := (d.content? n).bind Content.text?
  parent? n := d.tree.parent? n
  children n := ((d.tree.find? n).map fun x => x.2.tops).getD []

/-- A child was handed out after its parent. -/
theorem lt_of_mem_children {n m : Nat} (h : m ∈ d.view.children n) : n < m ∧ m < d.next := by
  cases hf : d.tree.find? n with
  | none => simp [view, hf] at h
  | some x =>
    have hm : m ∈ x.2.labels := Forest.mem_labels_of_mem_tops (by simpa [view, hf] using h)
    exact ⟨d.rising.lt_of_find? hf hm, d.handedOut m (Forest.labels_subset_of_find? hf hm)⟩

/-- **Every label is grounded**, live or not: labels rise from parent to child and stay below the
next one. -/
theorem grounded (n : Nat) : d.view.Grounded n := by
  induction h : d.next - n using Nat.strongRecOn generalizing n with
  | ind k ih =>
    refine ⟨n, fun m hm => ih (d.next - m) ?_ m rfl⟩
    have := d.lt_of_mem_children hm
    omega

/-- The label `n` as a place to search from. -/
def ground (n : Nat) : d.view.Ground :=
  ⟨n, d.grounded n⟩

end Document

end TreeSelectors
