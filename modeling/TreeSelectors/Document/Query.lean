import TreeSelectors.Document.Basic
import TreeSelectors.Reader.Sequence
import TreeSelectors.Selector.Query

/-!
# Document/Query — selecting nodes of a document by text

The search begins at the document node, so every live node is looked at, in document order.
-/

namespace TreeSelectors.Document

/-- The nodes that the selector with this text selects, in document order. -/
def select (d : Document) (text : String) : Except ParseError (List Nat) := do
  let s ← Selector.compile text
  return s.selectAll d.view (d.ground 0)

/-- The first node that the selector with this text selects. -/
def selectFirst (d : Document) (text : String) : Except ParseError (Option Nat) := do
  let s ← Selector.compile text
  return s.selectFirst d.view (d.ground 0)

end TreeSelectors.Document
