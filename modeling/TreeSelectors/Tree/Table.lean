import TreeSelectors.Tree.View

/-!
# Tree/Table — a tree given row by row

Each node is a row, named by its place in the table. A row may list its children; otherwise they are
the rows that name it as their parent, in the order of the table. Lists are taken as they stand. A
number past the end of the table is a node about which nothing is known.
-/

namespace TreeSelectors

/-- One node of a table. A row with a tag is an element. -/
structure Row where
  tag? : Option String
  text? : Option String
  attributes : List Attribute
  parent? : Option Nat
  children? : Option (List Nat)
  deriving DecidableEq, Repr

/-- The tree that a table gives. -/
def TreeView.ofRows (rows : Array Row) : TreeView Nat where
  isElement n := rows[n]?.any fun r => r.tag?.isSome
  tagName n := (rows[n]?.bind Row.tag?).getD ""
  attributes n := (rows[n]?.map Row.attributes).getD []
  text? n := rows[n]?.bind Row.text?
  parent? n := rows[n]?.bind Row.parent?
  children n :=
    match rows[n]? with
    | none => []
    | some r =>
      r.children?.getD <|
        (List.range rows.size).filter fun m => (rows[m]?.bind Row.parent?) == some n

end TreeSelectors
