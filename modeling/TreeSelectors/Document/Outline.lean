import TreeSelectors.Document.Basic

/-!
# Document/Outline — a document as indented text

The outline has one line for each node, in document order, with two blanks in front for each node
above. Texts and attribute values are escaped so that they stay on their line and end where they
should; tags and names are written as they are.
-/

namespace TreeSelectors

namespace Text

/-- How an outline writes the character `c` of a text or a value. -/
def outlineChar (c : Char) : List Char :=
  match c with
  | '\\' => ['\\', '\\']
  | '"' => ['\\', '"']
  | '\n' => ['\\', 'n']
  | '\r' => ['\\', 'r']
  | '\t' => ['\\', 't']
  | c => [c]

/-- A text or a value as an outline writes it. -/
def outlineText (s : String) : List Char :=
  s.toList.flatMap outlineChar

end Text

open Text

/-- An attribute behind a tag. -/
def Attribute.outline (a : Attribute) : List Char :=
  ' ' :: a.name.toList ++ ['=', '"'] ++ outlineText a.value ++ ['"']

/-- The line of a node, without indentation and line end. -/
def Content.outline : Content → List Char
  | document => "#document".toList
  | element tag attributes => '<' :: tag.toList ++ attributes.flatMap Attribute.outline ++ ['>']
  | text s => '"' :: outlineText s ++ ['"']
  | comment s => "<!--".toList ++ outlineText s ++ "-->".toList

namespace Content

/-! The lines again, character by character. -/

theorem outline_document :
    document.outline = ['#', 'd', 'o', 'c', 'u', 'm', 'e', 'n', 't'] := by
  change "#document".toList = _
  simp

theorem outline_element (tag : String) (attributes : List Attribute) :
    (element tag attributes).outline =
      '<' :: (tag.toList ++ (attributes.flatMap Attribute.outline ++ ['>'])) := by
  change '<' :: tag.toList ++ attributes.flatMap Attribute.outline ++ ['>'] = _
  simp

theorem outline_text (s : String) : (text s).outline = '"' :: (outlineText s ++ ['"']) := rfl

theorem outline_comment (s : String) :
    (comment s).outline = '<' :: '!' :: '-' :: '-' :: (outlineText s ++ ['-', '-', '>']) := by
  change "<!--".toList ++ outlineText s ++ "-->".toList = _
  simp

end Content

/-- The blanks in front of a node with `depth` nodes above it. -/
def indent (depth : Nat) : List Char :=
  List.replicate (2 * depth) ' '

/-- The lines of a forest with `depth` nodes above it. -/
def Forest.outline (depth : Nat) : Forest → List Char
  | nil => []
  | cons _ c below right =>
    indent depth ++ c.outline ++ '\n' :: (below.outline (depth + 1) ++ right.outline depth)

/-- The outline of a document. -/
def Document.outline (d : Document) : String :=
  String.ofList (d.tree.outline 0)

end TreeSelectors
