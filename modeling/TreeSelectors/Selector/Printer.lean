import TreeSelectors.Selector.Basic
import TreeSelectors.Text.Numeral

/-!
# Selector/Printer — a selector as text

The text of a selector is one sequence without blanks: a tag or `*` in front, then the other
conjuncts from left to right. A sequence has room for one tag. The first tag goes to the front, and
any later one is written as a double negation in its place; `*` is written only where nothing else
stands in front and some conjunct is universal.

Names escape what would end them, strings what would end or break them. A character that cannot
stand behind a backslash is escaped by its code point and a blank.
-/

namespace TreeSelectors

open Text

/-! ## Names and strings -/

namespace Text

/-- The escape of `c` by its code point; the blank ends the digits. -/
def codePointEscape (c : Char) : List Char :=
  '\\' :: hexDigits c.toNat ++ [' ']

/-- The escape of a control character. No escape can name U+0000, so U+FFFD stands for it. -/
def controlEscape (c : Char) : List Char :=
  codePointEscape (if c = '\x00' then '\ufffd' else c)

/-- `c` as a character of a name, past the places where a digit or a dash is special. -/
def nameCharText (c : Char) : List Char :=
  if isControl c then controlEscape c
  else if isNameChar c then [c]
  else ['\\', c]

/-- A name, which may begin with any name character. -/
def nameText (cs : List Char) : List Char :=
  cs.flatMap nameCharText

/-- `c` where an identifier begins, which a digit may not do. -/
def leadCharText (c : Char) : List Char :=
  if c.isDigit then codePointEscape c else nameCharText c

/-- An identifier: a name that begins with neither a digit, nor a dash and a digit, nor two dashes,
and that is not a dash alone. -/
def identifierText : List Char → List Char
  | [] => []
  | ['-'] => ['\\', '-']
  | '-' :: '-' :: cs => '-' :: '\\' :: '-' :: nameText cs
  | '-' :: c :: cs => '-' :: leadCharText c ++ nameText cs
  | c :: cs => leadCharText c ++ nameText cs

/-- `c` inside a double-quoted string, where U+0000 may stand as it is. -/
def stringCharText (c : Char) : List Char :=
  if c = '"' ∨ c = '\\' then ['\\', c]
  else if isControl c ∧ c ≠ '\x00' then codePointEscape c
  else [c]

/-- A double-quoted string. -/
def stringText (cs : List Char) : List Char :=
  '"' :: cs.flatMap stringCharText ++ ['"']

end Text

/-! ## Simple selectors -/

/-- `step * k + offset`, as short as the notation allows. -/
def Nth.text (f : Nth) : List Char :=
  if f.step = 0 then decimal f.offset.toInt
  else
    (if f.step = 1 then ['n']
      else if f.step = -1 then ['-', 'n']
      else decimal f.step.toInt ++ ['n']) ++
    (if f.offset = 0 then []
      else if 0 < f.offset then '+' :: decimal f.offset.toInt
      else decimal f.offset.toInt)

/-- The name of a counting pseudo-class. -/
def nthName (fromEnd sameTag : Bool) : List Char :=
  match fromEnd, sameTag with
  | false, false => "nth-child".toList
  | true, false => "nth-last-child".toList
  | false, true => "nth-of-type".toList
  | true, true => "nth-last-of-type".toList

/-- The sign of a comparison. -/
def Comparison.text : Comparison → List Char
  | equals => ['=']
  | includes => ['~', '=']
  | dashMatch => ['|', '=']
  | startsWith => ['^', '=']
  | endsWith => ['$', '=']
  | contains => ['*', '=']

/-- What stands behind the key of an attribute selector. -/
def AttributeTest.text : AttributeTest → List Char
  | present => []
  | compare how v => how.text ++ stringText v.toList

/-- The negation of what `inner` is the text of. -/
def negationText (inner : List Char) : List Char :=
  ":not(".toList ++ inner ++ [')']

/-! ## Sequences -/

/-- One conjunct of a selector, on its way into a sequence. -/
inductive Part
  | universal
  | tag (name : List Char)
  /-- Any other conjunct, with its text. -/
  | simple (text : List Char)
  deriving DecidableEq, Repr

namespace Part

/-- The tag that a part holds. -/
def tag? : Part → Option (List Char)
  | tag name => some name
  | _ => none

/-- What stands in front of a sequence. -/
def frontText (ps : List Part) : List Char :=
  match ps.findSome? tag? with
  | some name => identifierText name
  | none => if universal ∈ ps then ['*'] else []

/-- What follows the front, `tagged` telling whether a tag has gone by. -/
def restText (tagged : Bool) : List Part → List Char
  | [] => []
  | universal :: ps => restText tagged ps
  | tag name :: ps =>
    (if tagged then negationText (negationText (identifierText name)) else []) ++ restText true ps
  | simple text :: ps => text ++ restText tagged ps

/-- A whole sequence. -/
def sequenceText (ps : List Part) : List Char :=
  frontText ps ++ restText false ps

end Part

namespace Selector

/-- The conjuncts of a selector, from left to right, in front of `ps`. -/
def partsOnto : Selector → List Part → List Part
  | inter left right, ps => left.partsOnto (right.partsOnto ps)
  | universal, ps => .universal :: ps
  | tag name, ps => .tag name.toList :: ps
  | id value, ps => .simple ('#' :: nameText value.toList) :: ps
  | className name, ps => .simple ('.' :: identifierText name.toList) :: ps
  | attr key test, ps => .simple ('[' :: identifierText key.toList ++ test.text ++ [']']) :: ps
  | negation inner, ps => .simple (negationText (Part.sequenceText (inner.partsOnto []))) :: ps
  | nthChild nth fromEnd sameTag, ps =>
    .simple (':' :: nthName fromEnd sameTag ++ '(' :: nth.text ++ [')']) :: ps
  | onlyChild false, ps => .simple ":only-child".toList :: ps
  | onlyChild true, ps => .simple ":only-of-type".toList :: ps
  | empty, ps => .simple ":empty".toList :: ps
  | root, ps => .simple ":root".toList :: ps

/-- The conjuncts of a selector, from left to right. -/
def parts (s : Selector) : List Part :=
  s.partsOnto []

/-- The parts are put in front of those given. -/
theorem partsOnto_eq (s : Selector) (ps : List Part) : s.partsOnto ps = s.parts ++ ps := by
  induction s generalizing ps with
  | inter left right ihl ihr =>
    rw [parts, partsOnto, partsOnto, ihl, ihr, ihl (right.partsOnto []), ihr []]
    simp
  | onlyChild sameTag => cases sameTag <;> rfl
  | _ => rfl

@[simp] theorem parts_inter (left right : Selector) :
    (inter left right).parts = left.parts ++ right.parts := by
  rw [parts, partsOnto, partsOnto_eq]; rfl

/-- The text of a selector, as characters. -/
def chars (s : Selector) : List Char :=
  Part.sequenceText s.parts

/-- The text of a selector. -/
def text (s : Selector) : String :=
  String.ofList s.chars

end Selector

end TreeSelectors
