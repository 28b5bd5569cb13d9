import TreeSelectors.Text.Ascii

/-!
# Selector/AttributeTest — what a selector asks of an attribute's value

A selector asks whether an attribute is there, or compares its value with a given one in one of six
ways. Values are compared letter by letter, capitals apart from small letters. `includes` reads the
value as tokens set apart by blanks; no token is empty, so an empty word is never included.
-/

namespace TreeSelectors

/-- A way to compare the value of an attribute with a given one. -/
inductive Comparison
  /-- The value is the given one. -/
  | equals
  /-- One of the value's tokens is the given one. -/
  | includes
  /-- The value is the given one, or begins with it and a dash. -/
  | dashMatch
  /-- The value begins with the given one. -/
  | startsWith
  /-- The value ends with the given one. -/
  | endsWith
  /-- The value has the given one somewhere in it. -/
  | contains
  deriving DecidableEq, Repr

/-- A question about an attribute. -/
inductive AttributeTest
  /-- The attribute is there, whatever its value. -/
  | present
  /-- The attribute's value compares with `value`. -/
  | compare (how : Comparison) (value : String)
  deriving DecidableEq, Repr

namespace Text

/-- The tokens of `s`: what stands between blanks, empty stretches left out. -/
def tokens (s : String) : List (List Char) :=
  (s.toList.splitOnP isBlank).filter fun w => !w.isEmpty

/-- Whether `word` is one of the tokens of `s`. -/
def hasToken (word s : String) : Bool :=
  (tokens s).contains word.toList

/-- Whether `ds` stands somewhere in `cs`. -/
def occursIn (ds : List Char) : (cs : List Char) → Bool
  | [] => ds.isEmpty
  | c :: cs => ds.isPrefixOf (c :: cs) || occursIn ds cs

/-- Looking at every place finds exactly the stretches of a text. -/
theorem occursIn_iff {ds cs : List Char} : occursIn ds cs ↔ ds <:+: cs := by
  induction cs with
  | nil => simp [occursIn]
  | cons c cs ih =>
    rw [occursIn, Bool.or_eq_true, List.isPrefixOf_iff_prefix, ih, List.infix_cons_iff]

end Text

/-- Whether the value `x` compares with the given value `v`. -/
def Comparison.holds : Comparison → (v x : String) → Bool
  | equals, v, x => x == v
  | includes, v, x => Text.hasToken v x
  | dashMatch, v, x => x == v || decide (v.toList ++ ['-'] <+: x.toList)
  | startsWith, v, x => decide (v.toList <+: x.toList)
  | endsWith, v, x => decide (v.toList <:+ x.toList)
  | contains, v, x => Text.occursIn v.toList x.toList

/-- Whether an attribute of value `x` passes the test. -/
def AttributeTest.accepts : AttributeTest → (x : String) → Bool
  | present, _ => true
  | compare how v, x => how.holds v x

end TreeSelectors
