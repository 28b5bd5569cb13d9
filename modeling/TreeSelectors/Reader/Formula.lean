import TreeSelectors.Reader.Lexeme
import TreeSelectors.Selector.Nth

/-!
# Reader/Formula — the argument of the counting pseudo-classes

The argument is `odd`, `even`, an integer alone, or `an+b`: an optional sign and coefficient, the
letter `n`, and an optional signed integer behind it. Blanks may stand around the second sign and
nowhere else. Both integers are signed words of 32 bits; a run of digits that names none is a fault
at its first digit, however long it is. Any other form is a fault at the first character of the
argument.
-/

namespace TreeSelectors.Reader

open Text

/-- `i` as a signed word of 32 bits, if it is one. -/
def word? (i : Int) : Option Int32 :=
  if h : Int32.minValue.toInt ≤ i ∧ i ≤ Int32.maxValue.toInt then some (.ofIntLE i h.1 h.2)
  else none

/-- The integer that a run of digits names, negated if `negative`. -/
def signedValue (negative : Bool) (ds : List Char) : Int :=
  if negative then -(decimalValue ds : Int) else decimalValue ds

/-- Reads the run of digits that begins here. -/
def integer (negative : Bool) (cs : List Char) : Except Fault (Int32 × List Char) :=
  match word? (signedValue negative (cs.takeWhile Char.isDigit)) with
  | some i => .ok (i, cs.dropWhile Char.isDigit)
  | none => .error ⟨.integerOverflow, cs⟩

/-- Whether a digit comes next. -/
def startsDigits (cs : List Char) : Bool :=
  cs.head?.any Char.isDigit

/-- Whether `c` is the letter that stands for the counter, in either case. -/
def isCounter (c : Char) : Bool :=
  c == 'n' || c == 'N'

/-- Reads what may follow the counter: a sign and an integer. The argument began at `start`. -/
def offset (start : List Char) (step : Int32) (cs : List Char) : Except Fault (Nth × List Char) :=
  match blanks cs with
  | [] => .ok (⟨step, 0⟩, [])
  | c :: ds =>
    if c = '+' ∨ c = '-' then
      if startsDigits (blanks ds) then
        mapRead (fun offset => ⟨step, offset⟩) (integer (c = '-') (blanks ds))
      else .error ⟨.invalidNth, start⟩
    else .ok (⟨step, 0⟩, c :: ds)

/-- Reads what follows the first sign: an integer, or a coefficient (one if there is none) and the
counter. The argument began at `start`. -/
def step (start : List Char) (negative : Bool) (cs : List Char) : Except Fault (Nth × List Char) :=
  match cs with
  | [] => .error ⟨.invalidNth, start⟩
  | c :: ds =>
    if c.isDigit then
      match integer negative cs with
      | .error fault => .error fault
      | .ok (value, []) => .ok (⟨0, value⟩, [])
      | .ok (value, d :: rest) =>
        if isCounter d then offset start value rest else .ok (⟨0, value⟩, d :: rest)
    else if isCounter c then offset start (if negative then -1 else 1) ds
    else .error ⟨.invalidNth, start⟩

/-- The formula that a word stands for. -/
def keyword? (word : String) : Option Nth :=
  match fold word with
  | "odd" => some ⟨2, 1⟩
  | "even" => some ⟨2, 0⟩
  | _ => none

/-- Reads a word that stands for a formula. -/
def keyword (cs : List Char) : Except Fault (Nth × List Char) :=
  match name cs with
  | .error fault => .error fault
  | .ok (word, rest) =>
    match keyword? word with
    | some f => .ok (f, rest)
    | none => .error ⟨.invalidNth, cs⟩

/-- Reads a formula, which begins at the first character. -/
def formula (cs : List Char) : Except Fault (Nth × List Char) :=
  match cs with
  | [] => .error (.missing .nthFormula [])
  | c :: ds =>
    if c = '-' then step cs true ds
    else if c = '+' then step cs false ds
    else if c.isDigit then step cs false cs
    else if isCounter c then offset cs 1 ds
    else if c.toLower = 'o' ∨ c.toLower = 'e' then keyword cs
    else .error ⟨.invalidNth, cs⟩

/-! ## What is left -/

/-- An integer leaves what follows its digits. -/
theorem integer_leaves (negative : Bool) (cs : List Char) : Leaves cs (integer negative cs) := by
  unfold integer
  split
  · exact .ok (List.dropWhile_suffix _)
  · exact .error

theorem offset_leaves (start : List Char) (step : Int32) (cs : List Char) :
    Leaves cs (offset start step cs) := by
  unfold offset
  have hb := blanks_suffix cs
  split
  · exact .ok List.nil_suffix
  · next c ds h =>
    rw [h] at hb
    split
    · split
      · exact ((integer_leaves _ _).trans
          ((blanks_suffix ds).trans ((List.suffix_cons _ _).trans hb))).mapRead
      · exact .error
    · exact .ok hb

theorem step_leaves (start : List Char) (negative : Bool) (cs : List Char) :
    Leaves cs (step start negative cs) := by
  unfold step
  split
  · exact .error
  · next c ds =>
    split
    · split
      · exact .error
      · exact .ok List.nil_suffix
      · next h =>
        have hi := integer_leaves _ _ _ _ h
        split
        · exact (offset_leaves _ _ _).trans ((List.suffix_cons _ _).trans hi)
        · exact .ok hi
    · split
      · exact (offset_leaves _ _ _).trans (List.suffix_cons _ _)
      · exact .error

theorem keyword_leaves (cs : List Char) : Leaves cs (keyword cs) := by
  unfold keyword
  split
  · exact .error
  · next h =>
    split
    · exact .ok (name_leaves cs _ _ h)
    · exact .error

/-- A formula goes back nowhere, whichever form it has. -/
theorem formula_leaves (cs : List Char) : Leaves cs (formula cs) := by
  unfold formula
  split
  · exact .error
  · have hs {c : Char} {ds : List Char} : ds <:+ c :: ds := List.suffix_cons _ _
    repeat' split
    · exact (step_leaves _ _ _).trans hs
    · exact (step_leaves _ _ _).trans hs
    · exact step_leaves _ _ _
    · exact (offset_leaves _ _ _).trans hs
    · exact keyword_leaves _
    · exact .error

end TreeSelectors.Reader
