import TreeSelectors.Selector.Nth
import TreeSelectors.Tree.View

/-!
# Selector/Tally — counting siblings on words

The place of a node among its siblings can be counted sibling by sibling, and tested against an
`Nth`, on signed words of 64 bits. Every operation here gives a word only if its exact result is
one, and a division besides only if the divisor is not zero; so a count that comes to an answer has
neither wrapped nor divided by zero on the way.
-/

namespace TreeSelectors

/-! ## Exact words -/

/-- The word for `x`, if there is one. -/
def word? (x : Int) : Option Int64 :=
  if Int64.minValue.toInt ≤ x ∧ x ≤ Int64.maxValue.toInt then some (.ofInt x) else none

/-- The exact sum. -/
def sum? (a b : Int64) : Option Int64 :=
  word? (a.toInt + b.toInt)

/-- The exact difference. -/
def difference? (a b : Int64) : Option Int64 :=
  word? (a.toInt - b.toInt)

/-- The quotient towards zero. -/
def quotient? (a b : Int64) : Option Int64 :=
  if b = 0 then none else word? (a.toInt.tdiv b.toInt)

/-- The remainder with the sign of `a`; a remainder is refused where the quotient is. -/
def remainder? (a b : Int64) : Option Int64 :=
  (quotient? a b).bind fun _ => word? (a.toInt.tmod b.toInt)

/-! ## Counting -/

universe u

variable {ν : Type u} [DecidableEq ν]

/-- How many siblings have been counted, and the count at the one that is looked for. -/
structure Tally where
  count : Int64
  place? : Option Int64

/-- The tally after `l`. From the start the count may stop at the first `n`; from the end it goes
through, since the number of all siblings is needed, and keeps the last `n`. -/
def Tally.over? (fromEnd : Bool) (n : ν) (y : Tally) : (l : List ν) → Option Tally
  | [] => some y
  | c :: l =>
    (sum? y.count 1).bind fun count =>
      if c = n then
        if fromEnd then over? fromEnd n ⟨count, some count⟩ l else some ⟨count, some count⟩
      else over? fromEnd n ⟨count, y.place?⟩ l

/-- The place that a tally gives; from the end it is mirrored. -/
def Tally.result? (fromEnd : Bool) (y : Tally) : Option (Option Int64) :=
  match y.place? with
  | none => some none
  | some i =>
    if fromEnd then ((difference? y.count i).bind fun d => sum? d 1).map some else some (some i)

/-- The place of `n` in `l`, counted on words. -/
def countedPlace? (fromEnd : Bool) (n : ν) (l : List ν) : Option (Option Int64) :=
  ((⟨0, none⟩ : Tally).over? fromEnd n l).bind (Tally.result? fromEnd)

/-- Whether `f` picks the position `i`, tested on words. -/
def Nth.tests? (f : Nth) (i : Int64) : Option Bool :=
  (difference? i f.offset.toInt64).bind fun distance =>
    if f.step.toInt64 = 0 then some (distance == 0)
    else (remainder? distance f.step.toInt64).bind fun r =>
      if r = 0 then (quotient? distance f.step.toInt64).map fun q => decide (0 ≤ q)
      else some false

/-- What `Selector.nthChild f fromEnd sameTag` answers for `n`, counted and tested on words. -/
def TreeView.nthChild? (t : TreeView ν) (n : ν) (f : Nth) (fromEnd sameTag : Bool) : Option Bool :=
  match t.siblings? sameTag n with
  | none => some false
  | some l => (countedPlace? fromEnd n l).bind fun
    | none => some false
    | some i => f.tests? i

end TreeSelectors
