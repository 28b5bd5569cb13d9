import TreeSelectors.Reader.Formula
import TreeSelectors.Selector.Tally

/-!
# Reader/Magnitude — integers on words

The integer that a run of digits names can be read digit by digit on signed words of 64 bits, given
its sign there, and only then be put in the range of 32 bits. Digits whose number is no word of 64
bits are refused, which is no failure of the arithmetic; but a sign may only be given where the
exact product is a word, so an answer has not wrapped on the way.
-/

namespace TreeSelectors

/-- The exact product. -/
def product? (a b : Int64) : Option Int64 :=
  word? (a.toInt * b.toInt)

namespace Reader

/-- The number that a decimal digit names. -/
def digitValue (d : Char) : Int64 :=
  .ofNat (d.toNat - '0'.toNat)

/-- The number that digits name behind those of `n`, unless it is too large for a word. -/
def magnitude? (n : Int64) (ds : List Char) : Option Int64 :=
  match ds with
  | [] => some n
  | d :: ds =>
    (product? n 10).bind fun tens => (sum? tens (digitValue d)).bind fun n => magnitude? n ds

/-- The integer that a run of digits names, negated if `negative`, as a word of 32 bits if it is
one. -/
def signedWord? (negative : Bool) (ds : List Char) : Option (Option Int32) :=
  match magnitude? 0 ds with
  | none => some none
  | some n => (product? n (if negative then -1 else 1)).map fun x => word? x.toInt

end Reader

end TreeSelectors
