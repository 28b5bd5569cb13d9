/-!
# Text/Numeral — decimal integers and hexadecimal code points

Decimal text uses the digits of `Nat.toDigits` behind an optional minus. Hexadecimal text is written
in lower case and read in either case.
-/

namespace TreeSelectors.Text

/-- The decimal text of `i`, with a minus in front of a negative number and no plus. -/
def decimal (i : Int) : List Char :=
  if i < 0 then '-' :: Nat.toDigits 10 i.natAbs else Nat.toDigits 10 i.natAbs

/-- The number that a run of decimal digits names; leading zeros add nothing. -/
def decimalValue (ds : List Char) : Nat :=
  Nat.ofDigitChars 10 ds 0

/-- Whether `c` is a hexadecimal digit of either case. -/
def isHexDigit (c : Char) : Bool :=
  c.isDigit || ('a' ≤ c && c ≤ 'f') || ('A' ≤ c && c ≤ 'F')

/-- The value of one hexadecimal digit. -/
def hexDigitValue (c : Char) : Nat :=
  if c.isDigit then c.toNat - '0'.toNat
  else if 'a' ≤ c then c.toNat - 'a'.toNat + 10
  else c.toNat - 'A'.toNat + 10

/-- The number that a run of hexadecimal digits names. -/
def hexValue (ds : List Char) : Nat :=
  ds.foldl (fun n c => 16 * n + hexDigitValue c) 0

/-- The hexadecimal text of `n`, in lower case and without leading zeros. -/
def hexDigits (n : Nat) : List Char :=
  Nat.toDigits 16 n

end TreeSelectors.Text
