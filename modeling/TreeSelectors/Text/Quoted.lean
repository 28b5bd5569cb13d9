import TreeSelectors.Text.Numeral
import TreeSelectors.Text.Unprintable

/-!
# Text/Quoted — a string between double quotes, on one line

Messages quote the text they speak of. The quotation spells a character out where it would end the
quotation, break the line or leave no mark: five characters have a letter of their own, the others
are written by their code point.
-/

namespace TreeSelectors.Text

/-- A character by its code point, in lower-case hexadecimal between braces. -/
def codePointText (c : Char) : List Char :=
  ['\\', 'u', '\x7b'] ++ hexDigits c.toNat ++ ['\x7d']

/-- How a quotation shows `c`. -/
def quotedChar (c : Char) : List Char :=
  match c with
  | '\x00' => ['\\', '0']
  | '\t' => ['\\', 't']
  | '\n' => ['\\', 'n']
  | '\r' => ['\\', 'r']
  | '"' => ['\\', '"']
  | '\\' => ['\\', '\\']
  | c => if isUnprintable c then codePointText c else [c]

/-- The quotation of `s`. -/
def quoted (s : String) : String :=
  String.ofList ('"' :: s.toList.flatMap quotedChar ++ ['"'])

end TreeSelectors.Text
