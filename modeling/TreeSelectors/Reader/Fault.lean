import TreeSelectors.Text.Ascii
import TreeSelectors.Text.Quoted

/-!
# Reader/Fault — why a text is no selector, and where

A reader that fails reports a cause and the text that is left at the place it speaks of. Only the
whole text turns that place into an offset, so a fault does not change when the text grows in front.
-/

namespace TreeSelectors

/-- What a reader looks for at some place. -/
inductive Wanted
  | identifier
  | name
  | equalsSign
  | operatorOrBracket
  | closingBracket
  | attributeValue
  | openingParenthesis
  | closingParenthesis
  | nthFormula
  | escapedCharacter
  | string
  deriving DecidableEq, Repr

/-- What was looked for, in words. -/
def Wanted.text : Wanted → String
  | identifier => "identifier"
  | name => "name"
  | equalsSign => "'='"
  | operatorOrBracket => "attribute operator or ']'"
  | closingBracket => "']'"
  | attributeValue => "attribute value"
  | openingParenthesis => "'('"
  | closingParenthesis => "')'"
  | nthFormula => "an+b expression"
  | escapedCharacter => "escaped character"
  | string => "string"

/-- Why a text is no selector. -/
inductive Cause
  /-- A selector ends here, and so many bytes follow it. -/
  | leftOver (bytes : Nat)
  /-- Something else stands where `what` should. -/
  | expected (what : Wanted)
  /-- The text ends where `what` should stand. -/
  | unexpectedEnd (what : Wanted)
  /-- The string that begins here has no end on its line. -/
  | unterminatedString
  /-- The escape that begins here names no character, or U+0000. -/
  | invalidEscape
  /-- What begins here is not of the form `an+b`. -/
  | invalidNth
  /-- The digits that begin here name no signed word of 32 bits. -/
  | integerOverflow
  /-- There is no pseudo-class of this name. -/
  | unknownPseudoClass (name : String)
  /-- The negation has nothing in it. -/
  | emptyNegation
  deriving DecidableEq, Repr

/-- A cause in words. -/
def Cause.message : Cause → String
  | leftOver bytes => String.ofList (Nat.toDigits 10 bytes) ++ " bytes left over"
  | expected what => "expected " ++ what.text
  | unexpectedEnd what => "unexpected end of input, expected " ++ what.text
  | unterminatedString => "unterminated string"
  | invalidEscape => "invalid escape sequence"
  | invalidNth => "invalid an+b expression"
  | integerOverflow => "integer out of range"
  | unknownPseudoClass name => "unsupported pseudo-class :" ++ name
  | emptyNegation => ":not() requires a selector"

/-- A cause, and the text left at the place it speaks of. -/
structure Fault where
  cause : Cause
  rest : List Char
  deriving DecidableEq, Repr

/-- The fault of finding `rest` where `what` should stand. -/
def Fault.missing (what : Wanted) (rest : List Char) : Fault :=
  ⟨if rest = [] then .unexpectedEnd what else .expected what, rest⟩

/-- Why `selector` is no selector; `offset` counts the bytes in front of the place. -/
structure ParseError where
  selector : String
  offset : Nat
  cause : Cause
  deriving DecidableEq, Repr

/-- A fault of a reader that was given the whole of `selector`. -/
def ParseError.ofFault (selector : String) (fault : Fault) : ParseError :=
  ⟨selector, Text.byteLength selector.toList - Text.byteLength fault.rest, fault.cause⟩

/-- An error in words, with the selector quoted. -/
def ParseError.message (e : ParseError) : String :=
  "parsing " ++ Text.quoted e.selector ++ ": " ++ e.cause.message ++ " at offset " ++
    String.ofList (Nat.toDigits 10 e.offset)

end TreeSelectors
