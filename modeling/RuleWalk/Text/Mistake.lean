/-!
# Mistakes in a written value

What a reader expected, and where.
-/

namespace RuleWalk

/-- What was wrong with the text. -/
inductive Expectation where
  | value
  | propertyName
  | colon
  | comma
  | extraData
  | closingQuote
  | plainCharacter
  | escape
  | unicodeEscape
  | noByteOrderMark
deriving DecidableEq, Repr, Inhabited

def Expectation.message : Expectation → String
  | value => "Expecting value"
  | propertyName => "Expecting property name enclosed in double quotes"
  | colon => "Expecting ':' delimiter"
  | comma => "Expecting ',' delimiter"
  | extraData => "Extra data"
  | closingQuote => "Unterminated string starting at"
  | plainCharacter => "Invalid control character at"
  | escape => "Invalid \\escape"
  | unicodeEscape => "Invalid \\uXXXX escape"
  | noByteOrderMark => "Unexpected UTF-8 BOM (decode using utf-8-sig)"

/-- An expectation that the text does not meet at the given offset. -/
structure Mistake where
  expected : Expectation
  line : Nat
  column : Nat
  offset : Nat
deriving DecidableEq, Repr, Inhabited

/-- The mistake that stands after the first `offset` characters of `text`. -/
def Mistake.at (text : List Char) (offset : Nat) (expected : Expectation) : Mistake :=
  let before := text.take offset
  { expected
    line := before.count '\n' + 1
    column := (before.reverse.takeWhile (· != '\n')).length + 1
    offset }

def Mistake.message (m : Mistake) : String :=
  s!"{m.expected.message}: line {m.line} column {m.column} (char {m.offset})"

end RuleWalk
