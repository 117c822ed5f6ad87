import SurveyBranching.Expr.Basic
/-!
# Words of an expression

The words of an expression are the ten keywords (`and or gt gte lt lte eq neq contains
notcontains`), subjects (`val` or `cnt` and digits), quoted texts, decimals (`-?d+.d+`) and
integers (`-?d+`). Each carries its span in bytes of the UTF-8 text.

## Main definitions

* `Token`, `Token.display`: a word and how an error message shows it.
* `Spanned`: a word with its start and end.
* `Expected`, `ParseError`, `ParseError.message`: what can go wrong reading an expression.
-/

namespace SurveyBranching

/-- A word of an expression. A text keeps its written form, quotes and backslashes included;
a number keeps its digits as written. -/
inductive Token where
  | clause (c : Clause)
  | relation (r : Relation)
  | subject (s : Subject)
  | text (raw : String)
  | decimal (lexeme : String)
  | integer (lexeme : String)
deriving DecidableEq, Repr

/-- How a message shows a word: a keyword quoted, a subject as `identifier 'val<n>'`, a text
as `string` and its written form, a number as `number` and its digits. -/
def Token.display : Token → String
  | .clause c => "'" ++ c.word ++ "'"
  | .relation r => "'" ++ r.word ++ "'"
  | .subject s => "identifier '" ++ s.render ++ "'"
  | .text raw => "string " ++ raw
  | .decimal l => "number " ++ l
  | .integer l => "number " ++ l

/-- A word with its span: the byte offsets of its first byte and of the byte after it. -/
structure Spanned where
  token : Token
  start : Nat
  stop : Nat
deriving DecidableEq, Repr

/-- What the reader was looking for when the words ran out or did not fit. -/
inductive Expected where
  | operator
  | identifier
  | value
deriving DecidableEq, Repr

/-- The phrase for what was expected. -/
def Expected.phrase : Expected → String
  | .operator => "an operator"
  | .identifier => "an identifier"
  | .value => "a value"

/-- Why an expression could not be read. -/
inductive ParseError where
  /-- No words at all. -/
  | empty
  /-- Text at this byte offset that starts no word. -/
  | invalidToken (slice : String) (position : Nat)
  /-- A word where another kind was needed; an integer too large for 64 bits counts as such
  a word where a value was needed. -/
  | unexpectedToken (found : Token) (position : Nat) (expected : Expected)
  /-- The words ran out. -/
  | unexpectedEnd (expected : Expected)
  /-- Words left after a whole expression. -/
  | trailingInput (position : Nat)
  /-- More logical nodes waiting for operands than the limit allows. -/
  | tooDeep (limit : Nat)
deriving DecidableEq, Repr

/-- The message of a reading error. -/
def ParseError.message : ParseError → String
  | .empty => "empty expression"
  | .invalidToken s p => "invalid token '" ++ s ++ "' at position " ++ toString p
  | .unexpectedToken t p e =>
    "unexpected " ++ t.display ++ " at position " ++ toString p ++ ", expected " ++ e.phrase
  | .unexpectedEnd e => "unexpected end of expression, expected " ++ e.phrase
  | .trailingInput p => "trailing input at position " ++ toString p
  | .tooDeep n => "expression nested deeper than " ++ toString n ++ " levels"

end SurveyBranching
