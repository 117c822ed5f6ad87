import SurveyBranching.Expr.Token.Scan
import SurveyBranching.Limits
/-!
# Reading an expression

The grammar is `expr := clause expr expr | relation subject value`. The reader walks the
words once, left to right, and keeps the logical nodes that still wait for an operand on a
stack: a node enters when its word is read, holds its left operand once that is built, and
leaves when its right operand is done. A finished test joins the node on top of the stack,
and a node whose right operand is done joins the next one down in turn.

Before each operator word the stack may hold at most the depth limit of nodes; past it the
answer is `ParseError.tooDeep`. Words left after a whole expression are an error at the
first of them.

## Main definitions

* `Expr.Waiting`, `Expr.attach`: the stack of logical nodes and how a finished operand joins it.
* `Expr.literalOf`: the literal a value word stands for.
* `Expr.grow`: the reading loop.
* `Expr.parse`: text to tree.
-/

namespace SurveyBranching.Expr

/-- A logical node waiting for operands: its clause and, once built, its left operand. -/
structure Waiting where
  clause : Clause
  left : Option Expr

/-- A finished operand joins the stack: it becomes the left operand of the top node, or the
right one, which finishes that node in turn. With the stack empty it is the whole tree
(`inl`). -/
def attach : Expr → List Waiting → Expr ⊕ List Waiting
  | e, [] => .inl e
  | e, ⟨c, none⟩ :: rest => .inr (⟨c, some e⟩ :: rest)
  | e, ⟨c, some l⟩ :: rest => attach (.logical c l e) rest

/-- The signed 64-bit integer a run of digits stands for, if it is in range. -/
def integerOf? (lexeme : String) : Option Int64 :=
  match lexeme.toList with
  | '-' :: ds =>
    let n := Token.digitsValue ds
    if n ≤ 9223372036854775808 then some (Int64.ofInt (-(n : Int))) else none
  | ds =>
    let n := Token.digitsValue ds
    if n < 9223372036854775808 then some (Int64.ofInt n) else none

/-- The literal a value word stands for: a text with its escapes read, a decimal as written,
or an integer in range. Anything else is the wrong word for a value. -/
def literalOf (w : Spanned) : Except ParseError Literal :=
  match w.token with
  | .text raw =>
    -- The written form is the quotes and what stands between them.
    .ok (.text (String.ofList (Text.unescape ((raw.toList.drop 1).dropLast))))
  | .decimal l => .ok (.decimal l)
  | .integer l =>
    match integerOf? l with
    | some n => .ok (.integer n)
    | none => .error (.unexpectedToken w.token w.start .value)
  | t => .error (.unexpectedToken t w.start .value)

/-- Reads words onto the stack of waiting nodes until a tree is whole; answers the tree and
the words after it. -/
def grow (limit : Nat) (waiting : List Waiting) (words : List Spanned) :
    Except ParseError (Expr × List Spanned) :=
    if waiting.length > limit then .error (.tooDeep limit)
    else
      match words with
      | [] => .error (.unexpectedEnd .operator)
      | ⟨.clause c, _, _⟩ :: rest => grow limit (⟨c, none⟩ :: waiting) rest
      | ⟨.relation r, _, _⟩ :: rest =>
        match rest with
        | [] => .error (.unexpectedEnd .identifier)
        | ⟨.subject s, _, _⟩ :: rest₂ =>
          match rest₂ with
          | [] => .error (.unexpectedEnd .value)
          | w :: rest₃ =>
            match literalOf w with
            | .error e => .error e
            | .ok v =>
              match attach (.test r s v) waiting with
              | .inl e => .ok (e, rest₃)
              | .inr waiting' => grow limit waiting' rest₃
        | ⟨t, p, _⟩ :: _ => .error (.unexpectedToken t p .identifier)
      | ⟨t, p, _⟩ :: _ => .error (.unexpectedToken t p .operator)
termination_by words.length

/-- The tree of an expression, reading with at most `limit` nodes waiting before each
operator word. -/
def parse (limit : Nat) (input : String) : Except ParseError Expr := do
  let words ← Token.scan input
  if words.isEmpty then throw .empty
  let (e, rest) ← grow limit [] words
  match rest with
  | [] => pure e
  | w :: _ => throw (.trailingInput w.start)

end SurveyBranching.Expr
