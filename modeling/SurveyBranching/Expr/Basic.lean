import SurveyBranching.Rule.Basic
import SurveyBranching.Text.Quoted
/-!
# Branching expressions

A rule can be stored as one expression in prefix form, as in
`or eq val3 "Yes" and gt cnt3 1 neq val3 "No"`. A logical word takes two expressions; a
relation word takes a subject and a literal. The subject `val<n>` stands for the options
picked at the question in place `n`, `cnt<n>` for how many were picked.

The text of a tree puts single spaces between its words, writes subjects as `val<n>` and
`cnt<n>`, texts quoted, integers in decimal and decimals as they were read.

## Main definitions

* `Relation`, `Subject`, `Literal`, `Expr`.
* `Expr.render`: the text of a tree.
* `Expr.leaves`, `Expr.joins`: the tests from left to right and the clauses between them.
-/

namespace SurveyBranching

/-- The eight relation words. The first six compare, the last two test membership. -/
inductive Relation where
  | gt
  | gte
  | lt
  | lte
  | eq
  | neq
  | contains
  | notContains
deriving DecidableEq, Repr

/-- The word of a relation. -/
def Relation.word : Relation → String
  | .gt => "gt"
  | .gte => "gte"
  | .lt => "lt"
  | .lte => "lte"
  | .eq => "eq"
  | .neq => "neq"
  | .contains => "contains"
  | .notContains => "notcontains"

/-- Whether a relation tests membership rather than comparing. -/
def Relation.isMembership : Relation → Bool
  | .contains | .notContains => true
  | _ => false

/-- The word of a clause. -/
def Clause.word : Clause → String
  | .and => "and"
  | .or => "or"

/-- What a test is about: the options picked at the question in place `seq`, or how many. -/
inductive Subject where
  | value (seq : UInt32)
  | count (seq : UInt32)
deriving DecidableEq, Repr

/-- `val<seq>` or `cnt<seq>`. -/
def Subject.render : Subject → String
  | .value n => "val" ++ toString n.toNat
  | .count n => "cnt" ++ toString n.toNat

/-- A literal: a text, a 64-bit integer, or a decimal kept as it was written. -/
inductive Literal where
  | text (s : String)
  | integer (n : Int64)
  | decimal (lexeme : String)
deriving DecidableEq, Repr

/-- The text of a literal as written in an expression. -/
def Literal.render : Literal → String
  | .text s => Text.quote s
  | .integer n => toString n.toInt
  | .decimal l => l

/-- The text a literal is matched against option values with: the text itself, the integer in
decimal, or the decimal as written. -/
def Literal.content : Literal → String
  | .text s => s
  | .integer n => toString n.toInt
  | .decimal l => l

/-- A branching expression. -/
inductive Expr where
  | test (rel : Relation) (subject : Subject) (value : Literal)
  | logical (clause : Clause) (left right : Expr)
deriving DecidableEq, Repr

namespace Expr

/-- The text of a tree in prefix form with single spaces. -/
def render : Expr → String
  | .test r s v => r.word ++ " " ++ s.render ++ " " ++ v.render
  | .logical c l r => c.word ++ " " ++ l.render ++ " " ++ r.render

/-- The tests of a tree from left to right, each as relation, subject and literal. -/
def leaves : Expr → List (Relation × Subject × Literal)
  | .test r s v => [(r, s, v)]
  | .logical _ l r => l.leaves ++ r.leaves

/-- The clauses between consecutive tests, from left to right: between the last test of a
node's left side and the first test of its right side stands that node's clause, which is
the clause of the deepest node above both tests. -/
def joins : Expr → List Clause
  | .test _ _ _ => []
  | .logical c l r => l.joins ++ c :: r.joins

/-- How many logical nodes stand on the longest path from the root. -/
def logicalHeight : Expr → Nat
  | .test _ _ _ => 0
  | .logical _ l r => max l.logicalHeight r.logicalHeight + 1

end Expr

end SurveyBranching
