import SurveyBranching.Expr.Parser
import SurveyBranching.Survey.Basic
import SurveyBranching.Ids
import SurveyBranching.Text.Blank
/-!
# Reading an expression as conditions

An editor shows a rule as a flat list of conditions, each joined to the next by `and` or
`or`. An expression becomes such a list by reading its tests from left to right; the clause
between two consecutive tests is that of the deepest logical node above both, and the last
condition gets `and`.

Each test is read against the question the rule belongs to:

* `cnt<n>` with a comparison becomes a count condition; the literal must be an integer from
  `0` to `2^32 - 1`. `cnt<n>` with a membership word is refused.
* `val<n>` needs the word that fits the question's selection mode: `eq` and `neq` for a
  single choice, `contains` and `notcontains` for a multiple choice, meaning picked and not
  picked. The literal's text names the first option with that value.

The number `n` of a subject is not checked. A blank expression reads as no conditions, and
a question kind without a selection mode cannot branch at all. Reading fails at the first
test that does not fit, and ids are drawn only once every test has been read.

## Main definitions

* `DecodeError`, `DecodeError.message`.
* `Relation.countComparison`, `Relation.optionCheck`: the test a relation word asks for.
* `Question.testOf`: one test read against a question.
* `Expr.walk`, `sharedClause`: the logical nodes above each test, and the clause two tests share.
* `Question.conditionsOf`: the conditions of an expression, with the ids drawn.
-/

namespace SurveyBranching

/-- Why an expression could not be read as conditions of a question. -/
inductive DecodeError where
  /-- The expression is not well formed. -/
  | parse (e : ParseError)
  /-- The question's kind cannot branch. -/
  | unsupportedKind (k : QuestionKind)
  /-- A relation word that does not fit the subject or the question's selection mode. -/
  | operatorMismatch (r : Relation) (s : Subject)
  /-- No option has this value. -/
  | unknownOption (text : String)
  /-- A count that is not an integer from `0` to `2^32 - 1`. -/
  | invalidCount (l : Literal)
deriving DecidableEq, Repr

/-- The name a kind goes by in messages. -/
def QuestionKind.displayName : QuestionKind → String
  | .single => "Single"
  | .multiple => "Multiple"
  | .slider => "Slider"
  | .dropdown => "Dropdown"
  | .image => "Image"
  | .rank => "Rank"
  | .openEnded => "OpenEnded"
  | .dateTime => "DateTime"

/-- The message of a reading error. -/
def DecodeError.message : DecodeError → String
  | .parse e => e.message
  | .unsupportedKind k => "question type " ++ k.displayName ++ " does not support skip logic"
  | .operatorMismatch r s => "operator '" ++ r.word ++ "' cannot be applied to '" ++ s.render ++ "'"
  | .unknownOption t => "no option with value '" ++ t ++ "'"
  | .invalidCount l => "'" ++ l.render ++ "' is not a valid selected count"

/-- The count comparison of a comparing word; membership words compare nothing. -/
def Relation.countComparison : Relation → Option CountComparison
  | .eq => some .equal
  | .neq => some .notEqual
  | .gt => some .greater
  | .gte => some .greaterOrEqual
  | .lt => some .less
  | .lte => some .lessOrEqual
  | _ => none

/-- What a word asks of an option under a selection mode: `eq` and `neq` for a single choice,
`contains` and `notcontains` for a multiple choice. -/
def Relation.optionCheck : SelectionMode → Relation → Option OptionCheck
  | .single, .eq => some .selected
  | .single, .neq => some .notSelected
  | .multiple, .contains => some .selected
  | .multiple, .notContains => some .notSelected
  | _, _ => none

/-- The count a literal names, if it is an integer from `0` to `2^32 - 1`. -/
def Literal.count? : Literal → Option UInt32
  | .integer n => if 0 ≤ n.toInt ∧ n.toInt < 4294967296 then some (UInt32.ofNat n.toInt.toNat) else none
  | _ => none

/-- One test of an expression read against a question of the given selection mode. -/
def Question.testOf (q : Question) (mode : SelectionMode) :
    Relation × Subject × Literal → Except DecodeError Test
  | (r, .count n, v) =>
    match r.countComparison with
    | none => .error (.operatorMismatch r (.count n))
    | some c =>
      match v.count? with
      | some k => .ok (.count (some c) (some k))
      | none => .error (.invalidCount v)
  | (r, .value n, v) =>
    match r.optionCheck mode with
    | none => .error (.operatorMismatch r (.value n))
    | some check =>
      match q.options.find? (·.value == v.content) with
      | some o => .ok (.option (some o.id) (some check))
      | none => .error (.unknownOption v.content)

/-- A logical node above a test: its number in preorder and its clause. -/
abbrev Ancestor := Nat × Clause

/-- The tests of a tree from left to right, each with the logical nodes above it from the root
down, after those of `path`; the logical nodes are numbered in preorder from `next`. Also the
number after the last node. -/
def Expr.walk : Expr → Nat → List Ancestor →
    List (List Ancestor × (Relation × Subject × Literal)) × Nat
  | .test r s v, next, path => ([(path, (r, s, v))], next)
  | .logical c l r, next, path =>
    let (ls, next') := l.walk (next + 1) (path ++ [(next, c)])
    let (rs, next'') := r.walk next' (path ++ [(next, c)])
    (ls ++ rs, next'')

/-- The clause of the deepest logical node on two paths from the root: the last node of the
longest stretch from the root on which the paths agree, nodes compared by number; `and` when
they share none. -/
def sharedClause (previous current : List Ancestor) : Clause :=
  match ((previous.zip current).takeWhile fun p => p.1.1 == p.2.1).getLast? with
  | some p => p.1.2
  | none => .and

/-- The conditions of a tree's tests with their clauses, before ids are given: each test with
the clause of the deepest logical node above both it and the next test, the last with `and`. -/
def Question.testsOf (q : Question) (mode : SelectionMode) (e : Expr) :
    Except DecodeError (List (Clause × Test)) := do
  let leaves := (e.walk 0 []).1
  let tests ← leaves.mapM fun l => q.testOf mode l.2
  let paths := leaves.map (·.1)
  pure (List.zip (List.zipWith sharedClause paths paths.tail ++ [.and]) tests)

variable {σ : Type}

/-- Gives each test the next id of a supply, in order. -/
def IdSupply.name (s : IdSupply σ) : List (Clause × Test) → List Condition × IdSupply σ
  | [] => ([], s)
  | (c, t) :: rest =>
    let (id, s') := s.draw
    let (conds, s'') := s'.name rest
    (⟨id, c, t⟩ :: conds, s'')

/-- The conditions of an expression for this question, reading with the given limits, with
ids from the supply. A blank expression has no conditions; on failure no id is drawn. -/
def Question.conditionsOf (q : Question) (limits : Limits) (ids : IdSupply σ)
    (expression : String) : Except DecodeError (List Condition × IdSupply σ) :=
  if Text.isBlankText expression then .ok ([], ids)
  else
    match q.kind.selectionMode with
    | none => .error (.unsupportedKind q.kind)
    | some mode =>
      match Expr.parse limits.maxExpressionDepth expression with
      | .error e => .error (.parse e)
      | .ok e =>
        match q.testsOf mode e with
        | .error err => .error err
        | .ok tests => .ok (ids.name tests)

/-- The conditions of an expression, or none at all when it cannot be read; the supply moves
on only when it can. -/
def Question.conditionsOrNone (q : Question) (limits : Limits) (ids : IdSupply σ)
    (expression : String) : List Condition × IdSupply σ :=
  match q.conditionsOf limits ids expression with
  | .ok r => r
  | .error _ => ([], ids)

end SurveyBranching
