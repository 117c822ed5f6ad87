import SurveyBranching.Expr.Conditions
/-!
# Writing conditions as an expression

The conditions of a rule are written as one prefix expression for storage. Each complete
condition becomes a test: an option check as `eq`/`neq` (single choice) or
`contains`/`notcontains` (multiple choice) of `val<seq>` and the option's value, quoted; a
count as its comparison of `cnt<seq>` and the count. Empty and incomplete conditions, and
option checks naming no option of the question, are left out. A question kind that cannot
branch writes nothing.

The tests that are kept first form an infix sequence: between two of them stands the clause of
the first. The sequence is then put in prefix order by reading it from right to left with a
stack of clauses: a test goes to the output, a clause first moves to the output every clause
on the stack that binds strictly tighter than itself (`and` binds tighter than `or`) and then
goes on the stack. What is left on the stack follows, and the output is read backwards.

## Main definitions

* `Question.testExpr?`: the test a condition writes, if any.
* `InfixWord`, `Question.infixWords`: the infix sequence of a rule's conditions.
* `Clause.precedence`, `Prefixing`, `infixToPrefix`: the stack that puts it in prefix order.
* `Question.expressionOf`: the stored expression of some conditions.
-/

namespace SurveyBranching

/-- The word that asks for an option check under a selection mode. -/
def OptionCheck.relation : SelectionMode → OptionCheck → Relation
  | .single, .selected => .eq
  | .single, .notSelected => .neq
  | .multiple, .selected => .contains
  | .multiple, .notSelected => .notContains

/-- The word of a count comparison. -/
def CountComparison.relation : CountComparison → Relation
  | .equal => .eq
  | .notEqual => .neq
  | .greater => .gt
  | .greaterOrEqual => .gte
  | .less => .lt
  | .lessOrEqual => .lte

/-- The test a condition writes for the question in place `seq`, if it is complete and names
an option of the question. -/
def Question.testExpr? (q : Question) (mode : SelectionMode) (seq : UInt32) (c : Condition) :
    Option Expr :=
  match c.test with
  | .option (some oid) (some check) =>
    (q.options.find? (·.id == oid)).map fun o =>
      .test (check.relation mode) (.value seq) (.text o.value)
  | .count (some cmp) (some k) =>
    some (.test cmp.relation (.count seq) (.integer (Int64.ofNat k.toNat)))
  | _ => none

/-- A word of the infix form of a rule: the text of a test, or a clause between two tests. -/
inductive InfixWord where
  | operand (text : String)
  | operator (c : Clause)
deriving DecidableEq, Repr

/-- The infix form of conditions: the text of each test that is written, and before each one
after the first the clause of the last condition written before it, held in `pending`. -/
def Question.infixWords (q : Question) (mode : SelectionMode) (seq : UInt32) :
    Option Clause → List Condition → List InfixWord
  | _, [] => []
  | pending, c :: rest =>
    match q.testExpr? mode seq c with
    | none => q.infixWords mode seq pending rest
    | some e =>
      pending.toList.map .operator ++ .operand e.render :: q.infixWords mode seq (some c.clause) rest

/-- How tightly a clause binds: `and` tighter than `or`. -/
def Clause.precedence : Clause → Nat
  | .and => 2
  | .or => 1

/-- The state of the conversion to prefix form: the stack of clauses, top first, and the
output so far, the word written last first. -/
structure Prefixing where
  operators : List Clause
  output : List String
deriving DecidableEq, Repr

/-- Moves to the output, top first, every clause on the stack that binds strictly tighter than
`c`; stops at the first one that does not. -/
def Prefixing.popTighter (c : Clause) : List Clause → List String → List Clause × List String
  | [], out => ([], out)
  | top :: ops, out =>
    if c.precedence < top.precedence then popTighter c ops (top.word :: out)
    else (top :: ops, out)

/-- One word of the infix form, the words being read from right to left. -/
def Prefixing.step (st : Prefixing) : InfixWord → Prefixing
  | .operand t => ⟨st.operators, t :: st.output⟩
  | .operator c =>
    let (ops, out) := popTighter c st.operators st.output
    ⟨c :: ops, out⟩

/-- The words of an infix form in prefix order: the words are read from right to left, then
the clauses left on the stack are written, top first, and the output is read backwards. -/
def infixToPrefix (ws : List InfixWord) : List String :=
  let st := ws.reverse.foldl Prefixing.step ⟨[], []⟩
  st.operators.foldl (fun out c => c.word :: out) st.output

/-- The stored expression of conditions of this question, its tests naming the question in
place `seq`: the prefix words of their infix form, joined by single spaces. Empty when
nothing is written. -/
def Question.expressionOf (q : Question) (seq : UInt32) (conds : List Condition) : String :=
  match q.kind.selectionMode with
  | none => ""
  | some mode => " ".intercalate (infixToPrefix (q.infixWords mode seq none conds))

end SurveyBranching
