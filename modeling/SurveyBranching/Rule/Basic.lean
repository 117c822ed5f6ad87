/-!
# Rules, conditions and destinations

A question may carry branching rules. A rule is a list of conditions and a destination: when
the conditions hold for the respondent's answers, the survey continues at the destination
instead of the next question. Each condition tests one thing about the answers to its own
question (whether one option was picked, or how many were) and says by its clause how it
joins the condition after it.

A condition being edited may be incomplete: its option or count may be missing. Such a
condition never holds and is left out when a rule is written as an expression, so the test
keeps each part optional.

## Main definitions

* `Clause`: `and` or `or`, joining a condition to the next.
* `OptionCheck`, `CountComparison`: what is tested.
* `Test`, `Condition`, `Destination`, `Rule`, `RuleSet`.
-/

namespace SurveyBranching

/-- How a condition joins the one after it. `and` binds tighter than `or`. -/
inductive Clause where
  | and
  | or
deriving DecidableEq, Repr, Inhabited

/-- Whether an option must have been picked or must not. -/
inductive OptionCheck where
  | selected
  | notSelected
deriving DecidableEq, Repr

/-- How the number of options picked is compared with a count. -/
inductive CountComparison where
  | equal
  | notEqual
  | greater
  | greaterOrEqual
  | less
  | lessOrEqual
deriving DecidableEq, Repr

/-- `actual` compared with `expected`. -/
def CountComparison.holds : CountComparison → Nat → Nat → Bool
  | .equal, a, e => a == e
  | .notEqual, a, e => a != e
  | .greater, a, e => decide (a > e)
  | .greaterOrEqual, a, e => decide (a ≥ e)
  | .less, a, e => decide (a < e)
  | .lessOrEqual, a, e => decide (a ≤ e)

/-- What a condition tests; the parts of a test being edited may be missing. -/
inductive Test where
  /-- A placeholder that tests nothing. -/
  | empty
  /-- Whether the option with this id was picked, or was not. -/
  | option (optionId : Option String) (check : Option OptionCheck)
  /-- How the number of options picked compares with `count`. -/
  | count (comparison : Option CountComparison) (count : Option UInt32)
deriving DecidableEq, Repr

/-- One condition of a rule: its id, how it joins the next condition, and its test. -/
structure Condition where
  id : String
  clause : Clause := .and
  test : Test
deriving DecidableEq, Repr

/-- Whether a destination names a question or a section. -/
inductive TargetKind where
  | question
  | «section»
deriving DecidableEq, Repr

/-- Where a rule sends the respondent. Both parts may be missing while the rule is edited. -/
structure Destination where
  kind : Option TargetKind := none
  target : Option String := none
deriving DecidableEq, Repr

/-- A branching rule: when its conditions hold, go to its destination. -/
structure Rule where
  id : String
  conditions : List Condition
  destination : Destination := {}
deriving DecidableEq, Repr

/-- The branching rules of one question, in the order they were written. -/
structure RuleSet where
  rules : List Rule
deriving DecidableEq, Repr

/-- A test that tests nothing. -/
def Test.isEmpty : Test → Bool
  | .empty => true
  | _ => false

/-- A rule with nothing in it: every condition empty and no destination target. -/
def Rule.isBlank (r : Rule) : Bool :=
  r.conditions.all (·.test.isEmpty) && r.destination.target.isNone

end SurveyBranching
