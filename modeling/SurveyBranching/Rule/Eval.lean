import SurveyBranching.Survey.Basic
import SurveyBranching.Answer
import SurveyBranching.Limits
/-!
# Evaluating rules

A condition holds for a question's answers when its test is complete and true: an option
check asks whether that option was picked, a count comparison compares the number of
options picked with its count. An incomplete or empty test never holds.

A rule lays its conditions out as the sequence `v₀ c₀ v₁ c₁ … vₙ` of truth values and clauses,
each `cᵢ` the clause of condition `i`. It first joins around `and`: while an `and` is left, the
first one and the values on both sides of it are replaced by their conjunction. Then it joins
around `or` in the same way, and one value must be left. Each phase may make at most
`maxReductionIterations` joins and fails past that; a clause without a value on one of its
sides fails too. A rule with no conditions has nothing to reduce to and fails.

A question's rules are tried from the last to the first, and the first one that holds
decides where to go; a rule that fails counts as not holding.

## Main definitions

* `Condition.holds`, `ReductionError`.
* `Item`, `Item.collapse`, `Item.reduce`: the reduction of a sequence.
* `Chain`, `Rule.chain?`, `Rule.sequence`, `Rule.matches`: the sequence of a rule.
* `Question.firstMatch?`, `Question.destination?`.
-/

namespace SurveyBranching

/-- Whether a condition holds for the answers to its question. -/
def Condition.holds (a : Answers) (c : Condition) : Bool :=
  match c.test with
  | .option (some oid) (some .selected) => a.isSelected oid
  | .option (some oid) (some .notSelected) => !a.isSelected oid
  | .count (some cmp) (some k) => cmp.holds a.selectedCount k.toNat
  | _ => false

/-- Why a rule's conditions could not be reduced to one truth value. -/
inductive ReductionError where
  /-- A phase needed more joins than the limit. -/
  | iterationCapExceeded (limit : Nat)
  /-- The clause at this place of the sequence has no truth value on one of its sides. -/
  | missingOperand (position : Nat)
  /-- Nothing, or more than one item, was left. -/
  | notSingle (items : Nat)
deriving DecidableEq, Repr

/-- The message of a reduction error. -/
def ReductionError.message : ReductionError → String
  | .iterationCapExceeded n => "reduction exceeded " ++ toString n ++ " iterations"
  | .missingOperand p => "clause at position " ++ toString p ++ " is missing an operand"
  | .notSingle n => "reduction ended with " ++ toString n ++ " items instead of one boolean"

/-- How a clause joins two truth values. -/
def Clause.combine : Clause → Bool → Bool → Bool
  | .and, a, b => a && b
  | .or, a, b => a || b

/-- One item of the sequence a rule reduces: a truth value or a clause. -/
inductive Item where
  | value (b : Bool)
  | clause (c : Clause)
deriving DecidableEq, Repr

namespace Item

/-- One phase, `count` joins having been made: while the sequence holds the clause `op`, its
first one and the truth values on both sides of it are replaced by their join. Fails at the
join past `limit`, and where that clause lacks a truth value on either side. -/
def collapse (op : Clause) (limit : Nat) (count : Nat) (seq : List Item) :
    Except ReductionError (List Item) :=
  match seq.findIdx? (· == .clause op) with
  | none => .ok seq
  | some p =>
    if count ≥ limit then .error (.iterationCapExceeded limit)
    else if h : 0 < p ∧ p + 1 < seq.length then
      match seq.get ⟨p - 1, by omega⟩, seq.get ⟨p + 1, h.2⟩ with
      | .value l, .value r =>
        collapse op limit (count + 1)
          (seq.take (p - 1) ++ .value (op.combine l r) :: seq.drop (p + 2))
      | _, _ => .error (.missingOperand p)
    else .error (.missingOperand p)
termination_by seq.length
decreasing_by simp only [List.length_append, List.length_take, List.length_cons,
  List.length_drop]; omega

/-- The truth value of a sequence: the `and` phase, then the `or` phase, then one truth value
must be left. -/
def reduce (limit : Nat) (seq : List Item) : Except ReductionError Bool := do
  let seq ← collapse .and limit 0 seq
  let seq ← collapse .or limit 0 seq
  match seq with
  | [.value v] => pure v
  | rest => throw (.notSingle rest.length)

end Item

/-- Truth values joined by clauses: the first value, then each clause with the value after
it. -/
abbrev Chain := Bool × List (Clause × Bool)

/-- The sequence of a chain: its first value, then each clause followed by the value after
it. -/
def Chain.items (ch : Chain) : List Item :=
  .value ch.1 :: ch.2.flatMap fun p => [.clause p.1, .value p.2]

/-- The chain of a rule's conditions: their truth values, each after the first preceded by
the clause of the condition before it. -/
def Rule.chain? (a : Answers) (r : Rule) : Option Chain :=
  match r.conditions with
  | [] => none
  | c :: cs => some (c.holds a, List.zip ((c :: cs).map (·.clause)) (cs.map (·.holds a)))

/-- The sequence a rule reduces; empty for a rule with no conditions. -/
def Rule.sequence (a : Answers) (r : Rule) : List Item :=
  match r.chain? a with
  | none => []
  | some ch => ch.items

/-- Whether a rule's conditions hold, each reduction phase allowed `limit` joins. -/
def Rule.matches (limit : Nat) (a : Answers) (r : Rule) : Except ReductionError Bool :=
  Item.reduce limit (r.sequence a)

/-- Whether a rule holds; a rule that cannot be reduced does not. -/
def Rule.holds (limit : Nat) (a : Answers) (r : Rule) : Bool :=
  match r.matches limit a with
  | .ok b => b
  | .error _ => false

/-- The rule that decides where to go after a question: the last one that holds. -/
def Question.firstMatch? (limits : Limits) (a : Answers) (q : Question) : Option Rule :=
  q.rules.bind fun rs => rs.rules.reverse.find? (·.holds limits.maxReductionIterations a)

/-- Where to go after a question, if one of its rules holds. -/
def Question.destination? (limits : Limits) (a : Answers) (q : Question) : Option Destination :=
  (q.firstMatch? limits a).map (·.destination)

end SurveyBranching
