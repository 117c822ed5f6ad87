import SurveyBranching.Rule.Expression
/-!
# The stored form of rules

Rules are stored with each rule's conditions written as one expression. Storing leaves out
rules with nothing in them; reading a stored rule back decodes its expression against the
question, and a rule whose expression gives no conditions gets one empty condition, so that
every rule read back has at least one.

## Main definitions

* `StoredRule`, `StoredRules`.
* `Question.store`, `Survey.stored?`: rules to their stored form.
* `Question.restore`: the stored form back to rules.
-/

namespace SurveyBranching

variable {σ : Type}

/-- A rule in stored form: its id, if known, its conditions as one expression, and its
destination. -/
structure StoredRule where
  id : Option String := none
  expression : String
  destination : Destination := {}
deriving DecidableEq, Repr

/-- The stored rules of a question. -/
structure StoredRules where
  rules : List StoredRule := []
deriving DecidableEq, Repr

/-- The stored form of a question's rules, expressions naming the question in place `seq`;
rules with nothing in them are left out. -/
def Question.store (q : Question) (seq : UInt32) (rs : RuleSet) : StoredRules :=
  ⟨(rs.rules.filter (!·.isBlank)).map fun r => ⟨some r.id, q.expressionOf seq r.conditions, r.destination⟩⟩

/-- The stored form of the rules of the first question with this id, if it has rules. -/
def Survey.stored? (s : Survey) (qid : String) : Option StoredRules := do
  let q ← s.question? qid
  let rs ← q.rules
  let seq ← s.position? qid
  if seq < 4294967296 then pure (q.store (UInt32.ofNat seq) rs) else none

/-- One stored rule read back: the given id or a fresh one, drawn before the conditions; the
conditions of its expression, or one empty condition when there are none. -/
def Question.restoreRule (q : Question) (limits : Limits) (ids : IdSupply σ) (r : StoredRule) :
    Rule × IdSupply σ :=
  let (id, ids) := match r.id with
    | some id => (id, ids)
    | none => ids.draw
  let (conds, ids) := q.conditionsOrNone limits ids r.expression
  let (conds, ids) := match conds with
    | [] =>
      let (cid, ids) := ids.draw
      ([⟨cid, .and, .empty⟩], ids)
    | cs => (cs, ids)
  (⟨id, conds, r.destination⟩, ids)

/-- Stored rules read back in order, sharing one id supply. -/
def Question.restore (q : Question) (limits : Limits) (ids : IdSupply σ) :
    List StoredRule → RuleSet × IdSupply σ
  | [] => (⟨[]⟩, ids)
  | r :: rest =>
    let (rule, ids) := q.restoreRule limits ids r
    let (rs, ids) := q.restore limits ids rest
    (⟨rule :: rs.rules⟩, ids)

end SurveyBranching
