import SurveyBranching.Json.Basic
import SurveyBranching.Document.Names
import SurveyBranching.Survey.Basic
import SurveyBranching.Answer
import SurveyBranching.Limits
import SurveyBranching.Survey.Maintain
import SurveyBranching.Survey.Preview
import SurveyBranching.Rule.Stored
/-!
# Writing the data model as JSON

The written form of a record has its fields in declaration order. An absent optional field
is left out, and so is an empty option list of a question; a survey's title and a
condition's clause are always written. Maps are written in key order.

## Main definitions

* `Document.ofSurvey`, `Document.ofQuestion`, `Document.ofRuleSet`, `Document.ofCondition`,
  `Document.ofAnswers`, `Document.ofLimits`, and the writers of their parts.
* `Document.ofTarget`, `Document.ofStoredRules`, `Document.ofScreen`.
-/

namespace SurveyBranching.Document

/-- The members of the fields that are present. -/
def present (ms : List (String × Option Json)) : Json :=
  .obj (ms.filterMap fun (k, v) => v.map (k, ·))

/-- A count. -/
def ofCount (n : UInt32) : Json :=
  .int n.toNat

/-- An option. -/
def ofAnswerOption (o : AnswerOption) : Json :=
  .obj [("id", .str o.id), ("value", .str o.value)]

/-- A destination. -/
def ofDestination (d : Destination) : Json :=
  present [("target_type", d.kind.map (.str ·.name)), ("target_id", d.target.map .str)]

/-- A condition: id, clause, the kind of test in `type`, then the test's fields. -/
def ofCondition (c : Condition) : Json :=
  let head : List (String × Option Json) := [("id", some (.str c.id)), ("clause", some (.str c.clause.name))]
  let test : List (String × Option Json) := match c.test with
    | .empty => [("type", some (.str "empty"))]
    | .option oid check =>
      [("type", some (.str "specific_option")), ("option_id", oid.map .str),
       ("option_condition", check.map (.str ·.name))]
    | .count cmp k =>
      [("type", some (.str "selected_count")), ("count_condition", cmp.map (.str ·.name)),
       ("count", k.map ofCount)]
  present (head ++ test)

/-- A rule. -/
def ofRule (r : Rule) : Json :=
  .obj [("id", .str r.id), ("conditions", .arr (r.conditions.map ofCondition)),
    ("destination", ofDestination r.destination)]

/-- The branching rules of a question. -/
def ofRuleSet (rs : RuleSet) : Json :=
  .obj [("rules", .arr (rs.rules.map ofRule))]

/-- A question. -/
def ofQuestion (q : Question) : Json :=
  present [("id", some (.str q.id)), ("type", some (.str q.kind.name)), ("title", some (.str q.title)),
    ("answers", if q.options.isEmpty then none else some (.arr (q.options.map ofAnswerOption))),
    ("skip_logic", q.rules.map ofRuleSet)]

/-- A section. -/
def ofSection (s : «Section») : Json :=
  present [("id", some (.str s.id)), ("title", s.title.map .str),
    ("questions", some (.arr (s.questions.map ofQuestion)))]

/-- A survey. -/
def ofSurvey (s : Survey) : Json :=
  .obj [("id", .str s.id), ("title", .str s.title), ("sections", .arr (s.sections.map ofSection))]

/-- One answer. -/
def ofAnswer : Answer → Json
  | .selected => .obj [("kind", .str "selected")]
  | .notSelected => .obj [("kind", .str "not_selected")]
  | .text s => .obj [("kind", .str "text"), ("value", .str s)]
  | .number x => .obj [("kind", .str "number"), ("value", .float x)]

/-- The answers to one question, in key order. -/
def ofAnswers (a : Answers) : Json :=
  .obj (a.entries.map fun (k, v) => (k, ofAnswer v))

/-- The limits. -/
def ofLimits (l : Limits) : Json :=
  .obj [("max_reduction_iterations", .int l.maxReductionIterations),
    ("max_expression_depth", .int l.maxExpressionDepth)]

/-- A place a rule may jump to. -/
def ofTarget (t : Target) : Json :=
  present [("target_type", some (.str t.kind.name)), ("id", some (.str t.id)), ("title", t.title.map .str)]

/-- A stored rule. -/
def ofStoredRule (r : StoredRule) : Json :=
  present [("id", r.id.map .str), ("expression", some (.str r.expression)),
    ("destination", some (ofDestination r.destination))]

/-- Stored rules. -/
def ofStoredRules (rs : StoredRules) : Json :=
  .obj [("rules", .arr (rs.rules.map ofStoredRule))]

/-- The name of a screen kind. -/
def screenKindName : ScreenKind → String
  | .section => "section"
  | .question => "question"

/-- A question on a screen. -/
def ofEntry (e : Entry) : Json :=
  present [("question", some (ofQuestion e.question)), ("preview_answer", e.answers.map ofAnswers),
    ("is_answered", some (.bool e.isAnswered))]

/-- A screen. -/
def ofScreen (sc : Screen) : Json :=
  present [("id", some (.str sc.id)), ("kind", some (.str (screenKindName sc.kind))), ("title", sc.title.map .str),
    ("questions", some (.arr (sc.entries.map ofEntry))), ("is_complete", some (.bool sc.isComplete))]

end SurveyBranching.Document
