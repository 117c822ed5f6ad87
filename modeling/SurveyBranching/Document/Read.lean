import SurveyBranching.Json.Basic
import SurveyBranching.Number.Double
import SurveyBranching.Document.Names
import SurveyBranching.Answer
import SurveyBranching.Limits
import SurveyBranching.Rule.Stored
/-!
# Reading the data model from JSON

The JSON form of each record is an object with one member per field, named in snake case.
The rules for a field:

* a required field must be present;
* a field with a default takes it only when absent: a `null` does not count as absent, and a
  text or a list refuses it;
* an optional field reads `null` as absent;
* a member named twice is refused, and members of other names are passed over, except in
  the limits, which refuse them.

Words (kinds, clauses, checks, comparisons, target kinds) are written as strings, or as an
object with a single member whose name is the word and whose value is `null`. An answer
names its kind in `kind` and carries a text or number in `value`; written as a pair, the
kind is a string.

A condition carries its test beside its own fields `id` and `clause`, the member `type`
naming the kind of test. Those other members are kept whole before the kind is known, so
they must have a value throughout and nest no deeper than `depthLimit` allows; among them
the kind may also be given by its index in the list of kinds, and a word's object may hold
an empty object instead of `null`. An answer whose `value` comes before its `kind` is kept
whole the same way. Every other member of an unknown name is passed over unread.

Counts are integers from `0` to `2^32 - 1`, limits integers from `0` to `2^64 - 1`, numbers
any integer or double.

## Main definitions

* `Document.Fields`: field access by these rules.
* `Document.depthLimit`: how deep a document may nest where it is kept whole.
* `Document.survey`, `Document.question`, `Document.ruleSet`, `Document.conditions`,
  `Document.storedRules`, `Document.answers`, `Document.surveyAnswers`, `Document.limits`,
  and the readers of their parts.
-/

namespace SurveyBranching.Document

/-! ## Fields -/

/-- The members of an object. -/
abbrev Fields := List (String × Json)

/-- The members of an object value. -/
def fields? : Json → Option Fields
  | .obj ms => some ms
  | _ => none

/-- The members of a record with these fields, in order. A record is written as an object,
or as an array of its field values in the order of the fields: a value left out at the end
is an absent field, and an array longer than the fields is refused. -/
def record? (names : List String) : Json → Option Fields
  | .obj ms => some ms
  | .arr vs => if vs.length ≤ names.length then some (names.zip vs) else none
  | _ => none

/-- The value of a field named at most once: `some none` when absent, `none` when named
twice. -/
def once (ms : Fields) (k : String) : Option (Option Json) :=
  match Json.lookupAll ms k with
  | [] => some none
  | [v] => some (some v)
  | _ => none

/-- A field that must be present. -/
def required {α : Type} (ms : Fields) (k : String) (read : Json → Option α) : Option α := do
  match ← once ms k with
  | none => none
  | some v => read v

/-- A field with a default, taken only when the field is absent. -/
def withDefault {α : Type} (ms : Fields) (k : String) (d : α) (read : Json → Option α) :
    Option α := do
  match ← once ms k with
  | none => some d
  | some v => read v

/-- An optional field: absent or `null` is `none`. -/
def optional {α : Type} (ms : Fields) (k : String) (read : Json → Option α) :
    Option (Option α) := do
  match ← once ms k with
  | none => some none
  | some .null => some none
  | some v => (read v).map some

/-- The most containers that may enclose a part of a document that is kept whole. -/
def depthLimit : Nat := 127

/-- Whether a value may be kept whole when `depth` containers enclose it: every part of it
has a value, and its containers stay within `depthLimit`. -/
def keepable (depth : Nat) (v : Json) : Bool :=
  v.readable && depth + v.nesting ≤ depthLimit

/-- A list of values each read the same way. -/
def list {α : Type} (read : Json → Option α) : Json → Option (List α)
  | .arr items => items.mapM read
  | _ => none

/-! ## Scalars -/

/-- A text. -/
def text : Json → Option String
  | .str s => some s
  | _ => none

/-- A count: an integer from `0` to `2^32 - 1`. -/
def count : Json → Option UInt32
  | .int n => if 0 ≤ n ∧ n < 4294967296 then some (UInt32.ofNat n.toNat) else none
  | _ => none

/-- A size: an integer from `0` to `2^64 - 1`. -/
def size : Json → Option Nat
  | .int n => if 0 ≤ n ∧ n < 18446744073709551616 then some n.toNat else none
  | _ => none

/-- A boolean. -/
def flag : Json → Option Bool
  | .bool b => some b
  | _ => none

/-- A number: an integer is taken to the nearest double. -/
def number : Json → Option Float
  | .float x => some x
  | .int n => some (if n < 0 then -Double.ofNat n.natAbs else Double.ofNat n.natAbs)
  | _ => none

/-- A word from a table: the string itself, or an object whose single member is named by
the word and holds `null`. -/
def word {α : Type} (table : List (String × α)) : Json → Option α
  | .str s => table.lookup s
  | .obj [(s, .null)] => table.lookup s
  | _ => none

/-- A word from a table among the members of a condition: as `word`, and also an object
whose single member is named by the word and holds an empty object. -/
def keptWord {α : Type} (table : List (String × α)) : Json → Option α
  | .obj [(s, .obj [])] => table.lookup s
  | v => word table v

/-- A word of a table as a string, and nothing else. -/
def name {α : Type} (table : List (String × α)) : Json → Option α
  | .str s => table.lookup s
  | _ => none

/-- A kind tag among the members of a condition: the string naming it, or its index in the
table. -/
def tag {α : Type} (table : List (String × α)) : Json → Option α
  | .int n => if 0 ≤ n then (table.map (·.2))[n.toNat]? else none
  | v => name table v

/-! ## Words -/

/-- The question kinds by name. -/
def kinds : List (String × QuestionKind) :=
  QuestionKind.all.map fun k => (k.name, k)

/-- The clauses by name. -/
def clauses : List (String × Clause) :=
  Clause.all.map fun c => (c.name, c)

/-- The option checks by name. -/
def optionChecks : List (String × OptionCheck) :=
  OptionCheck.all.map fun c => (c.name, c)

/-- The count comparisons by name. -/
def countComparisons : List (String × CountComparison) :=
  CountComparison.all.map fun c => (c.name, c)

/-- The target kinds by name. -/
def targetKinds : List (String × TargetKind) :=
  TargetKind.all.map fun k => (k.name, k)

/-! ## Records -/

/-- An option. -/
def answerOption (v : Json) : Option AnswerOption := do
  let ms ← record? ["id", "value"] v
  pure ⟨← required ms "id" text, ← required ms "value" text⟩

/-- A destination. -/
def destination (v : Json) : Option Destination := do
  let ms ← record? ["target_type", "target_id"] v
  pure ⟨← optional ms "target_type" (word targetKinds), ← optional ms "target_id" text⟩

/-- The kinds of test, in order. -/
inductive TestKind where
  | empty
  | option
  | count

/-- The kinds of test by name. -/
def testKinds : List (String × TestKind) :=
  [("empty", .empty), ("specific_option", .option), ("selected_count", .count)]

/-- A condition enclosed by `depth` containers: its id and clause, and beside them the
test, named by `type`. The members other than `id` and `clause` are kept whole; the fields
of another kind of test are passed over. -/
def conditionIn (depth : Nat) (v : Json) : Option Condition := do
  let ms ← fields? v
  if !ms.all (fun (k, x) => k == "id" || k == "clause" || keepable (depth + 1) x) then none
  let id ← required ms "id" text
  let clause ← withDefault ms "clause" .and (word clauses)
  let test ← match ← required ms "type" (tag testKinds) with
    | .empty => some Test.empty
    | .option =>
      pure (.option (← optional ms "option_id" text) (← optional ms "option_condition" (keptWord optionChecks)))
    | .count =>
      pure (.count (← optional ms "count_condition" (keptWord countComparisons)) (← optional ms "count" count))
  pure ⟨id, clause, test⟩

/-- A condition. -/
def condition : Json → Option Condition :=
  conditionIn 0

/-- A list of conditions enclosed by `depth` containers. -/
def conditionsIn (depth : Nat) : Json → Option (List Condition) :=
  list (conditionIn (depth + 1))

/-- A list of conditions. -/
def conditions : Json → Option (List Condition) :=
  conditionsIn 0

/-- A rule enclosed by `depth` containers. -/
def ruleIn (depth : Nat) (v : Json) : Option Rule := do
  let ms ← record? ["id", "conditions", "destination"] v
  pure ⟨← required ms "id" text, ← required ms "conditions" (conditionsIn (depth + 1)),
    ← withDefault ms "destination" {} destination⟩

/-- A rule. -/
def rule : Json → Option Rule :=
  ruleIn 0

/-- The branching rules of a question, enclosed by `depth` containers. -/
def ruleSetIn (depth : Nat) (v : Json) : Option RuleSet := do
  let ms ← record? ["rules"] v
  pure ⟨← required ms "rules" (list (ruleIn (depth + 2)))⟩

/-- The branching rules of a question. -/
def ruleSet : Json → Option RuleSet :=
  ruleSetIn 0

/-- A question enclosed by `depth` containers; its kind is the member `type`, its options
the member `answers`, its rules the member `skip_logic`. -/
def questionIn (depth : Nat) (v : Json) : Option Question := do
  let ms ← record? ["id", "type", "title", "answers", "skip_logic"] v
  pure ⟨← required ms "id" text, ← required ms "type" (word kinds),
    ← withDefault ms "title" "" text, ← withDefault ms "answers" [] (list answerOption),
    ← optional ms "skip_logic" (ruleSetIn (depth + 1))⟩

/-- A question. -/
def question : Json → Option Question :=
  questionIn 0

/-- A section enclosed by `depth` containers. -/
def sectionIn (depth : Nat) (v : Json) : Option «Section» := do
  let ms ← record? ["id", "title", "questions"] v
  pure ⟨← required ms "id" text, ← optional ms "title" text,
    ← withDefault ms "questions" [] (list (questionIn (depth + 2)))⟩

/-- A section. -/
def «section» : Json → Option «Section» :=
  sectionIn 0

/-- A survey enclosed by `depth` containers. -/
def surveyIn (depth : Nat) (v : Json) : Option Survey := do
  let ms ← record? ["id", "title", "sections"] v
  pure ⟨← required ms "id" text, ← withDefault ms "title" "" text,
    ← required ms "sections" (list (sectionIn (depth + 2)))⟩

/-- A survey. -/
def survey : Json → Option Survey :=
  surveyIn 0

/-- A stored rule. -/
def storedRule (v : Json) : Option StoredRule := do
  let ms ← record? ["id", "expression", "destination"] v
  pure ⟨← optional ms "id" text, ← required ms "expression" text,
    ← withDefault ms "destination" {} destination⟩

/-- Stored rules. -/
def storedRules (v : Json) : Option StoredRules := do
  let ms ← record? ["rules"] v
  pure ⟨← required ms "rules" (list storedRule)⟩

/-! ## Answers -/

/-- The kinds of answer, in order. -/
inductive AnswerKind where
  | selected
  | notSelected
  | text
  | number

/-- The kinds of answer by name. -/
def answerKinds : List (String × AnswerKind) :=
  [("selected", .selected), ("not_selected", .notSelected), ("text", .text), ("number", .number)]

/-- One answer enclosed by `depth` containers: its kind in `kind`, a word, and its text or
number in `value`; or the pair of both as an array, the kind then a string. A kind without a
value allows `value` only as `null`. A `value` that comes before the `kind` is kept whole. -/
def answerIn (depth : Nat) (v : Json) : Option Answer := do
  let ms ← match v with
    | .arr [.str k, x] => some [("kind", .str k), ("value", x)]
    | .arr _ => none
    | v => fields? v
  let valueFirst := (ms.map (·.1)).dropWhile (· != "value") |>.contains "kind"
  if valueFirst && !((Json.lookupAll ms "value").all (keepable (depth + 1))) then none
  let noValue : Option Unit := do
    match ← once ms "value" with
    | none | some .null => some ()
    | some _ => none
  match ← required ms "kind" (word answerKinds) with
  | .selected => noValue.map fun _ => .selected
  | .notSelected => noValue.map fun _ => .notSelected
  | .text => (required ms "value" text).map .text
  | .number => (required ms "value" number).map .number

/-- One answer. -/
def answer : Json → Option Answer :=
  answerIn 0

/-- A map from text keys, its values enclosed by one more container than the map; a later
member of a key replaces an earlier one. -/
def keyed {α : Type} (read : Nat → Json → Option α) (depth : Nat) (v : Json) :
    Option (Keyed α) := do
  let ms ← fields? v
  let entries ← ms.mapM fun (k, x) => (read (depth + 1) x).map (k, ·)
  pure (Keyed.ofList entries)

/-- The answers to one question, by option id, enclosed by `depth` containers. -/
def answersIn (depth : Nat) : Json → Option Answers :=
  keyed answerIn depth

/-- The answers to one question, by option id. -/
def answers : Json → Option Answers :=
  answersIn 0

/-- The answers to a survey, by question id, enclosed by `depth` containers. -/
def surveyAnswersIn (depth : Nat) : Json → Option SurveyAnswers :=
  keyed answersIn depth

/-- The answers to a survey, by question id. -/
def surveyAnswers : Json → Option SurveyAnswers :=
  surveyAnswersIn 0

/-! ## Limits -/

/-- The limits: both members optional, no other member allowed. -/
def limits (v : Json) : Option Limits := do
  let ms ← record? ["max_reduction_iterations", "max_expression_depth"] v
  if ms.all (fun m => m.1 == "max_reduction_iterations" || m.1 == "max_expression_depth") then
    pure ⟨← withDefault ms "max_reduction_iterations" 50 size,
      ← withDefault ms "max_expression_depth" 1024 size⟩
  else none

end SurveyBranching.Document
