import SurveyBranching.Rule.Basic
/-!
# Surveys, sections and questions

A survey is a list of sections, each a list of questions. A question has a kind; the choice
kinds offer options, picked one at a time (`single`, `dropdown`) or several at a time
(`multiple`, `image`), and only they can carry branching rules.

Questions are found by id in the survey's flattened order, section after section; when two
questions share an id, the first one is meant. A survey of two or more sections branches to
sections, otherwise to questions.

## Main definitions

* `QuestionKind`, `SelectionMode`, `AnswerOption`, `Question`, `Section`, `Survey`.
* `Survey.questions`, `Survey.question?`, `Survey.position?`, `Survey.sectionIndex?`.
* `Survey.usesSections`, `Survey.targetKind`, `Question.hasRules`.
-/

namespace SurveyBranching

/-- The kinds of question. -/
inductive QuestionKind where
  | single
  | multiple
  | slider
  | dropdown
  | image
  | rank
  | openEnded
  | dateTime
deriving DecidableEq, Repr

/-- How the options of a choice question are picked. -/
inductive SelectionMode where
  | single
  | multiple
deriving DecidableEq, Repr

/-- The selection mode of a kind; the kinds without one cannot branch. -/
def QuestionKind.selectionMode : QuestionKind → Option SelectionMode
  | .single | .dropdown => some .single
  | .multiple | .image => some .multiple
  | _ => none

/-- One option of a choice question. -/
structure AnswerOption where
  id : String
  value : String
deriving DecidableEq, Repr

/-- A question. -/
structure Question where
  id : String
  kind : QuestionKind
  title : String := ""
  options : List AnswerOption := []
  rules : Option RuleSet := none
deriving DecidableEq, Repr

/-- A section: its questions are shown together. -/
structure «Section» where
  id : String
  title : Option String := none
  questions : List Question := []
deriving DecidableEq, Repr

/-- A survey. -/
structure Survey where
  id : String
  title : String := ""
  sections : List «Section»
deriving DecidableEq, Repr

/-- Whether a question carries at least one branching rule. -/
def Question.hasRules (q : Question) : Bool :=
  q.rules.any (!·.rules.isEmpty)

/-- The ids of a question's options, in order. -/
def Question.optionIds (q : Question) : List String :=
  q.options.map (·.id)

namespace Survey

/-- All questions, section after section. -/
def questions (s : Survey) : List Question :=
  s.sections.flatMap (·.questions)

/-- The first question with this id. -/
def question? (s : Survey) (id : String) : Option Question :=
  s.questions.find? (·.id == id)

/-- The 1-based place of the first question with this id among all questions. -/
def position? (s : Survey) (id : String) : Option Nat :=
  (s.questions.findIdx? (·.id == id)).map (· + 1)

/-- The index of the section holding the first question with this id. -/
def sectionIndex? (s : Survey) (id : String) : Option Nat :=
  s.sections.findIdx? fun sec => sec.questions.any (·.id == id)

/-- Whether the survey branches to sections: it has two or more. -/
def usesSections (s : Survey) : Bool :=
  s.sections.length ≥ 2

/-- What destinations name in this survey. -/
def targetKind (s : Survey) : TargetKind :=
  if s.usesSections then .section else .question

end Survey

end SurveyBranching
