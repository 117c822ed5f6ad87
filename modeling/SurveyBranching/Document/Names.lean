import SurveyBranching.Survey.Basic
/-!
# Names of words in documents

Kinds, clauses, checks, comparisons and target kinds are written in documents by snake-case
names. Each word has one name, and the tables that reading looks names up in are built from
these functions over the list of all words, so reading and writing agree.

## Main definitions

* `QuestionKind.name`, `Clause.name`, `OptionCheck.name`, `CountComparison.name`,
  `TargetKind.name`, with `all` lists of each.
-/

namespace SurveyBranching

/-- The name of a question kind. -/
def QuestionKind.name : QuestionKind → String
  | .single => "single"
  | .multiple => "multiple"
  | .slider => "slider"
  | .dropdown => "dropdown"
  | .image => "image"
  | .rank => "rank"
  | .openEnded => "open_ended"
  | .dateTime => "date_time"

/-- Every question kind. -/
def QuestionKind.all : List QuestionKind :=
  [.single, .multiple, .slider, .dropdown, .image, .rank, .openEnded, .dateTime]

/-- The name of a clause. -/
def Clause.name : Clause → String
  | .and => "and"
  | .or => "or"

/-- Every clause. -/
def Clause.all : List Clause :=
  [.and, .or]

/-- The name of an option check. -/
def OptionCheck.name : OptionCheck → String
  | .selected => "selected"
  | .notSelected => "not_selected"

/-- Every option check. -/
def OptionCheck.all : List OptionCheck :=
  [.selected, .notSelected]

/-- The name of a count comparison. -/
def CountComparison.name : CountComparison → String
  | .equal => "equal"
  | .notEqual => "not_equal"
  | .greater => "greater"
  | .greaterOrEqual => "greater_or_equal"
  | .less => "less"
  | .lessOrEqual => "less_or_equal"

/-- Every count comparison. -/
def CountComparison.all : List CountComparison :=
  [.equal, .notEqual, .greater, .greaterOrEqual, .less, .lessOrEqual]

/-- The name of a target kind. -/
def TargetKind.name : TargetKind → String
  | .question => "question"
  | .section => "section"

/-- Every target kind. -/
def TargetKind.all : List TargetKind :=
  [.question, .section]

end SurveyBranching
