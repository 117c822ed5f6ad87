import SurveyBranching.Survey.Basic
import SurveyBranching.Answer
import SurveyBranching.Text.Blank
/-!
# Answered and empty questions

A choice question counts as answered once an option was picked. Any other question counts
as answered once it has a picked option, a number, or a text that is not blank. A question
with no answers at all is not answered.

A question is empty when its title and all its option values are blank; an empty question
is shown to nobody and never starts a jump.

## Main definitions

* `Answer.fills`, `Question.isAnswered`, `Question.isEmpty`.
* `Handler`, `Handler.default`: what the preview asks of the widgets that show questions.
-/

namespace SurveyBranching

/-- Whether an answer fills a question that offers no choice. -/
def Answer.fills : Answer → Bool
  | .text s => !Text.isBlankText s
  | .number _ | .selected => true
  | .notSelected => false

/-- Whether a question counts as answered. -/
def Question.isAnswered (q : Question) : Option Answers → Bool
  | none => false
  | some a =>
    if q.kind.selectionMode.isSome then a.values.any Answer.isSelected
    else a.values.any Answer.fills

/-- Whether a question has a blank title and only blank option values. -/
def Question.isEmpty (q : Question) : Bool :=
  Text.isBlankText q.title && q.options.all (Text.isBlankText ·.value)

/-- What the preview asks of the widgets that show questions: whether recorded answers count
as an answer to a question, and whether a question has no content yet. -/
structure Handler where
  isAnswered : Question → Option Answers → Bool
  isEmpty : Question → Bool

/-- The handler of the built-in question kinds. -/
def Handler.default : Handler :=
  ⟨Question.isAnswered, Question.isEmpty⟩

end SurveyBranching
