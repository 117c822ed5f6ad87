import SurveyBranching.Keyed
/-!
# Answers

What a respondent gave for one question, by option id: an option picked or explicitly not
picked, a text, or a number. Only an option marked `selected` counts as picked.

## Main definitions

* `Answer`, `Answers` (one question), `SurveyAnswers` (by question id).
* `Answers.isSelected`, `Answers.selectedCount`.
-/

namespace SurveyBranching

/-- One answer value. -/
inductive Answer where
  | selected
  | notSelected
  | text (s : String)
  | number (x : Float)
deriving Inhabited

/-- The answers to one question, by option id. -/
abbrev Answers := Keyed Answer

/-- The answers to a survey, by question id. -/
abbrev SurveyAnswers := Keyed Answers

/-- Whether an answer marks its option as picked. -/
def Answer.isSelected : Answer → Bool
  | .selected => true
  | _ => false

/-- The largest count a condition can name, `2^32 - 1`. -/
def countCeiling : Nat := 4294967295

namespace Answers

/-- Whether the option with this id was picked. -/
def isSelected (a : Answers) (optionId : String) : Bool :=
  (a.get? optionId).any Answer.isSelected

/-- How many options were picked, capped at `countCeiling`. -/
def selectedCount (a : Answers) : Nat :=
  min (a.values.countP Answer.isSelected) countCeiling

end Answers

end SurveyBranching
