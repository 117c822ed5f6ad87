import SurveyBranching.Rule.Eval
import SurveyBranching.Survey.Completion
/-!
# Previewing a survey

A preview shows the screens a respondent would see, given the answers so far. A survey of
sections has a screen per section; any other survey a screen per question, titled by the
question unless its title is empty. Each question on a screen carries its answers and
whether it counts as answered. Whether a question counts as answered, and whether it is
empty, is asked of a handler; the built-in one is `Handler.default`.

Walking the screens in order follows the jumps: a question whose rules send the respondent
elsewhere starts a jump, and every question after it is skipped pending the target, a
question or a screen of that id, comes up. Empty questions never start a jump. The preview
then drops the skipped and the empty questions, and the screens left without questions.

A screen is complete when all its questions are answered. A section screen ends at its first
question that is unanswered and has rules, since what follows depends on the answer.

## Main definitions

* `ScreenKind`, `Entry`, `Screen`.
* `Survey.screens`: the screens before anything is dropped.
* `Question.jumpTarget?`: where a question's rules send the respondent.
* `Screen.skippedIds`: the ids of the questions a walk skips.
* `Entry.stays`, `Screen.keep`, `Survey.shown`: the screens with the skipped and the empty
  questions dropped.
* `Survey.previewWith`, `Survey.preview`.
-/

namespace SurveyBranching

/-- Whether a screen shows a section or a single question. -/
inductive ScreenKind where
  | «section»
  | question
deriving DecidableEq, Repr

/-- A question on a screen, with its answers and whether it counts as answered. -/
structure Entry where
  question : Question
  answers : Option Answers
  isAnswered : Bool

/-- A screen of the preview. -/
structure Screen where
  id : String
  kind : ScreenKind
  title : Option String
  entries : List Entry
  isComplete : Bool

/-- A question on a screen, with its recorded answers and whether they count as an answer. -/
def Entry.ofQuestion (h : Handler) (answers : SurveyAnswers) (q : Question) : Entry :=
  let a := answers.get? q.id
  ⟨q, a, h.isAnswered q a⟩

/-- The screens before anything is dropped: one per section in a survey of sections, else
one per question. -/
def Survey.screens (h : Handler) (answers : SurveyAnswers) (s : Survey) : List Screen :=
  if s.usesSections then
    s.sections.map fun sec =>
      ⟨sec.id, .section, sec.title, sec.questions.map (Entry.ofQuestion h answers), false⟩
  else
    s.questions.map fun q =>
      ⟨q.id, .question, if q.title.isEmpty then none else some q.title,
        [Entry.ofQuestion h answers q], false⟩

/-- Where a question's rules send the respondent for the recorded answers, no answers counting
as none picked: the target of the destination of the last rule that matches. -/
def Question.jumpTarget? (limits : Limits) (answers : SurveyAnswers) (q : Question) :
    Option String :=
  (q.destination? limits ((answers.get? q.id).getD {})).bind (·.target)

/-- Where a walk stands: the target of the jump under way (`pending`), if any, and the ids
skipped so far, last first. -/
structure Walk where
  pending : Option String := none
  skipped : List String := []

/-- The walk past one question: reaching the jump's target ends the jump; during a jump
the question is skipped; otherwise a question that is not empty may start a jump. -/
def Walk.visit (h : Handler) (limits : Limits) (answers : SurveyAnswers) (w : Walk)
    (q : Question) : Walk :=
  let pending := if w.pending == some q.id then none else w.pending
  if pending.isSome then ⟨pending, q.id :: w.skipped⟩
  else if h.isEmpty q then ⟨pending, w.skipped⟩
  else
    match q.jumpTarget? limits answers with
    | some t => ⟨some t, w.skipped⟩
    | none => ⟨pending, w.skipped⟩

/-- The walk past one screen: entering the jump's target ends the jump. -/
def Walk.enter (h : Handler) (limits : Limits) (answers : SurveyAnswers) (w : Walk)
    (sc : Screen) : Walk :=
  let w := if w.pending == some sc.id then { w with pending := none } else w
  sc.entries.foldl (fun w e => w.visit h limits answers e.question) w

/-- The ids of the questions skipped by a walk through the screens. -/
def Screen.skippedIds (h : Handler) (limits : Limits) (answers : SurveyAnswers)
    (screens : List Screen) : List String :=
  (screens.foldl (Walk.enter h limits answers) {}).skipped

/-- A screen finished: complete when all its questions are answered, and a section screen
cut after its first question that is unanswered and has rules. -/
def Screen.finish (sc : Screen) : Screen :=
  let complete := sc.entries.all (·.isAnswered)
  let entries :=
    if sc.kind == .section then
      match sc.entries.findIdx? (fun e => !e.isAnswered && e.question.hasRules) with
      | some i => sc.entries.take (i + 1)
      | none => sc.entries
    else sc.entries
  { sc with entries := entries, isComplete := complete }

/-- Whether a question stays on its screen: it was not skipped, and it is not empty. -/
def Entry.stays (h : Handler) (skipped : List String) (e : Entry) : Bool :=
  !skipped.contains e.question.id && !h.isEmpty e.question

/-- A screen with the questions that do not stay dropped, if any question is left. -/
def Screen.keep (h : Handler) (skipped : List String) (sc : Screen) : Option Screen :=
  match sc.entries.filter (Entry.stays h skipped) with
  | [] => none
  | es => some { sc with entries := es }

/-- The screens with the questions a walk skips and the empty ones dropped, and then the
screens left without questions. -/
def Survey.shown (h : Handler) (limits : Limits) (answers : SurveyAnswers) (s : Survey) :
    List Screen :=
  let screens := s.screens h answers
  screens.filterMap (Screen.keep h (Screen.skippedIds h limits answers screens))

/-- The preview of a survey for the answers so far, asking the handler `h`. -/
def Survey.previewWith (h : Handler) (limits : Limits) (answers : SurveyAnswers) (s : Survey) :
    List Screen :=
  (s.shown h limits answers).map Screen.finish

/-- The preview of a survey for the answers so far, with the built-in handler. -/
def Survey.preview (limits : Limits) (answers : SurveyAnswers) (s : Survey) : List Screen :=
  s.previewWith Handler.default limits answers

end SurveyBranching
