import SurveyBranching.Survey.Edit
import SurveyBranching.Survey.Maintain
import SurveyBranching.Survey.Split
import SurveyBranching.Survey.Preview
import SurveyBranching.Rule.Stored
/-!
# Editing sessions

An editing session holds one survey, one supply of fresh ids and the limits, and applies
steps to them one after another: edits of the survey, and the checks an editor runs between
edits (maintenance, splitting, the stored form, evaluation, the preview, the allowed
destinations and counts). A step that fails leaves the session as it was.

## Main definitions

* `Step`, `StepResult`, `Session`, `Session.step`.
-/

namespace SurveyBranching

/-- One step of an editing session. -/
inductive Step where
  | maintain
  | autoSplit (recompute : Bool)
  | removeOption (qid oid : String)
  | addOption (qid : String) (o : AnswerOption)
  | setOptionValue (qid oid value : String)
  | setTitle (qid title : String)
  | setKind (qid : String) (k : QuestionKind)
  | removeQuestion (qid : String)
  | addQuestion (sectionIndex : Nat) (q : Question) (pos : Option Nat)
  | moveQuestion (qid : String) (sectionIndex : Nat) (pos : Option Nat)
  | addSection (sec : «Section») (pos : Option Nat)
  | removeSection (sectionIndex : Nat)
  | mergeSections (sectionIndex : Nat)
  | restoreRules (qid : String) (stored : StoredRules)
  | setRules (qid : String) (rs : Option RuleSet)
  | store (qid : String)
  | evaluate (qid : String) (answers : Answers)
  | preview (answers : SurveyAnswers)
  | allowedDestinations (qid : String)
  | allowedCounts (qid : String) (cmp : Option CountComparison)

/-- What a step answers besides the new survey. -/
inductive StepResult where
  | nothing
  | count (n : Nat)
  | split (o : SplitOutcome)
  | ruleSet (rs : RuleSet)
  | stored (st : Option StoredRules)
  | matched (r : Option Rule)
  | screens (scs : List Screen)
  | targets (ts : List Target)
  | counts (ns : List Nat)

/-- A session: the survey as edited so far, the id supply, and the limits. -/
structure Session (σ : Type) where
  survey : Survey
  ids : IdSupply σ
  limits : Limits

namespace Session

variable {σ : Type}

/-- The session with a new survey. -/
def withSurvey (st : Session σ) (s : Survey) : Session σ :=
  { st with survey := s }

/-- Applies one step; a failing step changes nothing. -/
def step (st : Session σ) : Step → Except EditError (StepResult × Session σ)
  | .maintain => .ok (.nothing, st.withSurvey st.survey.maintain)
  | .autoSplit recompute =>
    let (o, s, ids) := st.survey.autoSplit st.ids recompute
    .ok (.split o, { st with survey := s, ids := ids })
  | .removeOption qid oid => do
    let (n, s) ← st.survey.removeOption qid oid
    pure (.count n, st.withSurvey s)
  | .addOption qid o => do
    pure (.nothing, st.withSurvey (← st.survey.addOption qid o))
  | .setOptionValue qid oid v => do
    let (n, s) ← st.survey.setOptionValue qid oid v
    pure (.count n, st.withSurvey s)
  | .setTitle qid t => do
    pure (.nothing, st.withSurvey (← st.survey.setTitle qid t))
  | .setKind qid k => do
    pure (.nothing, st.withSurvey (← st.survey.setKind qid k))
  | .removeQuestion qid => do
    pure (.nothing, st.withSurvey (← st.survey.removeQuestion qid))
  | .addQuestion i q pos => do
    pure (.nothing, st.withSurvey (← st.survey.addQuestion i q pos))
  | .moveQuestion qid i pos => do
    pure (.nothing, st.withSurvey (← st.survey.moveQuestion qid i pos))
  | .addSection sec pos => .ok (.nothing, st.withSurvey (st.survey.addSection sec pos))
  | .removeSection i => do
    pure (.nothing, st.withSurvey (← st.survey.removeSection i))
  | .mergeSections i => do
    pure (.nothing, st.withSurvey (← st.survey.mergeSections i))
  | .restoreRules qid stored => do
    let q ← st.survey.findQuestion qid
    let (rs, ids) := q.restore st.limits st.ids stored.rules
    let s ← st.survey.setRules qid (some rs)
    pure (.ruleSet rs, { st with survey := s, ids := ids })
  | .setRules qid rs => do
    pure (.nothing, st.withSurvey (← st.survey.setRules qid rs))
  | .store qid => do
    let _ ← st.survey.findQuestion qid
    pure (.stored (st.survey.stored? qid), st)
  | .evaluate qid a => do
    let q ← st.survey.findQuestion qid
    pure (.matched (q.firstMatch? st.limits a), st)
  | .preview a => .ok (.screens (st.survey.preview st.limits a), st)
  | .allowedDestinations qid => .ok (.targets (st.survey.allowedDestinations qid), st)
  | .allowedCounts qid cmp => do
    let q ← st.survey.findQuestion qid
    pure (.counts (q.allowedCounts cmp), st)

end Session

end SurveyBranching
