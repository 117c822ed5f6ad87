import SurveyBranching.Survey.Basic
import SurveyBranching.Ids
/-!
# Splitting sections at branching questions

A jump leaves a section only at its end, so a question with rules should end its section.
Splitting cuts each section after every question with rules and after its last question:
the first piece keeps the section's id and title, each later piece gets a fresh id and no
title, and a section without questions disappears.

Splitting on request compares the number of sections before and after, and replaces the
sections only when the number changed.

## Main definitions

* `Section.runs`: the runs of questions, each ending at a question with rules or at the end.
* `Section.split`, `splitSections`.
* `SplitOutcome`, `Survey.autoSplit`.
-/

namespace SurveyBranching

variable {σ : Type}

/-- The runs of a list of questions, each ending at a question with rules or at the end of
the list. -/
def Section.runs : List Question → List (List Question)
  | [] => []
  | q :: rest =>
    if q.hasRules then [q] :: runs rest
    else
      match runs rest with
      | [] => [[q]]
      | r :: rs => (q :: r) :: rs

/-- Gives each run after the first its own section with a fresh id and no title. -/
def Section.pieces (ids : IdSupply σ) : List (List Question) → List «Section» × IdSupply σ
  | [] => ([], ids)
  | qs :: rest =>
    let (id, ids') := ids.draw
    let (secs, ids'') := pieces ids' rest
    (⟨id, none, qs⟩ :: secs, ids'')

/-- A section cut after each question with rules: the first piece keeps the id and title. -/
def Section.split (ids : IdSupply σ) (sec : «Section») : List «Section» × IdSupply σ :=
  match Section.runs sec.questions with
  | [] => ([], ids)
  | first :: rest =>
    let (secs, ids') := Section.pieces ids rest
    (⟨sec.id, sec.title, first⟩ :: secs, ids')

/-- All sections split, in order, fresh ids drawn in order. -/
def splitSections (ids : IdSupply σ) : List «Section» → List «Section» × IdSupply σ
  | [] => ([], ids)
  | sec :: rest =>
    let (a, ids') := sec.split ids
    let (b, ids'') := splitSections ids' rest
    (a ++ b, ids'')

/-- What splitting on request did. -/
inductive SplitOutcome where
  /-- Splitting was not asked for. -/
  | suppressed
  /-- The number of sections stayed the same, so nothing was replaced. -/
  | unchanged
  /-- The sections were replaced; their numbers before and after. -/
  | replaced (before after : Nat)
deriving DecidableEq, Repr

/-- Whether the editor should be told that sections were added. -/
def SplitOutcome.needsAdvisory : SplitOutcome → Bool
  | .replaced before after => after > before
  | _ => false

/-- Splits the survey's sections if asked, replacing them when their number changed. -/
def Survey.autoSplit (ids : IdSupply σ) (recompute : Bool) (s : Survey) :
    SplitOutcome × Survey × IdSupply σ :=
  if !recompute then (.suppressed, s, ids)
  else
    let (secs, ids') := splitSections ids s.sections
    if secs.length = s.sections.length then (.unchanged, s, ids')
    else (.replaced s.sections.length secs.length, { s with sections := secs }, ids')

end SurveyBranching
