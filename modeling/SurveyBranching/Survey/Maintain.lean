import SurveyBranching.Survey.Basic
/-!
# Keeping branching consistent with the survey

After questions, options or sections change, rules may name things that are gone. A rule
may jump only forward: in a survey of questions, to a question after the one that owns the
rule; in a survey of sections, to a section after the one holding it. A count condition may
name only a count that the question's options allow.

Maintenance clears what no longer fits and keeps the rest: a destination of the wrong kind
gets the survey's kind and loses its target, a target that is not allowed is dropped, an
option check loses an option id that the question does not offer, and a count condition
loses a count outside the allowed range. The allowed targets are found on the survey as it
was, by each question's id.

## Main definitions

* `Target`, `Survey.allowedDestinations`.
* `countBounds`, `Question.allowedCounts`.
* `Destination.maintain`, `Condition.maintain`, `Question.maintain`, `Survey.maintain`.
-/

namespace SurveyBranching

/-- A place a rule may jump to, with its title when it has one. -/
structure Target where
  kind : TargetKind
  id : String
  title : Option String
deriving DecidableEq, Repr

/-- The places a rule of the question with this id may jump to: in a survey of questions,
the questions after the first one with that id, each with its title unless that is empty;
in a survey of sections, the sections after the first one holding it. An unknown id allows
nothing. -/
def Survey.allowedDestinations (s : Survey) (qid : String) : List Target :=
  match s.targetKind with
  | .question =>
    ((s.questions.dropWhile (·.id != qid)).drop 1).map fun q =>
      ⟨.question, q.id, if q.title.isEmpty then none else some q.title⟩
  | .section =>
    match s.sectionIndex? qid with
    | none => []
    | some i => (s.sections.drop (i + 1)).map fun sec => ⟨.section, sec.id, sec.title⟩

/-- The number of options of a question, capped at `2^32 - 1`. -/
def Question.optionCount (q : Question) : Nat :=
  min q.options.length 4294967295

/-- The counts a condition may name for a question with `n` options, as the bounds of a
range: `greater` allows `0` to `n - 1`, `less` allows `1` to `n`, and both allow nothing
when there are no options; any other comparison, or none, allows `0` to `n`. -/
def countBounds (n : Nat) : Option CountComparison → Option (Nat × Nat)
  | some .greater => if n ≥ 1 then some (0, n - 1) else none
  | some .less => if n ≥ 1 then some (1, n) else none
  | _ => some (0, n)

/-- The counts a condition of this question may name, in increasing order. -/
def Question.allowedCounts (q : Question) (cmp : Option CountComparison) : List Nat :=
  match countBounds q.optionCount cmp with
  | none => []
  | some (lo, hi) => List.range' lo (hi + 1 - lo)

/-- Whether a count lies in the range allowed for a question. -/
def Question.allowsCount (q : Question) (cmp : Option CountComparison) (k : Nat) : Bool :=
  match countBounds q.optionCount cmp with
  | none => false
  | some (lo, hi) => lo ≤ k && k ≤ hi

/-- A destination made to fit: the survey's kind, and a target only if it is allowed. -/
def Destination.maintain (kind : TargetKind) (allowed : List String) (d : Destination) :
    Destination :=
  if d.kind != some kind then ⟨some kind, none⟩
  else ⟨d.kind, d.target.filter (allowed.contains ·)⟩

/-- A condition made to fit its question: an option id the question lacks is dropped, and
so is a count outside the allowed range. -/
def Condition.maintain (q : Question) (c : Condition) : Condition :=
  match c.test with
  | .option oid check => { c with test := .option (oid.filter (q.optionIds.contains ·)) check }
  | .count cmp k => { c with test := .count cmp (k.filter fun k => q.allowsCount cmp k.toNat) }
  | .empty => c

/-- A rule made to fit its question and the allowed targets. -/
def Rule.maintain (q : Question) (kind : TargetKind) (allowed : List String) (r : Rule) : Rule :=
  { r with
    destination := r.destination.maintain kind allowed
    conditions := r.conditions.map (Condition.maintain q) }

/-- A question's rules made to fit it and the allowed targets. -/
def Question.maintain (kind : TargetKind) (allowed : List String) (q : Question) : Question :=
  { q with rules := q.rules.map fun rs => ⟨rs.rules.map (Rule.maintain q kind allowed)⟩ }

/-- The survey with every rule made to fit, the allowed targets taken from the survey as it
was. -/
def Survey.maintain (s : Survey) : Survey :=
  let allowed (q : Question) : List String := (s.allowedDestinations q.id).map (·.id)
  { s with
    sections := s.sections.map fun sec =>
      { sec with questions := sec.questions.map fun q => q.maintain s.targetKind (allowed q) } }

end SurveyBranching
