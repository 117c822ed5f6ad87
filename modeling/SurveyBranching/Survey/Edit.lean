import SurveyBranching.Survey.Basic
/-!
# Editing a survey

The edits an editor makes between checks of the branching rules: options added, removed or
renamed, questions retitled, retyped, added, moved or removed, sections added, removed or
merged. A question is named by id and means the first question with that id, section after
section; a section is named by its index. An edit that names something missing fails and
changes nothing.

A position past the end of a list means the end.

## Main definitions

* `EditError`.
* `Survey.modifyQuestion`: an edit of the first question with an id.
* The edits: `Survey.removeOption`, `Survey.addOption`, `Survey.setOptionValue`,
  `Survey.setTitle`, `Survey.setKind`, `Survey.setRules`, `Survey.removeQuestion`,
  `Survey.addQuestion`, `Survey.moveQuestion`, `Survey.addSection`, `Survey.removeSection`,
  `Survey.mergeSections`.
-/

namespace SurveyBranching

/-- Why an edit failed. -/
inductive EditError where
  | noSuchQuestion
  | noSuchSection
deriving DecidableEq, Repr

/-- Changes the first element that satisfies `p`; `none` when there is none. -/
def modifyFirst {α : Type} (p : α → Bool) (f : α → α) : List α → Option (List α)
  | [] => none
  | x :: xs => if p x then some (f x :: xs) else (modifyFirst p f xs).map (x :: ·)

/-- Removes the first element that satisfies `p`, answering it too; `none` when there is
none. -/
def takeFirst {α : Type} (p : α → Bool) : List α → Option (α × List α)
  | [] => none
  | x :: xs => if p x then some (x, xs) else (takeFirst p xs).map fun (y, ys) => (y, x :: ys)

/-- Inserts at a position, the end when the position is absent or past it. -/
def insertAt {α : Type} (xs : List α) (pos : Option Nat) (x : α) : List α :=
  match pos with
  | none => xs ++ [x]
  | some i => xs.insertIdx (min i xs.length) x

/-- The sections with the first question of this id changed. -/
def Section.modifyQuestion (qid : String) (f : Question → Question) :
    List «Section» → Option (List «Section»)
  | [] => none
  | sec :: rest =>
    match modifyFirst (·.id == qid) f sec.questions with
    | some qs => some ({ sec with questions := qs } :: rest)
    | none => (modifyQuestion qid f rest).map (sec :: ·)

/-- The sections with the first question of this id taken out, and that question. -/
def Section.takeQuestion (qid : String) : List «Section» → Option (Question × List «Section»)
  | [] => none
  | sec :: rest =>
    match takeFirst (·.id == qid) sec.questions with
    | some (q, qs) => some (q, { sec with questions := qs } :: rest)
    | none => (takeQuestion qid rest).map fun (q, secs) => (q, sec :: secs)

namespace Survey

/-- The survey with the first question of this id changed. -/
def modifyQuestion (s : Survey) (qid : String) (f : Question → Question) :
    Except EditError Survey :=
  match Section.modifyQuestion qid f s.sections with
  | some secs => .ok { s with sections := secs }
  | none => .error .noSuchQuestion

/-- The first question with this id. -/
def findQuestion (s : Survey) (qid : String) : Except EditError Question :=
  match s.question? qid with
  | some q => .ok q
  | none => .error .noSuchQuestion

/-- Removes every option with this id from the question; answers how many went. -/
def removeOption (s : Survey) (qid oid : String) : Except EditError (Nat × Survey) := do
  let q ← s.findQuestion qid
  let s' ← s.modifyQuestion qid fun q => { q with options := q.options.filter (·.id != oid) }
  pure (q.options.countP (·.id == oid), s')

/-- Appends an option to the question. -/
def addOption (s : Survey) (qid : String) (o : AnswerOption) : Except EditError Survey :=
  s.modifyQuestion qid fun q => { q with options := q.options ++ [o] }

/-- Gives every option with this id the value; answers how many there were. -/
def setOptionValue (s : Survey) (qid oid value : String) : Except EditError (Nat × Survey) := do
  let q ← s.findQuestion qid
  let s' ← s.modifyQuestion qid fun q =>
    { q with options := q.options.map fun o => if o.id == oid then { o with value := value } else o }
  pure (q.options.countP (·.id == oid), s')

/-- Retitles the question. -/
def setTitle (s : Survey) (qid title : String) : Except EditError Survey :=
  s.modifyQuestion qid fun q => { q with title := title }

/-- Changes the question's kind. -/
def setKind (s : Survey) (qid : String) (k : QuestionKind) : Except EditError Survey :=
  s.modifyQuestion qid fun q => { q with kind := k }

/-- Replaces the question's rules; `none` removes them. -/
def setRules (s : Survey) (qid : String) (rs : Option RuleSet) : Except EditError Survey :=
  s.modifyQuestion qid fun q => { q with rules := rs }

/-- Removes the first question with this id. -/
def removeQuestion (s : Survey) (qid : String) : Except EditError Survey :=
  match Section.takeQuestion qid s.sections with
  | some (_, secs) => .ok { s with sections := secs }
  | none => .error .noSuchQuestion

/-- Inserts a question into the section at index `i`. -/
def addQuestion (s : Survey) (i : Nat) (q : Question) (pos : Option Nat) :
    Except EditError Survey :=
  if i < s.sections.length then
    .ok { s with sections := s.sections.modify i fun sec => { sec with questions := insertAt sec.questions pos q } }
  else .error .noSuchSection

/-- Moves the first question with this id into the section at index `i`, at a position
counted after it was taken out. -/
def moveQuestion (s : Survey) (qid : String) (i : Nat) (pos : Option Nat) :
    Except EditError Survey :=
  if i < s.sections.length then
    match Section.takeQuestion qid s.sections with
    | none => .error .noSuchQuestion
    | some (q, secs) =>
      .ok { s with sections := secs.modify i fun sec => { sec with questions := insertAt sec.questions pos q } }
  else .error .noSuchSection

/-- Inserts a section. -/
def addSection (s : Survey) (sec : «Section») (pos : Option Nat) : Survey :=
  { s with sections := insertAt s.sections pos sec }

/-- Removes the section at index `i` with its questions. -/
def removeSection (s : Survey) (i : Nat) : Except EditError Survey :=
  if i < s.sections.length then .ok { s with sections := s.sections.eraseIdx i }
  else .error .noSuchSection

/-- Appends the questions of the section after index `i` to that section and removes the
section after it. -/
def mergeSections (s : Survey) (i : Nat) : Except EditError Survey :=
  match s.sections[i + 1]? with
  | none => .error .noSuchSection
  | some next =>
    .ok { s with
      sections := (s.sections.modify i fun sec => { sec with questions := sec.questions ++ next.questions }).eraseIdx (i + 1) }

end Survey

end SurveyBranching
