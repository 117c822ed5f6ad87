import SurveyBranching.Command.Help
import SurveyBranching.Json.Read
import SurveyBranching.Json.Write
import SurveyBranching.Document.Read
import SurveyBranching.Document.Write
import SurveyBranching.Limits.Toml
import SurveyBranching.Expr.Conditions
import SurveyBranching.Rule.Eval
import SurveyBranching.Rule.Stored
import SurveyBranching.Survey.Maintain
import SurveyBranching.Survey.Split
import SurveyBranching.Survey.Preview
/-!
# Running the command line

A run sees its files through a `Workspace`: the text of a file by name, or why it cannot be
read, and why a file cannot be written, if it cannot. It answers an `Outcome`: the exit
status, what went to standard output and to standard error, and the files written.

Each subcommand first loads the limits file, if one is named, then reads the survey; a
file that cannot be read or does not hold what it should ends the run with status `1` and
a report `Error: <what failed>`, followed by the reason under `Caused by:` when the
workspace tells one. A JSON file is read leniently (`Json.parseLenient`): what the data
model does not read is only checked for its form. Results are written as JSON, one item per
line with two spaces of indent, and a line feed.

* `parse` decodes the expression for the question, with ids `condition-1`, `condition-2`,
  …; without `--strict` an expression that cannot be read gives an empty list, with it the
  report names the expression and, under `Caused by:`, the reason.
* `serialize` writes the stored form of the question's rules, or of every question with
  rules, by id.
* `evaluate` writes where the answers send the respondent after the question, or `null`.
* `preview` writes the screens for the answers given, or for none.
* `maintain` splits sections first if asked, with fresh ids shaped like UUIDs, then clears
  stale references, and writes the survey to standard output or to a file. When the split
  added sections, standard error says so.

## Main definitions

* `FileError`, `Workspace`, `Outcome`, `Failure`, `Failure.report`.
* `Invocation.execute`, `run`.
-/

namespace SurveyBranching.CommandLine

/-- Why a file could not be read or written: an error of the operating system, by number, or
a text that is not UTF-8. -/
inductive FileError where
  | os (code : Nat)
  | notUtf8
deriving DecidableEq, Repr

/-- The operating system's description of an error number. -/
def describeOsError : Nat → String
  | 1 => "Operation not permitted"
  | 2 => "No such file or directory"
  | 5 => "Input/output error"
  | 13 => "Permission denied"
  | 17 => "File exists"
  | 20 => "Not a directory"
  | 21 => "Is a directory"
  | 22 => "Invalid argument"
  | 28 => "No space left on device"
  | 30 => "Read-only file system"
  | 36 => "File name too long"
  | 40 => "Too many levels of symbolic links"
  | n => "Unknown error " ++ toString n

/-- No file or directory by that name. -/
def FileError.missing : FileError := .os 2

/-- A name used as a directory is a file. -/
def FileError.notDirectory : FileError := .os 20

/-- The name is a directory. -/
def FileError.isDirectory : FileError := .os 21

/-- How a file error is reported: the description, then the error number. -/
def FileError.message : FileError → String
  | .os n => describeOsError n ++ " (os error " ++ toString n ++ ")"
  | .notUtf8 => "stream did not contain valid UTF-8"

/-- The files a run can see: the text of a file or why it cannot be read, and why a file
cannot be written, `none` when it can. -/
structure Workspace where
  read : String → Except FileError String
  writeFailure : String → Option FileError

/-- What a run does: its exit status, its two output streams, and the files it wrote. -/
structure Outcome where
  status : Nat
  stdout : String
  stderr : String
  writes : List (String × String)

/-- Why a run failed: what it was doing, and the reason when one is told. -/
structure Failure where
  context : String
  cause : Option String := none

/-- The reason under `Caused by:`, indented by four spaces on every line. -/
def indentCause (c : String) : String :=
  "    " ++ String.intercalate "\n    " (c.splitOn "\n")

/-- The report of a failure on standard error. -/
def Failure.report (f : Failure) : String :=
  match f.cause with
  | none => "Error: " ++ f.context ++ "\n"
  | some c => "Error: " ++ f.context ++ "\n\nCaused by:\n" ++ indentCause c ++ "\n"

/-- The name and version of the command. -/
def versionText : String := "skip-logic 0.4.63\n"

/-- What a run that goes well has written so far: standard output and error, and files. -/
structure Written where
  stdout : String := ""
  stderr : String := ""
  writes : List (String × String) := []

/-- A step of a run: it fails, or goes on with what was written. -/
abbrev Run := StateT Written (Except (Failure × Written))

/-- Ends the run with a failure, keeping what was written. -/
def fail {α : Type} (f : Failure) : Run α :=
  fun w => .error (f, w)

/-- Writes a JSON value, one item per line, and a line feed to standard output. -/
def emit (v : Json) : Run Unit :=
  modify fun w => { w with stdout := w.stdout ++ Json.pretty v ++ "\n" }

/-- The text of a file. -/
def readText (ws : Workspace) (path : String) (context : String) : Run String :=
  match ws.read path with
  | .ok t => pure t
  | .error e => fail ⟨context, some e.message⟩

/-- A file holding a JSON document of some shape. -/
def readDocument {α : Type} (ws : Workspace) (path : String) (read : Json → Option α) : Run α := do
  let text ← readText ws path ("failed to read " ++ path)
  match (Json.parseLenient text).bind read with
  | some a => pure a
  | none => fail ⟨"failed to parse " ++ path, none⟩

/-- The limits named on the command line, or the defaults. -/
def loadLimits (ws : Workspace) : Option String → Run Limits
  | none => pure {}
  | some path => do
    let text ← readText ws path ("failed to read config " ++ path)
    match Limits.ofToml? text with
    | some l => pure l
    | none => fail ⟨"invalid engine config " ++ path, none⟩

/-- The first question with this id. -/
def findQuestion (s : Survey) (qid : String) : Run Question :=
  match s.question? qid with
  | some q => pure q
  | none => fail ⟨"question '" ++ qid ++ "' not found in survey '" ++ s.id ++ "'", none⟩

/-- The stored rules of every question that has some, by question id. -/
def storedByQuestion (s : Survey) : Json :=
  let entries := s.questions.filterMap fun q => (s.stored? q.id).map fun st => (q.id, Document.ofStoredRules st)
  .obj (Keyed.ofList entries).entries

/-- The advisory written when a split added sections. -/
def advisory : String :=
  "Sections were added so that every question with skip logic ends its section. " ++
  "Review the new section titles.\n"

variable {σ : Type}

/-- Runs a subcommand with the limits loaded. -/
def Command.execute (ws : Workspace) (ids : IdSupply σ) (limits : Limits) : Command → Run Unit
  | .parse survey qid strict expression => do
    let s ← readDocument ws survey Document.survey
    let q ← findQuestion s qid
    let ids := IdSupply.sequential "condition-"
    if strict then
      match q.conditionsOf limits ids expression with
      | .ok (cs, _) => emit (.arr (cs.map Document.ofCondition))
      | .error e => fail ⟨"cannot decode expression '" ++ expression ++ "'", some e.message⟩
    else emit (.arr ((q.conditionsOrNone limits ids expression).1.map Document.ofCondition))
  | .serialize survey qid => do
    let s ← readDocument ws survey Document.survey
    match qid with
    | some qid =>
      let _ ← findQuestion s qid
      emit (Document.ofStoredRules ((s.stored? qid).getD {}))
    | none => emit (storedByQuestion s)
  | .evaluate survey answers qid => do
    let s ← readDocument ws survey Document.survey
    let a ← readDocument ws answers Document.surveyAnswers
    let q ← findQuestion s qid
    emit (match q.destination? limits ((a.get? q.id).getD {}) with
      | some d => Document.ofDestination d
      | none => .null)
  | .preview survey answers => do
    let s ← readDocument ws survey Document.survey
    let a ← match answers with
      | some path => readDocument ws path Document.surveyAnswers
      | none => pure {}
    emit (.arr ((s.preview limits a).map Document.ofScreen))
  | .maintain survey split out => do
    let s ← readDocument ws survey Document.survey
    let (outcome, s, _) := s.autoSplit ids split
    let s := s.maintain
    if outcome.needsAdvisory then modify fun w => { w with stderr := w.stderr ++ advisory }
    let text := Json.pretty (Document.ofSurvey s)
    match out with
    | none => modify fun w => { w with stdout := w.stdout ++ text ++ "\n" }
    | some path =>
      match ws.writeFailure path with
      | none => modify fun w => { w with writes := w.writes ++ [(path, text ++ "\n")] }
      | some e => fail ⟨"failed to write " ++ path, some e.message⟩

/-- Runs an invocation: loads the limits, then runs the subcommand. -/
def Invocation.execute (ws : Workspace) (ids : IdSupply σ) (inv : Invocation) : Run Unit := do
  let limits ← loadLimits ws inv.config
  inv.command.execute ws ids limits

/-- The outcome of a command line. Fresh ids for splitting come from `ids`. -/
def run (ws : Workspace) (ids : IdSupply σ) (words : List String) : Outcome :=
  match Reading.ofWords words with
  | .usage => ⟨2, "", "", []⟩
  | .version => ⟨0, versionText, "", []⟩
  | .help sub => ⟨0, helpText sub, "", []⟩
  | .run inv =>
    match (inv.execute ws ids).run {} with
    | .ok ((), w) => ⟨0, w.stdout, w.stderr, w.writes⟩
    | .error (f, w) => ⟨1, w.stdout, w.stderr ++ f.report, w.writes⟩

end SurveyBranching.CommandLine
