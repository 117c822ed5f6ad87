/-!
# The command line

The command `skip-logic` takes global options, a subcommand and the subcommand's options:

* global: `--config FILE` (limits as TOML) and `--log-level LEVEL`, before or after the
  subcommand, and before it `--help` (`-h`) and `--version` (`-V`);
* `parse --survey FILE --question ID [--strict] EXPRESSION`;
* `serialize --survey FILE [--question ID]`;
* `evaluate --survey FILE --answers FILE --question ID`;
* `maintain --survey FILE [--split] [--out FILE]`;
* `preview --survey FILE [--answers FILE]`.

An option's value follows it as the next word or after `=`; a word that starts with a dash
is never taken as a value, and a file name may not be empty. A word `--` makes every later
word positional. Each option may be given once at each level; a global option given after
the subcommand overrides one given before it. A level is a number from `0` to `5` or one of
`off`, `error`, `warn`, `info`, `debug`, `trace` in any case; an empty level means `error`.

Words are read from left to right, and the first one that decides the outcome wins: help
and version end reading at once, so a fault after them does not count, and a fault before
them does. An option whose value is the next word is checked late, though: when the next
flag, option or positional word comes, and at the top only after the subcommand is read.
So a bad level or a repeated option just before the subcommand gives way to a help asked
for in the subcommand.

## Main definitions

* `Command`, `Invocation`, `LogLevel`, `Reading`.
* `OptionSpec`, `SubcommandSpec`, `globalOptions`, `subcommands`: what each level accepts.
* `LogLevel.ofWord?`, `Reading.ofWords`.
-/

namespace SurveyBranching.CommandLine

/-- How much a run logs. -/
inductive LogLevel where
  | off
  | error
  | warn
  | info
  | debug
  | trace
deriving DecidableEq, Repr

/-- The level a word names. -/
def LogLevel.ofWord? (w : String) : Option LogLevel :=
  let byNumber : Option LogLevel :=
    let ds := match w.toList with
      | '+' :: ds => ds
      | ds => ds
    if ds.isEmpty || !ds.all Char.isDigit then none
    else
      match ds.foldl (fun n c => n * 10 + (c.toNat - '0'.toNat)) 0 with
      | 0 => some .off
      | 1 => some .error
      | 2 => some .warn
      | 3 => some .info
      | 4 => some .debug
      | 5 => some .trace
      | _ => none
  match byNumber with
  | some l => some l
  | none =>
    match (String.ofList (w.toList.map Char.toLower)) with
    | "" => some .error
    | "off" => some .off
    | "error" => some .error
    | "warn" => some .warn
    | "info" => some .info
    | "debug" => some .debug
    | "trace" => some .trace
    | _ => none

/-- A subcommand with its arguments. -/
inductive Command where
  | parse (survey question : String) (strict : Bool) (expression : String)
  | serialize (survey : String) (question : Option String)
  | evaluate (survey answers question : String)
  | maintain (survey : String) (split : Bool) (out : Option String)
  | preview (survey : String) (answers : Option String)
deriving DecidableEq, Repr

/-- A command line that names something to run. -/
structure Invocation where
  config : Option String
  logLevel : LogLevel
  command : Command
deriving DecidableEq, Repr

/-- What a command line comes to. -/
inductive Reading where
  | run (inv : Invocation)
  /-- The version was asked for. -/
  | version
  /-- Help was asked for, on the whole command or on one subcommand. -/
  | help (subcommand : Option String)
  /-- The words do not form a command line. -/
  | usage
deriving DecidableEq, Repr

/-- An option a level accepts. -/
structure OptionSpec where
  /-- The name after `--`. -/
  name : String
  /-- The name of its value in help, when it takes one. -/
  value : Option String := none
  /-- Whether its value names a file, which may not be empty. -/
  isPath : Bool := false
  /-- Whether it must be given. -/
  required : Bool := false
  /-- Its rank in help, where options are listed by rank and then by name. -/
  rank : Nat
  /-- Its line of help. -/
  help : String := ""
  /-- The value it has when not given, shown in help. -/
  default : Option String := none

/-- Whether an option takes a value. -/
def OptionSpec.takesValue (o : OptionSpec) : Bool :=
  o.value.isSome

/-- A subcommand: its name, its line of help, its options, and the name and help of its
positional word when it takes one. -/
structure SubcommandSpec where
  name : String
  about : String
  options : List OptionSpec
  positional : Option (String × String) := none

/-- The global options. -/
def globalOptions : List OptionSpec :=
  [{ name := "config", value := some "FILE", isPath := true, rank := 0,
     help := "Engine limits as TOML (`max_reduction_iterations`, `max_expression_depth`)" },
   { name := "log-level", value := some "LEVEL", rank := 1,
     help := "Log level used when RUST_LOG is not set", default := some "warn" }]

/-- The survey file, which every subcommand reads. -/
def surveyOption : OptionSpec :=
  { name := "survey", value := some "survey.json", isPath := true, required := true, rank := 0 }

/-- The subcommands, in order. -/
def subcommands : List SubcommandSpec :=
  [{ name := "parse", about := "Decode a prefix expression into conditions for a question",
     options := [surveyOption,
       { name := "question", value := some "ID", required := true, rank := 1,
         help := "Question whose options the expression refers to" },
       { name := "strict", rank := 2,
         help := "Fail instead of printing an empty list when the expression is invalid" }],
     positional := some ("EXPRESSION", "Prefix expression, e.g. `and eq val1 \"A1\" gt cnt1 2`") },
   { name := "serialize", about := "Print the persisted expression form of a question's rules",
     options := [surveyOption,
       { name := "question", value := some "ID", rank := 1,
         help := "Only this question; every question owning rules when omitted" }] },
   { name := "evaluate", about := "Evaluate a question's rules against recorded answers",
     options := [surveyOption,
       { name := "answers", value := some "answers.json", isPath := true, required := true, rank := 1,
         help := "Answers keyed by question id, then option id" },
       { name := "question", value := some "ID", required := true, rank := 2 }] },
   { name := "maintain", about := "Re-split sections and clear stale skip-logic references",
     options := [surveyOption,
       { name := "split", rank := 1, help := "Recompute section boundaries before maintenance" },
       { name := "out", value := some "survey.json", isPath := true, rank := 2,
         help := "Write the maintained survey here instead of stdout" }] },
   { name := "preview", about := "Build the preview screens for recorded answers",
     options := [surveyOption,
       { name := "answers", value := some "answers.json", isPath := true, rank := 1,
         help := "Answers recorded so far; an empty walkthrough when omitted" }] }]

/-- The subcommand with this name. -/
def subcommand? (name : String) : Option SubcommandSpec :=
  subcommands.find? (·.name == name)

/-- What has been read at one level: option values (a flag's value is empty), and
positional words. -/
structure Gathered where
  values : List (String × String) := []
  positionals : List String := []

/-- Whether a word looks like an option rather than a value. -/
def looksLikeOption (w : String) : Bool :=
  w.startsWith "-" && w.length > 1

/-- Splits `--name=value` into the name and the value. -/
def splitLong (body : String) : String × Option String :=
  match body.toList.splitOn '=' with
  | [] => ("", none)
  | [n] => (String.ofList n, none)
  | n :: rest => (String.ofList n, some (String.intercalate "=" (rest.map String.ofList)))

/-- The outcome of reading one level. -/
inductive Step where
  /-- The words ended; what was gathered. -/
  | done (g : Gathered)
  /-- The top level met its subcommand; what was gathered, the option still unchecked, and
  the words after it. -/
  | enter (g : Gathered) (pending : Option (OptionSpec × String)) (name : String)
      (rest : List String)
  /-- Reading ended early with this result. -/
  | stop (r : Reading)

/-- Accepts the value of an option: a file name must not be empty, a level must be one. -/
def acceptValue (spec : OptionSpec) (v : String) : Bool :=
  if spec.isPath then !v.isEmpty
  else if spec.name == "log-level" then (LogLevel.ofWord? v).isSome
  else true

/-- Checks the option whose value came as a separate word and records it: it fails if the
option was already given at this level or its value is not accepted. -/
def settle (g : Gathered) : Option (OptionSpec × String) → Option Gathered
  | none => some g
  | some (spec, v) =>
    if g.values.any (·.1 == spec.name) || !acceptValue spec v then none
    else some { g with values := g.values ++ [(spec.name, v)] }

/-- Reads the words of one level. `sub` is the subcommand being read, or `none` at the top;
`specs` the options it accepts; `positional` whether it takes a positional word; `rawOnly`
whether a `--` was seen; `pending` the last option whose value came as a separate word.

Such an option is checked only when the next flag, option or positional word comes, or when
the level ends; at the top, its subcommand is read first. So a help flag after it reports
its fault, while a help in the subcommand after it wins. An option written `--name=value`
and a flag are checked at once. -/
def readLevel (sub : Option String) (specs : List OptionSpec) (positional : Bool) :
    Bool → Gathered → Option (OptionSpec × String) → List String → Step
  | _, g, p, [] =>
    match settle g p with
    | some g => .done g
    | none => .stop .usage
  | true, g, p, w :: rest =>
    match settle g p with
    | none => .stop .usage
    | some g =>
      if positional && g.positionals.isEmpty then
        readLevel sub specs positional true { g with positionals := [w] } none rest
      else .stop .usage
  | false, g, p, w :: rest =>
    if w == "--" then
      match sub with
      | none => .stop .usage
      | some _ => readLevel sub specs positional true g p rest
    else if w.startsWith "--" then
      let (name, inline) := splitLong (String.ofList (w.toList.drop 2))
      match specs.find? (·.name == name) with
      | none =>
        if inline.isNone && (name == "help" || (name == "version" && sub.isNone)) then
          match settle g p with
          | none => .stop .usage
          | some _ => if name == "help" then .stop (.help sub) else .stop .version
        else .stop .usage
      | some spec =>
        match settle g p with
        | none => .stop .usage
        | some g =>
          if !spec.takesValue then
            if inline.isSome || g.values.any (·.1 == name) then .stop .usage
            else readLevel sub specs positional false { g with values := g.values ++ [(name, "")] } none rest
          else
            match inline with
            | some v =>
              match settle g (some (spec, v)) with
              | some g => readLevel sub specs positional false g none rest
              | none => .stop .usage
            | none =>
              match rest with
              | v :: rest' =>
                if looksLikeOption v then .stop .usage
                else readLevel sub specs positional false g (some (spec, v)) rest'
              | [] => .stop .usage
    else if looksLikeOption w then
      match settle g p with
      | none => .stop .usage
      | some _ =>
        -- A cluster of short flags: only `-h`, and `-V` at the top, exist.
        match w.toList.drop 1 with
        | 'h' :: _ => .stop (.help sub)
        | 'V' :: _ => if sub.isNone then .stop .version else .stop .usage
        | _ => .stop .usage
    else
      match sub with
      | none => .enter g p w rest
      | some _ =>
        match settle g p with
        | none => .stop .usage
        | some g =>
          if positional && g.positionals.isEmpty then
            readLevel sub specs positional false { g with positionals := [w] } none rest
          else .stop .usage

/-- The value given for an option. -/
def Gathered.get? (g : Gathered) (name : String) : Option String :=
  g.values.lookup name

/-- Whether a flag was given. -/
def Gathered.has (g : Gathered) (name : String) : Bool :=
  g.values.any (·.1 == name)

/-- The subcommand named by its word, with what was gathered for it. -/
def commandOf (name : String) (g : Gathered) : Option Command := do
  let survey ← g.get? "survey"
  match name with
  | "parse" => pure (.parse survey (← g.get? "question") (g.has "strict") (← g.positionals.head?))
  | "serialize" => pure (.serialize survey (g.get? "question"))
  | "evaluate" => pure (.evaluate survey (← g.get? "answers") (← g.get? "question"))
  | "maintain" => pure (.maintain survey (g.has "split") (g.get? "out"))
  | "preview" => pure (.preview survey (g.get? "answers"))
  | _ => none

/-- What a command line comes to. -/
def Reading.ofWords (words : List String) : Reading :=
  if words.isEmpty then .usage
  else
    match readLevel none globalOptions false false {} none words with
    | .stop r => r
    | .done _ => .usage
    | .enter top pending name rest =>
      if name == "help" then
        match rest with
        | [] => .help none
        | [w] => if (subcommand? w).isSome || w == "help" then .help (some w) else .usage
        | _ => .usage
      else
        match subcommand? name with
        | none => .usage
        | some spec =>
          match readLevel (some name) (spec.options ++ globalOptions) spec.positional.isSome false {} none rest with
          | .stop r => r
          | .enter .. => .usage
          | .done g =>
            match settle top pending with
            | none => .usage
            | some top =>
              -- A global option given after the subcommand overrides one given before it.
              let config := (g.get? "config").orElse fun _ => top.get? "config"
              let level := ((g.get? "log-level").orElse fun _ => top.get? "log-level").getD "warn"
              match commandOf name g, LogLevel.ofWord? level with
              | some c, some l => .run ⟨config, l, c⟩
              | _, _ => .usage

end SurveyBranching.CommandLine
