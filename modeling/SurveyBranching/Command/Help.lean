import SurveyBranching.Command.Line
/-!
# Help for the command line

The help of the command and of each subcommand is laid out from the option specs: a line
about the command, its usage, then sections of rows. A row is indented by two spaces, its
lead (the option, the argument or the subcommand) padded to the width of the widest lead of
its section, two spaces, and the row's help; a lead with no help keeps its padding.

Options are listed by rank and then by name, so the global options, ranked among the
top-level options, stand among a subcommand's own; the help flag comes last, and at the top
the version flag after it. A long-only option's lead is indented by four more spaces, the
width of a short flag and its comma.

## Main definitions

* `topHelp`, `SubcommandSpec.helpText`, `helpText`.
-/

namespace SurveyBranching.CommandLine

/-- The line that says what the command is for. -/
def commandAbout : String :=
  "Inspect, evaluate and maintain survey skip logic"

/-- The line about the `help` subcommand. -/
def helpAbout : String :=
  "Print this message or the help of the given subcommand(s)"

/-- A run of spaces. -/
def spaces (n : Nat) : String :=
  String.ofList (List.replicate n ' ')

/-- The length of the longest text. -/
def widest (texts : List String) : Nat :=
  texts.foldl (fun w t => max w t.length) 0

/-- One row of help, its lead padded to `width`. -/
def row (width : Nat) (lead text : String) : String :=
  "  " ++ lead ++ spaces (width + 2 - lead.length) ++ text

/-- Rows with their leads aligned, one a line. -/
def rows (entries : List (String × String)) : String :=
  let width := widest (entries.map (·.1))
  String.intercalate "\n" (entries.map fun (lead, text) => row width lead text)

/-- How an option is written in usage and help: `--name`, and `<VALUE>` after it. -/
def OptionSpec.spelling (o : OptionSpec) : String :=
  "--" ++ o.name ++ ((o.value.map fun v => " <" ++ v ++ ">").getD "")

/-- An option's help, with its default after it. -/
def OptionSpec.helpLine (o : OptionSpec) : String :=
  match o.default with
  | none => o.help
  | some d => if o.help.isEmpty then "[default: " ++ d ++ "]" else o.help ++ " [default: " ++ d ++ "]"

/-- Options listed by rank, then by name. -/
def byRank (os : List OptionSpec) : List OptionSpec :=
  os.mergeSort fun a b => a.rank < b.rank || (a.rank == b.rank && decide (a.name ≤ b.name))

/-- The rows of the options section: the options by rank, then the flags that have a short
form, each written `-x, --name`. -/
def optionRows (os : List OptionSpec) (flags : List (String × String)) : String :=
  rows ((byRank os).map (fun o => ("    " ++ o.spelling, o.helpLine)) ++ flags)

/-- The help of the whole command. -/
def topHelp : String :=
  commandAbout ++ "\n\nUsage: skip-logic [OPTIONS] <COMMAND>\n\nCommands:\n" ++
    rows (subcommands.map (fun s => (s.name, s.about)) ++ [("help", helpAbout)]) ++
    "\n\nOptions:\n" ++
    optionRows globalOptions [("-h, --help", "Print help"), ("-V, --version", "Print version")] ++
    "\n"

/-- The usage of a subcommand: `[OPTIONS]` when an option may be left out, the options that
must be given in their order, and the positional word. -/
def SubcommandSpec.usage (s : SubcommandSpec) : String :=
  let os := s.options ++ globalOptions
  "skip-logic " ++ s.name ++ (if os.any (!·.required) then " [OPTIONS]" else "") ++
    String.join ((s.options.filter (·.required)).map fun o => " " ++ o.spelling) ++
    ((s.positional.map fun (n, _) => " <" ++ n ++ ">").getD "")

/-- The help of a subcommand. -/
def SubcommandSpec.helpText (s : SubcommandSpec) : String :=
  let arguments := match s.positional with
    | none => ""
    | some (n, h) => "Arguments:\n" ++ rows [("<" ++ n ++ ">", h)] ++ "\n\n"
  s.about ++ "\n\nUsage: " ++ s.usage ++ "\n\n" ++ arguments ++ "Options:\n" ++
    optionRows (s.options ++ globalOptions) [("-h, --help", "Print help")] ++ "\n"

/-- The help of the `help` subcommand. -/
def helpOfHelp : String :=
  helpAbout ++ "\n\nUsage: skip-logic help [COMMAND]...\n\nArguments:\n" ++
    rows [("[COMMAND]...", "Print help for the subcommand(s)")] ++ "\n"

/-- The help asked for: of the command, or of one subcommand. -/
def helpText : Option String → String
  | none => topHelp
  | some name =>
    match subcommand? name with
    | some s => s.helpText
    | none => if name == "help" then helpOfHelp else topHelp

end SurveyBranching.CommandLine
