import SurveyBranching.Command.Run
/-!
# The executable

Reads the files the command line may name, runs `CommandLine.run` on them, prints its two
streams and writes its files. A write that fails turns into the run's failure to write, by
running again with that file marked as not writable; the run writes only at its end, so the
second run does nothing the first did not.
-/

open SurveyBranching

/-- The words of a command line that may name files: every word, and what follows `=` in an
option word. -/
def candidatePaths (args : List String) : List String :=
  args ++ args.filterMap fun a =>
    if a.startsWith "--" then
      match a.splitOn "=" with
      | _ :: v :: rest => some (String.intercalate "=" (v :: rest))
      | _ => none
    else none

/-- The file error an error of the runtime stands for: its error number, or, when it has
none, a text that could not be decoded. -/
def fileErrorOf : IO.Error → CommandLine.FileError
  | .alreadyExists _ c _ | .otherError c _ | .resourceBusy c _ | .resourceVanished c _
  | .unsupportedOperation c _ | .hardwareFault c _ | .unsatisfiedConstraints c _
  | .illegalOperation c _ | .protocolError c _ | .timeExpired c _ | .interrupted _ c _
  | .noFileOrDirectory _ c _ | .invalidArgument _ c _ | .permissionDenied _ c _
  | .resourceExhausted _ c _ | .inappropriateType _ c _ | .noSuchThing _ c _ => .os c.toNat
  | _ => .notUtf8

/-- The text of each path, or why it cannot be read. -/
def readAll (paths : List String) : IO (List (String × Except CommandLine.FileError String)) := do
  let mut found := []
  for p in paths do
    try
      let t ← IO.FS.readFile p
      found := found ++ [(p, .ok t)]
    catch e => found := found ++ [(p, .error (fileErrorOf e))]
  return found

/-- Writes the files of an outcome; answers the paths that could not be written, and why. -/
def writeAll (writes : List (String × String)) : IO (List (String × CommandLine.FileError)) := do
  let mut failed := []
  for (p, t) in writes do
    try IO.FS.writeFile p t
    catch e => failed := failed ++ [(p, fileErrorOf e)]
  return failed

def main (args : List String) : IO UInt32 := do
  let files ← readAll (candidatePaths args)
  IO.setRandSeed (← IO.monoNanosNow)
  let seed ← IO.rand 0 4611686018427387904
  let ids := IdSupply.uuid (mkStdGen seed)
  let read := fun p => (files.lookup p).getD (.error CommandLine.FileError.missing)
  let first := CommandLine.run ⟨read, fun _ => none⟩ ids args
  let failed ← writeAll first.writes
  let o :=
    if failed.isEmpty then first
    else CommandLine.run ⟨read, fun p => failed.lookup p⟩ ids args
  IO.print o.stdout
  IO.eprint o.stderr
  return o.status.toUInt32
