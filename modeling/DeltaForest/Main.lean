import DeltaForest.CommandLine

/-!
# The program

Runs the command line on a disk. All files that may be needed are read in front, those named by
the arguments and those with languages; what to do with them is decided by `CommandLine.run`.
-/

namespace DeltaForest

/-- The variables that the program looks at. -/
def variableNames : List String :=
  ["LIONSYNC_PARTICIPATION_ID", "LIONSYNC_FORMAT", "LIONSYNC_ENFORCE_SEQUENCE",
    "LIONSYNC_LANGUAGES"]

/-- What a file holds, if it can be read. -/
def readFile (path : String) : IO (Option (List UInt8)) := do
  try
    return some (← IO.FS.readBinFile path).data.toList
  catch _ => return none

/-- Writes a file, and tells whether that succeeded. -/
def writeFile (path : String) (content : List UInt8) : IO Bool := do
  try
    IO.FS.writeBinFile path ⟨content.toArray⟩
    return true
  catch _ => return false

end DeltaForest

open DeltaForest in
/-- Runs the program. -/
def main (arguments : List String) : IO UInt32 := do
  let bindings ← variableNames.filterMapM fun name => do
    return (← IO.getEnv name).map (name, ·)
  let environment := fun name => bindings.lookup name
  let languages := match Settings.ofEnvironment environment with
    | .ok settings => settings.languages
    | .error _ => []
  let files ← (arguments ++ languages).filterMapM fun path => do
    return (← readFile path).map (path, ·)
  let mut outcome := CommandLine.run ⟨environment, fun path => files.lookup path⟩ arguments
  IO.print outcome.output
  if let some (path, content) := outcome.file then
    unless ← writeFile path content do outcome := outcome.unwritten
  match outcome.ending with
  | .success => return 0
  | .misuse line =>
    IO.eprintln line
    return 1
  | .trouble reason =>
    IO.eprint reason.report
    return 1
