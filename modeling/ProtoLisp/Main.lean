import ProtoLisp.Program

/-!
# Running the program

The files that a command line needs are read first; then the program is a function of them.  A session
goes on line by line, so that every line is answered before the next one is written.
-/

namespace ProtoLisp.Console

open CommandLine (Invocation)

/-- What is at `path`. -/
def entryAt (path : String) : IO Entry := do
  try
    return .file (← IO.FS.readBinFile path)
  catch
    | .inappropriateType (some _) _ _ => return .blocked
    | .inappropriateType none _ _ => return .directory
    | _ => return .missing

/-- Looks up the paths once and for all. -/
def lookupOf (paths : List String) : IO Program.Lookup := do
  let entries ← paths.mapM fun path => return (path, ← entryAt path)
  return fun path => (entries.lookup path).getD .missing

/-- The paths of the files that the settings and the arguments name. -/
def pathsOf (lookup : Program.Lookup) (invocation : Invocation) : List String :=
  let options := invocation.options
  let preload := match Program.settings lookup options with
    | .ok settings => settings.preload
    | .error _ => []
  [options.config] ++ preload ++ (if options.expression then [] else invocation.args)

/-- Shows what has been written. -/
def display (screen : Screen) : IO Unit := do
  (← IO.getStdout).putStr screen.out
  (← IO.getStdout).flush
  (← IO.getStderr).putStr screen.err

/-- The end of a run that went into trouble. -/
def giveUp (trouble : Trouble) (screen : Screen) : IO UInt32 := do
  display { screen with err := screen.err ++ trouble.report }
  return (if trouble.failure.crash?.isSome then 2 else 1)

/-- Answers line after line. -/
partial def converse (prompt : String) (session : Session) : IO UInt32 := do
  let input ← IO.getStdin
  if ← input.isTty then
    display ⟨if session.isPending then String.ofList (prompt.toList.map fun _ => ' ') else prompt, ""⟩
  let line ← input.getLine
  if line.isEmpty then return 0
  match Program.hear session line ⟨"", ""⟩ with
  | .error trouble screen => giveUp trouble screen
  | .ok session screen =>
    display screen
    if session.done then return 0 else converse prompt session

/-- Does what an invocation asks for. -/
def perform (invocation : Invocation) : IO UInt32 := do
  let lookup ← lookupOf [invocation.options.config]
  let lookup ← lookupOf (pathsOf lookup invocation)
  if invocation.command = some .repl && !invocation.options.help then
    match Program.startSession lookup invocation.options ⟨"", ""⟩ with
    | .error trouble screen => giveUp trouble screen
    | .ok (settings, session) screen =>
      display screen
      converse (if settings.prompt = "" then Settings.default.prompt else settings.prompt) session
  else
    match Program.perform lookup "" invocation ⟨"", ""⟩ with
    | .error trouble screen => giveUp trouble screen
    | .ok _ screen =>
      display screen
      return 0

end ProtoLisp.Console

/-- The program. -/
def main (words : List String) : IO UInt32 := do
  match ProtoLisp.CommandLine.Invocation.ofWords words with
  | .error error =>
    ProtoLisp.Console.display (ProtoLisp.Program.Report.ofUsageError error).screen
    return 1
  | .ok invocation => ProtoLisp.Console.perform invocation
