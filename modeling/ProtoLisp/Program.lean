import ProtoLisp.CommandLine.Help
import ProtoLisp.CommandLine.Invocation
import ProtoLisp.Session.Lines
import ProtoLisp.Settings

/-!
# The program

The program evaluates files or expressions in one interpreter, or converses with whoever writes lines
to it.  It is a function of its command line, of the files that it finds and of its input; what it
returns is all that it writes, and what went wrong.
-/

namespace ProtoLisp

open CommandLine (Invocation Options helpText)

/-- What went wrong, and where. -/
structure Trouble where
  /-- what the program was about, from the outside in -/
  context : List String
  failure : Failure
  deriving DecidableEq, Repr

namespace Trouble

/-- The trouble in words. -/
def text (trouble : Trouble) : String :=
  String.join (trouble.context.map (· ++ ": ")) ++ trouble.failure.text

/-- The report of the trouble; a crash is not reported. -/
def report (trouble : Trouble) : String :=
  match trouble.failure.crash? with
  | some _ => ""
  | none => "Error: " ++ trouble.text ++ "\n"

end Trouble

/-- What the program has written. -/
structure Screen where
  out : String
  err : String
  deriving DecidableEq, Repr

/-- A part of the work: it writes, and has a result or runs into trouble. -/
abbrev Job := EStateM Trouble Screen

namespace Job

/-- Writes a text. -/
def print (text : String) : Job Unit :=
  modify fun screen => { screen with out := screen.out ++ text }

/-- Writes a text about a failure. -/
def complain (text : String) : Job Unit :=
  modify fun screen => { screen with err := screen.err ++ text }

/-- Runs into trouble. -/
def fail (failure : Failure) : Job α := throw ⟨[], failure⟩

/-- A result, or trouble that is told in plain words. -/
def ofExcept : Except String α → Job α
  | .ok a => pure a
  | .error text => fail (.plain text)

/-- Does a job as a part of `context`. -/
def within (context : String) (job : Job α) : Job α := fun screen =>
  match job screen with
  | .ok a screen => .ok a screen
  | .error trouble screen => .error { trouble with context := context :: trouble.context } screen

end Job

namespace Program

/-- What a path leads to. -/
abbrev Lookup := String → Entry

/-- The settings that the options ask for. -/
def settings (lookup : Lookup) (options : Options) : Except String Settings := do
  let settings ← if options.config = "" then .ok Settings.default
    else Settings.load options.config (lookup options.config)
  let settings := if options.logLevel = "" then settings
    else { settings with logLevel := options.logLevel }
  settings.checkLevel
  return settings

/-- How deep an evaluation may go; a limit on active calls is reached long before. -/
def depth : Nat := 1000000000000000

/-- Evaluates the expressions of a source in order, up to the first failure. -/
def evalSource (interpreter : Interpreter) (tracing printing : Bool) (source : Source) :
    Job Interpreter :=
  match readProgram source with
  | .error error => Job.fail (.read error)
  | .ok nodes => do
    let (out, failure, interpreter) := interpreter.evalEach depth printing "" nodes
    Job.print out
    match failure with
    | none => return interpreter
    | some failure =>
      if tracing then Job.complain (failure.trace?.getD "")
      Job.within source.file (Job.fail failure)

/-- Evaluates the expressions of a file. -/
def evalFile (lookup : Lookup) (interpreter : Interpreter) (tracing printing : Bool)
    (path : String) : Job Interpreter := do
  let bytes ← Job.ofExcept ((lookup path).read path)
  evalSource interpreter tracing printing (.ofBytes path bytes)

/-- An interpreter that has evaluated the files to be evaluated first. -/
def prepare (lookup : Lookup) (settings : Settings) (tracing : Bool) : Job Interpreter := do
  match Interpreter.build Host.standard settings.choices with
  | .error failure => Job.fail failure
  | .ok interpreter =>
    settings.preload.foldlM (fun interpreter path =>
      Job.within "preload" (evalFile lookup interpreter tracing false path)) interpreter

/-- The name of the expression that is the argument number `i`. -/
def expressionName (i : Nat) : String := "expr" ++ toString i

/-- Evaluates the arguments in order: files, or expressions. -/
def run (lookup : Lookup) (options : Options) (args : List String) : Job Unit := do
  let settings ← Job.ofExcept (settings lookup options)
  let interpreter ← prepare lookup settings options.trace
  let _ ← (args.zipIdx 1).foldlM (fun interpreter (arg, i) =>
    if options.expression then
      evalSource interpreter options.trace options.print (.ofString (expressionName i) arg)
    else evalFile lookup interpreter options.trace options.print arg) interpreter

/-- A session with the settings that it was started with. -/
def startSession (lookup : Lookup) (options : Options) : Job (Settings × Session) := do
  let settings ← Job.ofExcept (settings lookup options)
  let interpreter ← prepare lookup settings options.trace
  return (settings, Session.start interpreter options.trace)

/-- Hears a part of the input. -/
def hear (session : Session) (input : String) : Job Session := do
  let (session, out, err, crash) :=
    session.converse depth "" "" (LineEvent.ofChars [] input.toList)
  Job.print out
  Job.complain err
  match crash with
  | some cause => Job.fail (.crash cause)
  | none => return session

/-- Converses until the input ends. -/
def converse (lookup : Lookup) (options : Options) (input : String) : Job Unit := do
  let (_, session) ← startSession lookup options
  let _ ← hear session input

/-- Does what an invocation asks for. -/
def perform (lookup : Lookup) (input : String) (invocation : Invocation) : Job Unit :=
  if invocation.options.help then Job.print (helpText invocation.command)
  else match invocation.command with
    | some .run => run lookup invocation.options invocation.args
    | some .repl => converse lookup invocation.options input
    | some .help | some .completion | none => Job.print (helpText none)

/-- All that a run of the program shows. -/
structure Report where
  screen : Screen
  trouble : Option Trouble
  deriving DecidableEq, Repr

/-- The report on a job. -/
def Report.ofJob (job : Job Unit) : Report :=
  match job ⟨"", ""⟩ with
  | .ok _ screen => ⟨screen, none⟩
  | .error trouble screen => ⟨{ screen with err := screen.err ++ trouble.report }, some trouble⟩

/-- The report on a command line that makes no sense. -/
def Report.ofUsageError (error : CommandLine.UsageError) : Report :=
  let trouble : Trouble := ⟨[], .plain error.text⟩
  ⟨⟨"", trouble.report ++ error.hint⟩, some trouble⟩

/-- Runs the program with the words of a command line. -/
def execute (lookup : Lookup) (input : String) (words : List String) : Report :=
  match Invocation.ofWords words with
  | .error error => .ofUsageError error
  | .ok invocation => .ofJob (perform lookup input invocation)

end Program

end ProtoLisp
