import ProtoLisp.CommandLine.Flag

/-!
# Help

What the program says about itself.
-/

namespace ProtoLisp.CommandLine

/-- What a flag does. -/
def Flag.summary : Flag → String
  | .config => "Read settings from a YAML configuration file"
  | .logLevel => "Log level (debug, info, warn, error); overrides the config file"
  | .trace => "Print the call stack when evaluation fails"
  | .expression => "Interpret arguments as lisp expressions"
  | .print => "Print expression values to stdout"
  | .help => "Print this help"

/-- What a command does. -/
def Command.summary : Command → String
  | .run => "Run lisp code"
  | .repl => "Run an interactive read-eval-print loop"
  | .help => "Help about any command"
  | .completion => "Help about completion in a shell"

/-- What the program, or one of its commands, does. -/
def description : Option Command → String
  | some .run => "Run lisp code supplied via the command line or a file.\n\n" ++
      "All arguments are evaluated in order by a single interpreter, so definitions\n" ++
      "made by one file are visible to the files that follow it.\n"
  | some command => command.summary ++ "\n"
  | none => "A small lisp whose objects delegate to prototypes.\n\n" ++
      "Evaluate files or expressions with the run command, or explore the language\n" ++
      "interactively with the repl command.\n"

/-- How the program, or one of its commands, is called. -/
def usageLine : Option Command → String
  | some .run => commandPath (some .run) ++ " [flags] FILE|EXPR ..."
  | some command => commandPath (some command) ++ " [flags]"
  | none => commandPath none ++ " [command]"

/-- A name in a column, with a text behind it. -/
def helpLine (width : Nat) (name text : String) : String :=
  "  " ++ name ++ String.ofList (List.replicate (width - name.length) ' ') ++ text ++ "\n"

/-- The help on the program, or on one of its commands. -/
def helpText (topic : Option Command) : String :=
  let commands := match topic with
    | none => "\nAvailable Commands:\n" ++
        String.join (Command.all.map fun command => helpLine 12 command.name command.summary)
    | some _ => ""
  description topic ++ "\nUsage:\n  " ++ usageLine topic ++ "\n" ++ commands ++ "\nFlags:\n" ++
    String.join ((Flag.available topic).map fun flag => helpLine 18 flag.reference flag.summary)

end ProtoLisp.CommandLine
