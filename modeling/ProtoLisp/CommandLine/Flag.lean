/-!
# Commands and flags

The program has a few commands and a few flags.  A flag is either a switch, which may stand alone, or
has a text as its value.
-/

namespace ProtoLisp.CommandLine

/-- What the program can do. -/
inductive Command where
  | run
  | repl
  | help
  | completion
  deriving DecidableEq, Repr

namespace Command

/-- All commands. -/
def all : List Command := [.run, .repl, .help, .completion]

/-- The word for a command. -/
def name : Command → String
  | .run => "run"
  | .repl => "repl"
  | .help => "help"
  | .completion => "completion"

/-- The command that a word stands for. -/
def ofName? (word : String) : Option Command := all.find? (·.name == word)

end Command

/-- The name of the program. -/
def programName : String := "protolisp"

/-- The program with the words that lead to a command. -/
def commandPath : Option Command → String
  | none => programName
  | some command => programName ++ " " ++ command.name

/-- Something that a command can be told. -/
inductive Flag where
  | config
  | logLevel
  | trace
  | expression
  | print
  | help
  deriving DecidableEq, Repr

namespace Flag

/-- The long name of a flag. -/
def name : Flag → String
  | .config => "config"
  | .logLevel => "log-level"
  | .trace => "trace"
  | .expression => "expression"
  | .print => "print"
  | .help => "help"

/-- The letter of a flag. -/
def letter? : Flag → Option Char
  | .expression => some 'e'
  | .print => some 'p'
  | .help => some 'h'
  | .config | .logLevel | .trace => none

/-- The flag is on when it stands alone. -/
def isSwitch : Flag → Bool
  | .config | .logLevel => false
  | .trace | .expression | .print | .help => true

/-- The flag as it is referred to. -/
def reference (flag : Flag) : String :=
  match flag.letter? with
  | some letter => String.ofList ['-', letter] ++ ", --" ++ flag.name
  | none => "--" ++ flag.name

/-- The flags that every command has. -/
def shared : List Flag := [.config, .logLevel, .trace]

/-- The flags of a command, or of the program without one. -/
def available : Option Command → List Flag
  | some .run => [.expression, .print, .help] ++ shared
  | _ => .help :: shared

/-- The flag of a long name, among `flags`. -/
def ofName? (flags : List Flag) (name : String) : Option Flag := flags.find? (·.name == name)

/-- The flag of a letter, among `flags`. -/
def ofLetter? (flags : List Flag) (letter : Char) : Option Flag :=
  flags.find? (·.letter? == some letter)

end Flag

/-- The values of all flags. -/
structure Options where
  config : String := ""
  logLevel : String := ""
  trace : Bool := false
  expression : Bool := false
  print : Bool := false
  help : Bool := false
  deriving DecidableEq, Repr

namespace Options

/-- The state of a switch in words. -/
def readSwitch? (value : String) : Option Bool :=
  if ["1", "t", "T", "TRUE", "true", "True"].contains value then some true
  else if ["0", "f", "F", "FALSE", "false", "False"].contains value then some false
  else none

/-- The options with one flag set; none if the flag cannot have that value. -/
def set? (options : Options) (flag : Flag) (value : String) : Option Options :=
  match flag with
  | .config => some { options with config := value }
  | .logLevel => some { options with logLevel := value }
  | .trace => (readSwitch? value).map fun on => { options with trace := on }
  | .expression => (readSwitch? value).map fun on => { options with expression := on }
  | .print => (readSwitch? value).map fun on => { options with print := on }
  | .help => (readSwitch? value).map fun on => { options with help := on }

end Options

end ProtoLisp.CommandLine
