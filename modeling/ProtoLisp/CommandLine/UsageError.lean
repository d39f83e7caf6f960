import ProtoLisp.CommandLine.Suggestion
import ProtoLisp.Text.Quoted

/-!
# Usage errors

What can be wrong with a command line, and how that is said.
-/

namespace ProtoLisp.CommandLine

/-- Something that is wrong with a command line. -/
inductive UsageError where
  | badSyntax (arg : String)
  | unknownFlag (name : String)
  /-- `letters` starts with the byte `byte`, which is no flag's -/
  | unknownLetter (byte : UInt8) (letters : String)
  | missingValue (arg : String)
  | invalidSwitch (flag : Flag) (value : String)
  | tooFewArguments
  /-- a word behind a command that takes none -/
  | unexpectedWord (command : Command) (word : String)
  | unknownCommand (word : String)
  deriving DecidableEq, Repr

namespace UsageError

/-- The suggestions behind the report of an unknown command. -/
def suggestionText (word : String) : String :=
  match suggestions word with
  | [] => ""
  | commands => "\n\nDid you mean this?\n" ++
      String.join (commands.map fun command => "\t" ++ command.name ++ "\n")

/-- The error in words. -/
def text : UsageError → String
  | .badSyntax arg => "bad flag syntax: " ++ arg
  | .unknownFlag name => "unknown flag: --" ++ name
  | .unknownLetter byte letters =>
    "unknown shorthand flag: " ++ Text.quoteChar (Char.ofUInt8 byte) ++ " in -" ++ letters
  | .missingValue arg => "flag needs an argument: " ++ arg
  | .invalidSwitch flag value =>
    "invalid argument " ++ Text.quote value ++ " for " ++ Text.quote flag.reference ++
      " flag: strconv.ParseBool: parsing " ++ Text.quote value ++ ": invalid syntax"
  | .tooFewArguments => "requires at least 1 arg(s), only received 0"
  | .unexpectedWord command word =>
    "unknown command " ++ Text.quote word ++ " for " ++ Text.quote (commandPath (some command))
  | .unknownCommand word =>
    "unknown command " ++ Text.quote word ++ " for " ++ Text.quote (commandPath none) ++
      suggestionText word

/-- What is said behind the error. -/
def hint : UsageError → String
  | .unknownCommand _ => "Run '" ++ commandPath none ++ " --help' for usage.\n"
  | _ => ""

end UsageError

end ProtoLisp.CommandLine
