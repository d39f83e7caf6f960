import ProtoLisp.Token

/-!
# Failures of reading

What can be wrong with a text that is to be read as expressions.  A text that merely ends too early is
incomplete: more text may mend it.
-/

namespace ProtoLisp

/-- A form of expression that was asked for. -/
inductive Wanted where
  | number
  | atom
  | symbol
  | list
  deriving DecidableEq, Repr

namespace Wanted

/-- A token of kind `kind` starts an expression of this form. -/
def startsWith : Wanted → Kind → Bool
  | .number, .number => true
  | .atom, .atom => true
  | .symbol, .symbol => true
  | .list, .opening _ => true
  | _, _ => false

/-- How a failure names the form. -/
def text : Wanted → String
  | .number => "number literal"
  | .atom => "atom"
  | .symbol => "symbol"
  | .list => "list"

end Wanted

/-- What is wrong. -/
inductive Fault where
  /-- the characters make no token, or could not be read -/
  | reported (text : String) (incomplete : Bool)
  /-- no expression starts with a token of this kind -/
  | unexpected (kind : Kind)
  /-- an expression was due -/
  | endOfInput
  /-- a number beyond all bounds -/
  | badNumber (text : String)
  /-- a token of another kind than the one asked for -/
  | refused (wanted : Wanted) (found : Kind)
  /-- a list that is never closed -/
  | unmatched (opener : String)
  /-- a list that is closed by the wrong delimiter -/
  | mismatched (closer opener : String) (opened : Location)
  deriving DecidableEq, Repr

namespace Fault

/-- The fault in words. -/
def text : Fault → String
  | .reported text _ => text
  | .unexpected kind => "unexpected " ++ kind.text
  | .endOfInput => "unexpected end of input"
  | .badNumber text => "invalid number literal: " ++ text
  | .refused wanted found => "invalid " ++ wanted.text ++ ": " ++ found.text
  | .unmatched opener => "unmatched " ++ opener
  | .mismatched closer opener opened =>
    closer ++ " closes " ++ opener ++ " opened at " ++ opened.text

/-- The text ended in the middle of an expression. -/
def incomplete : Fault → Bool
  | .reported _ incomplete => incomplete
  | .endOfInput => true
  | .unmatched _ => true
  | _ => false

/-- The text that an interrupted reading reports; more input may follow it. -/
def interruption : String := "unexpected EOF"

/-- The fault of a text that a token reports. -/
def ofReport (text : String) : Fault :=
  .reported text (text == interruption)

end Fault

/-- A fault and where it shows. -/
structure ReadError where
  location : Option Location
  fault : Fault
  deriving DecidableEq, Repr

namespace ReadError

/-- The failure in words. -/
def text (error : ReadError) : String :=
  match error.location with
  | some location => location.text ++ ": " ++ error.fault.text
  | none => error.fault.text

/-- More text may turn the failure into a success. -/
def incomplete (error : ReadError) : Bool := error.fault.incomplete

end ReadError

end ProtoLisp
