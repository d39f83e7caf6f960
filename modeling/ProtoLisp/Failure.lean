import ProtoLisp.Condition
import ProtoLisp.ReadError

/-!
# Ways to end without a result

An evaluation or a reading may fail, a native function may report a failure in its own words, and a
few misuses crash: they end all work in progress at once, though they leave no traces of it behind.
-/

namespace ProtoLisp

/-- A misuse that ends all work in progress. -/
inductive Crash where
  /-- the exponent of a product does not fit -/
  | exponentOverflow (exponent : Int)
  /-- a number was to be divided by zero -/
  | zeroDivisor
  /-- no value was given where one is to be bound -/
  | absentBinding
  /-- a call was to be taken from an empty stack -/
  | emptyStack
  /-- a native function gave up -/
  | native (text : String)
  /-- something was asked of a value, an expression or a token that is not there -/
  | absence
  deriving DecidableEq, Repr

/-- The crash in words; there are none for asking something of nothing. -/
def Crash.message? : Crash → Option String
  | .exponentOverflow exponent => some ("exponent " ++ toString exponent ++ " overflows an int32!")
  | .zeroDivisor => some "decimal division by 0"
  | .absentBinding => some "nil value"
  | .emptyStack => some "pop called on an empty stack"
  | .native text => some text
  | .absence => none

/-- Why there is no result. -/
inductive Failure where
  | eval (error : EvalError)
  | read (error : ReadError)
  /-- a failure in plain words -/
  | plain (text : String)
  | crash (cause : Crash)
  /-- the evaluation went deeper than it was allowed to -/
  | tooDeep
  deriving DecidableEq, Repr

/-- The failure in words. -/
def Failure.text : Failure → String
  | .eval error => error.text
  | .read error => error.text
  | .plain text => text
  | .crash cause => cause.message?.getD "absent value"
  | .tooDeep => "evaluation too deep"

/-- The trace of a failed evaluation, if calls were active. -/
def Failure.trace? : Failure → Option String
  | .eval error => error.trace?
  | _ => none

/-- The failure is a crash. -/
def Failure.crash? : Failure → Option Crash
  | .crash cause => some cause
  | _ => none

end ProtoLisp
