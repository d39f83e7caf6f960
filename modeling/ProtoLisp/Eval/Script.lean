import ProtoLisp.Eval.Machine

/-!
# Native functions of a host

A host adds functions of its own.  Such a function is a script: it may ask for evaluations, calls and
dispatches, one after the other, and look at the active calls, and then it has a result or fails.  When
something it asks for fails, the script fails with it: failures are passed on unmodified, and the
continuation of a request is for its result alone.

Functions that do otherwise are left out.  A native function that goes on after a failure of something
it has asked for, puts another failure in its place, recovers from a crash, never stops asking, or works
on scopes and objects other than by its requests is no script, and nothing that is proved for every host
speaks of it.
-/

namespace ProtoLisp

/-- Something to be evaluated. -/
inductive Request where
  /-- an expression, in the current scope -/
  | eval (node : Node)
  /-- a call of a function, made by an object of the name `receiver` if that is not empty -/
  | call (function : Slot) (args : List Slot) (receiver : String)
  /-- a dispatch of a selector to an object -/
  | send (target : ObjectId) (selector : String) (args : List Slot)
  deriving Repr

/-- What a native function does with its arguments. -/
inductive Script where
  /-- ends with a result, or with nothing -/
  | finish (result : Slot)
  | complain (complaint : Complaint)
  /-- fails in plain words -/
  | refuse (text : String)
  | crash (cause : Crash)
  /-- asks for an evaluation and goes on with its result -/
  | ask (request : Request) (next : Slot → Script)
  /-- goes on with the number of active calls -/
  | height (next : Nat → Script)
  /-- goes on with the innermost call -/
  | top (next : Option Frame → Script)

/-- The native functions of a host, by name. -/
abbrev Host := String → List Slot → Script

/-- Follows a script; `evaluate` meets its requests. -/
def Script.follow (evaluate : Request → Run Slot) : Script → Run Slot
  | .finish result => pure result
  | .complain complaint => Run.complain complaint
  | .refuse text => Run.refuse text
  | .crash cause => Run.crash cause
  | .ask request next => do (next (← evaluate request)).follow evaluate
  | .height next => do (next (← fun m => .ok m.stack.height m)).follow evaluate
  | .top next => do (next (← fun m => .ok m.stack.top? m)).follow evaluate

/-- The functions that every host can offer. -/
def Host.standard : Host := fun key args =>
  match key, args with
  | "nothing", _ => .finish none
  | "count", args => .finish (some (.ofInt args.length))
  | "first", arg :: _ => .finish arg
  | "first", [] => .complain (.stated .arityMismatch "first: no arguments")
  | "fail", _ => .refuse "native failure"
  | "panic", _ => .crash (.native "native panic")
  | "apply", function :: args => .ask (.call function args "") .finish
  | "apply", [] => .complain (.stated .arityMismatch "apply: no arguments")
  | "height", _ => .height fun n => .finish (some (.ofInt n))
  | "frame", _ => .top fun
    | some frame => .finish (some (.atom frame.text))
    | none => .crash .absence
  | _, _ => .refuse ("unknown native function: " ++ key)

end ProtoLisp
