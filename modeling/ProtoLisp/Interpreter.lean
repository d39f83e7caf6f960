import ProtoLisp.Eval
import ProtoLisp.Reader

/-!
# Interpreters

An interpreter is a machine with a global scope, in which null, the arithmetic operators and the root
object are bound.  It evaluates expressions one after the other; whatever becomes of one of them, the
next finds the interpreter in its global scope and without active calls.
-/

namespace ProtoLisp

/-- A machine, what it is set up with, and its outermost scope. -/
structure Interpreter where
  setup : Setup
  /-- source texts can be loaded -/
  reads : Bool
  global : ScopeId
  machine : Machine

/-- A choice to be made when an interpreter is built. -/
inductive Choice where
  | maxStackHeight (n : Int)
  | divisionPrecision (n : Int32)
  | reader
  | global (name : String) (slot : Slot)
  | builtin (name : String) (body : Native)
  deriving Repr

namespace Interpreter

/-- The fraction digits of a quotient unless chosen otherwise. -/
def defaultPrecision : Int32 := 32

/-- The name of the root object. -/
def rootName : String := "Object"

/-- The operators as native functions, by name. -/
def defaultBuiltins : List (String × Native) :=
  Operator.all.map fun operator => (operator.name, .operator operator)

/-- Does `action`, and keeps the machine that it leaves behind. -/
def perform (interpreter : Interpreter) (action : Run α) : Except Failure α × Interpreter :=
  match action interpreter.machine with
  | .ok a machine => (.ok a, { interpreter with machine := machine })
  | .error e machine => (.error e, { interpreter with machine := machine })

/-- Binds native functions in the scope `global`; none of the names may be bound there. -/
def bindBuiltins (global : ScopeId) : List (String × Native) → Run Unit
  | [] => pure ()
  | (name, body) :: rest => do
    if (← Run.withHeap (·.ownBinding? global name)).isSome then
      Run.refuse ("symbol already defined: " ++ name)
    else
      Run.define global name (some (.native name body))
      bindBuiltins global rest

/-- Binds native functions in the global scope; the operators if none are given. -/
def addBuiltins (interpreter : Interpreter) (builtins : List (String × Native)) :
    Except Failure Unit × Interpreter :=
  interpreter.perform
    (bindBuiltins interpreter.global (if builtins.isEmpty then defaultBuiltins else builtins))

/-- Binds a name in the scope `global`; it may not be bound there. -/
def bindGlobal (global : ScopeId) (name : String) (slot : Slot) : Run Unit := do
  if (← Run.withHeap (·.ownBinding? global name)).isSome then
    Run.refuse ("global already defined: " ++ name)
  else
    Run.define global name slot

/-- Makes one choice. -/
def choose (interpreter : Interpreter) : Choice → Except Failure Interpreter
  | .maxStackHeight n =>
    let machine := interpreter.machine
    .ok { interpreter with machine := { machine with stack := { machine.stack with maxHeight := n } } }
  | .divisionPrecision n =>
    if n < 1 then .error (.plain ("division precision must be positive: " ++ toString n.toInt))
    else .ok { interpreter with setup := { interpreter.setup with precision := n } }
  | .reader => .ok { interpreter with reads := true }
  | .global name slot => do
    let (result, interpreter) := interpreter.perform (bindGlobal interpreter.global name slot)
    result
    return interpreter
  | .builtin name body => do
    let (result, interpreter) :=
      interpreter.perform (bindGlobal interpreter.global name (some (.native name body)))
    result
    return interpreter

/-- The heap of a new interpreter: a global scope that binds null, the operators and the root object,
which is its first object. -/
def initialHeap : Heap :=
  let heap := (Heap.empty.addScope none).put 0 "null" (some .null)
  let heap := defaultBuiltins.foldl (fun heap (name, body) =>
    heap.put 0 name (some (.native name body))) heap
  (heap.addObject rootName (some 0)).put 0 rootName (some (.object 0))

/-- An interpreter before any choice is made. -/
def initial (host : Host) : Interpreter where
  setup := ⟨defaultPrecision, host⟩
  reads := false
  global := 0
  machine := ⟨initialHeap, 0, .empty 0⟩

/-- An interpreter built with the choices, made in order. -/
def build (host : Host) (choices : List Choice) : Except Failure Interpreter :=
  choices.foldlM choose (initial host)

/-- Evaluates an expression in the current scope. -/
def eval (interpreter : Interpreter) (depth : Nat) (node : Node) : Except Failure Slot × Interpreter :=
  interpreter.perform (Eval.run interpreter.setup depth (.eval node))

/-- Evaluates an expression in the scope `s`. -/
def evalIn (interpreter : Interpreter) (depth : Nat) (s : ScopeId) (node : Node) :
    Except Failure Slot × Interpreter :=
  interpreter.perform (Run.inScope s (Eval.run interpreter.setup depth (.eval node)))

/-- Calls a function with arguments. -/
def call (interpreter : Interpreter) (depth : Nat) (function : Slot) (args : List Slot) :
    Except Failure Slot × Interpreter :=
  interpreter.perform (Eval.run interpreter.setup depth (.call function args ""))

/-- Dispatches a selector to an object. -/
def send (interpreter : Interpreter) (depth : Nat) (target : ObjectId) (selector : String)
    (args : List Slot) : Except Failure Slot × Interpreter :=
  interpreter.perform (Eval.run interpreter.setup depth (.send target selector args))

/-- Reads a source and evaluates its expressions in order; the result is that of the last one. -/
def load (interpreter : Interpreter) (depth : Nat) (source : Source) :
    Except Failure Slot × Interpreter :=
  if interpreter.reads then
    match readProgram source with
    | .error error => (.error (.read error), interpreter)
    | .ok nodes =>
      interpreter.perform (Eval.sequence (Eval.run interpreter.setup depth) (some .null) nodes)
  else (.error (.plain "no reader configured"), interpreter)

/-- A slot in writing. -/
def text (interpreter : Interpreter) (slot : Slot) : String := interpreter.machine.heap.text slot

/-- Evaluates expressions in order up to the first failure.  If `printing`, the texts of their values
stand behind `out`, a line each. -/
def evalEach (interpreter : Interpreter) (depth : Nat) (printing : Bool) (out : String) :
    List Node → String × Option Failure × Interpreter
  | [] => (out, none, interpreter)
  | node :: nodes =>
    match interpreter.eval depth node with
    | (.ok slot, interpreter) =>
      let out := if printing then out ++ interpreter.text slot ++ "\n" else out
      interpreter.evalEach depth printing out nodes
    | (.error failure, interpreter) => (out, some failure, interpreter)

/-- The current scope is the global one. -/
def isAtGlobal (interpreter : Interpreter) : Bool := interpreter.machine.scope == interpreter.global

end Interpreter

end ProtoLisp
