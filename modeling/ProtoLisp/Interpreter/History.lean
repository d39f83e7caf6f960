import ProtoLisp.Interpreter

/-!
# What a host does with an interpreter

A host sets an interpreter up, has it evaluate things, makes objects of its own and links prototypes,
in any order and as often as it likes.  Each of these is a deed; the evaluations among them are
operations, which have a result or fail.  All that a host does with an interpreter is a list of deeds.
-/

namespace ProtoLisp

/-- What a host can ask of an interpreter. -/
inductive Operation where
  | eval (node : Node)
  | evalIn (s : ScopeId) (node : Node)
  | call (function : Slot) (args : List Slot)
  | send (target : ObjectId) (selector : String) (args : List Slot)
  | load (source : Source)

/-- Does what is asked for: the outcome, and the interpreter afterwards, which is there whether the
operation has a result or fails. -/
def Interpreter.operate (interpreter : Interpreter) (depth : Nat) :
    Operation → Except Failure Slot × Interpreter
  | .eval node => interpreter.eval depth node
  | .evalIn s node => interpreter.evalIn depth s node
  | .call function args => interpreter.call depth function args
  | .send target selector args => interpreter.send depth target selector args
  | .load source => interpreter.load depth source

/-- One thing that a host does with an interpreter. -/
inductive Deed where
  | choose (choice : Choice)
  | addBuiltins (builtins : List (String × Native))
  | operate (depth : Nat) (operation : Operation)
  | makeObject (name : String) (parent : Option ScopeId)
  | setPrototype (o : ObjectId) (proto : Option ObjectId)

namespace Interpreter

/-- The interpreter with another heap. -/
def withHeap (interpreter : Interpreter) (heap : Heap) : Interpreter :=
  { interpreter with machine := { interpreter.machine with heap := heap } }

/-- What a deed makes of an interpreter.  A choice or a prototype that is refused changes nothing. -/
def handle (interpreter : Interpreter) : Deed → Interpreter
  | .choose choice =>
    match interpreter.choose choice with
    | .ok chosen => chosen
    | .error _ => interpreter
  | .addBuiltins builtins => (interpreter.addBuiltins builtins).2
  | .operate depth operation => (interpreter.operate depth operation).2
  | .makeObject name parent =>
    interpreter.withHeap (interpreter.machine.heap.addObject name parent)
  | .setPrototype o proto =>
    match interpreter.machine.heap.setPrototype? o proto with
    | some heap => interpreter.withHeap heap
    | none => interpreter

/-- What a new interpreter has become after the deeds. -/
def history (host : Host) (deeds : List Deed) : Interpreter := deeds.foldl handle (initial host)

end Interpreter

end ProtoLisp
