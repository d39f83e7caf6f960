import ProtoLisp.Heap.Text
import ProtoLisp.Failure

/-!
# The state of an evaluation

An evaluation works on a machine: the heap, the scope in which names are looked up at the moment, and
the active calls.  `Run` is the type of evaluation steps.  A step that fails leaves the machine as it
is at that moment; what a step changes only for its own duration, the current scope and the active
calls, is put back however the step ends.
-/

namespace ProtoLisp

/-- The state of an evaluation. -/
structure Machine where
  heap : Heap
  /-- the scope in which names are looked up -/
  scope : ScopeId
  stack : CallStack
  deriving Repr, Inhabited

/-- A step of an evaluation: it works on a machine and has a result or fails. -/
abbrev Run := EStateM Failure Machine

namespace Run

/-- Fails with a complaint, which takes note of the active calls. -/
def complain (complaint : Complaint) : Run α := fun m =>
  .error (.eval ⟨complaint, if m.stack.height = 0 then none else some m.stack⟩) m

/-- Ends all work in progress. -/
def crash (cause : Crash) : Run α := fun m => .error (.crash cause) m

/-- Fails in plain words. -/
def refuse (text : String) : Run α := fun m => .error (.plain text) m

/-- Ends because the evaluation went too deep. -/
def tooDeep : Run α := fun m => .error .tooDeep m

/-- Looks at the heap. -/
@[inline] def withHeap (f : Heap → α) : Run α := fun m => .ok (f m.heap) m

/-- The current scope. -/
def currentScope : Run ScopeId := fun m => .ok m.scope m

/-- What `name` means in the current scope. -/
def resolve? (name : String) : Run (Option Slot) := fun m => .ok (m.heap.resolve? m.scope name) m

/-- The current scope itself binds `name`. -/
def isBoundHere (name : String) : Run Bool := fun m =>
  .ok (m.heap.ownBinding? m.scope name).isSome m

/-- Changes the heap. -/
@[inline] def modifyHeap (f : Heap → Heap) : Run Unit := fun m =>
  .ok () { m with heap := f m.heap }

/-- Makes a new scope inside `parent`. -/
def newScope (parent : Option ScopeId) : Run ScopeId := fun m =>
  .ok m.heap.nextScope { m with heap := m.heap.addScope parent }

/-- Makes a new object inside the current scope, with a scope of its own. -/
def newObject (name : String) : Run (ObjectId × ScopeId) := fun m =>
  .ok (m.heap.nextObject, m.heap.nextScope)
    { m with heap := m.heap.addObject name (some m.scope) }

/-- Binds `name` in the scope `s` itself; there has to be a value to bind. -/
def define (s : ScopeId) (name : String) : Slot → Run Unit
  | some v => modifyHeap (·.put s name (some v))
  | none => crash .absentBinding

/-- Sets a field of an object; there has to be a value to set. -/
def setField (o : ObjectId) (name : String) : Slot → Run Unit
  | some v => modifyHeap (·.setField o name (some v))
  | none => crash .absentBinding

/-- Replaces what `name` means in the current scope; false if it means nothing there. -/
def rebind (name : String) (slot : Slot) : Run Bool := fun m =>
  match m.heap.owner? m.scope name with
  | some s => .ok true { m with heap := m.heap.put s name slot }
  | none => .ok false m

/-- Makes `proto` the prototype of `o`; false if that would close a circle. -/
def setPrototype (o proto : ObjectId) : Run Bool := fun m =>
  if m.heap.isInstance proto o then .ok false m
  else .ok true { m with heap := m.heap.linkPrototype o (some proto) }

/-- The value in a slot, of which something is asked. -/
def present : Slot → Run Value
  | some v => pure v
  | none => crash .absence

/-- Does `body` with `s` as the current scope, and goes back to the scope before. -/
@[inline] def inScope (s : ScopeId) (body : Run α) : Run α := fun m =>
  let before := m.scope
  match body { m with scope := s } with
  | .ok a m => .ok a { m with scope := before }
  | .error e m => .error e { m with scope := before }

/-- A call has ended: its frame is taken from the stack. -/
@[inline] def leaveCall : EStateM.Result Failure Machine α → EStateM.Result Failure Machine α
  | .ok a m =>
    if m.stack.height = 0 then .error (.crash .emptyStack) m
    else .ok a { m with stack := m.stack.pop }
  | .error e m =>
    if m.stack.height = 0 then .error (.crash .emptyStack) m
    else .error e { m with stack := m.stack.pop }

/-- Does `body` as a call with the frame `frame`, and takes the frame from the stack when it ends. -/
@[inline] def inCall (frame : Frame) (body : Run α) : Run α := fun m =>
  if m.stack.isFull then complain (.stackExhausted m.stack.maxHeight) m
  else leaveCall (body { m with stack := m.stack.push frame })

end Run

end ProtoLisp
