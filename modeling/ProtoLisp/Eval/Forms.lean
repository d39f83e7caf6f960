import ProtoLisp.Eval.Arithmetic
import ProtoLisp.Eval.Script
import ProtoLisp.Node.Text

/-!
# The forms of the language

`do`, `def`, `set!` and `object` have meanings of their own, a name with a dot dispatches to an object,
and every other list calls a function.  Each form is given here in terms of `evaluate`, which evaluates
the parts of it.

    (do expr ...)                         the expressions in a new scope, with the value of the last
    (def name expr)                       a new binding in the current scope
    (def (name param ...) body)           a new function there
    (set! name expr)                      a new value for an existing binding
    (object [name] clause ...)            a new object
      [field expr]                          with a field
      [(.method param ...) body]            with a method
      [prototype expr]                      with a prototype
    (.selector target arg ...)            an attribute of an object, or a call of it
    (name arg ...)                        a call
-/

namespace ProtoLisp

/-- What an evaluation is set up with once and for all. -/
structure Setup where
  /-- fraction digits of a quotient that does not end -/
  precision : Int32
  host : Host

namespace Eval

open Run

/-! ### Sequences -/

/-- The values of the expressions, from left to right.  `done` are the values so far, the last one
first. -/
def args (evaluate : Request → Run Slot) (done : List Slot) : List Node → Run (List Slot)
  | [] => pure done.reverse
  | node :: nodes => do args evaluate ((← evaluate (.eval node)) :: done) nodes

/-- The value of the last expression, or `last` if there is none. -/
def sequence (evaluate : Request → Run Slot) (last : Slot) : List Node → Run Slot
  | [] => pure last
  | node :: nodes => do sequence evaluate (← evaluate (.eval node)) nodes

/-! ### Calls -/

/-- Binds the parameters to the arguments in the scope `s`. -/
def bindParams (s : ScopeId) : List String → List Slot → Run Unit
  | name :: names, slot :: slots => do
    define s name slot
    bindParams s names slots
  | _, _ => pure ()

/-- The result of a native function; nothing counts as null. -/
def native (setup : Setup) (evaluate : Request → Run Slot) (body : Native) (args : List Slot) :
    Run Slot := do
  let result ← match body with
    | .operator operator => operator.apply setup.precision args
    | .host key => (setup.host key args).follow evaluate
  return some (result.getD .null)

/-- The result of a closure: its body is evaluated in a new scope that binds the parameters, inside
the scope of the definition. -/
def closure (evaluate : Request → Run Slot) (name : String) (params : List String) (body : Node)
    (scope : Option ScopeId) (args : List Slot) : Run Slot := do
  if args.length ≠ params.length then
    complain (.arity name params.length args.length)
  else
    let s ← newScope scope
    bindParams s params args
    inScope s (evaluate (.eval body))

/-- Calls a function with arguments, on behalf of an object named `receiver`. -/
def call (setup : Setup) (evaluate : Request → Run Slot) (function : Slot) (args : List Slot)
    (receiver : String) : Run Slot := do
  match ← present function with
  | .native name body => inCall ⟨name, receiver⟩ (native setup evaluate body args)
  | .closure name params body scope =>
    inCall ⟨name, receiver⟩ (closure evaluate name params body scope args)
  | v => complain (.notInvokable (← withHeap (·.exhibit v)))

/-- `(name arg ...)` -/
def application (setup : Setup) (evaluate : Request → Run Slot) (name : String) (nodes : List Node) :
    Run Slot := do
  match ← resolve? name with
  | none => complain (.undefinedFunction name)
  | some slot =>
    let v ← present slot
    if v.type = .function then
      let slots ← args evaluate [] nodes
      call setup evaluate slot slots ""
    else complain (.notFunction name (← withHeap (·.exhibit v)))

/-! ### Blocks, definitions and assignments -/

/-- `(do expr ...)` -/
def block (evaluate : Request → Run Slot) (nodes : List Node) : Run Slot := do
  let s ← newScope (some (← currentScope))
  inScope s (sequence evaluate (some .null) nodes)

/-- The names of the parameters in a signature of the form `form`, which have to be different names.
`seen` are those in front of `nodes`. -/
def formals (form : String) (seen : List String) : List Node → Except Complaint (List String)
  | [] => .ok seen
  | .variable name :: nodes =>
    if seen.contains name then .error (.parameterRepeated form name)
    else formals form (seen ++ [name]) nodes
  | node :: _ => .error (.parameterNotSymbol form node.shown)

/-- Goes on with a value, or complains. -/
def orComplain : Except Complaint α → Run α
  | .ok a => pure a
  | .error complaint => complain complaint

/-- `(def name expr)` -/
def defineName (evaluate : Request → Run Slot) (name : String) (node : Node) : Run Slot := do
  if ← isBoundHere name then
    complain (.defRedefined name)
  else
    let slot ← evaluate (.eval node)
    define (← currentScope) name slot
    return slot

/-- `(def (name param ...) body)` -/
def defineFunction (name : String) (params : List Node) (body : Node) : Run Slot := do
  if ← isBoundHere name then
    complain (.defRedefined name)
  else
    let names ← orComplain (formals "def" [] params)
    let s ← currentScope
    let function := some (.closure name names body (some s))
    define s name function
    return function

/-- `(def target expr)` -/
def definition (evaluate : Request → Run Slot) : List Node → Run Slot
  | [.variable name, node] => defineName evaluate name node
  | [.call name params, body] =>
    if name = "" then complain (.defFunctionName (Node.call name params).shown)
    else defineFunction name params body
  | [target, _] => complain (.defTarget target.shown)
  | nodes => complain (.defCount nodes.length)

/-- `(set! name expr)` -/
def assignment (evaluate : Request → Run Slot) : List Node → Run Slot
  | [.variable name, node] => do
    if (← resolve? name).isNone then
      complain (.setUndefined name)
    else
      let slot ← evaluate (.eval node)
      if ← rebind name slot then return slot else complain (.setUndefined name)
  | [target, _] => complain (.setTarget target.shown)
  | nodes => complain (.setCount nodes.length)

/-! ### Objects -/

/-- `[prototype expr]` -/
def prototypeClause (evaluate : Request → Run Slot) (o : ObjectId) (node : Node) : Run Unit := do
  match ← present (← evaluate (.eval node)) with
  | .object proto =>
    if ← setPrototype o proto then return ()
    else complain (.prototypeCyclic (← withHeap (·.text (some (.object proto)))))
  | v => complain (.prototypeNotObject (← withHeap (·.exhibit v)))

/-- `[field expr]`, in the object's own scope -/
def fieldClause (evaluate : Request → Run Slot) (name : String) (node : Node) : Run Unit := do
  if ← isBoundHere name then
    complain (.fieldRedefined name)
  else
    let slot ← evaluate (.eval node)
    define (← currentScope) name slot

/-- The name and the parameters of a method signature. -/
def signature : Node → Except Complaint (String × List Node)
  | .call name params =>
    if Node.isSelector name && name != "." then .ok (name, params)
    else .error (.methodName (Node.call name params).shown)
  | node => .error (.methodName node.shown)

/-- `[(.method param ...) body]`, in the object's own scope -/
def methodClause (head body : Node) : Run Unit := do
  let (name, params) ← orComplain (signature head)
  if ← isBoundHere name then
    complain (.methodRedefined name)
  else
    let names ← orComplain (formals "object" [] params)
    let s ← currentScope
    define s name (some (.closure name names body (some s)))

/-- One clause of `(object ...)`, in the own scope of the object `o`. -/
def clause (evaluate : Request → Run Slot) (o : ObjectId) : Node → Run Unit
  | .call "" [head, body] => methodClause head body
  | .call "" parts => complain (.methodParts (Node.call "" parts).shown)
  | .call "prototype" [node] => prototypeClause evaluate o node
  | .call name [node] => fieldClause evaluate name node
  | .call name nodes => complain (.fieldCount name nodes.length)
  | node => complain (.clauseNotList node.shown)

/-- The clauses of `(object ...)` in order. -/
def clauses (evaluate : Request → Run Slot) (o : ObjectId) : List Node → Run Unit
  | [] => pure ()
  | node :: nodes => do
    clause evaluate o node
    clauses evaluate o nodes

/-- Makes an object and fills it in. -/
def construct (evaluate : Request → Run Slot) (name : String) (nodes : List Node) : Run Slot := do
  let (o, s) ← newObject name
  inScope s do
    clauses evaluate o nodes
    return some (.object o)

/-- `(object [name] clause ...)` -/
def construction (evaluate : Request → Run Slot) : List Node → Run Slot
  | .variable name :: nodes => construct evaluate name nodes
  | nodes => construct evaluate "" nodes

/-! ### Selectors -/

/-- The single argument of a selector, which has to be an object. -/
def objectArgument (selector : String) (args : List Slot) : Run ObjectId := do
  match args with
  | [slot] =>
    match ← present slot with
    | .object o => return o
    | v => complain (.argumentNotObject selector (← withHeap (·.exhibit v)))
  | _ => complain (.selectorOneArgument selector args.length)

/-- `.prototype` -/
def sendPrototype (o : ObjectId) (args : List Slot) : Run Slot := do
  if args.length ≠ 0 then complain (.selectorNoArguments ".prototype" args.length)
  else return some (((← withHeap (·.proto? o)).map Value.object).getD .null)

/-- `.prototype=` -/
def sendSetPrototype (o : ObjectId) (args : List Slot) : Run Slot := do
  let proto ← objectArgument ".prototype=" args
  if ← setPrototype o proto then return some (.object proto)
  else complain (.selectorCyclic ".prototype=" (← withHeap (·.text (some (.object proto)))))

/-- `.instance?` -/
def sendInstance (o : ObjectId) (args : List Slot) : Run Slot := do
  let candidate ← objectArgument ".instance?" args
  return some (.bool (← withHeap (·.isInstance o candidate)))

/-- The field that a selector sets, if it ends in the sign of assignment. -/
def setterField? (attr : String) : Option String :=
  match attr.toList.reverse with
  | '=' :: field => some (String.ofList field.reverse)
  | _ => none

/-- A selector that sets the field `field`. -/
def sendSet (o : ObjectId) (selector field : String) (args : List Slot) : Run Slot := do
  match args with
  | [slot] =>
    setField o field slot
    return slot
  | _ => complain (.selectorOneArgument selector args.length)

/-- A selector that reads an attribute: a method is called, anything else is the result. -/
def sendGet (setup : Setup) (evaluate : Request → Run Slot) (o : ObjectId) (selector : String)
    (args : List Slot) : Run Slot := do
  match ← withHeap (·.attribute? o selector) with
  | none => complain (.undefinedAttribute selector (← withHeap (·.objectLabel o)))
  | some slot =>
    let v ← present slot
    if v.type = .function then call setup evaluate slot args (← withHeap (·.objectName o))
    else if args.length ≠ 0 then complain (.fieldNotInvokable selector (← withHeap (·.exhibit v)))
    else return slot

/-- Dispatches a selector to an object.  Three selectors have fixed meanings. -/
def send (setup : Setup) (evaluate : Request → Run Slot) (o : ObjectId) (selector : String)
    (args : List Slot) : Run Slot :=
  if selector = ".prototype" then sendPrototype o args
  else if selector = ".prototype=" then sendSetPrototype o args
  else if selector = ".instance?" then sendInstance o args
  else
    let attr := Heap.stripDot selector
    if attr = "" ∨ attr = "=" then complain (.selectorInvalid selector)
    else match setterField? attr with
      | some field => sendSet o selector field args
      | none => sendGet setup evaluate o selector args

/-- `(.selector target arg ...)` -/
def selection (setup : Setup) (evaluate : Request → Run Slot) (selector : String) :
    List Node → Run Slot
  | [] => complain (.noTarget selector)
  | target :: nodes => do
    match ← present (← evaluate (.eval target)) with
    | .object o =>
      let slots ← args evaluate [] nodes
      send setup evaluate o selector slots
    | v => complain (.targetNotObject selector (← withHeap (·.exhibit v)))

/-! ### Expressions -/

/-- A list, by the name in front of it. -/
def form (setup : Setup) (evaluate : Request → Run Slot) (name : String) (nodes : List Node) :
    Run Slot :=
  if name = "do" then block evaluate nodes
  else if name = "def" then definition evaluate nodes
  else if name = "set!" then assignment evaluate nodes
  else if name = "object" then construction evaluate nodes
  else if Node.isSelector name then selection setup evaluate name nodes
  else application setup evaluate name nodes

/-- An expression. -/
def expression (setup : Setup) (evaluate : Request → Run Slot) : Node → Run Slot
  | .number d => pure (some (.number d))
  | .atom name => pure (some (.atom name))
  | .variable name => do
    match ← resolve? name with
    | some slot => return slot
    | none => complain (.undefinedVariable name)
  | .call name nodes => form setup evaluate name nodes
  | .absent => complain .missingExpression
  | .extension kind _ => complain (.unknownExpression kind)

end Eval

end ProtoLisp
