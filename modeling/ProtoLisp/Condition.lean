import ProtoLisp.CallStack

/-!
# Failures of evaluation

Every failure belongs to one of eleven conditions.  What exactly was wrong is a `Complaint`; its
condition and its wording are functions of it.
-/

namespace ProtoLisp

/-- The class of a failure. -/
inductive Condition where
  | undefinedVariable
  | undefinedFunction
  | undefinedAttribute
  | redefinedIdentifier
  | invalidForm
  | arityMismatch
  | notInvokable
  | typeMismatch
  | cyclicPrototype
  | divisionByZero
  | stackExhausted
  /-- a number that stands for no condition -/
  | unknown (code : Nat)
  deriving DecidableEq, Repr

namespace Condition

/-- The conditions, in the order of their numbers from one on. -/
def all : List Condition :=
  [.undefinedVariable, .undefinedFunction, .undefinedAttribute, .redefinedIdentifier, .invalidForm,
    .arityMismatch, .notInvokable, .typeMismatch, .cyclicPrototype, .divisionByZero, .stackExhausted]

/-- The condition with the number `code`. -/
def ofCode (code : Nat) : Condition :=
  match code with
  | 0 => .unknown 0
  | n + 1 => all.getD n (.unknown code)

/-- The name of a condition. -/
def text : Condition → String
  | .undefinedVariable => "undefined-variable"
  | .undefinedFunction => "undefined-function"
  | .undefinedAttribute => "undefined-attribute"
  | .redefinedIdentifier => "redefined-identifier"
  | .invalidForm => "invalid-form"
  | .arityMismatch => "arity-mismatch"
  | .notInvokable => "not-invokable"
  | .typeMismatch => "type-mismatch"
  | .cyclicPrototype => "cyclic-prototype"
  | .divisionByZero => "division-by-zero"
  | .stackExhausted => "stack-exhausted"
  | .unknown _ => "INVALID"

end Condition

/-- Something that a message is about: it is shown as `text` and is of type `type`. -/
structure Exhibit where
  text : String
  type : String
  deriving DecidableEq, Repr

/-- The exhibit in a message. -/
def Exhibit.shown (exhibit : Exhibit) : String := exhibit.text ++ " (" ++ exhibit.type ++ ")"

/-- What is wrong with an evaluation. -/
inductive Complaint where
  | missingExpression
  | unknownExpression (kind : String)
  | undefinedVariable (name : String)
  | undefinedFunction (name : String)
  | notFunction (name : String) (found : Exhibit)
  | notInvokable (found : Exhibit)
  | stackExhausted (limit : Int)
  | arity (name : String) (expected got : Nat)
  -- definitions and assignments
  | defCount (got : Nat)
  | defTarget (shown : String)
  | defFunctionName (shown : String)
  | defRedefined (name : String)
  | setCount (got : Nat)
  | setTarget (shown : String)
  | setUndefined (name : String)
  | parameterNotSymbol (form shown : String)
  | parameterRepeated (form name : String)
  -- objects
  | clauseNotList (shown : String)
  | fieldCount (name : String) (got : Nat)
  | fieldRedefined (name : String)
  | prototypeNotObject (found : Exhibit)
  | prototypeCyclic (shown : String)
  | methodParts (shown : String)
  | methodName (shown : String)
  | methodRedefined (name : String)
  -- selectors
  | noTarget (selector : String)
  | targetNotObject (selector : String) (found : Exhibit)
  | selectorNoArguments (selector : String) (got : Nat)
  | selectorOneArgument (selector : String) (got : Nat)
  | argumentNotObject (selector : String) (found : Exhibit)
  | selectorCyclic (selector shown : String)
  | selectorInvalid (selector : String)
  | undefinedAttribute (selector label : String)
  | fieldNotInvokable (selector : String) (found : Exhibit)
  -- arithmetic
  | notNumber (operator : String) (index : Nat) (found : Exhibit)
  | noOperands (operator : String)
  | divisionByZero
  /-- a failure that a native function words itself -/
  | stated (condition : Condition) (text : String)
  deriving DecidableEq, Repr

namespace Complaint

/-- The class of a complaint. -/
def condition : Complaint → Condition
  | .missingExpression | .unknownExpression _ => .invalidForm
  | .undefinedVariable _ | .setUndefined _ => .undefinedVariable
  | .undefinedFunction _ => .undefinedFunction
  | .notFunction _ _ | .notInvokable _ | .fieldNotInvokable _ _ => .notInvokable
  | .stackExhausted _ => .stackExhausted
  | .arity _ _ _ | .noOperands _ => .arityMismatch
  | .defCount _ | .defTarget _ | .defFunctionName _ => .invalidForm
  | .defRedefined _ | .fieldRedefined _ | .methodRedefined _ => .redefinedIdentifier
  | .setCount _ | .setTarget _ => .invalidForm
  | .parameterNotSymbol _ _ | .parameterRepeated _ _ => .invalidForm
  | .clauseNotList _ | .fieldCount _ _ | .methodParts _ | .methodName _ => .invalidForm
  | .prototypeNotObject _ | .targetNotObject _ _ | .argumentNotObject _ _ => .typeMismatch
  | .prototypeCyclic _ | .selectorCyclic _ _ => .cyclicPrototype
  | .noTarget _ | .selectorNoArguments _ _ | .selectorOneArgument _ _ => .invalidForm
  | .selectorInvalid _ => .invalidForm
  | .undefinedAttribute _ _ => .undefinedAttribute
  | .notNumber _ _ _ => .typeMismatch
  | .divisionByZero => .divisionByZero
  | .stated condition _ => condition

/-- The complaint in words. -/
def message : Complaint → String
  | .missingExpression => "nil expression"
  | .unknownExpression kind => "unknown expression type: " ++ kind
  | .undefinedVariable name => "undefined variable: " ++ name
  | .undefinedFunction name => "undefined function: " ++ name
  | .notFunction name found => name ++ " is not invokable: " ++ found.shown
  | .notInvokable found => "value is not invokable: " ++ found.shown
  | .stackExhausted limit => "maximum stack height exceeded: " ++ toString limit
  | .arity name expected got =>
    name ++ " expects " ++ toString expected ++ " arguments (got " ++ toString got ++ ")"
  | .defCount got => "def: two arguments expected (got " ++ toString got ++ ")"
  | .defTarget shown => "def: first argument is not a symbol or a function signature: " ++ shown
  | .defFunctionName shown => "def: function name is not a symbol: " ++ shown
  | .defRedefined name => "def: redefined identifier: " ++ name
  | .setCount got => "set!: two arguments expected (got " ++ toString got ++ ")"
  | .setTarget shown => "set!: first argument is not a symbol: " ++ shown
  | .setUndefined name => "set!: undefined variable: " ++ name
  | .parameterNotSymbol form shown => form ++ ": parameter is not a symbol: " ++ shown
  | .parameterRepeated form name => form ++ ": duplicate parameter: " ++ name
  | .clauseNotList shown => "object: clause is not a list: " ++ shown
  | .fieldCount name got =>
    "object: field " ++ name ++ " expects one value (got " ++ toString got ++ ")"
  | .fieldRedefined name => "object: redefined field: " ++ name
  | .prototypeNotObject found => "object: prototype is not an object: " ++ found.shown
  | .prototypeCyclic shown => "object: cyclic prototype: " ++ shown
  | .methodParts shown => "object: method clause expects a signature and a body: " ++ shown
  | .methodName shown => "object: method name is not a selector: " ++ shown
  | .methodRedefined name => "object: redefined method: " ++ name
  | .noTarget selector => selector ++ ": no target object"
  | .targetNotObject selector found => selector ++ ": target is not an object: " ++ found.shown
  | .selectorNoArguments selector got =>
    selector ++ ": no arguments expected (got " ++ toString got ++ ")"
  | .selectorOneArgument selector got =>
    selector ++ ": one argument expected (got " ++ toString got ++ ")"
  | .argumentNotObject selector found => selector ++ ": argument is not an object: " ++ found.shown
  | .selectorCyclic selector shown => selector ++ ": cyclic prototype: " ++ shown
  | .selectorInvalid selector => "invalid selector: " ++ selector
  | .undefinedAttribute selector label => "undefined attribute " ++ selector ++ " on " ++ label
  | .fieldNotInvokable selector found => selector ++ ": field is not invokable: " ++ found.shown
  | .notNumber operator index found =>
    operator ++ ": argument " ++ toString index ++ " is not a number: " ++ found.shown
  | .noOperands operator => operator ++ " expects at least 1 argument (got 0)"
  | .divisionByZero => "/: division by zero"
  | .stated _ text => text

end Complaint

/-- A failed evaluation: what was wrong, and the calls that were active then, if any were. -/
structure EvalError where
  complaint : Complaint
  stack : Option CallStack
  deriving DecidableEq, Repr

namespace EvalError

/-- The class of the failure. -/
def condition (error : EvalError) : Condition := error.complaint.condition

/-- The failure in words, without its class. -/
def message (error : EvalError) : String := error.complaint.message

/-- The failure in words. -/
def text (error : EvalError) : String := error.condition.text ++ ": " ++ error.message

/-- The trace of the calls that were active. -/
def trace? (error : EvalError) : Option String := error.stack.map CallStack.trace

end EvalError

end ProtoLisp
