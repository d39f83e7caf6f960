import ProtoLisp.Node.Basic

/-!
# Values

Null, booleans, numbers and atoms are plain values.  Functions are native, or closures over the scope in
which they were defined.  An object value only names its object, which lives on the heap; so does a
closure its scope.

A `Slot` is a place for a value.  It may be empty: a native function may return nothing, and a host
may hand nothing over.
-/

namespace ProtoLisp

/-- The name of a scope on the heap. -/
abbrev ScopeId := Nat

/-- The name of an object on the heap. -/
abbrev ObjectId := Nat

/-- The arithmetic operators. -/
inductive Operator where
  | add
  | sub
  | mul
  | div
  deriving DecidableEq, Repr

/-- The operators, in the order in which they are bound. -/
def Operator.all : List Operator := [.add, .sub, .mul, .div]

/-- The name of an operator. -/
def Operator.name : Operator → String
  | .add => "+"
  | .sub => "-"
  | .mul => "*"
  | .div => "/"

/-- What a native function does. -/
inductive Native where
  | operator (operator : Operator)
  /-- the host's function of this name -/
  | host (key : String)
  deriving DecidableEq, Repr

/-- A value of the language. -/
inductive Value where
  | null
  | bool (b : Bool)
  | number (d : Decimal)
  /-- an atom, `name` without its colon -/
  | atom (name : String)
  | native (name : String) (body : Native)
  /-- a function whose body is evaluated in a child of the scope `scope` -/
  | closure (name : String) (params : List String) (body : Node) (scope : Option ScopeId)
  | object (id : ObjectId)
  deriving Repr, Inhabited

/-- A place for a value. -/
abbrev Slot := Option Value

/-- The types of values. -/
inductive ValueType where
  | null
  | bool
  | number
  | atom
  | function
  | object
  /-- no type at all -/
  | invalid
  deriving DecidableEq, Repr

namespace ValueType

/-- The types in the order of their numbers. -/
def all : List ValueType := [.invalid, .null, .bool, .number, .atom, .function, .object]

/-- The type with the number `n`. -/
def ofCode (n : Nat) : ValueType := all.getD n .invalid

/-- The name of a type. -/
def text : ValueType → String
  | .null => "null"
  | .bool => "bool"
  | .number => "number"
  | .atom => "atom"
  | .function => "function"
  | .object => "object"
  | .invalid => "INVALID"

end ValueType

namespace Value

/-- The type of a value. -/
def type : Value → ValueType
  | .null => .null
  | .bool _ => .bool
  | .number _ => .number
  | .atom _ => .atom
  | .native _ _ => .function
  | .closure _ _ _ _ => .function
  | .object _ => .object

/-- The integer `n` as a value. -/
def ofInt (n : Int) : Value := .number (Decimal.ofInt n)

/-- The value is null. -/
def isNull (v : Value) : Bool := v.type == .null

/-- The value is neither a function nor an object. -/
def isPrimitive (v : Value) : Bool := !(v.type == .function || v.type == .object)

end Value

end ProtoLisp
