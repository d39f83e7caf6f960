import ProtoLisp.Decimal.Text

/-!
# Expressions

A program is a sequence of expressions: numbers, atoms, names and lists.  A list that starts with a
name is a call of that name, every other list is a call of the empty name.

Programs built by hand rather than read may have holes in them, and expressions of a kind that only
their maker knows.
-/

namespace ProtoLisp

/-- An expression. -/
inductive Node where
  | number (value : Decimal)
  /-- an atom, `name` without its colon -/
  | atom (name : String)
  | variable (name : String)
  | call (name : String) (args : List Node)
  /-- a place where an expression is missing -/
  | absent
  /-- an expression of the unknown kind `kind`, which is written as `text` -/
  | extension (kind text : String)
  deriving Repr, Inhabited

namespace Node

/-- The call that a list with these elements is. -/
def ofItems : List Node → Node
  | .variable name :: args => .call name args
  | items => .call "" items

/-- A name that selects an attribute of an object. -/
def isSelector (name : String) : Bool := name.toList.head? == some '.'

end Node

end ProtoLisp
