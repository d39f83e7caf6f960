import ProtoLisp.Node.Basic

/-!
# Expressions in writing

An expression is written on one line, with parentheses around every list.  One with a hole in it
cannot be written; a message that mentions it says so instead.
-/

namespace ProtoLisp.Node

mutual

/-- The expression in writing, if nothing in it is missing. -/
def text? : Node → Option String
  | .number value => some value.text
  | .atom name => some (":" ++ name)
  | .variable name => some name
  | .call name args => (argsText? (name != "") args).map fun written => "(" ++ name ++ written ++ ")"
  | .absent => none
  | .extension _ text => some text

/-- The elements of a list in writing, with a space in front of each; the first has one only if
`spaced` says so. -/
def argsText? (spaced : Bool) : List Node → Option String
  | [] => some ""
  | arg :: args =>
    match arg.text?, argsText? true args with
    | some first, some others => some ((if spaced then " " else "") ++ first ++ others)
    | _, _ => none

end

/-- What a message shows of something that cannot be written. -/
def unwritable : String :=
  "%!v(PANIC=String method: runtime error: invalid memory address or nil pointer dereference)"

/-- The expression as a message shows it. -/
def shown (node : Node) : String :=
  match node with
  | .absent => "<nil>"
  | _ => node.text?.getD unwritable

end ProtoLisp.Node
