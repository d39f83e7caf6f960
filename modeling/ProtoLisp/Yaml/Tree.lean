/-!
# YAML trees

What a YAML document holds: scalars, sequences and mappings, each with the line on which it starts.
-/

namespace ProtoLisp.Yaml

/-- A part of a document. -/
inductive Tree where
  | scalar (line : Nat) (quoted : Bool) (text : String)
  | sequence (line : Nat) (items : List Tree)
  | mapping (line : Nat) (entries : List (Tree × Tree))
  deriving Repr, Inhabited

namespace Tree

/-- The line on which a part starts. -/
def line : Tree → Nat
  | .scalar line _ _ => line
  | .sequence line _ => line
  | .mapping line _ => line

/-- A value that is left out. -/
def missing (line : Nat) : Tree := .scalar line false ""

/-- Two keys are the same: both scalars of one text, or both sequences, or both mappings. -/
def sameKey : Tree → Tree → Bool
  | .scalar _ _ a, .scalar _ _ b => a == b
  | .sequence _ _, .sequence _ _ => true
  | .mapping _ _, .mapping _ _ => true
  | _, _ => false

/-- The text of a scalar key. -/
def keyText : Tree → String
  | .scalar _ _ text => text
  | _ => ""

end Tree

end ProtoLisp.Yaml
