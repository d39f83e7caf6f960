import ProtoLisp.CommandLine.Flag
import ProtoLisp.Text.Lower

/-!
# Suggestions

For a word that is no command, the commands are suggested that it may have been meant for: those that
start with it, and those from which it is at most two edits away.  An edit removes, adds or replaces a
byte; case does not matter.
-/

namespace ProtoLisp.CommandLine

/-- A row of the table of distances from the one above it.  `left` is the distance in front of the
row, `above` starts one column further left than `target`. -/
def distanceRow [BEq α] (a : α) (left : Nat) : (target : List α) → (above : List Nat) → List Nat
  | b :: target, corner :: up :: above =>
    let here := if a == b then corner else min (min up left) corner + 1
    here :: distanceRow a here target (up :: above)
  | _, _ => []

/-- The least number of edits that make one list the other. -/
def distance [BEq α] (source target : List α) : Nat :=
  let last := source.zipIdx.foldl (fun above (a, i) => (i + 1) :: distanceRow a (i + 1) target above)
    (List.range (target.length + 1))
  last.getLastD 0

/-- The commands that are suggested; help is always at hand and needs no suggestion. -/
def suggestable : List Command := [.run, .repl, .completion]

/-- The greatest number of edits in a suggestion. -/
def maxEdits : Nat := 2

/-- The commands that a word may have been meant for. -/
def suggestions (word : String) : List Command :=
  let typed := (Text.lower word).toUTF8.toList
  suggestable.filter fun command =>
    let wanted := command.name.toUTF8.toList
    distance typed wanted ≤ maxEdits || typed.isPrefixOf wanted

end ProtoLisp.CommandLine
