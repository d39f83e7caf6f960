/-!
# Places in a source

A `Mark` counts the way through a text: bytes from its start, lines, and characters within the line.
A `Location` is a mark together with the name of the source, in the form in which errors show it.
-/

namespace ProtoLisp

/-- A place between two characters of a text. -/
structure Mark where
  /-- bytes before this place -/
  pos : Nat
  /-- line, counted from one -/
  line : Nat
  /-- column, counted in characters from one -/
  col : Nat
  deriving DecidableEq, Repr

/-- The place before the first character. -/
def Mark.first : Mark := ⟨0, 1, 1⟩

/-- The place after the character `c`, which stands at `m`. -/
def Mark.after (m : Mark) (c : Char) : Mark :=
  if c = '\n' then ⟨m.pos + c.utf8Size, m.line + 1, 1⟩
  else ⟨m.pos + c.utf8Size, m.line, m.col + 1⟩

/-- The place after the characters `run`, the first of which stands at `m`. -/
def Mark.afterAll (m : Mark) (run : List Char) : Mark :=
  run.foldl Mark.after m

/-- A place in a named source.  A line of zero means that only the byte offset is known, a column of
zero that only the line is. -/
structure Location where
  file : String
  pos : Int
  line : Int
  col : Int
  deriving DecidableEq, Repr

/-- The mark `m` in the source `file`. -/
def Mark.inFile (m : Mark) (file : String) : Location :=
  ⟨file, m.pos, m.line, m.col⟩

/-- The finest description that the known parts allow. -/
def Location.text (loc : Location) : String :=
  if loc.line = 0 then loc.file ++ "[" ++ toString loc.pos ++ "]"
  else if loc.col = 0 then loc.file ++ ":" ++ toString loc.line
  else loc.file ++ ":" ++ toString loc.line ++ ":" ++ toString loc.col

@[simp]
theorem Mark.afterAll_nil (m : Mark) : m.afterAll [] = m := rfl

@[simp]
theorem Mark.afterAll_append (m : Mark) (xs ys : List Char) :
    m.afterAll (xs ++ ys) = (m.afterAll xs).afterAll ys := by
  simp [Mark.afterAll]

theorem Mark.pos_after (m : Mark) (c : Char) : (m.after c).pos = m.pos + c.utf8Size := by
  unfold Mark.after
  split <;> rfl

end ProtoLisp
