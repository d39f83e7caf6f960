import ProtoLisp.Yaml.Tree
import ProtoLisp.Yaml.Scalar

/-!
# Reading YAML

The part of YAML that settings are written in: block and flow mappings and sequences, plain scalars,
scalars in single and double quotes, comments and document marks.  Only the first document counts.

The nesting of a block follows from the columns of its characters, so every character is read together
with its place.
-/

namespace ProtoLisp.Yaml

/-- A character with its line, counted from one, and its column, counted from zero. -/
structure Cell where
  char : Char
  line : Nat
  col : Nat
  deriving DecidableEq, Repr

/-- A text of which every character knows its place. -/
abbrev Cells := List Cell

namespace Cells

/-- The characters with their places, the first of which is at line `line` and column `col`. -/
def ofChars (line col : Nat) : List Char → Cells
  | [] => []
  | '\n' :: cs => ⟨'\n', line, col⟩ :: ofChars (line + 1) 0 cs
  | c :: cs => ⟨c, line, col⟩ :: ofChars line (col + 1) cs

/-- The first character, or a line break at the end. -/
def next (cells : Cells) : Char := (cells.head?.map Cell.char).getD '\n'

/-- The line at which the text goes on. -/
def line (cells : Cells) : Nat := (cells.head?.map Cell.line).getD 0

end Cells

/-- A blank within a line. -/
def isSpace (c : Char) : Bool := c == ' ' || c == '\t'

/-- A blank or a line break. -/
def isGap (c : Char) : Bool := isSpace c || c == '\n'

/-- A character that has a meaning in flow collections. -/
def isFlowMark (c : Char) : Bool := [',', '[', ']', '{', '}'].contains c

/-- The text behind the blanks of the line. -/
def skipSpaces (cells : Cells) : Cells := cells.dropWhile (isSpace ·.char)

/-- The text behind all blanks, line breaks and comments. -/
def skipGaps (inComment : Bool) : Cells → Cells
  | [] => []
  | cell :: cells =>
    if cell.char == '\n' then skipGaps false cells
    else if inComment then skipGaps true cells
    else if isSpace cell.char then skipGaps false cells
    else if cell.char == '#' then skipGaps true cells
    else cell :: cells

/-- Nothing but a comment is left on the line. -/
def isLineDone (cells : Cells) : Bool := cells.next == '\n' || cells.next == '#'

/-- A block sequence goes on here. -/
def isItemMark (cells : Cells) : Bool := cells.next == '-' && isGap (Cells.next cells.tail)

/-- The rest of the text, if a value follows here. -/
def colon? (inFlow : Bool) : Cells → Option Cells
  | ⟨':', _, _⟩ :: cells =>
    if isGap (Cells.next cells) || (inFlow && isFlowMark (Cells.next cells)) then some cells else none
  | _ => none

/-! ### Scalars -/

/-- The plain characters of one line; `before` is the character in front of them. -/
def plainLine (inFlow : Bool) (before : Char) : Cells → List Char × Cells
  | [] => ([], [])
  | cell :: cells =>
    let c := cell.char
    if c == '\n' || (c == '#' && isGap before) || (colon? inFlow (cell :: cells)).isSome ||
        (inFlow && isFlowMark c) then ([], cell :: cells)
    else
      let (run, rest) := plainLine inFlow c cells
      (c :: run, rest)

/-- Without the blanks at the end. -/
def trimEnd (cs : List Char) : List Char := (cs.reverse.dropWhile isSpace).reverse

/-- What stands between two lines of a scalar that are `breaks` lines apart. -/
def joint (breaks : Nat) : List Char :=
  if breaks ≤ 1 then [' '] else List.replicate (breaks - 1) '\n'

/-- The plain characters of this and of all following lines that are indented by `indent` or more.
`fuel` bounds the number of lines. -/
def plainLines (inFlow : Bool) (indent : Nat) : (fuel : Nat) → Cells → List Char × Cells
  | 0, cells => ([], cells)
  | fuel + 1, cells =>
    let (run, rest) := plainLine inFlow ' ' cells
    let run := trimEnd run
    if rest.next == '\n' then
      match rest.dropWhile (isGap ·.char) with
      | cell :: cells' =>
        if indent ≤ cell.col && cell.char != '#' && !(inFlow && isFlowMark cell.char) &&
            (colon? inFlow (cell :: cells')).isNone then
          let (more, rest') := plainLines inFlow indent fuel (cell :: cells')
          (run ++ joint (cell.line - Cells.line rest) ++ more, rest')
        else (run, rest)
      | [] => (run, rest)
    else (run, rest)

/-- Characters between quotes, with a hole for every line break, made one text: a line break and the
blanks around it are a space, several are line breaks. -/
def foldBreaks (out : List Char) (breaks : Nat) : List (Option Char) → List Char
  | [] => out ++ (if breaks = 0 then [] else joint breaks)
  | none :: rest => foldBreaks (if breaks = 0 then trimEnd out else out) (breaks + 1) rest
  | some c :: rest =>
    if breaks = 0 then foldBreaks (out ++ [c]) 0 rest
    else if isSpace c then foldBreaks out breaks rest
    else foldBreaks (out ++ joint breaks ++ [c]) 0 rest

/-- The characters up to a single quote that is not doubled. -/
def singleQuoted : Cells → Option (List (Option Char) × Cells)
  | ⟨'\'', _, _⟩ :: ⟨'\'', _, _⟩ :: cells =>
    (singleQuoted cells).map fun (cs, rest) => (some '\'' :: cs, rest)
  | ⟨'\'', _, _⟩ :: cells => some ([], cells)
  | cell :: cells => (singleQuoted cells).map fun (cs, rest) =>
      ((if cell.char == '\n' then none else some cell.char) :: cs, rest)
  | [] => none

/-- The number of hexadecimal digits behind a letter of escape. -/
def escapeWidth (c : Char) : Nat :=
  if c == 'x' then 2 else if c == 'u' then 4 else if c == 'U' then 8 else 0

/-- The character that a letter of escape stands for. -/
def escaped? (c : Char) : Option Char :=
  [('0', '\x00'), ('a', '\x07'), ('b', '\x08'), ('t', '\t'), ('\t', '\t'), ('n', '\n'), ('v', '\x0b'),
    ('f', '\x0c'), ('r', '\r'), ('e', '\x1b'), (' ', ' '), ('"', '"'), ('/', '/'), ('\\', '\\'),
    ('N', '\u0085'), ('_', '\u00a0'), ('L', '\u2028'), ('P', '\u2029')].lookup c

/-- The characters up to a double quote that is not escaped.  An escaped line break is left out, with
the blanks behind it.  `fuel` bounds the number of characters. -/
def doubleQuoted : (fuel : Nat) → Cells → Option (List (Option Char) × Cells)
  | 0, _ => none
  | _, [] => none
  | fuel + 1, cell :: cells =>
    if cell.char == '"' then some ([], cells)
    else if cell.char == '\n' then
      (doubleQuoted fuel cells).map fun (cs, rest) => (none :: cs, rest)
    else if cell.char == '\\' then
      let width := escapeWidth (Cells.next cells)
      if Cells.next cells == '\n' then doubleQuoted fuel (skipSpaces cells.tail)
      else if width = 0 then do
        let c ← escaped? (Cells.next cells)
        let (cs, rest) ← doubleQuoted fuel cells.tail
        return (some c :: cs, rest)
      else do
        let code ← Scalar.readBase? 16 ((cells.tail.take width).map Cell.char)
        let (cs, rest) ← doubleQuoted fuel (cells.tail.drop width)
        return (some (Char.ofNat code) :: cs, rest)
    else (doubleQuoted fuel cells).map fun (cs, rest) => (some cell.char :: cs, rest)

/-- A scalar in quotes, if one starts here. -/
def quoted? (cells : Cells) : Option (Option (Tree × Cells)) :=
  let finish (read : Option (List (Option Char) × Cells)) : Option (Tree × Cells) :=
    read.map fun (cs, rest) => (.scalar cells.line true (String.ofList (foldBreaks [] 0 cs)), rest)
  match cells.next with
  | '\'' => some (finish (singleQuoted cells.tail))
  | '"' => some (finish (doubleQuoted cells.length cells.tail))
  | _ => none

/-- A scalar on one line: a key, or the only word on its line. -/
def lineScalar (cells : Cells) : Option (Tree × Cells) :=
  match quoted? cells with
  | some read => read
  | none =>
    let (run, rest) := plainLine false ' ' cells
    some (.scalar cells.line false (String.ofList (trimEnd run)), rest)

/-- A scalar that may go on over lines indented by `indent` or more. -/
def scalar (inFlow : Bool) (indent : Nat) (cells : Cells) : Option (Tree × Cells) :=
  match quoted? cells with
  | some read => read
  | none =>
    let (run, rest) := plainLines inFlow indent (cells.length + 1) cells
    some (.scalar cells.line false (String.ofList run), rest)

/-! ### Flow collections -/

mutual

/-- A value inside a flow collection, or the collection itself. -/
def flowNode : (fuel : Nat) → Cells → Option (Tree × Cells)
  | 0, _ => none
  | fuel + 1, cells =>
    let cells := skipGaps false cells
    match cells.next with
    | '[' => flowItems fuel cells.line [] cells.tail
    | '{' => flowEntries fuel cells.line [] cells.tail
    | _ => scalar true 0 cells

/-- The items of a flow sequence that started at line `line`; `done` are those so far, the last one
first. -/
def flowItems : (fuel : Nat) → (line : Nat) → (done : List Tree) → Cells → Option (Tree × Cells)
  | 0, _, _, _ => none
  | fuel + 1, line, done, cells =>
    let cells := skipGaps false cells
    if cells.next == ']' then some (.sequence line done.reverse, cells.tail)
    else do
      let (item, rest) ← flowNode fuel cells
      let (item, rest) ← match colon? true (skipGaps false rest) with
        | some rest => do
          let (value, rest) ← flowNode fuel rest
          some (.mapping item.line [(item, value)], rest)
        | none => some (item, rest)
      let rest := skipGaps false rest
      if rest.next == ',' then flowItems fuel line (item :: done) rest.tail
      else if rest.next == ']' then flowItems fuel line (item :: done) rest
      else none

/-- The entries of a flow mapping that started at line `line`; `done` are those so far, the last one
first. -/
def flowEntries :
    (fuel : Nat) → (line : Nat) → (done : List (Tree × Tree)) → Cells → Option (Tree × Cells)
  | 0, _, _, _ => none
  | fuel + 1, line, done, cells =>
    let cells := skipGaps false cells
    if cells.next == '}' then some (.mapping line done.reverse, cells.tail)
    else do
      let (key, rest) ← flowNode fuel cells
      let rest := skipGaps false rest
      let (value, rest) ← match rest with
        | ⟨':', _, _⟩ :: rest => flowNode fuel rest
        | rest => some (Tree.missing key.line, rest)
      let rest := skipGaps false rest
      if rest.next == ',' then flowEntries fuel line ((key, value) :: done) rest.tail
      else if rest.next == '}' then flowEntries fuel line ((key, value) :: done) rest
      else none

end

/-! ### Block collections -/

mutual

/-- What stands here, indented by `indent` or more; nothing may stand here. -/
def blockNode : (fuel : Nat) → (indent : Nat) → Cells → Option (Tree × Cells)
  | 0, _, _ => none
  | fuel + 1, indent, cells =>
    match skipGaps false cells with
    | [] => some (.missing cells.line, [])
    | cell :: rest =>
      let here := cell :: rest
      if cell.col < indent then some (.missing cell.line, here)
      else if isItemMark here then blockItems fuel cell.col cell.line [] here
      else if cell.char == '[' || cell.char == '{' then flowNode fuel here
      else do
        let (_, rest) ← lineScalar here
        if (colon? false (skipSpaces rest)).isSome then blockEntries fuel cell.col cell.line [] here
        else scalar false indent here

/-- The items of a block sequence at column `col`; `done` are those so far, the last one first. -/
def blockItems :
    (fuel : Nat) → (col line : Nat) → (done : List Tree) → Cells → Option (Tree × Cells)
  | 0, _, _, _, _ => none
  | fuel + 1, col, line, done, cells =>
    let here := skipGaps false cells
    if isItemMark here && (here.head?.map Cell.col) == some col then do
      let (item, rest) ← blockNode fuel (col + 1) here.tail
      blockItems fuel col line (item :: done) rest
    else some (.sequence line done.reverse, here)

/-- The entries of a block mapping at column `col`; `done` are those so far, the last one first. -/
def blockEntries :
    (fuel : Nat) → (col line : Nat) → (done : List (Tree × Tree)) → Cells → Option (Tree × Cells)
  | 0, _, _, _, _ => none
  | fuel + 1, col, line, done, cells =>
    let here := skipGaps false cells
    if (here.head?.map Cell.col) == some col then do
      let (key, rest) ← lineScalar here
      let rest ← colon? false (skipSpaces rest)
      let rest := skipSpaces rest
      let (value, rest) ←
        if isLineDone rest then
          let below := skipGaps false rest
          if isItemMark below && (below.head?.map Cell.col) == some col then
            blockItems fuel col below.line [] below
          else blockNode fuel (col + 1) below
        else if rest.next == '[' || rest.next == '{' then flowNode fuel rest
        else scalar false (col + 1) rest
      blockEntries fuel col line ((key, value) :: done) rest
    else some (.mapping line done.reverse, here)

end

/-! ### Documents -/

/-- Line breaks of all kinds become the same. -/
def unifyBreaks : List Char → List Char
  | '\r' :: '\n' :: cs => '\n' :: unifyBreaks cs
  | '\r' :: cs => '\n' :: unifyBreaks cs
  | c :: cs => c :: unifyBreaks cs
  | [] => []

/-- The line is the mark `mark`, alone or with something behind it. -/
def isMark (mark : Char) (line : List Char) : Bool :=
  line.take 3 == [mark, mark, mark] && ((line.drop 3).head?.map isSpace).getD true

/-- A line in front of the first document. -/
def isPreamble (line : List Char) : Bool :=
  match line.dropWhile isSpace with
  | [] => true
  | c :: _ => c == '#' || (c == '%' && line.head? == some '%')

/-- The lines of the first document, each with its number.  A mark in front of it is blanked out. -/
def firstDocument (lines : List (List Char × Nat)) : List (List Char × Nat) :=
  let body := match lines.dropWhile (isPreamble ·.1) with
    | (line, number) :: rest =>
      if isMark '-' line then (List.replicate 3 ' ' ++ line.drop 3, number) :: rest
      else (line, number) :: rest
    | [] => []
  body.takeWhile fun (line, _) => !(isMark '-' line || isMark '.' line)

/-- The characters of numbered lines with their places. -/
def Cells.ofLines (lines : List (List Char × Nat)) : Cells :=
  lines.flatMap fun (line, number) => ofChars number 0 (line ++ ['\n'])

/-- What a document can turn out to be. -/
inductive Document where
  | empty
  | tree (root : Tree)
  | malformed
  deriving Repr

/-- The first document of a text. -/
def Document.ofText (text : String) : Document :=
  let lines := (unifyBreaks text.toList).splitOn '\n'
  let cells := Cells.ofLines (firstDocument (lines.zipIdx 1))
  if (skipGaps false cells).isEmpty then .empty
  else match blockNode (2 * cells.length + 2) 0 cells with
    | some (root, rest) => if (skipGaps false rest).isEmpty then .tree root else .malformed
    | none => .malformed

end ProtoLisp.Yaml
