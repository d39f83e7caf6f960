import ProtoLisp.Source
import ProtoLisp.Token
import ProtoLisp.Text.Quoted

/-!
# Scanning a source

A cursor moves through the characters of a source, one token at a time: the characters scanned since
the last token are the text of the next one.  A cursor never moves past the end of the text or past a
stray byte.
-/

namespace ProtoLisp

/-- Why no further character can be scanned. -/
inductive Halt where
  | eof
  | failure (text : String)
  deriving DecidableEq, Repr

/-- How a scanner names a halt. -/
def Halt.text : Halt → String
  | .eof => "EOF"
  | .failure text => text

/-- The kind of the token that reports a halt. -/
def Halt.kind : Halt → Kind
  | .eof => .eof
  | .failure _ => .error

/-- The text of the token that reports a halt. -/
def Halt.message : Halt → String
  | .eof => ""
  | .failure text => text

/-- A place in a source, with the token under construction. -/
structure Cursor where
  file : String
  stray : Option UInt8
  readError : Option String
  /-- the characters that are still to be scanned -/
  rest : List Char
  /-- the characters of the current token, in order -/
  taken : List Char
  /-- the last character scanned, zero before the first -/
  last : Char
  /-- where the current token starts -/
  start : Mark
  /-- where the next character stands -/
  here : Mark
  deriving DecidableEq, Repr

namespace Cursor

/-- A cursor before the first character of `source`. -/
def ofSource (source : Source) : Cursor where
  file := source.file
  stray := source.stray
  readError := source.readError
  rest := source.chars
  taken := []
  last := '\x00'
  start := .first
  here := .first

/-- The place of the next character. -/
def location (cur : Cursor) : Location := cur.here.inFile cur.file

/-- The place where the current token starts. -/
def startLocation (cur : Cursor) : Location := cur.start.inFile cur.file

/-- The text of the current token. -/
def text (cur : Cursor) : String := String.ofList cur.taken

/-- The next character, and whether there is one.  At the end of the text the character is zero,
before a stray byte it is the replacement character. -/
def preview (cur : Cursor) : Char × Bool :=
  match cur.rest, cur.stray with
  | c :: _, _ => (c, true)
  | [], some _ => ('\ufffd', false)
  | [], none => ('\x00', false)

/-- Why the characters end where they do. -/
def ending (cur : Cursor) : Halt :=
  match cur.stray with
  | none => .eof
  | some byte => .failure (cur.location.text ++ ": invalid utf-8 sequence starting with byte " ++
      Text.quoteChar (Char.ofNat byte.toNat))

/-- Scans `run` into the current token; `rest` is what follows it. -/
def consume (cur : Cursor) (run rest : List Char) : Cursor :=
  { cur with
    rest := rest
    taken := cur.taken ++ run
    last := run.getLastD cur.last
    here := cur.here.afterAll run }

/-- Scans the next character into the current token. -/
def scan (cur : Cursor) : Except Halt Cursor :=
  match cur.rest with
  | c :: rest => .ok (cur.consume [c] rest)
  | [] => .error cur.ending

/-- Starts a new token here and forgets the characters scanned so far. -/
def ignore (cur : Cursor) : Cursor :=
  { cur with taken := [], start := cur.here }

/-- Ends the current token, which is of kind `kind`. -/
def emit (cur : Cursor) (kind : Kind) : Token × Cursor :=
  (⟨kind, cur.text, cur.startLocation⟩, cur.ignore)

/-- Ends the current token, but lets `text` stand in place of its characters. -/
def report (cur : Cursor) (kind : Kind) (text : String) : Token × Cursor :=
  (⟨kind, text, cur.startLocation⟩, cur.ignore)

end Cursor

end ProtoLisp
