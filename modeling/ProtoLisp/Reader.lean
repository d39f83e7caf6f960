import ProtoLisp.Stream
import ProtoLisp.Failure
import ProtoLisp.Node.Basic

/-!
# Reading expressions

Tokens become expressions one by one, with a stack of the lists that are still open.  `shift` says what
the next token does to the open lists; an expression is complete when none is left open.  A program
is all expressions up to the end of the text.

    expression := number | atom | symbol | '(' expression* ')' | '[' expression* ']'
-/

namespace ProtoLisp

/-- A list that is still open: the token that opened it and its elements so far, the last one first. -/
structure OpenList where
  opener : Token
  items : List Node
  deriving Repr

/-- What has become of the open lists. -/
inductive Progress where
  | complete (node : Node)
  | within (lists : List OpenList)
  | failed (error : ReadError)
  deriving Repr

namespace Progress

/-- An expression ends: it is complete, or an element of the innermost open list. -/
def place (node : Node) : List OpenList → Progress
  | [] => .complete node
  | list :: lists => .within ({ list with items := node :: list.items } :: lists)

/-- A failure that shows at `token`. -/
def failAt (token : Token) (fault : Fault) : Progress :=
  .failed ⟨some token.location, fault⟩

/-- A closing delimiter ends the innermost open list, if it is of the same kind. -/
def close (lists : List OpenList) (delimiter : Delimiter) (token : Token) : Progress :=
  match lists with
  | [] => failAt token (.unexpected token.kind)
  | list :: lists =>
    if list.opener.kind = .opening delimiter then place (Node.ofItems list.items.reverse) lists
    else failAt token (.mismatched token.text list.opener.text list.opener.location)

end Progress

/-- The failure of an expression that is still under way at the end of the tokens. -/
def stopped (lists : List OpenList) (halt : Halt) (place : Location) : ReadError :=
  match halt, lists with
  | .failure text, _ => ⟨some place, .ofReport text⟩
  | .eof, [] => ⟨some place, .endOfInput⟩
  | .eof, list :: _ => ⟨some list.opener.location, .unmatched list.opener.text⟩

/-- What the token `token` does to the open lists. -/
def shift (lists : List OpenList) (token : Token) : Progress :=
  match token.kind with
  | .number =>
    match Decimal.ofText? token.text with
    | some value => .place (.number value) lists
    | none => .failAt token (.badNumber token.text)
  | .atom => .place (.atom (String.ofList (token.text.toList.drop 1))) lists
  | .symbol => .place (.variable token.text) lists
  | .comment => .within lists
  | .opening _ => .within (⟨token, []⟩ :: lists)
  | .closing delimiter => .close lists delimiter token
  | .error | .invalid => .failAt token (.ofReport token.text)
  | .eof => .failed (stopped lists .eof token.location)

/-- Tokens in the course of being read. -/
structure Reader where
  /-- the token read last -/
  current : Option Token
  ahead : Stream
  deriving DecidableEq, Repr

namespace Reader

/-- A reader before the first token of `source`. -/
def ofSource (source : Source) : Reader := ⟨none, .ofSource source⟩

/-- Takes the next token. -/
def readToken (reader : Reader) : Reader :=
  ⟨some reader.ahead.head, reader.ahead.tail⟩

/-- Reads on until the expression that the open lists belong to is complete.  `tokens` are the tokens
of the stream `ahead` that are left. -/
def finishExpression (ahead : Stream) (lists : List OpenList) :
    List Token → Except ReadError Node × Reader
  | [] =>
    (.error (stopped lists ahead.halt ahead.place), ⟨some ahead.halting, { ahead with tokens := [] }⟩)
  | token :: tokens =>
    match shift lists token with
    | .complete node => (.ok node, ⟨some token, { ahead with tokens := tokens }⟩)
    | .failed error => (.error error, ⟨some token, { ahead with tokens := tokens }⟩)
    | .within lists => finishExpression ahead lists tokens

/-- The next expression. -/
def expression (reader : Reader) : Except ReadError Node × Reader :=
  finishExpression reader.ahead [] reader.ahead.tokens

/-- Reads on to the end of the text.  `done` are the expressions so far, the last one first. -/
def finishProgram (ahead : Stream) (done : List Node) (lists : List OpenList) :
    List Token → Except ReadError (List Node) × Reader
  | [] =>
    (match ahead.halt, lists with
      | .eof, [] => .ok done.reverse
      | _, _ => .error (stopped lists ahead.halt ahead.place),
      ⟨some ahead.halting, { ahead with tokens := [] }⟩)
  | token :: tokens =>
    match shift lists token with
    | .complete node => finishProgram ahead (node :: done) [] tokens
    | .failed error => (.error error, ⟨some token, { ahead with tokens := tokens }⟩)
    | .within lists => finishProgram ahead done lists tokens

/-- All expressions up to the end of the text. -/
def program (reader : Reader) : Except ReadError (List Node) × Reader :=
  finishProgram reader.ahead [] [] reader.ahead.tokens

/-- The next expression, if it is of the form `wanted`.  A refusal points at the token read last; it
crashes if none has been read. -/
def require (reader : Reader) (wanted : Wanted) : Except Failure Node × Reader :=
  let found := reader.ahead.head.kind
  if wanted.startsWith found then
    let (result, reader) := reader.expression
    (result.mapError .read, reader)
  else
    match reader.current with
    | some token => (.error (.read ⟨some token.location, .refused wanted found⟩), reader)
    | none => (.error (.crash .absence), reader)

end Reader

/-- The expressions of a source. -/
def readProgram (source : Source) : Except ReadError (List Node) :=
  (Reader.ofSource source).program.1

end ProtoLisp
