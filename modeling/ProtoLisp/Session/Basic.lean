import ProtoLisp.Interpreter
import ProtoLisp.Text.Blank

/-!
# Sessions

A session takes lines of input and evaluates them in one interpreter.  Lines that end in the middle of
an expression wait for the lines that complete it; then all of them are read as one text.
-/

namespace ProtoLisp

/-- A conversation with an interpreter. -/
structure Session where
  interpreter : Interpreter
  /-- failed evaluations are explained by a trace -/
  tracing : Bool
  /-- lines that wait for more -/
  pending : ByteArray
  /-- the session has been asked to end -/
  done : Bool

/-- What a session has to say to a line. -/
structure Reply where
  /-- more lines are needed to complete an expression -/
  more : Bool
  /-- the values -/
  out : String
  /-- the failures -/
  err : String
  crash : Option Crash
  deriving Repr

namespace Reply

/-- Nothing but whether more lines are needed. -/
def silent (more : Bool) : Reply := ⟨more, "", "", none⟩

end Reply

namespace Session

/-- The line that ends a session. -/
def exitCommand : List Char := ['e', 'x', 'i', 't']

/-- The name of the text that a session reads. -/
def inputName : String := "stdin"

/-- A session at its start. -/
def start (interpreter : Interpreter) (tracing : Bool) : Session :=
  ⟨interpreter, tracing, .empty, false⟩

/-- Lines are waiting for more. -/
def isPending (session : Session) : Bool := !session.pending.isEmpty

/-- Forgets the lines that are waiting. -/
def reset (session : Session) : Session := { session with pending := .empty }

/-- The line asks for the end of the session. -/
def isExit (line : ByteArray) : Bool :=
  let source := Source.ofBytes inputName line
  Text.trim source.chars == exitCommand && source.stray.isNone

/-- How a failure is reported. -/
def complaint (tracing : Bool) (failure : Failure) : String :=
  "error: " ++ failure.text ++ "\n" ++ (if tracing then failure.trace?.getD "" else "")

/-- Evaluates the expressions of a text and forgets the lines that it stood on. -/
def evaluate (session : Session) (depth : Nat) (nodes : List Node) : Session × Reply :=
  let (out, failure, interpreter) := session.interpreter.evalEach depth true "" nodes
  let session := { session with interpreter := interpreter, pending := .empty }
  match failure with
  | none => (session, ⟨false, out, "", none⟩)
  | some (.crash cause) => (session, ⟨false, out, "", some cause⟩)
  | some failure => (session, ⟨false, out, complaint session.tracing failure, none⟩)

/-- Takes a line of input. -/
def feed (session : Session) (depth : Nat) (line : ByteArray) : Session × Reply :=
  if !session.isPending && isExit line then ({ session with done := true }, .silent false)
  else
    let text := session.pending ++ line ++ "\n".toUTF8
    match readProgram (.ofBytes inputName text) with
    | .ok nodes => session.evaluate depth nodes
    | .error error =>
      if error.incomplete then ({ session with pending := text }, .silent true)
      else (session.reset, ⟨false, "", complaint session.tracing (.read error), none⟩)

end Session

end ProtoLisp
