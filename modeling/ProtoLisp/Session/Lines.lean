import ProtoLisp.Session.Basic

/-!
# Lines from an input

Characters typed or piped into a session make lines.  A few control characters are commands instead:
one interrupts, one ends the input, one takes a character back, and one that has nothing to act on
rings the bell.
-/

namespace ProtoLisp

/-- What the characters of an input amount to. -/
inductive LineEvent where
  | line (text : String)
  | interrupt
  | bell
  /-- there will be no more lines -/
  | stop
  deriving DecidableEq, Repr

namespace LineEvent

/-- The events of an input.  `typed` are the characters of the current line, the last one first. -/
def ofChars (typed : List Char) : List Char → List LineEvent
  | [] => if typed.isEmpty then [] else [.line (String.ofList typed.reverse)]
  | c :: cs =>
    match c.toNat, typed with
    | 0, [] | 4, [] => [.stop]
    | 0, typed | 10, typed | 13, typed => .line (String.ofList typed.reverse) :: ofChars [] cs
    | 3, _ => .interrupt :: ofChars [] cs
    | 4, typed | 9, typed => .bell :: ofChars typed cs
    | 8, [] | 127, [] => .bell :: ofChars [] cs
    | 8, _ :: typed | 127, _ :: typed => ofChars typed cs
    | _, typed => ofChars (c :: typed) cs

end LineEvent

namespace Session

/-- Goes through the events of an input until it ends, the session is asked to end, or it crashes.
Behind `out` and `err` stand the values and the failures. -/
def converse (session : Session) (depth : Nat) (out err : String) :
    List LineEvent → Session × String × String × Option Crash
  | [] => (session, out, err, none)
  | event :: events =>
    if session.done then (session, out, err, none)
    else match event with
      | .stop => ({ session with done := true }, out, err, none)
      | .interrupt => session.reset.converse depth out err events
      | .bell => session.converse depth (out.push '\x07') err events
      | .line text =>
        let (session, reply) := session.feed depth text.toUTF8
        match reply.crash with
        | some cause => (session, out ++ reply.out, err ++ reply.err, some cause)
        | none => session.converse depth (out ++ reply.out) (err ++ reply.err) events

end Session

end ProtoLisp
