import ProtoLisp.Lexer

/-!
# The tokens of a source

A stream is all that a lexer will ever report: the tokens of the text in order, and then, for ever,
the reason why they end.
-/

namespace ProtoLisp

/-- Tokens, and what comes after the last of them. -/
structure Stream where
  tokens : List Token
  halt : Halt
  /-- where the stream halts -/
  place : Location
  deriving DecidableEq, Repr

namespace Stream

/-- All that `lexer` has still to report. -/
def ofLexer (lexer : Lexer) : Stream :=
  match _h : lexer.word? with
  | some (token, lexer') =>
    let stream := ofLexer lexer'
    { stream with tokens := token :: stream.tokens }
  | none => ⟨[], lexer.outcome.1, lexer.outcome.2.startLocation⟩
termination_by lexer.cursor.rest.length
decreasing_by exact Lexer.length_rest_lt_of_word? _h

/-- The tokens of a source. -/
def ofSource (source : Source) : Stream := ofLexer (.ofSource source)

/-- The token that reports the end of the stream. -/
def halting (stream : Stream) : Token :=
  ⟨stream.halt.kind, stream.halt.message, stream.place⟩

/-- The next token. -/
def head (stream : Stream) : Token :=
  stream.tokens.headD stream.halting

/-- The stream behind its next token. -/
def tail (stream : Stream) : Stream :=
  { stream with tokens := stream.tokens.tail }

end Stream

end ProtoLisp
