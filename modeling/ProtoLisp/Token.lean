import ProtoLisp.Location

/-!
# Tokens

The words of a program: names, numbers, atoms, comments and the two pairs of list delimiters.  Three
more kinds report where the words end: the end of the text, a text that is no word, and a failure.
-/

namespace ProtoLisp

/-- A pair of list delimiters. -/
inductive Delimiter where
  | paren
  | bracket
  deriving DecidableEq, Repr

/-- What a token is. -/
inductive Kind where
  | invalid
  | error
  | eof
  | symbol
  | number
  | atom
  | comment
  | opening (delimiter : Delimiter)
  | closing (delimiter : Delimiter)
  deriving DecidableEq, Repr

namespace Kind

/-- The name of a kind; a delimiter is its own name. -/
def text : Kind → String
  | .invalid => "invalid"
  | .error => "error"
  | .eof => "EOF"
  | .symbol => "symbol"
  | .number => "number"
  | .atom => "atom"
  | .comment => ";"
  | .opening .paren => "("
  | .closing .paren => ")"
  | .opening .bracket => "["
  | .closing .bracket => "]"

/-- The kind of a delimiter that ends the list this kind starts; `invalid` if it starts none. -/
def closer : Kind → Kind
  | .opening delimiter => .closing delimiter
  | _ => .invalid

/-- The kinds in the order of their numbers. -/
def all : List Kind :=
  [.invalid, .error, .eof, .symbol, .number, .atom, .comment, .opening .paren, .closing .paren,
    .opening .bracket, .closing .bracket]

/-- The kind with the number `n`; a number without a kind is `invalid`. -/
def ofCode (n : Nat) : Kind :=
  all.getD n .invalid

end Kind

/-- A word of a program, with the place where it starts. -/
structure Token where
  kind : Kind
  text : String
  location : Location
  deriving DecidableEq, Repr

end ProtoLisp
