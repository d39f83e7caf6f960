import ProtoLisp.Cursor
import ProtoLisp.Text.Letter
import ProtoLisp.Text.Blank

/-!
# Splitting a text into tokens

`Lexeme.ofChars` looks at the characters ahead, the first of which is no blank, and says which token
they start with and how far it reaches.  `Lexer.next` walks a cursor from token to token.  A name, a
number, an atom and a comment each reach as far as their characters allow.

After the end of the text, a stray byte or a character that starts no token, a lexer has halted and
reports the same thing for ever; after a bare colon or an ill-formed number it goes on.
-/

namespace ProtoLisp

/-- The signs that a name may hold and start with. -/
def wordSigns : List Char :=
  ['.', '_', '+', '-', '*', '/', '=', '<', '>', '!', '&', '~', '%', '?', '$']

/-- A decimal digit. -/
def isDigit (c : Char) : Bool := '0' ≤ c && c ≤ '9'

/-- A character that a name may start with. -/
def isWordStart (c : Char) : Bool := Text.isLetter c || wordSigns.contains c

/-- A character that a name may hold. -/
def isWord (c : Char) : Bool := Text.isLetter c || isDigit c || wordSigns.contains c

/-- A sign in front of a number or an exponent. -/
def isSign (c : Char) : Bool := c == '+' || c == '-'

/-- The first of the characters satisfies `p`. -/
def startsWith (p : Char → Bool) (cs : List Char) : Bool := cs.head?.any p

/-- What stands at the front of a text. -/
inductive Lexeme where
  /-- the characters `run` are a token -/
  | word (kind : Kind) (run : List Char)
  /-- the characters `run` start like a token that they are not, as `text` explains -/
  | malformed (text : String) (run : List Char)
  /-- no token starts with the character `c` -/
  | strange (c : Char)
  deriving DecidableEq, Repr

namespace Lexeme

/-- The characters that the lexeme takes up. -/
def run : Lexeme → List Char
  | .word _ run => run
  | .malformed _ run => run
  | .strange c => [c]

/-- An ill-formed number: `shown` is how far it could be read. -/
def badNumber (shown run : List Char) : Lexeme :=
  .malformed ("invalid number literal: " ++ String.ofList shown) run

/-- A number of which `run` has been read: a name character right behind it spoils it. -/
def endNumber (run rest : List Char) : Lexeme :=
  match rest.head?.filter isWord with
  | some c => badNumber (run ++ [c]) run
  | none => .word .number run

/-- The digits of an exponent behind `run`, of which there is at least one. -/
def exponentDigits (run rest : List Char) : Lexeme :=
  if startsWith isDigit rest then endNumber (run ++ rest.takeWhile isDigit) (rest.dropWhile isDigit)
  else badNumber run run

/-- An optional exponent behind `run`, with or without a sign. -/
def exponent (run rest : List Char) : Lexeme :=
  match rest with
  | c :: rest' =>
    if c == 'e' || c == 'E' then
      match rest' with
      | s :: digits =>
        if isSign s then exponentDigits (run ++ [c, s]) digits else exponentDigits (run ++ [c]) rest'
      | [] => exponentDigits (run ++ [c]) []
    else endNumber run rest
  | [] => endNumber run []

/-- An optional fraction behind `run`. -/
def fraction (run rest : List Char) : Lexeme :=
  match rest with
  | c :: digits =>
    if c == '.' then
      if startsWith isDigit digits then
        exponent (run ++ c :: digits.takeWhile isDigit) (digits.dropWhile isDigit)
      else badNumber (run ++ [c]) (run ++ [c])
    else exponent run rest
  | [] => exponent run []

/-- A number that starts with `c`, a sign or a digit. -/
def number (c : Char) (cs : List Char) : Lexeme :=
  fraction (c :: cs.takeWhile isDigit) (cs.dropWhile isDigit)

/-- The lexeme at the front of `c :: cs`, where `c` is no blank. -/
def ofChars (c : Char) (cs : List Char) : Lexeme :=
  if c = '(' then .word (.opening .paren) [c]
  else if c = ')' then .word (.closing .paren) [c]
  else if c = '[' then .word (.opening .bracket) [c]
  else if c = ']' then .word (.closing .bracket) [c]
  else if c = ';' then .word .comment (c :: cs.takeWhile (· != '\n'))
  else if c = ':' then
    if startsWith isWord cs then .word .atom (c :: cs.takeWhile isWord)
    else .malformed ("atom name expected after " ++ Text.quoteChar c) [c]
  else if isDigit c || (isSign c && startsWith isDigit cs) then number c cs
  else if isWordStart c then .word .symbol (c :: cs.takeWhile isWord)
  else .strange c

end Lexeme

/-- A source in the course of being split into tokens. -/
structure Lexer where
  cursor : Cursor
  /-- set once no further token can be found -/
  halted : Option Halt
  deriving DecidableEq, Repr

namespace Lexer

/-- A lexer before the first token of `source`. -/
def ofSource (source : Source) : Lexer :=
  ⟨.ofSource source, source.readError.map .failure⟩

/-- The cursor behind the blanks ahead, at the start of a new token. -/
def skipBlanks (cursor : Cursor) : Cursor :=
  (cursor.consume (cursor.rest.takeWhile Text.isBlank) (cursor.rest.dropWhile Text.isBlank)).ignore

/-- The token that a lexeme makes of the characters that `cursor` has taken for it. -/
def ofLexeme (cursor : Cursor) : Lexeme → Token × Lexer
  | .word kind _ =>
    let (token, cursor) := cursor.emit kind
    (token, ⟨cursor, none⟩)
  | .malformed text _ =>
    let (token, cursor) := cursor.report .error text
    (token, ⟨cursor, none⟩)
  | .strange c =>
    let text := "unexpected text starting with " ++ Text.quoteChar c
    let (token, cursor) := cursor.report .invalid text
    (token, ⟨cursor, some (.failure text)⟩)

/-- The next token that takes up characters of the text, if there is one. -/
def word? (lexer : Lexer) : Option (Token × Lexer) :=
  if lexer.halted.isSome then none
  else
    let cursor := skipBlanks lexer.cursor
    match cursor.rest with
    | [] => none
    | c :: cs =>
      let lexeme := Lexeme.ofChars c cs
      some (ofLexeme (cursor.consume lexeme.run ((c :: cs).drop lexeme.run.length)) lexeme)

/-- Why there is no further token, and where. -/
def outcome (lexer : Lexer) : Halt × Cursor :=
  match lexer.halted with
  | some why => (why, lexer.cursor)
  | none =>
    let cursor := skipBlanks lexer.cursor
    (cursor.ending, cursor)

/-- The next token; a lexer that finds none reports why, now and ever after. -/
def next (lexer : Lexer) : Token × Lexer :=
  match lexer.word? with
  | some found => found
  | none =>
    let (why, cursor) := lexer.outcome
    let (token, cursor) := cursor.report why.kind why.message
    (token, ⟨cursor, some why⟩)

end Lexer

theorem Lexeme.run_endNumber (run rest : List Char) : (endNumber run rest).run = run := by
  unfold endNumber
  split <;> rfl

theorem Lexeme.length_le_exponentDigits (run rest : List Char) :
    run.length ≤ (exponentDigits run rest).run.length := by
  unfold exponentDigits
  split
  · simp [run_endNumber]
  · simp [badNumber, Lexeme.run]

theorem Lexeme.length_le_exponentDigits_append (run mark rest : List Char) :
    run.length ≤ (exponentDigits (run ++ mark) rest).run.length := by
  have h := length_le_exponentDigits (run ++ mark) rest
  rw [List.length_append] at h
  omega

theorem Lexeme.length_le_exponent (run rest : List Char) :
    run.length ≤ (exponent run rest).run.length := by
  unfold exponent
  split
  · split
    · split
      · split
        · exact length_le_exponentDigits_append _ _ _
        · exact length_le_exponentDigits_append _ _ _
      · exact length_le_exponentDigits_append _ _ _
    · exact Nat.le_of_eq (congrArg List.length (run_endNumber run _)).symm
  · exact Nat.le_of_eq (congrArg List.length (run_endNumber run _)).symm

theorem Lexeme.length_le_fraction (run rest : List Char) :
    run.length ≤ (fraction run rest).run.length := by
  unfold fraction
  split
  · split
    · split
      · refine Nat.le_trans ?_ (length_le_exponent _ _)
        simp
      · simp [badNumber, Lexeme.run]
    · exact length_le_exponent _ _
  · exact length_le_exponent _ _

theorem Lexeme.length_run_pos (c : Char) (cs : List Char) : 0 < (ofChars c cs).run.length := by
  have hnumber : 0 < (number c cs).run.length :=
    Nat.lt_of_lt_of_le (by simp) (length_le_fraction _ _)
  unfold ofChars
  repeat' split
  all_goals first | exact hnumber | simp [Lexeme.run]

theorem Lexer.rest_ofLexeme (cursor : Cursor) (lexeme : Lexeme) :
    (ofLexeme cursor lexeme).2.cursor.rest = cursor.rest := by
  cases lexeme <;> rfl

/-- Every token takes up at least one character. -/
theorem Lexer.length_rest_lt_of_word? {lexer lexer' : Lexer} {token : Token}
    (h : lexer.word? = some (token, lexer')) :
    lexer'.cursor.rest.length < lexer.cursor.rest.length := by
  unfold word? at h
  split at h
  · cases h
  · have hskip : (skipBlanks lexer.cursor).rest.length ≤ lexer.cursor.rest.length := by
      simpa [skipBlanks, Cursor.consume, Cursor.ignore] using
        (List.dropWhile_sublist Text.isBlank (l := lexer.cursor.rest)).length_le
    dsimp only at h
    split at h
    · cases h
    · rename_i c cs hrest
      have hpos := Lexeme.length_run_pos c cs
      have h2 := congrArg (fun p => p.2.cursor.rest) (Option.some.inj h)
      simp only [rest_ofLexeme, Cursor.consume] at h2
      rw [← h2, List.length_drop]
      rw [hrest, List.length_cons] at hskip
      simp only [List.length_cons]
      omega

end ProtoLisp
