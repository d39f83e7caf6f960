import ProtoLisp.Text.Printable

/-!
# Quoted texts

A quoted text stands between two equal quotation marks.  The mark and the backslash are escaped by a
backslash, seven control characters have a letter each, and every other character that is not
printable is written by its code in two, four or eight hexadecimal digits.
-/

namespace ProtoLisp.Text

/-- The lower-case hexadecimal digits of `n`, filled up with zeros to `width`. -/
def hexDigits (width n : Nat) : String :=
  let digits := Nat.toDigits 16 n
  String.ofList (List.replicate (width - digits.length) '0' ++ digits)

/-- The letter that stands for a control character after a backslash. -/
def controlLetter? (c : Char) : Option Char :=
  match c.toNat with
  | 0x07 => some 'a'
  | 0x08 => some 'b'
  | 0x09 => some 't'
  | 0x0a => some 'n'
  | 0x0b => some 'v'
  | 0x0c => some 'f'
  | 0x0d => some 'r'
  | _ => none

/-- How `c` is written between two marks `mark`. -/
def escape (mark c : Char) : String :=
  if c = mark ∨ c = '\\' then String.ofList ['\\', c]
  else if isPrintable c then String.singleton c
  else match controlLetter? c with
    | some letter => String.ofList ['\\', letter]
    | none =>
      if c.toNat < 0x80 then "\\x" ++ hexDigits 2 c.toNat
      else if c.toNat < 0x10000 then "\\u" ++ hexDigits 4 c.toNat
      else "\\U" ++ hexDigits 8 c.toNat

/-- A character between single quotes. -/
def quoteChar (c : Char) : String :=
  "'" ++ escape '\'' c ++ "'"

/-- A text between double quotes. -/
def quote (s : String) : String :=
  "\"" ++ String.join (s.toList.map (escape '"')) ++ "\""

end ProtoLisp.Text
