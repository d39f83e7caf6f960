import ProtoLisp.Decimal.Text

/-!
# Plain scalars

A scalar that is written without quotes may be null, a boolean, a number or a date; everything else is
a string.  Integers have an optional sign and may be binary, octal, decimal or hexadecimal, and an
underscore between digits means nothing.
-/

namespace ProtoLisp.Yaml

/-- What a scalar stands for. -/
inductive Scalar where
  | null
  | bool
  | int (n : Int)
  /-- a number with a fraction or an exponent, cut to an integer; none if it is no finite number -/
  | float (whole : Option Int)
  | date
  | string
  deriving DecidableEq, Repr

namespace Scalar

/-- The tag of a scalar. -/
def tag : Scalar → String
  | .null => "!!null"
  | .bool => "!!bool"
  | .int _ => "!!int"
  | .float _ => "!!float"
  | .date => "!!timestamp"
  | .string => "!!str"

/-- The value of a digit in a base of at most sixteen. -/
def digitValue? (base : Nat) (c : Char) : Option Nat :=
  let value :=
    if '0' ≤ c ∧ c ≤ '9' then c.toNat - '0'.toNat
    else if 'a' ≤ c ∧ c ≤ 'f' then c.toNat - 'a'.toNat + 10
    else if 'A' ≤ c ∧ c ≤ 'F' then c.toNat - 'A'.toNat + 10
    else 16
  if value < base then some value else none

/-- The number written with these digits, one at least. -/
def readBase? (base : Nat) (cs : List Char) : Option Nat :=
  if cs.isEmpty then none
  else cs.foldlM (fun value c => (digitValue? base c).map (base * value + ·)) 0

/-- The number written with these digits behind the mark of their base. -/
def readMarked? : List Char → Option Nat
  | '0' :: 'x' :: cs | '0' :: 'X' :: cs => readBase? 16 cs
  | '0' :: 'o' :: cs | '0' :: 'O' :: cs => readBase? 8 cs
  | '0' :: 'b' :: cs | '0' :: 'B' :: cs => readBase? 2 cs
  | '0' :: c :: cs => readBase? 8 (c :: cs)
  | cs => readBase? 10 cs

/-- The integer written as `cs`, if it fits into 64 bits, with or without a sign bit. -/
def readInt? : List Char → Option Int
  | '-' :: cs => ((readMarked? cs).filter (· ≤ UInt64.size / 2)).map fun n => -(n : Int)
  | '+' :: cs => ((readMarked? cs).filter (· < UInt64.size / 2)).map Int.ofNat
  | cs => ((readMarked? cs).filter (· < UInt64.size)).map Int.ofNat

/-- Without a sign in front. -/
def dropSign : List Char → List Char
  | '-' :: cs => cs
  | '+' :: cs => cs
  | cs => cs

/-- All characters are digits, and there is one at least. -/
def areDigits (cs : List Char) : Bool := !cs.isEmpty && cs.all Char.isDigit

/-- Digits with a point among them or none, and an exponent or none. -/
def isFloatText (cs : List Char) : Bool :=
  let cs := dropSign cs
  let mantissa := cs.takeWhile (!Decimal.isExponentMark ·)
  let whole := mantissa.takeWhile (· != '.')
  let mantissaOk := match mantissa.dropWhile (· != '.') with
    | [] => areDigits whole
    | _ :: places => if whole.isEmpty then areDigits places
      else areDigits whole && places.all Char.isDigit
  let exponentOk := match cs.dropWhile (!Decimal.isExponentMark ·) with
    | [] => true
    | _ :: written => areDigits (dropSign written)
  mantissaOk && exponentOk

/-- The integer next to `num / den`; of two that are equally near, the even one. -/
def nearest (num den : Nat) : Nat :=
  let below := num / den
  let rest := 2 * (num % den)
  if rest < den ∨ (rest = den ∧ below % 2 = 0) then below else below + 1

/-- The number `num / den` times two to the power `shift`, as a numerator and a denominator. -/
def shifted (num den : Nat) (shift : Int) : Nat × Nat :=
  (num * Nat.pow 2 shift.toNat, den * Nat.pow 2 (-shift).toNat)

/-- The positive number `num / den`, rounded to 53 binary digits and then cut to an integer. -/
def cutRounded (num den : Nat) : Nat :=
  let shift : Int := 52 + den.log2 - num.log2
  let (n, d) := shifted num den shift
  let shift := if n < Nat.pow 2 52 * d then shift + 1 else shift
  let (n, d) := shifted num den shift
  let (n, d) := shifted (nearest n d) 1 (-shift)
  n / d

/-- The number `coefficient * 10 ^ exponent`, rounded to a double and cut to an integer; none if it is
beyond all doubles. -/
def cutDouble? (coefficient exponent : Int) : Option Int :=
  let digits := (Nat.toDigits 10 coefficient.natAbs).length
  if coefficient = 0 ∨ digits + exponent < 0 then some 0
  else if 310 < digits + exponent then none
  else
    let whole := cutRounded (coefficient.natAbs * Nat.pow 10 exponent.toNat)
      (Nat.pow 10 (-exponent).toNat)
    if whole < Nat.pow 2 1024 then some (coefficient.sign * whole) else none

/-- A text that reads as a float, cut to an integer. -/
def readFloat? (cs : List Char) : Option Int :=
  if isFloatText cs then do
    let exponent ← match cs.dropWhile (!Decimal.isExponentMark ·) with
      | [] => some 0
      | _ :: written => Decimal.readInt? written
    let (digits, places) ← Decimal.splitPoint? (cs.takeWhile (!Decimal.isExponentMark ·))
    let coefficient ← Decimal.readInt? digits
    cutDouble? coefficient (exponent - places)
  else none

/-- The days of a month. -/
def monthDays (year month : Nat) : Nat :=
  if month = 2 then if year % 4 = 0 ∧ (year % 100 ≠ 0 ∨ year % 400 = 0) then 29 else 28
  else if month = 4 ∨ month = 6 ∨ month = 9 ∨ month = 11 then 30
  else 31

/-- A date: four digits of the year, and one or two of the month and of the day. -/
def isDate (cs : List Char) : Bool :=
  match cs.splitOn '-' with
  | [year, month, day] =>
    year.length == 4 && month.length ≤ 2 && day.length ≤ 2 &&
      match Decimal.readNat? year, Decimal.readNat? month, Decimal.readNat? day with
      | some year, some month, some day =>
        1 ≤ month && month ≤ 12 && 1 ≤ day && day ≤ monthDays year month
      | _, _, _ => false
  | _ => false

/-- The words that stand for something else than themselves. -/
def word? (text : String) : Option Scalar :=
  if ["", "~", "null", "Null", "NULL"].contains text then some .null
  else if ["true", "True", "TRUE", "false", "False", "FALSE"].contains text then some .bool
  else if [".nan", ".NaN", ".NAN", ".inf", ".Inf", ".INF", "+.inf", "+.Inf", "+.INF"].contains text then
    some (.float none)
  else if ["-.inf", "-.Inf", "-.INF"].contains text then some (.float (some Int64.minValue.toInt))
  else none

/-- A scalar that starts like a number. -/
def ofNumber (text : String) : Scalar :=
  let digits := text.toList.filter (· != '_')
  if isDate text.toList then .date
  else match readInt? digits, readFloat? digits with
    | some n, _ => .int n
    | none, some whole => .float (some whole)
    | none, none => .string

/-- What a plain scalar stands for. -/
def ofPlain (text : String) : Scalar :=
  match word? text, text.toList.head? with
  | some scalar, _ => scalar
  | none, some c =>
    if c.isDigit || c == '+' || c == '-' then ofNumber text
    else if c == '.' then
      match readFloat? text.toList with
      | some whole => .float (some whole)
      | none => .string
    else .string
  | none, none => .string

end Scalar

end ProtoLisp.Yaml
