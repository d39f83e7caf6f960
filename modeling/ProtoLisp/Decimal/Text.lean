import ProtoLisp.Decimal.Basic

/-!
# Decimals in writing

A decimal is written without an exponent: a negative exponent is the number of its fraction digits, and
all of them are shown; any other exponent adds zeros to an integer.  Zero has no sign.

It is read from an optional sign, digits with at most one point among them, and an optional exponent.
Reading keeps the digits as they stand.
-/

namespace ProtoLisp.Decimal

/-- The digits of `n`, at least `width` of them. -/
def paddedDigits (width n : Nat) : List Char :=
  let digits := Nat.toDigits 10 n
  List.replicate (width - digits.length) '0' ++ digits

/-- The digits of the absolute value, with the point in its place. -/
def unsignedText (d : Decimal) : List Char :=
  if d.exponent < 0 then
    let places := (-d.exponent.toInt).toNat
    let digits := paddedDigits (places + 1) d.coefficient.natAbs
    digits.take (digits.length - places) ++ '.' :: digits.drop (digits.length - places)
  else
    Nat.toDigits 10 ((d.rescale 0).coefficient.natAbs)

/-- The number in writing. -/
def text (d : Decimal) : String :=
  String.ofList (if d.coefficient < 0 then '-' :: d.unsignedText else d.unsignedText)

/-- The value of a digit. -/
def digitValue? (c : Char) : Option Nat :=
  if '0' ≤ c ∧ c ≤ '9' then some (c.toNat - '0'.toNat) else none

/-- The number that starts with `value` and goes on with the digits `cs`. -/
def readDigits (value : Nat) : List Char → Option Nat
  | [] => some value
  | c :: cs => (digitValue? c).bind fun digit => readDigits (10 * value + digit) cs

/-- The natural number that is written as `cs`, a digit at least. -/
def readNat? (cs : List Char) : Option Nat :=
  if cs.isEmpty then none else readDigits 0 cs

/-- The integer that is written as `cs`, with or without a sign. -/
def readInt? : List Char → Option Int
  | '-' :: cs => (readNat? cs).map fun n => -(n : Int)
  | '+' :: cs => (readNat? cs).map Int.ofNat
  | cs => (readNat? cs).map Int.ofNat

/-- The mark that separates an exponent. -/
def isExponentMark (c : Char) : Bool := c == 'e' || c == 'E'

/-- The exponent behind the first mark in `cs`; zero if there is no mark. -/
def readExponent? (cs : List Char) : Option Int :=
  match cs.dropWhile (!isExponentMark ·) with
  | [] => some 0
  | _ :: written => (readInt? written).filter fits

/-- The digits around at most one point, and how many stand behind it. -/
def splitPoint? (cs : List Char) : Option (List Char × Nat) :=
  match cs.dropWhile (· != '.') with
  | [] => some (cs, 0)
  | _ :: places =>
    if places.contains '.' then none else some (cs.takeWhile (· != '.') ++ places, places.length)

/-- The decimal written as `cs`, if `cs` is a number whose exponents fit. -/
def ofChars? (cs : List Char) : Option Decimal := do
  let exponent ← readExponent? cs
  let (digits, places) ← splitPoint? (cs.takeWhile (!isExponentMark ·))
  let coefficient ← readInt? digits
  if fits (exponent - places) then some ⟨coefficient, Int32.ofInt (exponent - places)⟩ else none

/-- The decimal written as `s`. -/
def ofText? (s : String) : Option Decimal := ofChars? s.toList

end ProtoLisp.Decimal
