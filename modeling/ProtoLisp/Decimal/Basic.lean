/-!
# Decimal numbers

A decimal is an integer coefficient times a power of ten with a 32-bit exponent.  The exponent is part
of the number: `1.50` and `1.5` have the same value and are different decimals.  Sums and differences
are exact at the smaller of the two exponents, products are exact at the sum of the exponents, which
has to fit.
-/

namespace ProtoLisp

/-- The number `coefficient * 10 ^ exponent`. -/
structure Decimal where
  coefficient : Int
  exponent : Int32
  deriving DecidableEq, Repr, Inhabited

namespace Decimal

/-- The integer `n`, with exponent zero. -/
def ofInt (n : Int) : Decimal := ⟨n, 0⟩

/-- The sum of no numbers: zero, with exponent one. -/
def emptySum : Decimal := ⟨0, 1⟩

/-- The product of no numbers. -/
def emptyProduct : Decimal := ofInt 1

/-- The number is zero. -/
def isZero (d : Decimal) : Bool := d.coefficient == 0

/-- Ten to the power `n`. -/
def tenPow (n : Nat) : Int := (Nat.pow 10 n : Nat)

/-- `e` can be the exponent of a decimal. -/
def fits (e : Int) : Bool := -2147483648 ≤ e && e ≤ 2147483647

/-- The decimal with exponent `e` next to `d` in the direction of zero.  It is `d` itself if its digits
reach no further than `e`. -/
def rescale (d : Decimal) (e : Int32) : Decimal :=
  if d.coefficient = 0 then ⟨0, e⟩
  else if d.exponent ≤ e then
    ⟨d.coefficient.tdiv (tenPow (e.toInt - d.exponent.toInt).toNat), e⟩
  else
    ⟨d.coefficient * tenPow (d.exponent.toInt - e.toInt).toNat, e⟩

/-- The smaller exponent of two decimals. -/
def commonExponent (a b : Decimal) : Int32 :=
  if a.exponent ≤ b.exponent then a.exponent else b.exponent

/-- The exact sum, at the smaller exponent. -/
def add (a b : Decimal) : Decimal :=
  let e := commonExponent a b
  ⟨(a.rescale e).coefficient + (b.rescale e).coefficient, e⟩

/-- The exact difference, at the smaller exponent. -/
def sub (a b : Decimal) : Decimal :=
  let e := commonExponent a b
  ⟨(a.rescale e).coefficient - (b.rescale e).coefficient, e⟩

/-- The negation, at the same exponent. -/
def neg (a : Decimal) : Decimal := ⟨-a.coefficient, a.exponent⟩

/-- The absolute value, at the same exponent. -/
def abs (a : Decimal) : Decimal := ⟨a.coefficient.natAbs, a.exponent⟩

/-- The exponent of the product of two decimals. -/
def productExponent (a b : Decimal) : Int := a.exponent.toInt + b.exponent.toInt

/-- The exact product, if its exponent fits. -/
def mul? (a b : Decimal) : Option Decimal :=
  if fits (productExponent a b) then
    some ⟨a.coefficient * b.coefficient, Int32.ofInt (productExponent a b)⟩
  else none

/-- `a` is less than `b`. -/
def lt (a b : Decimal) : Bool :=
  let e := commonExponent a b
  decide ((a.rescale e).coefficient < (b.rescale e).coefficient)

/-- The two decimals have the same value, whatever their exponents. -/
def sameValue (a b : Decimal) : Bool :=
  let e := commonExponent a b
  (a.rescale e).coefficient == (b.rescale e).coefficient

end Decimal

end ProtoLisp
