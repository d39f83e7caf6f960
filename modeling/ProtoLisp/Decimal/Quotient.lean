import ProtoLisp.Decimal.Basic

/-!
# Quotients of decimals

A quotient is rounded to a number of fraction digits, half away from zero, and then loses the zeros at
its end, down to the number of fraction digits by which the dividend exceeds the divisor.  Exponents
are counted in 32 bits throughout.
-/

namespace ProtoLisp.Decimal

/-- The quotient toward zero with `precision` fraction digits, and what the division leaves over.
The divisor is not zero. -/
def quotientRemainder (a b : Decimal) (precision : Int32) : Decimal × Decimal :=
  let shift := (a.exponent - b.exponent + precision).toInt
  if shift < 0 then
    let divisor := b.coefficient * tenPow (-shift).toNat
    (⟨a.coefficient.tdiv divisor, -precision⟩, ⟨a.coefficient.tmod divisor, a.exponent⟩)
  else
    let dividend := a.coefficient * tenPow shift.toNat
    (⟨dividend.tdiv b.coefficient, -precision⟩,
      ⟨dividend.tmod b.coefficient, -precision + b.exponent⟩)

/-- The quotient with `precision` fraction digits, rounded half away from zero.  The divisor is not
zero. -/
def divRound (a b : Decimal) (precision : Int32) : Decimal :=
  let (q, r) := quotientRemainder a b precision
  let twice : Decimal := ⟨2 * r.coefficient.natAbs, r.exponent + precision⟩
  if lt twice b.abs then q
  else if a.coefficient.sign * b.coefficient.sign < 0 then q.sub ⟨1, -precision⟩
  else q.add ⟨1, -precision⟩

/-- The number without the fraction digits behind the first `scale`. -/
def truncate (d : Decimal) (scale : Int32) : Decimal :=
  if 0 ≤ scale && d.exponent < -scale then d.rescale (-scale) else d

/-- The first truncation of `q` that loses nothing, of `tries` truncations from `scale` on. -/
def trimFrom (q : Decimal) (scale : Int32) : Nat → Decimal
  | 0 => q
  | tries + 1 =>
    if (q.truncate scale).sameValue q then q.truncate scale else trimFrom q (scale + 1) tries

/-- The quotient rounded to `precision` fraction digits, with as few of them as it needs, but not
fewer than the divisor's exponent exceeds the dividend's.  The divisor is not zero. -/
def quotient (a b : Decimal) (precision : Int32) : Decimal :=
  let difference := b.exponent - a.exponent
  let least := if difference < 0 then 0 else difference
  trimFrom (divRound a b precision) least (precision.toInt - least.toInt).toNat

/-- The quotient, unless the divisor is zero. -/
def quotient? (a b : Decimal) (precision : Int32) : Option Decimal :=
  if b.isZero then none else some (a.quotient b precision)

end ProtoLisp.Decimal
