import ProtoLisp.Eval.Machine
import ProtoLisp.Decimal.Quotient

/-!
# Arithmetic

The four operators take any number of numbers.  A sum starts from the empty sum and a product from the
empty product; a single operand of `-` is negated and of `/` inverted, and several are taken from the
first in turn.
-/

namespace ProtoLisp.Operator

open Run

/-- The numbers in the slots, the first of which is argument `index`. -/
def numbers (operator : Operator) : (index : Nat) → List Slot → Run (List Decimal)
  | _, [] => pure []
  | index, slot :: slots => do
    match ← present slot with
    | .number d => return d :: (← numbers operator (index + 1) slots)
    | v => complain (.notNumber operator.name index (← withHeap (·.exhibit v)))

/-- The sum of the numbers. -/
def sum (ds : List Decimal) : Decimal := ds.foldl Decimal.add .emptySum

/-- The numbers taken from the first. -/
def difference (d : Decimal) (ds : List Decimal) : Decimal := ds.foldl Decimal.sub d

/-- The product of `product` and the numbers; it crashes as soon as an exponent does not fit. -/
def multiply (product : Decimal) : List Decimal → Run Decimal
  | [] => pure product
  | d :: ds =>
    match product.mul? d with
    | some product => multiply product ds
    | none => crash (.exponentOverflow (product.productExponent d))

/-- The quotient of `quotient` and the numbers in turn, none of which may be zero. -/
def divide (precision : Int32) (quotient : Decimal) : List Decimal → Run Decimal
  | [] => pure quotient
  | d :: ds =>
    if d.isZero then complain .divisionByZero
    else match quotient.quotient? d precision with
      | some quotient => divide precision quotient ds
      | none => crash .zeroDivisor

/-- The result of an operator. -/
def calculate (precision : Int32) (operator : Operator) (ds : List Decimal) : Run Decimal :=
  match operator, ds with
  | .add, ds => pure (sum ds)
  | .sub, [] => complain (.noOperands operator.name)
  | .sub, [d] => pure d.neg
  | .sub, d :: ds => pure (difference d ds)
  | .mul, ds => multiply .emptyProduct ds
  | .div, [] => complain (.noOperands operator.name)
  | .div, [d] => divide precision (.ofInt 1) [d]
  | .div, d :: ds => divide precision d ds

/-- Applies an operator to arguments. -/
def apply (precision : Int32) (operator : Operator) (args : List Slot) : Run Slot := do
  let ds ← numbers operator 0 args
  return some (.number (← calculate precision operator ds))

end ProtoLisp.Operator
