import Mathlib.Algebra.BigOperators.Group.List.Basic
import ProtoLisp.Proofs.Acts
import ProtoLisp.Proofs.DecimalValues

/-!
# Exact arithmetic

Calls of the operators `+`, `-` and `*` with numbers are exact.  A sum and a difference have the least
exponent among the operands, where a sum counts in the one of the empty sum; a product has the sum of
the exponents, as long as this fits from the left to the right.  Since a decimal is determined by its
number and its exponent, the order of the operands and their grouping make no difference.
-/

namespace ProtoLisp

/-- The decimals as arguments. -/
def Slot.ofNumbers (ds : List Decimal) : List Slot := ds.map fun d => some (.number d)

/-- A call of the operator with the numbers, which is recorded as `frame`. -/
def Operator.on (operator : Operator) (frame : Frame) (ds : List Decimal) : Request :=
  .call (some (.native frame.name (.operator operator))) (Slot.ofNumbers ds) frame.receiver

/-! ## Operators with numbers -/

namespace Operator

open Run

variable {precision : Int32} {setup : Setup} {frame : Frame} {m : Machine} {operator : Operator}
  {ds : List Decimal}

theorem numbers_ofNumbers (operator : Operator) (index : Nat) (ds : List Decimal) (m : Machine) :
    operator.numbers index (Slot.ofNumbers ds) m = .ok ds m := by
  induction ds generalizing index with
  | nil => rfl
  | cons d ds ih =>
      have hcons : operator.numbers index (Slot.ofNumbers (d :: ds)) m =
          (operator.numbers (index + 1) (Slot.ofNumbers ds) >>= fun ds => pure (d :: ds)) m := rfl
      rw [hcons, bind_of_ok (ih (index + 1))]
      rfl

theorem apply_ofNumbers (precision : Int32) (operator : Operator) (ds : List Decimal) (m : Machine) :
    operator.apply precision (Slot.ofNumbers ds) m =
      (operator.calculate precision ds >>= fun d => pure (some (.number d))) m := by
  rw [apply, bind_of_ok (numbers_ofNumbers operator 0 ds m)]

theorem apply_of_ok {d : Decimal} (hcalculate : operator.calculate precision ds m = .ok d m) :
    operator.apply precision (Slot.ofNumbers ds) m = .ok (some (.number d)) m := by
  rw [apply_ofNumbers, bind_of_ok hcalculate]
  rfl

theorem apply_of_error {failure : Failure}
    (hcalculate : operator.calculate precision ds m = .error failure m) :
    operator.apply precision (Slot.ofNumbers ds) m = .error failure m := by
  rw [apply_ofNumbers, bind_of_error hcalculate]

/-- A call of an operator has the outcome of the operator, and leaves the machine as it was. -/
theorem run_on (hroom : m.stack.isFull = false) (setup : Setup) (depth : Nat) (operator : Operator)
    (ds : List Decimal) :
    Eval.run setup (depth + 1) (operator.on frame ds) m =
      match operator.apply setup.precision (Slot.ofNumbers ds) (m.inCall frame) with
      | .ok slot _ => .ok slot m
      | .error failure _ => .error failure m := by
  have hheight : (m.stack.push frame).height ≠ 0 := by
    simp [CallStack.height, CallStack.push]
  have hcall : Eval.run setup (depth + 1) (operator.on frame ds) m =
      leaveCall ((operator.apply setup.precision (Slot.ofNumbers ds) >>=
        fun result => pure (some (result.getD .null))) (m.inCall frame)) :=
    inCall_of_room hroom frame _
  -- The calculation looks at nothing but the active calls.
  have hidle := (idle_calculate setup.precision operator ds).after (m.inCall frame)
  rw [hcall]
  cases hcalculate : operator.calculate setup.precision ds (m.inCall frame) with
  | ok d after =>
      rw [after_of_ok hcalculate] at hidle
      subst hidle
      rw [bind_of_ok (apply_of_ok hcalculate), apply_of_ok hcalculate]
      show leaveCall (.ok (some (Value.number d)) (m.inCall frame)) = _
      rw [leaveCall, Machine.inCall, if_neg hheight, CallStack.pop_push]
  | error failure after =>
      rw [after_of_error hcalculate] at hidle
      subst hidle
      rw [bind_of_error (apply_of_error hcalculate), apply_of_error hcalculate, leaveCall,
        Machine.inCall, if_neg hheight, CallStack.pop_push]

end Operator

/-! ## Folds -/

namespace Decimal

variable {ds ds' front rest : List Decimal} {acc d : Decimal}

/-- The least of `e` and the exponents of the decimals. -/
def leastExponent (e : ℤ) (ds : List Decimal) : ℤ :=
  ds.foldl (fun e d => min e d.exponent.toInt) e

theorem leastExponent_min (e e' : ℤ) (ds : List Decimal) :
    leastExponent (min e e') ds = min e (leastExponent e' ds) := by
  induction ds generalizing e' with
  | nil => rfl
  | cons d ds ih =>
      simp only [leastExponent, List.foldl_cons] at ih ⊢
      rw [min_assoc, ih]

theorem leastExponent_le (e : ℤ) (ds : List Decimal) : leastExponent e ds ≤ e := by
  have hmin := leastExponent_min e e ds
  rw [min_self] at hmin
  rw [hmin]
  exact min_le_left _ _

theorem leastExponent_append (e : ℤ) (front rest : List Decimal) :
    leastExponent e (front ++ rest) = leastExponent (leastExponent e front) rest :=
  List.foldl_append

theorem leastExponent_perm (hperm : ds.Perm ds') (e : ℤ) :
    leastExponent e ds = leastExponent e ds' := by
  apply hperm.foldl_eq'
  intro x _ y _ e
  rw [min_assoc, min_assoc, min_comm y.exponent.toInt]

/-- A fold of an operation that works at the smaller exponent ends at the least. -/
theorem toInt_exponent_foldl {op : Decimal → Decimal → Decimal}
    (hop : ∀ a b, (op a b).exponent.toInt = min a.exponent.toInt b.exponent.toInt)
    (acc : Decimal) (ds : List Decimal) :
    (ds.foldl op acc).exponent.toInt = leastExponent acc.exponent.toInt ds := by
  induction ds generalizing acc with
  | nil => rfl
  | cons d ds ih =>
      rw [List.foldl_cons, ih, hop]
      rfl

theorem toRat_foldl_add (acc : Decimal) (ds : List Decimal) :
    (ds.foldl add acc).toRat = acc.toRat + (ds.map toRat).sum := by
  induction ds generalizing acc with
  | nil => simp
  | cons d ds ih => rw [List.foldl_cons, ih, toRat_add, List.map_cons, List.sum_cons, add_assoc]

theorem toRat_foldl_sub (acc : Decimal) (ds : List Decimal) :
    (ds.foldl sub acc).toRat = acc.toRat - (ds.map toRat).sum := by
  induction ds generalizing acc with
  | nil => simp
  | cons d ds ih => rw [List.foldl_cons, ih, toRat_sub, List.map_cons, List.sum_cons, sub_sub]

end Decimal

/-! ## Sums, differences and products -/

namespace Operator

open Decimal

variable {ds ds' front rest : List Decimal}

theorem toRat_sum (ds : List Decimal) : (sum ds).toRat = (ds.map toRat).sum := by
  have hzero : emptySum.toRat = 0 := toRat_eq_zero_iff.mpr rfl
  rw [sum, toRat_foldl_add, hzero, zero_add]

theorem toInt_exponent_sum (ds : List Decimal) :
    (sum ds).exponent.toInt = leastExponent 1 ds :=
  toInt_exponent_foldl toInt_exponent_add emptySum ds

theorem toRat_difference (d : Decimal) (ds : List Decimal) :
    (difference d ds).toRat = d.toRat - (ds.map toRat).sum :=
  toRat_foldl_sub d ds

theorem toInt_exponent_difference (d : Decimal) (ds : List Decimal) :
    (difference d ds).exponent.toInt = leastExponent d.exponent.toInt ds :=
  toInt_exponent_foldl toInt_exponent_sub d ds

theorem sum_perm (hperm : ds.Perm ds') : sum ds = sum ds' := by
  apply eq_of_toRat
  · rw [toRat_sum, toRat_sum, (hperm.map toRat).sum_eq]
  · rw [toInt_exponent_sum, toInt_exponent_sum, leastExponent_perm hperm]

theorem sum_append_sum (front rest : List Decimal) :
    sum (front ++ [sum rest]) = sum (front ++ rest) := by
  apply eq_of_toRat
  · simp [toRat_sum]
  · have hleast : leastExponent (leastExponent 1 front) [sum rest] =
        min (leastExponent 1 front) (leastExponent 1 rest) := by
      rw [← toInt_exponent_sum rest]
      rfl
    rw [toInt_exponent_sum, toInt_exponent_sum, leastExponent_append, leastExponent_append, hleast,
      ← leastExponent_min, min_eq_left (leastExponent_le 1 front)]

/-- To take numbers away one by one looks the same as to take away their sum.  The sum has a smaller
exponent if all exponents are greater than one, but then no fraction digits are shown. -/
theorem text_difference_sum (d : Decimal) (ds : List Decimal) :
    (difference d [sum ds]).text = (difference d ds).text := by
  have hvalue : (difference d [sum ds]).toRat = (difference d ds).toRat := by
    simp [toRat_difference, toRat_sum]
  have hexponent : (difference d [sum ds]).exponent.toInt =
      min (difference d ds).exponent.toInt 1 := by
    rw [toInt_exponent_difference, toInt_exponent_difference]
    show min d.exponent.toInt (sum ds).exponent.toInt = _
    rw [toInt_exponent_sum, ← leastExponent_min, min_comm d.exponent.toInt, leastExponent_min,
      min_comm]
  by_cases hneg : (difference d ds).exponent.toInt ≤ 1
  · rw [min_eq_left hneg] at hexponent
    rw [eq_of_toRat hvalue hexponent]
  · apply text_eq_of_toRat _ (by omega) hvalue
    rw [hexponent]
    omega

section Products

open Run

variable {m after : Machine} {product result : Decimal}

theorem of_multiply (hmultiply : multiply product ds m = .ok result after) :
    result.toRat = product.toRat * (ds.map toRat).prod ∧
      result.exponent.toInt =
        product.exponent.toInt + (ds.map fun d => d.exponent.toInt).sum := by
  induction ds generalizing product with
  | nil =>
      cases hmultiply
      simp
  | cons d ds ih =>
      rw [multiply] at hmultiply
      cases hmul : product.mul? d with
      | none =>
          rw [hmul] at hmultiply
          cases hmultiply
      | some next =>
          rw [hmul] at hmultiply
          obtain ⟨hvalue, hexponent⟩ := ih hmultiply
          obtain ⟨hnext, hsum⟩ := of_mul? hmul
          simp only [List.map_cons, List.prod_cons, List.sum_cons]
          exact ⟨by rw [hvalue, hnext, mul_assoc], by rw [hexponent, hsum, add_assoc]⟩

/-- The exponents add up to numbers that fit, from the left to the right. -/
def ExponentsFit (ds : List Decimal) : Prop :=
  ∀ front, front <+: ds → fits (front.map fun d => d.exponent.toInt).sum = true

/-- A product overflows if the sum of the exponents does not fit somewhere. -/
theorem multiply_cases (product : Decimal) (ds : List Decimal) (m : Machine) :
    (∃ result, multiply product ds m = .ok result m) ∨
      ∃ cause front, front <+: ds ∧ multiply product ds m = .error (.crash cause) m ∧
        fits (product.exponent.toInt + (front.map fun d => d.exponent.toInt).sum) = false := by
  induction ds generalizing product with
  | nil => exact .inl ⟨product, rfl⟩
  | cons d ds ih =>
      rw [multiply]
      cases hmul : product.mul? d with
      | none =>
          refine .inr ⟨_, [d], by simp, rfl, ?_⟩
          simpa using mul?_eq_none_iff.mp hmul
      | some next =>
          rcases ih next with hok | ⟨cause, front, hfront, hcrash, hfits⟩
          · exact .inl hok
          · refine .inr ⟨cause, d :: front, List.cons_prefix_cons.mpr ⟨rfl, hfront⟩, hcrash, ?_⟩
            rw [(of_mul? hmul).2, add_assoc] at hfits
            simpa using hfits

theorem apply_mul_cases (precision : Int32) (ds : List Decimal) (m : Machine) :
    (∃ product, Operator.mul.apply precision (Slot.ofNumbers ds) m = .ok (some (.number product)) m ∧
      product.toRat = (ds.map toRat).prod ∧
      product.exponent.toInt = (ds.map fun d => d.exponent.toInt).sum) ∨
    (∃ cause, Operator.mul.apply precision (Slot.ofNumbers ds) m = .error (.crash cause) m) ∧
      ¬ ExponentsFit ds := by
  have hone : emptyProduct.toRat = 1 := by simp [toRat, emptyProduct, ofInt]
  have hzero : emptyProduct.exponent.toInt = 0 := rfl
  rcases multiply_cases emptyProduct ds m with
    ⟨product, hok⟩ | ⟨cause, front, hfront, hcrash, hfits⟩
  · have hproduct := of_multiply hok
    rw [hone, one_mul, hzero, zero_add] at hproduct
    exact .inl ⟨product, apply_of_ok hok, hproduct⟩
  · refine .inr ⟨⟨cause, apply_of_error hcrash⟩, ?_⟩
    intro hall
    rw [hzero, zero_add, hall front hfront] at hfits
    cases hfits

/-- The order of the factors decides about nothing but an overflow. -/
theorem apply_mul_perm {precision : Int32} (hperm : ds.Perm ds')
    (hds : ¬ ∃ cause last,
      Operator.mul.apply precision (Slot.ofNumbers ds) m = .error (.crash cause) last)
    (hds' : ¬ ∃ cause last,
      Operator.mul.apply precision (Slot.ofNumbers ds') m = .error (.crash cause) last) :
    Operator.mul.apply precision (Slot.ofNumbers ds) m =
      Operator.mul.apply precision (Slot.ofNumbers ds') m := by
  rcases apply_mul_cases precision ds m with
    ⟨product, hok, hvalue, hexponent⟩ | ⟨⟨cause, hcrash⟩, -⟩
  · rcases apply_mul_cases precision ds' m with
      ⟨product', hok', hvalue', hexponent'⟩ | ⟨⟨cause, hcrash⟩, -⟩
    · have hsame : product = product' := by
        apply eq_of_toRat
        · rw [hvalue, hvalue', (hperm.map toRat).prod_eq]
        · rw [hexponent, hexponent', (hperm.map fun d => d.exponent.toInt).sum_eq]
      rw [hok, hok', hsame]
    · exact (hds' ⟨cause, m, hcrash⟩).elim
  · exact (hds ⟨cause, m, hcrash⟩).elim

end Products

/-- The operators with numbers.  A sum, a negation and a difference are exact, at the least exponent;
so is a product, at the sum of the exponents, if these fit.  Sums do not depend on the order and the
grouping of the operands, products not on the order unless one order crashes, and numbers taken away
in turn look as if their sum were taken away.  A call has the outcome that the operator has within
it. -/
theorem apply_exact (setup : Setup) (m : Machine) :
    let outcome := fun (operator : Operator) (ds : List Decimal) =>
      operator.apply setup.precision (Slot.ofNumbers ds) m
    let gives := fun d => (.ok (some (.number d)) m : EStateM.Result Failure Machine Slot)
    let crashes := fun ds => ∃ cause last, outcome .mul ds = .error (.crash cause) last
    (∀ ds, ∃ total, outcome .add ds = gives total ∧ total.toRat = (ds.map toRat).sum ∧
        total.exponent.toInt = leastExponent 1 ds) ∧
      (∀ d, ∃ negation, outcome .sub [d] = gives negation ∧ negation.toRat = -d.toRat ∧
        negation.exponent = d.exponent) ∧
      (∀ d first ds, ∃ rest, outcome .sub (d :: first :: ds) = gives rest ∧
        rest.toRat = d.toRat - ((first :: ds).map toRat).sum ∧
        rest.exponent.toInt = leastExponent d.exponent.toInt (first :: ds)) ∧
      (∀ ds, ExponentsFit ds → ∃ product, outcome .mul ds = gives product ∧
        product.toRat = (ds.map toRat).prod ∧
        product.exponent.toInt = (ds.map fun d => d.exponent.toInt).sum) ∧
      (∀ ds ds', ds.Perm ds' → outcome .add ds = outcome .add ds') ∧
      (∀ ds ds', ds.Perm ds' → ¬ crashes ds → ¬ crashes ds' → outcome .mul ds = outcome .mul ds') ∧
      (∀ front rest total, outcome .add rest = gives total →
        outcome .add (front ++ [total]) = outcome .add (front ++ rest)) ∧
      (∀ d first ds, ∃ total rest rest', outcome .add (first :: ds) = gives total ∧
        outcome .sub (d :: first :: ds) = gives rest ∧ outcome .sub [d, total] = gives rest' ∧
        m.heap.text (some (.number rest)) = m.heap.text (some (.number rest'))) ∧
      ∀ depth frame before operator ds, before.stack.isFull = false → before.inCall frame = m →
        Eval.run setup (depth + 1) (operator.on frame ds) before =
          match outcome operator ds with
          | .ok slot _ => .ok slot before
          | .error failure _ => .error failure before := by
  intro outcome gives crashes
  have hadd : ∀ ds, outcome .add ds = gives (sum ds) := fun _ => apply_of_ok rfl
  have hsub : ∀ d first ds, outcome .sub (d :: first :: ds) = gives (difference d (first :: ds)) :=
    fun _ _ _ => apply_of_ok rfl
  refine ⟨?_, ?_, ?_, ?_, ?_, ?_, ?_, ?_, ?_⟩
  · intro ds
    exact ⟨sum ds, hadd ds, toRat_sum ds, toInt_exponent_sum ds⟩
  · intro d
    exact ⟨d.neg, apply_of_ok rfl, toRat_neg d, rfl⟩
  · intro d first ds
    exact ⟨_, hsub d first ds, toRat_difference d _, toInt_exponent_difference d _⟩
  · intro ds hfits
    rcases apply_mul_cases setup.precision ds m with hproduct | ⟨-, hnot⟩
    · exact hproduct
    · exact (hnot hfits).elim
  · intro ds ds' hperm
    rw [hadd, hadd, sum_perm hperm]
  · intro ds ds' hperm hds hds'
    exact apply_mul_perm hperm hds hds'
  · intro front rest total htotal
    rw [hadd] at htotal
    cases htotal
    rw [hadd, hadd, sum_append_sum]
  · intro d first ds
    refine ⟨sum (first :: ds), _, _, hadd _, hsub d first ds, hsub d _ [], ?_⟩
    exact (text_difference_sum d (first :: ds)).symm
  · rintro depth frame before operator ds hroom rfl
    exact run_on hroom setup depth operator ds

/-- `1.50` and `2e3` have the sum 2001.50 and the product 3000, which is kept as `300e1`. -/
theorem apply_exact_mixed :
    let m := (Interpreter.initial Host.standard).machine
    let ds : List Decimal := [⟨150, -2⟩, ⟨2, 3⟩]
    ExponentsFit ds ∧
      (∃ total, Operator.add.apply 32 (Slot.ofNumbers ds) m = .ok (some (.number total)) m ∧
        total.toRat = 4003 / 2 ∧ total.exponent.toInt = -2) ∧
      ∃ product, Operator.mul.apply 32 (Slot.ofNumbers ds) m = .ok (some (.number product)) m ∧
        product.toRat = 3000 ∧ product.exponent.toInt = 1 := by
  intro m ds
  have hfits : ExponentsFit ds := by
    intro front hfront
    rcases List.prefix_cons_iff.mp hfront with rfl | ⟨rest, rfl, hrest⟩
    · decide
    rcases List.prefix_cons_iff.mp hrest with rfl | ⟨last, rfl, hlast⟩
    · decide
    rw [List.prefix_nil.mp hlast]
    decide
  have hfirst : (⟨150, -2⟩ : Decimal).toRat = 3 / 2 := by
    simp [toRat]
    norm_num
  have hsecond : (⟨2, 3⟩ : Decimal).toRat = 2000 := by
    simp [toRat]
    norm_num
  obtain ⟨hsum, -, -, hproduct, -⟩ := apply_exact ⟨32, Host.standard⟩ m
  obtain ⟨total, htotal, hvalue, hexponent⟩ := hsum ds
  obtain ⟨product, hok, hvalue', hexponent'⟩ := hproduct ds hfits
  refine ⟨hfits, ⟨total, htotal, ?_, hexponent⟩, product, hok, ?_, hexponent'⟩
  · rw [hvalue]
    simp only [ds, List.map_cons, List.map_nil, List.sum_cons, List.sum_nil, hfirst, hsecond]
    norm_num
  · rw [hvalue']
    simp only [ds, List.map_cons, List.map_nil, List.prod_cons, List.prod_nil, hfirst, hsecond]
    norm_num

end Operator

end ProtoLisp
