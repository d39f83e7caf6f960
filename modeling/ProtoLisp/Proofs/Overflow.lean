import ProtoLisp.Proofs.Acts

/-!
# Where an overflow comes from

An evaluation crashes with an overflow only if in its course the operator `*` is called with numbers
of which some partial product and the next operand have exponents whose sum does not fit, or a
function of the host says so itself.

The crash of a task is the crash of one of its acts, which is a part of it, a calculation or a
function of the host; so the origin is found by following the parts.
-/

namespace ProtoLisp

/-- The numbers cannot be multiplied in turn: the exponents of a partial product and of the next number
add up to `exponent`, which is out of range. -/
def Decimal.Overflows (ds : List Decimal) (exponent : Int) : Prop :=
  ∃ front d rest product, ds = front ++ d :: rest ∧
    front.foldlM Decimal.mul? Decimal.emptyProduct = some product ∧
    product.exponent.toInt + d.exponent.toInt = exponent ∧
    (exponent < -2147483648 ∨ 2147483647 < exponent)

namespace Task

/-- The task ends with the overflow. -/
def Overflows (setup : Setup) (exponent : Int) (task : Task) : Prop :=
  ∃ after, task.outcome setup = .error (.crash (.exponentOverflow exponent)) after

/-- The task is a call of the operator `*` with numbers that cannot be multiplied. -/
def Multiplies (exponent : Int) (task : Task) : Prop :=
  ∃ name ds receiver, Decimal.Overflows ds exponent ∧
    task.request = .call (some (.native name (.operator .mul)))
      (ds.map fun d => some (.number d)) receiver

/-- The task is a call of a function of the host that raises the overflow itself. -/
def Pretends (setup : Setup) (exponent : Int) (task : Task) : Prop :=
  ∃ name key args receiver, (setup.host key args).Raises (.exponentOverflow exponent) ∧
    task.request = .call (some (.native name (.host key))) args receiver

/-- What can be behind an overflow of the task: itself or a part of it. -/
def Explains (setup : Setup) (exponent : Int) (task : Task) : Prop :=
  task.Multiplies exponent ∨ task.Pretends setup exponent ∨
    ∃ part, Part setup task part ∧ part.Overflows setup exponent

end Task

/-! ## Arithmetic -/

namespace Operator

open Run

variable {exponent : Int} {m after : Machine}

theorem not_overflows_of_divide {precision : Int32} {quotient : Decimal} {ds : List Decimal} :
    divide precision quotient ds m ≠ .error (.crash (.exponentOverflow exponent)) after := by
  intro herror
  induction ds generalizing quotient with
  | nil => cases herror
  | cons d ds ih =>
      rw [divide] at herror
      by_cases hzero : d.isZero = true
      · rw [if_pos hzero] at herror
        cases herror
      · rw [if_neg hzero] at herror
        cases hquotient : quotient.quotient? d precision with
        | none =>
            rw [hquotient] at herror
            cases herror
        | some next =>
            rw [hquotient] at herror
            exact ih herror

/-- The first factor at which the product overflows has the partial product of those in front of it. -/
theorem exists_of_multiply {product : Decimal} {ds : List Decimal}
    (herror : multiply product ds m = .error (.crash (.exponentOverflow exponent)) after) :
    ∃ front d rest partialProduct, ds = front ++ d :: rest ∧
      front.foldlM Decimal.mul? product = some partialProduct ∧
      partialProduct.productExponent d = exponent ∧ Decimal.fits exponent = false := by
  induction ds generalizing product with
  | nil => cases herror
  | cons d ds ih =>
      rw [multiply] at herror
      cases hmul : product.mul? d with
      | none =>
          rw [hmul] at herror
          cases herror
          refine ⟨[], d, ds, product, rfl, rfl, rfl, ?_⟩
          simpa [Decimal.mul?] using hmul
      | some next =>
          rw [hmul] at herror
          obtain ⟨front, factor, rest, partialProduct, rfl, hproduct, hsum, hfits⟩ := ih herror
          refine ⟨d :: front, factor, rest, partialProduct, rfl, ?_, hsum, hfits⟩
          rw [List.foldlM_cons, hmul]
          exact hproduct

theorem overflows_of_multiply {ds : List Decimal}
    (herror : multiply .emptyProduct ds m = .error (.crash (.exponentOverflow exponent)) after) :
    Decimal.Overflows ds exponent := by
  obtain ⟨front, d, rest, product, hds, hproduct, hsum, hfits⟩ := exists_of_multiply herror
  refine ⟨front, d, rest, product, hds, hproduct, hsum, ?_⟩
  simp only [Decimal.fits, Bool.and_eq_false_iff, decide_eq_false_iff_not] at hfits
  omega

/-- Only the operator `*` overflows. -/
theorem overflows_of_calculate {precision : Int32} {operator : Operator} {ds : List Decimal}
    (herror : operator.calculate precision ds m =
      .error (.crash (.exponentOverflow exponent)) after) :
    operator = .mul ∧ Decimal.Overflows ds exponent := by
  unfold calculate at herror
  split at herror
  · cases herror
  · cases herror
  · cases herror
  · cases herror
  · exact ⟨rfl, overflows_of_multiply herror⟩
  · cases herror
  · exact absurd herror not_overflows_of_divide
  · exact absurd herror not_overflows_of_divide

end Operator

/-! ## The origin -/

namespace Task

variable {setup : Setup} {exponent : Int}

/-- One step back: a task that overflows calls `*` or a function of the host with what overflows, or
a part of it overflows. -/
theorem Overflows.explains {task : Task} (hoverflows : task.Overflows setup exponent) :
    task.Explains setup exponent := by
  obtain ⟨depth, request, m⟩ := task
  obtain ⟨after, herror⟩ := hoverflows
  cases depth with
  | zero => cases herror
  | succ depth =>
      have htraced := traced (Discipline.lawful_restoration setup)
        (Discipline.permits_restoration ⟨depth + 1, request, m⟩)
      have hcause : Crash.exponentOverflow exponent ≠ .emptyStack := nofun
      obtain ⟨_, act, found, last, hact, hcrash⟩ := htraced.exists_act_of_crash hcause herror
      cases hact with
      | part hpart => exact .inr (.inr ⟨_, hpart, last, hcrash⟩)
      | @calculates name receiver operator ds _ hrequest =>
          obtain ⟨rfl, hnumbers⟩ := Operator.overflows_of_calculate hcrash
          exact .inl ⟨name, ds, receiver, hnumbers, hrequest⟩
      | raises hrequest hraises =>
          cases hcrash
          exact .inr (.inl ⟨_, _, _, _, hraises, hrequest⟩)
      | lacks hcause =>
          cases hcrash
          rcases hcause with hcause | hcause <;> cases hcause
      | rebinds _ _ =>
          unfold Run.rebind at hcrash
          split at hcrash <;> cases hcrash
      | links _ _ _ =>
          unfold Run.setPrototype at hcrash
          split at hcrash <;> cases hcrash
      | _ => cases hcrash

/-- A task that overflows overflows because in its course `*` or a function of the host does. -/
theorem Overflows.origin {task : Task} (hoverflows : task.Overflows setup exponent) :
    ∃ origin, Course setup task origin ∧ origin.Overflows setup exponent ∧
      (origin.Multiplies exponent ∨ origin.Pretends setup exponent) := by
  induction hrank : task.rank using Nat.strongRecOn generalizing task with
  | ind n ih =>
      rcases hoverflows.explains with hmultiplies | hpretends | ⟨part, hpart, hoverflows'⟩
      · exact ⟨task, .refl, hoverflows, .inl hmultiplies⟩
      · exact ⟨task, .refl, hoverflows, .inr hpretends⟩
      · obtain ⟨origin, hcourse, horigin⟩ := ih part.rank (hrank ▸ hpart.rank_lt) hoverflows' rfl
        exact ⟨origin, hcourse.head hpart, horigin⟩

end Task

end ProtoLisp
