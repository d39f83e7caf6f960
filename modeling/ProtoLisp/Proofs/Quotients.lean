import Mathlib.Data.Rat.Floor
import Mathlib.Tactic.Linarith
import Mathlib.Tactic.FieldSimp
import ProtoLisp.Proofs.ExactArithmetic

/-!
# Quotients

A quotient stands for the number that is left of the exact one after rounding, half away from zero.  It
is found by a division of integers: the remainder decides about the last digit.  Then the zeros at the
end are given up one count of fraction digits after the other, from the fewest on.  The operator `/`
takes such quotients from the left to the right, and fails exactly if it meets a zero.
-/

namespace ProtoLisp.Decimal

/-! ## Rounding -/

/-- The integer nearest to `x`; of two such the one further from zero. -/
def roundAway (x : ℚ) : ℤ := if 0 ≤ x then ⌊x + 1 / 2⌋ else -⌊-x + 1 / 2⌋

theorem roundAway_neg (x : ℚ) : roundAway (-x) = -roundAway x := by
  unfold roundAway
  rcases lt_trichotomy x 0 with hneg | rfl | hpos
  · rw [if_pos (by linarith), if_neg (by linarith), neg_neg]
  · norm_num
  · rw [if_neg (by linarith), if_pos hpos.le, neg_neg]

theorem roundAway_intCast (n : ℤ) : roundAway n = n := by
  have hhalf : ∀ k : ℤ, ⌊(k : ℚ) + 1 / 2⌋ = k := by
    intro k
    rw [Int.floor_eq_iff]
    constructor <;> linarith
  unfold roundAway
  split
  · exact hhalf n
  · rw [← Int.cast_neg, hhalf, neg_neg]

/-- The remainder decides which of the two next integers is nearest. -/
theorem floor_add_half {d r : ℕ} (q : ℕ) (hr : r < d) :
    ⌊(q + r / d : ℚ) + 1 / 2⌋ = if 2 * r < d then (q : ℤ) else q + 1 := by
  have hd : (0 : ℚ) < d := by exact_mod_cast (Nat.zero_le r).trans_lt hr
  have hnonneg : (0 : ℚ) ≤ r / d := by positivity
  have hlt : (r : ℚ) / d < 1 := by
    rw [div_lt_one hd]
    exact_mod_cast hr
  have hhalf : 2 * r < d ↔ (r : ℚ) / d < 1 / 2 := by
    rw [div_lt_iff₀ hd, ← Nat.cast_lt (α := ℚ)]
    push_cast
    constructor <;> intro h <;> linarith
  rw [Int.floor_eq_iff]
  split
  next hless =>
    rw [hhalf] at hless
    push_cast
    constructor <;> linarith
  next hmore =>
    rw [hhalf] at hmore
    push_cast
    constructor <;> linarith

theorem roundAway_natCast_div (n : ℕ) {d : ℕ} (hd : 0 < d) :
    roundAway (n / d) = if 2 * (n % d) < d then ((n / d : ℕ) : ℤ) else (n / d : ℕ) + 1 := by
  have hd' : (d : ℚ) ≠ 0 := by exact_mod_cast hd.ne'
  have hdivision : (n : ℚ) / d = (n / d : ℕ) + (n % d : ℕ) / d := by
    rw [div_eq_iff hd', add_mul, div_mul_cancel₀ _ hd', mul_comm]
    exact_mod_cast (Nat.div_add_mod n d).symm
  rw [roundAway, if_pos (by positivity), hdivision]
  exact floor_add_half _ (Nat.mod_lt n hd)

/-- To round a quotient, the truncated one is taken a step further from zero unless twice the remainder
is less than the divisor. -/
theorem roundAway_div (n : ℤ) {d : ℤ} (hd : d ≠ 0) :
    roundAway (n / d) =
      if 2 * (n.tmod d).natAbs < d.natAbs then n.tdiv d
      else if n.sign * d.sign < 0 then n.tdiv d - 1 else n.tdiv d + 1 := by
  obtain ⟨k, hk⟩ := n.eq_nat_or_neg
  obtain ⟨l, hl⟩ := d.eq_nat_or_neg
  have hl' : 0 < l := by omega
  have hround := roundAway_natCast_div k hl'
  rcases Nat.eq_zero_or_pos k with rfl | hk'
  · obtain rfl : n = 0 := by omega
    have hzero : roundAway 0 = 0 := roundAway_intCast 0
    simp [hzero, hd]
  have hsign := Int.sign_natCast_of_ne_zero hk'.ne'
  have hsign' := Int.sign_natCast_of_ne_zero hl'.ne'
  rcases hk with rfl | rfl <;> rcases hl with rfl | rfl
  · simp [hround, hsign, hsign']
  · simp only [Int.cast_neg, Int.cast_natCast, div_neg, roundAway_neg, hround]
    simp [hsign, hsign']
    split <;> ring
  · simp only [Int.cast_neg, Int.cast_natCast, neg_div, roundAway_neg, hround]
    simp [hsign, hsign']
    split <;> ring
  · simp [neg_div_neg_eq, hround, hsign, hsign']

/-- `places` fraction digits are enough to write `x`. -/
def HasPlaces (x : ℚ) (places : ℕ) : Prop := ∃ n : ℤ, x * 10 ^ places = n

/-- `x`, rounded to `places` fraction digits, half away from zero. -/
def rounded (x : ℚ) (places : ℕ) : ℚ := roundAway (x * 10 ^ places) / 10 ^ places

theorem hasPlaces_rounded (x : ℚ) (places : ℕ) : HasPlaces (rounded x places) places :=
  ⟨_, div_mul_cancel₀ _ (pow_ne_zero _ (by norm_num))⟩

theorem rounded_of_hasPlaces {x : ℚ} {places : ℕ} (hhas : HasPlaces x places) :
    rounded x places = x := by
  obtain ⟨n, hn⟩ := hhas
  rw [rounded, hn, roundAway_intCast, ← hn, mul_div_cancel_right₀ _ (pow_ne_zero _ (by norm_num))]

/-! ## Division with a remainder -/

variable {a b d : Decimal} {precision : Int32}

theorem toInt_add_of_fits {e e' : Int32} (hfits : fits (e.toInt + e'.toInt) = true) :
    (e + e').toInt = e.toInt + e'.toInt := by
  rw [fits_iff] at hfits
  rw [Int32.toInt_add, Int.bmod_eq_of_le] <;> omega

theorem toInt_sub_of_fits {e e' : Int32} (hfits : fits (e.toInt - e'.toInt) = true) :
    (e - e').toInt = e.toInt - e'.toInt := by
  rw [fits_iff] at hfits
  rw [Int32.toInt_sub, Int.bmod_eq_of_le] <;> omega

theorem toInt_neg {e : Int32} (he : 0 ≤ e.toInt) : (-e).toInt = -e.toInt := by
  have hmost := e.toInt_lt
  rw [Int32.toInt_neg, Int.bmod_eq_of_le] <;> omega

theorem toInt_shift (hfits : fits (a.exponent.toInt - b.exponent.toInt + precision.toInt) = true) :
    (a.exponent - b.exponent + precision).toInt =
      a.exponent.toInt - b.exponent.toInt + precision.toInt := by
  have hshift : a.exponent - b.exponent + precision =
      Int32.ofInt (a.exponent.toInt - b.exponent.toInt + precision.toInt) := by
    simp [Int32.ofInt_add, Int32.ofInt_sub]
  rw [hshift, toInt_ofInt_of_fits hfits]

theorem natAbs_tenPow (k : ℕ) : (tenPow k).natAbs = 10 ^ k := rfl

theorem sign_mul_tenPow (n : ℤ) (k : ℕ) : (n * tenPow k).sign = n.sign := by
  rw [Int.sign_mul, Int.sign_eq_one_of_pos (tenPow_pos k), mul_one]

theorem abs_toRat (d : Decimal) : |d.toRat| = d.coefficient.natAbs * 10 ^ d.exponent.toInt := by
  rw [toRat, abs_mul, abs_of_pos (ten_zpow_pos _), Nat.cast_natAbs, Int.cast_abs]

/-- A division is one of integers, of which one has been shifted.  Twice the remainder and the divisor
are compared as these integers are. -/
theorem quotientRemainder_spec (hb : b.coefficient ≠ 0) (hprecision : 0 ≤ precision.toInt)
    (hfits : fits (a.exponent.toInt - b.exponent.toInt + precision.toInt) = true) :
    ∃ (n m : ℤ) (e : Int32), m ≠ 0 ∧ (n / m : ℚ) = a.toRat / b.toRat * 10 ^ precision.toInt ∧
      n.sign = a.coefficient.sign ∧ m.sign = b.coefficient.sign ∧
      quotientRemainder a b precision = (⟨n.tdiv m, -precision⟩, ⟨n.tmod m, e⟩) ∧
      |b.toRat| = m.natAbs * 10 ^ (e + precision).toInt := by
  have hshift := toInt_shift hfits
  have hquotient : a.toRat / b.toRat * 10 ^ precision.toInt =
      a.coefficient / b.coefficient * 10 ^ (a.exponent - b.exponent + precision).toInt := by
    rw [hshift, toRat, toRat, zpow_add₀ (by norm_num), zpow_sub₀ (by norm_num)]
    field_simp
  rw [hquotient, abs_toRat]
  unfold quotientRemainder
  generalize (a.exponent - b.exponent + precision).toInt = shift at hshift ⊢
  rcases lt_or_ge shift 0 with hneg | hpos
  · -- Then the divisor is shifted.
    obtain ⟨k, rfl⟩ := Int.exists_eq_neg_ofNat hneg.le
    simp only [hneg, ↓reduceIte, neg_neg, Int.toNat_natCast]
    refine ⟨_, _, _, mul_ne_zero hb (tenPow_pos k).ne', ?_, rfl, sign_mul_tenPow _ k, rfl, ?_⟩
    · rw [zpow_neg, zpow_natCast, Int.cast_mul, tenPow_cast, ← div_eq_mul_inv, div_div]
    · have hexponent : (a.exponent + precision).toInt = b.exponent.toInt - k := by
        have hleast := a.exponent.le_toInt
        have hmost := b.exponent.toInt_lt
        rw [toInt_add_of_fits (fits_iff.mpr (by omega))]
        omega
      rw [hexponent, Int.natAbs_mul, natAbs_tenPow, Nat.cast_mul, Nat.cast_pow, Nat.cast_ofNat,
        mul_assoc, ← zpow_natCast, ← zpow_add₀ (by norm_num), add_sub_cancel]
  · obtain ⟨k, rfl⟩ := Int.eq_ofNat_of_zero_le hpos
    simp only [not_lt.mpr hpos, ↓reduceIte, Int.toNat_natCast]
    refine ⟨_, _, _, hb, ?_, sign_mul_tenPow _ k, rfl, rfl, ?_⟩
    · rw [zpow_natCast, Int.cast_mul, tenPow_cast, div_mul_eq_mul_div]
    · -- The exponent of the remainder may have been wrapped, but then it is wrapped back.
      have hexponent : -precision + b.exponent + precision = b.exponent := by grind
      rw [hexponent]

theorem add_mk (j k : ℤ) (e : Int32) : add ⟨j, e⟩ ⟨k, e⟩ = ⟨j + k, e⟩ := by
  apply eq_of_toRat
  · rw [toRat_add]
    simp only [toRat, Int.cast_add, add_mul]
  · rw [toInt_exponent_add, min_self]

theorem sub_mk (j k : ℤ) (e : Int32) : sub ⟨j, e⟩ ⟨k, e⟩ = ⟨j - k, e⟩ := by
  apply eq_of_toRat
  · rw [toRat_sub]
    simp only [toRat, Int.cast_sub, sub_mul]
  · rw [toInt_exponent_sub, min_self]

theorem divRound_eq (hb : b.coefficient ≠ 0) (hprecision : 0 ≤ precision.toInt)
    (hfits : fits (a.exponent.toInt - b.exponent.toInt + precision.toInt) = true) :
    divRound a b precision =
      ⟨roundAway (a.toRat / b.toRat * 10 ^ precision.toInt), -precision⟩ := by
  obtain ⟨n, m, e, hm, hvalue, hsign, hsign', hdivision, habs⟩ :=
    quotientRemainder_spec (a := a) hb hprecision hfits
  have hless : lt ⟨2 * (n.tmod m).natAbs, e + precision⟩ b.abs = true ↔
      2 * (n.tmod m).natAbs < m.natAbs := by
    rw [lt_iff, toRat_abs, habs]
    simp only [toRat]
    rw [mul_lt_mul_iff_left₀ (ten_zpow_pos _), ← Int.cast_natCast m.natAbs, Int.cast_lt]
    omega
  rw [← hvalue, roundAway_div n hm, hsign, hsign']
  unfold divRound
  simp only [hdivision, hless, sub_mk, add_mk]
  split
  · rfl
  · split <;> rfl

/-! ## The zeros at the end -/

/-- `s` is the first number from `least` on such that `s` fraction digits are enough to write `x`, or
`most` if there is none before. -/
def FirstPlaces (x : ℚ) (least most s : ℕ) : Prop :=
  (s = most ∨ least ≤ s ∧ s < most ∧ HasPlaces x s) ∧ ∀ t, least ≤ t → t < s → ¬ HasPlaces x t

variable {q : Decimal} {scale : Int32} {least places : ℕ}

theorem toRat_mk {e : Int32} (he : e.toInt = -places) (n : ℤ) :
    (⟨n, e⟩ : Decimal).toRat = n / 10 ^ places := by
  rw [toRat, he, zpow_neg, zpow_natCast, div_eq_mul_inv]

theorem hasPlaces_toRat (hexponent : d.exponent.toInt = -places) : HasPlaces d.toRat places := by
  refine ⟨d.coefficient, ?_⟩
  rw [toRat_mk hexponent, div_mul_cancel₀ _ (pow_ne_zero _ (by norm_num))]

/-- Nothing is lost with the digits behind the first ones if those are zeros. -/
theorem toRat_rescale_of_hasPlaces {e : Int32} (he : e.toInt = -least)
    (hexponent : d.exponent.toInt = -places) (hle : least ≤ places)
    (hhas : HasPlaces d.toRat least) : (d.rescale e).toRat = d.toRat := by
  obtain ⟨n, hn⟩ := hhas
  have hpos : (10 : ℚ) ^ least ≠ 0 := pow_ne_zero _ (by norm_num)
  have hcoefficient : d.coefficient = n * tenPow (places - least) := by
    rw [← Int.cast_inj (α := ℚ), Int.cast_mul, tenPow_cast, ← hn, toRat_mk hexponent, mul_assoc,
      ← pow_add, Nat.add_sub_cancel' hle, div_mul_cancel₀ _ (pow_ne_zero _ (by norm_num))]
  unfold rescale
  by_cases hzero : d.coefficient = 0
  · simp [toRat, hzero]
  · have hdigits : (e.toInt - d.exponent.toInt).toNat = places - least := by omega
    rw [if_neg hzero, if_pos (Int32.le_iff_toInt_le.mpr (by omega)), toRat_mk he, hdigits,
      hcoefficient, Int.mul_tdiv_cancel _ (tenPow_pos _).ne', div_eq_iff hpos, hn]

/-- A truncation to fewer fraction digits has the exponent that belongs to them. -/
theorem truncate_eq_rescale (hexponent : q.exponent.toInt = -places)
    (hscale : scale.toInt = least) (hlt : least < places) :
    q.truncate scale = q.rescale (-scale) ∧ (-scale).toInt = -least := by
  have hnegative : (-scale).toInt = -least := by rw [toInt_neg (by omega), hscale]
  have hnonneg : 0 ≤ scale := Int32.le_iff_toInt_le.mpr (by simp [hscale])
  have hbehind : q.exponent < -scale := Int32.lt_iff_toInt_lt.mpr (by omega)
  exact ⟨by simp [truncate, hnonneg, hbehind], hnegative⟩

/-- The truncations are tried in turn, until one loses nothing. -/
theorem trimFrom_spec (hmost : places < 2 ^ 31) (hexponent : q.exponent.toInt = -places)
    (tries : ℕ) (hscale : scale.toInt = least) (htries : tries = places - least) :
    (trimFrom q scale tries).toRat = q.toRat ∧
      ∃ s : ℕ, (trimFrom q scale tries).exponent.toInt = -s ∧
        FirstPlaces q.toRat least places s := by
  induction tries generalizing scale least with
  | zero =>
      refine ⟨rfl, places, hexponent, .inl rfl, ?_⟩
      intro t hle hlt
      omega
  | succ tries ih =>
      have hlt : least < places := by omega
      obtain ⟨htruncate, hnegative⟩ := truncate_eq_rescale hexponent hscale hlt
      rw [trimFrom]
      by_cases hsame : (q.truncate scale).toRat = q.toRat
      · rw [if_pos ((sameValue_iff _ _).mpr hsame)]
        have hexponent' : (q.truncate scale).exponent.toInt = -least := by
          rw [htruncate, exponent_rescale, hnegative]
        have hhas : HasPlaces q.toRat least := hsame ▸ hasPlaces_toRat hexponent'
        exact ⟨hsame, least, hexponent', .inr ⟨le_rfl, hlt, hhas⟩, fun t hle hlt => by omega⟩
      · rw [if_neg (mt (sameValue_iff _ _).mp hsame)]
        have hnot : ¬ HasPlaces q.toRat least := by
          intro hhas
          apply hsame
          rw [htruncate, toRat_rescale_of_hasPlaces hnegative hexponent hlt.le hhas]
        have hnext : (scale + 1).toInt = (least + 1 : ℕ) := by
          have hone : (1 : Int32).toInt = 1 := rfl
          rw [toInt_add_of_fits (fits_iff.mpr (by omega))]
          omega
        obtain ⟨hvalue, s, hs, hfound, hbefore⟩ := ih hnext (by omega)
        refine ⟨hvalue, s, hs, hfound.imp_right (fun ⟨hle, hrest⟩ => ⟨by omega, hrest⟩), ?_⟩
        intro t hle hts
        rcases hle.eq_or_lt with rfl | hgt
        · exact hnot
        · exact hbefore t hgt hts

theorem exponent_divRound (a b : Decimal) (precision : Int32) :
    (divRound a b precision).exponent = -precision := by
  have hquotient : (quotientRemainder a b precision).1.exponent = -precision := by
    simp only [quotientRemainder]
    split <;> rfl
  have hcommon : ∀ k, commonExponent (quotientRemainder a b precision).1 ⟨k, -precision⟩ =
      -precision := by
    intro k
    simp [commonExponent, hquotient]
  unfold divRound
  dsimp only
  split
  · exact hquotient
  · split
    · exact hcommon 1
    · exact hcommon 1

/-- A quotient is the rounded one with as few fraction digits as it needs, but not fewer than the
divisor's exponent exceeds the dividend's, and not more than it is rounded to. -/
theorem quotient_trims (a b : Decimal) (hplaces : precision.toInt = places) :
    (a.quotient b precision).toRat = (divRound a b precision).toRat ∧
      ∃ s : ℕ, (a.quotient b precision).exponent.toInt = -s ∧
        FirstPlaces (divRound a b precision).toRat (b.exponent - a.exponent).toInt.toNat places s := by
  have hleast : (if b.exponent - a.exponent < 0 then 0 else b.exponent - a.exponent).toInt =
      (b.exponent - a.exponent).toInt.toNat := by
    have hzero : (0 : Int32).toInt = 0 := rfl
    split
    all_goals
      rename_i hsign
      rw [Int32.lt_iff_toInt_lt] at hsign
      omega
  have hmost := precision.toInt_lt
  apply trimFrom_spec (by omega)
  · rw [exponent_divRound, toInt_neg (by omega), hplaces]
  · exact hleast
  · rw [hleast, hplaces]
    omega

/-- As long as the exponents fit, the number of a quotient is the exact one, rounded. -/
theorem toRat_divRound (hb : b.toRat ≠ 0) (hplaces : precision.toInt = places)
    (hshift : fits (a.exponent.toInt - b.exponent.toInt + places) = true) :
    (divRound a b precision).toRat = rounded (a.toRat / b.toRat) places := by
  have hprecision : 0 ≤ precision.toInt := by omega
  have hnegative : (-precision).toInt = -places := by rw [toInt_neg hprecision, hplaces]
  rw [divRound_eq (mt toRat_eq_zero_iff.mpr hb) hprecision (hplaces ▸ hshift), toRat_mk hnegative,
    hplaces, zpow_natCast]
  rfl

theorem quotient_spec (hb : b.toRat ≠ 0) (hplaces : precision.toInt = places)
    (hdifference : fits (b.exponent.toInt - a.exponent.toInt) = true)
    (hshift : fits (a.exponent.toInt - b.exponent.toInt + places) = true) :
    (a.quotient b precision).toRat = rounded (a.toRat / b.toRat) places ∧
      ∃ s : ℕ, (a.quotient b precision).exponent.toInt = -s ∧
        FirstPlaces (rounded (a.toRat / b.toRat) places)
          (b.exponent.toInt - a.exponent.toInt).toNat places s := by
  rw [← toRat_divRound hb hplaces hshift, ← toInt_sub_of_fits hdifference]
  exact quotient_trims a b hplaces

end ProtoLisp.Decimal

namespace ProtoLisp.Operator

open Run Decimal

/-! ## The operator -/

variable {precision : Int32} {m : Machine} {q d : Decimal} {ds : List Decimal}

theorem isZero_iff : d.isZero = true ↔ d.toRat = 0 := by
  rw [Decimal.isZero, beq_iff_eq, toRat_eq_zero_iff]

theorem divide_of_ne_zero (hds : ∀ d ∈ ds, d.toRat ≠ 0) :
    divide precision q ds m = .ok (ds.foldl (fun q d => q.quotient d precision) q) m := by
  induction ds generalizing q with
  | nil => rfl
  | cons d ds ih =>
      have hd : d.isZero = false := by
        rw [← Bool.not_eq_true, isZero_iff]
        exact hds d List.mem_cons_self
      have hrest : ∀ d' ∈ ds, d'.toRat ≠ 0 := fun d' hd' => hds d' (List.mem_cons_of_mem d hd')
      simp [divide, quotient?, hd, ih hrest]

theorem divide_of_zero (hds : ∃ d ∈ ds, d.toRat = 0) :
    divide precision q ds m = complain .divisionByZero m := by
  induction ds generalizing q with
  | nil => simp at hds
  | cons d ds ih =>
      by_cases hd : d.isZero = true
      · simp [divide, hd]
      · have hrest : ∃ d' ∈ ds, d'.toRat = 0 := by
          rw [isZero_iff] at hd
          simpa [hd] using hds
        simp [divide, quotient?, hd, ih hrest]

/-- A division that is done by `divide` fails exactly if a divisor is zero. -/
theorem apply_div_fails_iff (precision : Int32) (m : Machine) (operands : List Decimal)
    {ds : List Decimal} (hcalculate : calculate precision .div operands = divide precision q ds) :
    (∃ error, Operator.div.apply precision (Slot.ofNumbers operands) m = .error (.eval error) m ∧
        error.condition = .divisionByZero) ↔
      ∃ d ∈ ds, d.toRat = 0 := by
  constructor
  · rintro ⟨error, hfails, -⟩
    by_contra hnone
    have hne : ∀ d ∈ ds, d.toRat ≠ 0 := fun d hd hzero => hnone ⟨d, hd, hzero⟩
    have hok := congrFun hcalculate m
    rw [divide_of_ne_zero hne] at hok
    rw [apply_of_ok hok] at hfails
    cases hfails
  · intro hzero
    have hfails : calculate precision .div operands m = complain .divisionByZero m := by
      rw [hcalculate, divide_of_zero hzero]
    exact ⟨_, apply_of_error hfails, rfl⟩

/-- Quotients and the operator `/`.  A quotient stands for the exact one rounded to the places of the
precision, and has the first count of places that its number needs, from the excess of the divisor's
exponent on.  The operator inverts a single number, and else divides the first by the others in turn; it
fails exactly if one of the divisors is zero.  A call has the outcome that the operator has within
it. -/
theorem apply_div_rounds (setup : Setup) (m : Machine) :
    let outcome := fun ds => Operator.div.apply setup.precision (Slot.ofNumbers ds) m
    let gives := fun d => (.ok (some (.number d)) m : EStateM.Result Failure Machine Slot)
    let fails := fun ds =>
      ∃ error, outcome ds = .error (.eval error) m ∧ error.condition = .divisionByZero
    let quo := fun a b : Decimal => a.quotient b setup.precision
    (∀ (a b : Decimal) (precision : Int32) (places : ℕ), b.toRat ≠ 0 →
        precision.toInt = places → 1 ≤ places →
        fits (b.exponent.toInt - a.exponent.toInt) = true →
        fits (a.exponent.toInt - b.exponent.toInt + places) = true →
        (a.quotient b precision).toRat = rounded (a.toRat / b.toRat) places ∧
          (HasPlaces (a.toRat / b.toRat) places →
            (a.quotient b precision).toRat = a.toRat / b.toRat) ∧
          ∃ s : ℕ, (a.quotient b precision).exponent.toInt = -s ∧
            FirstPlaces (rounded (a.toRat / b.toRat) places)
              (b.exponent.toInt - a.exponent.toInt).toNat places s) ∧
      (∀ x, x.toRat ≠ 0 → outcome [x] = gives (quo (.ofInt 1) x)) ∧
      (∀ x y ys, (∀ d ∈ y :: ys, d.toRat ≠ 0) →
        outcome (x :: y :: ys) = gives ((y :: ys).foldl quo x)) ∧
      (∀ x, fails [x] ↔ x.toRat = 0) ∧
      (∀ x y ys, fails (x :: y :: ys) ↔ ∃ d ∈ y :: ys, d.toRat = 0) ∧
      ∀ depth frame before ds, before.stack.isFull = false → before.inCall frame = m →
        Eval.run setup (depth + 1) (Operator.div.on frame ds) before =
          match outcome ds with
          | .ok slot _ => .ok slot before
          | .error failure _ => .error failure before := by
  intro outcome gives fails quo
  refine ⟨?_, ?_, ?_, ?_, ?_, ?_⟩
  · intro a b precision places hb hplaces _ hdifference hshift
    obtain ⟨hvalue, hexponent⟩ := quotient_spec hb hplaces hdifference hshift
    refine ⟨hvalue, ?_, hexponent⟩
    intro hhas
    rw [hvalue, rounded_of_hasPlaces hhas]
  · intro x hx
    have hne : ∀ d ∈ [x], d.toRat ≠ 0 := by simpa using hx
    exact apply_of_ok (divide_of_ne_zero hne)
  · intro x y ys hne
    exact apply_of_ok (divide_of_ne_zero hne)
  · intro x
    have hiff : fails [x] ↔ ∃ d ∈ [x], d.toRat = 0 :=
      apply_div_fails_iff setup.precision m [x] rfl
    simpa using hiff
  · intro x y ys
    exact apply_div_fails_iff setup.precision m (x :: y :: ys) rfl
  · rintro depth frame before ds hroom rfl
    exact run_on hroom setup depth .div ds

/-- With two fraction digits, minus one eighth is rounded from -0.125 to -0.13. -/
theorem apply_div_rounds_tie :
    let m := (Interpreter.initial Host.standard).machine
    ∃ q : Decimal, Operator.div.apply 2 (Slot.ofNumbers [.ofInt (-1), .ofInt 8]) m =
        .ok (some (.number q)) m ∧
      q.toRat = -13 / 100 ∧ q.exponent.toInt = -2 := by
  intro m
  have heighth : (Decimal.ofInt (-1)).toRat / (Decimal.ofInt 8).toRat = -1 / 8 := by
    simp [toRat, Decimal.ofInt]
  have hround : rounded (-1 / 8) 2 = -13 / 100 := by
    have htie : roundAway (-1 / 8 * 10 ^ 2) = -13 := by
      norm_num [roundAway]
    rw [rounded, htie]
    norm_num
  have height : (Decimal.ofInt 8).toRat ≠ 0 := by simp [toRat_eq_zero_iff, Decimal.ofInt]
  obtain ⟨hquotient, -, hdivide, -⟩ := apply_div_rounds ⟨2, Host.standard⟩ m
  obtain ⟨hvalue, -, s, hs, hfound, -⟩ :=
    hquotient (.ofInt (-1)) (.ofInt 8) 2 2 height rfl (by decide) (by decide) (by decide)
  rw [heighth, hround] at hvalue hfound
  refine ⟨_, hdivide (.ofInt (-1)) (.ofInt 8) [] (by simpa using height), hvalue, ?_⟩
  -- Fewer digits are not enough for the rounded number.
  have htwo : s = 2 := by
    rcases hfound with hs | ⟨-, hlt, n, hn⟩
    · exact hs
    · have hdigits : -13 * 10 ^ s = 100 * n := by
        rw [← Int.cast_inj (α := ℚ)]
        push_cast
        linarith
      obtain rfl | rfl : s = 0 ∨ s = 1 := by omega
      all_goals omega
  rw [htwo] at hs
  exact hs

end ProtoLisp.Operator
