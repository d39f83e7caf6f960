import ProtoLisp.Proofs.Numerals

/-!
# Decimals in writing

What a decimal is written as is a numeral in range.  It is read as the same decimal, unless the
exponent is positive: then zeros are written in its place, and the decimal that is read has them in
its coefficient and no exponent.
-/

namespace ProtoLisp

/-! ### Exponents written out -/

namespace Decimal

/-- The decimal with its exponent written out: zeros take the place of a positive exponent. -/
def plain (d : Decimal) : Decimal :=
  if 0 < d.exponent then ⟨d.coefficient * tenPow d.exponent.toInt.toNat, 0⟩ else d

theorem exponent_pos_iff (d : Decimal) : 0 < d.exponent ↔ 0 < d.exponent.toInt :=
  Int32.lt_iff_toInt_lt

theorem exponent_neg_iff (d : Decimal) : d.exponent < 0 ↔ d.exponent.toInt < 0 :=
  Int32.lt_iff_toInt_lt

theorem exponent_le_zero_iff (d : Decimal) : d.exponent ≤ 0 ↔ d.exponent.toInt ≤ 0 :=
  Int32.le_iff_toInt_le

theorem tenPow_pos (n : Nat) : 0 < tenPow n := by
  have hpos : 0 < 10 ^ n := Nat.pow_pos (by decide)
  exact Int.natCast_pos.mpr hpos

theorem coefficient_plain_neg_iff (d : Decimal) : d.plain.coefficient < 0 ↔ d.coefficient < 0 := by
  unfold plain
  split
  · have hpos := tenPow_pos d.exponent.toInt.toNat
    constructor
    · intro hneg
      exact Int.lt_of_mul_lt_mul_right (by rwa [Int.zero_mul]) (Int.le_of_lt hpos)
    · intro hneg
      exact Int.mul_neg_of_neg_of_pos hneg hpos
  · rfl

theorem coefficient_rescale_zero {d : Decimal} (hexponent : ¬ d.exponent < 0) :
    (d.rescale 0).coefficient = d.plain.coefficient := by
  rw [exponent_neg_iff] at hexponent
  unfold rescale plain
  simp only [exponent_le_zero_iff, exponent_pos_iff]
  by_cases hzero : d.coefficient = 0
  · simp only [hzero, if_true]
    split
    · rw [Int.zero_mul]
    · exact hzero.symm
  · by_cases hle : d.exponent.toInt ≤ 0
    · have heq : d.exponent.toInt = 0 := by omega
      simp [hzero, heq, tenPow]
    · have hpos : 0 < d.exponent.toInt := by omega
      simp [hzero, hle, hpos]

theorem exponent_plain {d : Decimal} (hexponent : ¬ d.exponent < 0) : d.plain.exponent = 0 := by
  rw [exponent_neg_iff] at hexponent
  unfold plain
  simp only [exponent_pos_iff]
  split
  · rfl
  · have heq : d.exponent.toInt = 0 := by omega
    exact Int32.toInt_inj.mp heq

theorem plain_plain (d : Decimal) : d.plain.plain = d.plain := by
  by_cases hpos : 0 < d.exponent
  · have hplain : d.plain = ⟨d.coefficient * tenPow d.exponent.toInt.toNat, 0⟩ := if_pos hpos
    have hzero : ¬ (0 : Int32) < 0 := by decide
    rw [hplain]
    exact if_neg hzero
  · have hplain : d.plain = d := if_neg hpos
    rw [hplain, hplain]

/-- The decimal is written with its exponent written out. -/
theorem text_plain (d : Decimal) : d.plain.text = d.text := by
  by_cases hneg : d.exponent < 0
  · have hpos : ¬ 0 < d.exponent := by
      rw [exponent_neg_iff] at hneg
      rw [exponent_pos_iff]
      omega
    rw [plain, if_neg hpos]
  · have hneg' : ¬ d.plain.exponent < 0 := by
      rw [exponent_plain hneg]
      decide
    simp only [text, unsignedText, if_neg hneg, if_neg hneg', coefficient_rescale_zero hneg,
      coefficient_rescale_zero hneg', plain_plain, coefficient_plain_neg_iff]

/-! ### The digits of a decimal -/

theorem isDigit_of_mem_toDigits {n : Nat} {c : Char} (hmem : c ∈ Nat.toDigits 10 n) :
    isDigit c = true := by
  have hdigit := Nat.isDigit_of_mem_toDigits (by decide) (by decide) hmem
  simpa [Char.isDigit, isDigit, Char.le_def] using hdigit

theorem isDigit_of_mem_paddedDigits {width n : Nat} {c : Char} (hmem : c ∈ paddedDigits width n) :
    isDigit c = true := by
  rcases List.mem_append.mp hmem with hmem | hmem
  · rw [(List.mem_replicate.mp hmem).2]
    decide
  · exact isDigit_of_mem_toDigits hmem

theorem le_length_paddedDigits (width n : Nat) : width ≤ (paddedDigits width n).length := by
  simp only [paddedDigits, List.length_append, List.length_replicate]
  omega

theorem ofDigitChars_paddedDigits (width n : Nat) :
    Nat.ofDigitChars 10 (paddedDigits width n) 0 = n := by
  simp only [paddedDigits]
  rw [Nat.ofDigitChars_append, Nat.ofDigitChars_replicate_zero, Nat.mul_zero]
  exact Nat.ofDigitChars_ten_toDigits

end Decimal

/-! ### Decimals as numerals -/

/-- The sign in front of the digits of an integer. -/
def Sign.ofInt (n : Int) : Sign := if n < 0 then .minus else .none

theorem Sign.applied_natAbs (n : Int) : (Sign.ofInt n).applied n.natAbs = n := by
  unfold Sign.ofInt
  split
  · simp only [Sign.applied]
    omega
  · simp only [Sign.applied]
    omega

theorem Sign.chars_ofInt (n : Int) (cs : List Char) :
    (Sign.ofInt n).chars ++ cs = if n < 0 then '-' :: cs else cs := by
  unfold Sign.ofInt
  split <;> rfl

def Digits.ofNat (n : Nat) : Digits where
  chars := Nat.toDigits 10 n
  ne_nil := Nat.toDigits_ne_nil
  isDigit_of_mem _ hmem := Decimal.isDigit_of_mem_toDigits hmem

/-- An integer as a numeral. -/
def Numeral.ofInt (n : Int) : Numeral := ⟨.ofInt n, .ofNat n.natAbs, none, none⟩

theorem Numeral.value_ofInt (n : Int) : (ofInt n).value = ⟨n, 0⟩ := by
  have hcoefficient : (ofInt n).coefficient = n := by
    calc
      (ofInt n).coefficient =
          (Sign.ofInt n).applied (Nat.ofDigitChars 10 (Nat.toDigits 10 n.natAbs ++ []) 0) := rfl
      _ = (Sign.ofInt n).applied n.natAbs := by
            rw [List.append_nil, Nat.ofDigitChars_ten_toDigits]
      _ = n := Sign.applied_natAbs n
  rw [value, hcoefficient]
  rfl

namespace Decimal

/-- How many digits stand behind the point. -/
def placeCount (d : Decimal) : Nat := (-d.exponent.toInt).toNat

/-- All digits of a decimal with a negative exponent. -/
def allDigits (d : Decimal) : List Char := paddedDigits (d.placeCount + 1) d.coefficient.natAbs

theorem placeCount_lt_length (d : Decimal) : d.placeCount < d.allDigits.length :=
  le_length_paddedDigits (d.placeCount + 1) d.coefficient.natAbs

theorem placeCount_pos {d : Decimal} (hneg : d.exponent < 0) : 0 < d.placeCount := by
  have := (exponent_neg_iff d).mp hneg
  unfold placeCount
  omega

def wholeDigits (d : Decimal) : Digits where
  chars := d.allDigits.take (d.allDigits.length - d.placeCount)
  ne_nil := by
    have hlt := placeCount_lt_length d
    rw [← List.length_pos_iff, List.length_take]
    omega
  isDigit_of_mem _ hmem := isDigit_of_mem_paddedDigits (List.mem_of_mem_take hmem)

def placeDigits (d : Decimal) (hneg : d.exponent < 0) : Digits where
  chars := d.allDigits.drop (d.allDigits.length - d.placeCount)
  ne_nil := by
    have hlt := placeCount_lt_length d
    have hpos := placeCount_pos hneg
    rw [← List.length_pos_iff, List.length_drop]
    omega
  isDigit_of_mem _ hmem := isDigit_of_mem_paddedDigits (List.mem_of_mem_drop hmem)

/-- A decimal with a negative exponent as a numeral. -/
def numeral (d : Decimal) (hneg : d.exponent < 0) : Numeral :=
  ⟨.ofInt d.coefficient, d.wholeDigits, some (d.placeDigits hneg), none⟩

theorem coefficient_numeral {d : Decimal} (hneg : d.exponent < 0) :
    (d.numeral hneg).coefficient = d.coefficient := by
  have hdigits : d.wholeDigits.chars ++ (d.placeDigits hneg).chars = d.allDigits :=
    List.take_append_drop _ _
  calc
    (d.numeral hneg).coefficient =
        (Sign.ofInt d.coefficient).applied
          (Nat.ofDigitChars 10 (d.wholeDigits.chars ++ (d.placeDigits hneg).chars) 0) := rfl
    _ = (Sign.ofInt d.coefficient).applied d.coefficient.natAbs := by
          rw [hdigits, allDigits, ofDigitChars_paddedDigits]
    _ = d.coefficient := Sign.applied_natAbs d.coefficient

theorem scale_numeral {d : Decimal} (hneg : d.exponent < 0) :
    (d.numeral hneg).scale = d.exponent.toInt := by
  have hlt := placeCount_lt_length d
  have hneg' := (exponent_neg_iff d).mp hneg
  have hlength : (d.numeral hneg).placeChars.length = d.placeCount := by
    show (d.allDigits.drop (d.allDigits.length - d.placeCount)).length = d.placeCount
    rw [List.length_drop]
    omega
  rw [Numeral.scale, hlength]
  show (0 : Int) - (-d.exponent.toInt).toNat = d.exponent.toInt
  omega

theorem inRange_numeral {d : Decimal} (hneg : d.exponent < 0) : (d.numeral hneg).InRange := by
  refine ⟨rfl, ?_⟩
  have hlow := Int32.le_toInt d.exponent
  have hhigh := Int32.toInt_lt d.exponent
  rw [scale_numeral]
  simp only [fits, Bool.and_eq_true, decide_eq_true_eq]
  omega

/-- A decimal in writing is a numeral, whose value is the decimal with its exponent written out. -/
theorem exists_numeral_text (d : Decimal) :
    ∃ numeral : Numeral, d.text = numeral.text ∧ numeral.InRange ∧ numeral.value = d.plain := by
  by_cases hneg : d.exponent < 0
  · have hplain : d.plain = d := by
      have := (exponent_neg_iff d).mp hneg
      rw [plain, if_neg (by rw [exponent_pos_iff]; omega)]
    refine ⟨d.numeral hneg, ?_, inRange_numeral hneg, ?_⟩
    · rw [text, unsignedText, if_pos hneg, Numeral.text, Numeral.chars, ← Sign.chars_ofInt]
      simp only [Numeral.exponentChars, numeral, List.append_nil]
      rfl
    · rw [Numeral.value, coefficient_numeral, scale_numeral, Int32.ofInt_toInt, hplain]
  · have hplain : (⟨d.plain.coefficient, 0⟩ : Decimal) = d.plain := by
      rw [← exponent_plain hneg]
    refine ⟨.ofInt d.plain.coefficient, ?_, ⟨rfl, rfl⟩, ?_⟩
    · rw [text, unsignedText, if_neg hneg, coefficient_rescale_zero hneg, Numeral.text]
      simp only [← coefficient_plain_neg_iff d]
      rw [← Sign.chars_ofInt]
      simp only [Numeral.chars, Numeral.ofInt, Numeral.pointChars, Numeral.exponentChars,
        List.append_nil]
      rfl
    · rw [Numeral.value_ofInt, hplain]

end Decimal

end ProtoLisp
