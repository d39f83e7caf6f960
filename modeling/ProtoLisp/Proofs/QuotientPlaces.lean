import Mathlib.Order.Bounds.Defs
import ProtoLisp.Proofs.Quotients

/-!
# The fraction digits of quotients

A quotient is meant to be shown with the fewest fraction digits that it needs if it is exact, but with
no fewer than the dividend is shown with more than the divisor, and else with all digits of the
precision.  What happens depends on the exponents and on the rounded number instead, and differs in
three ways: a positive exponent of the divisor counts though it shows no digits, so that `(/ 100 1e2)`
is `1.00`; a rounded quotient loses its zeros as an exact one does; and the precision is never exceeded,
also if the operands differ by more digits.
-/

namespace ProtoLisp.Decimal

/-- How many fraction digits the number is shown with. -/
def shownPlaces (d : Decimal) : ℕ := (d.text.toList.dropWhile (· != '.')).length - 1

/-- The fewest fraction digits that are enough to write `x`. -/
def FewestPlaces (x : ℚ) (m : ℕ) : Prop := IsLeast {t | HasPlaces x t} m

/-- The quotient `q` of `a` and `b` is shown with as many fraction digits as it is meant to be. -/
def ShownAsMeant (a b : Decimal) (places : ℕ) (q : Decimal) : Prop :=
  (∀ m, FewestPlaces (a.toRat / b.toRat) m → m ≤ places →
      q.shownPlaces = max m (a.shownPlaces - b.shownPlaces)) ∧
    (¬ HasPlaces (a.toRat / b.toRat) places → q.shownPlaces = places)

variable {a b d q : Decimal} {precision : Int32} {x : ℚ} {least places m s t : ℕ}

/-! ## Digits behind the point -/

theorem dropWhile_digits {cs : List Char} (hdigits : ∀ c ∈ cs, isDigit c = true) (rest : List Char) :
    (cs ++ rest).dropWhile (· != '.') = rest.dropWhile (· != '.') := by
  apply List.dropWhile_append_of_pos
  intro c hc
  have hdigit := hdigits c hc
  by_contra hpoint
  obtain rfl : c = '.' := by simpa using hpoint
  exact absurd hdigit (by decide)

theorem dropWhile_text (d : Decimal) :
    d.text.toList.dropWhile (· != '.') = d.unsignedText.dropWhile (· != '.') := by
  unfold text
  split
  · simp
  · simp

theorem shownPlaces_eq (d : Decimal) : d.shownPlaces = (-d.exponent.toInt).toNat := by
  rw [shownPlaces, dropWhile_text, unsignedText]
  by_cases hneg : d.exponent < 0
  · have hlt := placeCount_lt_length d
    have hdrop : (d.placeDigits hneg).chars.length = d.placeCount := by
      show (d.allDigits.drop (d.allDigits.length - d.placeCount)).length = d.placeCount
      rw [List.length_drop]
      omega
    rw [if_pos hneg]
    show ((d.wholeDigits.chars ++ '.' :: (d.placeDigits hneg).chars).dropWhile (· != '.')).length - 1 =
      d.placeCount
    rw [dropWhile_digits d.wholeDigits.isDigit_of_mem]
    simpa using hdrop
  · have hdigits : ∀ c ∈ Nat.toDigits 10 (d.rescale 0).coefficient.natAbs, isDigit c = true :=
      fun _ hc => isDigit_of_mem_toDigits hc
    rw [if_neg hneg, ← List.append_nil (Nat.toDigits 10 _), dropWhile_digits hdigits]
    rw [exponent_neg_iff] at hneg
    show 0 = _
    omega

theorem HasPlaces.mono (hhas : HasPlaces x s) (hle : s ≤ t) : HasPlaces x t := by
  obtain ⟨n, hn⟩ := hhas
  refine ⟨n * 10 ^ (t - s), ?_⟩
  rw [← Nat.add_sub_cancel' hle, pow_add, ← mul_assoc, hn]
  push_cast
  simp

theorem FewestPlaces.hasPlaces_iff (hfewest : FewestPlaces x m) : HasPlaces x t ↔ m ≤ t :=
  ⟨fun hhas => hfewest.2 hhas, hfewest.1.mono⟩

theorem exists_fewestPlaces (hhas : HasPlaces x t) : ∃ m, FewestPlaces x m := by
  classical
  exact ⟨Nat.find ⟨t, hhas⟩, Nat.find_spec ⟨t, hhas⟩, fun s hs => Nat.find_min' _ hs⟩

theorem FirstPlaces.eq (hfirst : FirstPlaces x least places s) (hfewest : FewestPlaces x m) :
    s = min places (max m least) := by
  obtain ⟨hfound, hbefore⟩ := hfirst
  simp only [hfewest.hasPlaces_iff] at hfound hbefore
  have hlast := hbefore (max m least) (le_max_right _ _)
  omega

/-! ## Digits of quotients -/

/-- A quotient is shown with the fewest digits that its number needs, but with no fewer than the
exponents differ by, and with no more than the precision has. -/
theorem shownPlaces_quotient (hplaces : precision.toInt = places)
    (hfewest : FewestPlaces (divRound a b precision).toRat m) :
    (a.quotient b precision).shownPlaces =
      min places (max m (b.exponent - a.exponent).toInt.toNat) := by
  obtain ⟨-, s, hs, hfirst⟩ := quotient_trims a b hplaces
  rw [shownPlaces_eq, hs, ← hfirst.eq hfewest]
  omega

/-- When the digits of a quotient are as they are meant to be.  For an exact one, the exponents must
not differ by more than the digits that are shown and needed, which in turn must not exceed the
precision, unless the two cases meet at the precision.  For a rounded one, the last digit must not be
zero, unless the exponents differ by the precision at least. -/
theorem quotient_shownAsMeant_iff (hb : b.toRat ≠ 0) (hplaces : precision.toInt = places)
    (hpos : 1 ≤ places) (hdifference : fits (b.exponent.toInt - a.exponent.toInt) = true)
    (hshift : fits (a.exponent.toInt - b.exponent.toInt + places) = true) :
    let value := a.toRat / b.toRat
    let excess := (b.exponent.toInt - a.exponent.toInt).toNat
    let shown := a.shownPlaces - b.shownPlaces
    ShownAsMeant a b places (a.quotient b precision) ↔
      (∀ m, FewestPlaces value m → m ≤ places →
          excess ≤ max m shown ∧ shown ≤ places ∨ max m shown = places) ∧
        (¬ HasPlaces value places →
          places ≤ excess ∨ ¬ HasPlaces (rounded value places) (places - 1)) := by
  intro value excess shown
  have hle : shown ≤ excess := by
    simp only [shown, excess, shownPlaces_eq]
    omega
  have hvalue : (divRound a b precision).toRat = rounded value places :=
    toRat_divRound hb hplaces hshift
  have hplaces' : ∀ m, FewestPlaces (rounded value places) m →
      (a.quotient b precision).shownPlaces = min places (max m excess) := by
    intro m hfewest
    rw [shownPlaces_quotient hplaces (hvalue ▸ hfewest), toInt_sub_of_fits hdifference]
  apply and_congr
  · -- An exact quotient is its own rounding, so that the fewest places of both are the same.
    apply forall₃_congr
    intro m hfewest hm
    have hexact : rounded value places = value :=
      rounded_of_hasPlaces (hfewest.hasPlaces_iff.mpr hm)
    rw [hplaces' m (by rwa [hexact])]
    omega
  · apply forall_congr'
    intro _
    have hhas := hasPlaces_rounded value places
    obtain ⟨m, hfewest⟩ := exists_fewestPlaces hhas
    rw [hplaces' m hfewest, hfewest.hasPlaces_iff]
    rw [hfewest.hasPlaces_iff] at hhas
    omega

/-- The divisor in `(/ 100 1e2)` has the exponent two and shows no fraction digits. -/
theorem quotient_shownAsMeant_iff_hundred :
    let a : Decimal := ⟨100, 0⟩
    let b : Decimal := ⟨1, 2⟩
    (a.quotient b 32).text = "1.00" ∧ ¬ ShownAsMeant a b 32 (a.quotient b 32) := by
  intro a b
  refine ⟨by decide +kernel, ?_⟩
  have hb : b.toRat ≠ 0 := by simp [toRat_eq_zero_iff, b]
  have hone : a.toRat / b.toRat = 1 := by
    simp [toRat, a, b]
    norm_num
  intro hmeant
  obtain ⟨hexact, -⟩ :=
    (quotient_shownAsMeant_iff hb rfl (by decide) (by decide) (by decide)).mp hmeant
  have hfewest : FewestPlaces 1 0 := ⟨⟨1, by norm_num⟩, fun _ _ => Nat.zero_le _⟩
  have hmeets := hexact 0 (by rwa [hone]) (by decide)
  revert hmeets
  decide +kernel

end ProtoLisp.Decimal
