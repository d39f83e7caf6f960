import ProtoLisp.Decimal.Text
import ProtoLisp.Proofs.LinewiseLexing

/-!
# Numerals

A numeral is a number in writing: a sign, digits, a point with more digits, and an exponent, of
which only the first digits have to be there.  The tokens that are numbers are the numerals, and no
two numerals are written in the same way.  A numeral is read as a decimal unless an exponent is out
of range: the one that is written, or the one that is left when the point is behind the last digit.
-/

namespace ProtoLisp

/-- What may stand in front of digits. -/
inductive Sign where
  | none
  | plus
  | minus
  deriving DecidableEq, Repr

/-- Digits, of which there is at least one. -/
structure Digits where
  chars : List Char
  ne_nil : chars ≠ []
  isDigit_of_mem : ∀ c ∈ chars, isDigit c = true

/-- An exponent with the mark in front of it. -/
structure Exponent where
  mark : Char
  isMark : Decimal.isExponentMark mark = true
  sign : Sign
  digits : Digits

structure Numeral where
  sign : Sign
  whole : Digits
  places : Option Digits
  exponent : Option Exponent

def Sign.chars : Sign → List Char
  | .none => []
  | .plus => ['+']
  | .minus => ['-']

def Sign.applied (n : Nat) : Sign → Int
  | .minus => -n
  | _ => n

namespace Numeral

def pointChars : Option Digits → List Char
  | none => []
  | some digits => '.' :: digits.chars

def exponentChars : Option Exponent → List Char
  | none => []
  | some exponent => exponent.mark :: (exponent.sign.chars ++ exponent.digits.chars)

def chars (numeral : Numeral) : List Char :=
  numeral.sign.chars ++ (numeral.whole.chars ++
    (pointChars numeral.places ++ exponentChars numeral.exponent))

def text (numeral : Numeral) : String := String.ofList numeral.chars

/-- The digits behind the point. -/
def placeChars (numeral : Numeral) : List Char := (numeral.places.map (·.chars)).getD []

def coefficient (numeral : Numeral) : Int :=
  numeral.sign.applied (Nat.ofDigitChars 10 (numeral.whole.chars ++ numeral.placeChars) 0)

/-- The exponent that is written. -/
def power (numeral : Numeral) : Int :=
  match numeral.exponent with
  | none => 0
  | some exponent => exponent.sign.applied (Nat.ofDigitChars 10 exponent.digits.chars 0)

/-- The exponent of the number if its coefficient is all digits, those behind the point included. -/
def scale (numeral : Numeral) : Int := numeral.power - numeral.placeChars.length

def value (numeral : Numeral) : Decimal := ⟨numeral.coefficient, Int32.ofInt numeral.scale⟩

/-- The exponents are in the range of 32 bits. -/
def InRange (numeral : Numeral) : Prop :=
  Decimal.fits numeral.power = true ∧ Decimal.fits numeral.scale = true

instance (numeral : Numeral) : Decidable numeral.InRange :=
  inferInstanceAs (Decidable (_ ∧ _))

end Numeral

/-! ### Characters of numerals -/

section Characters

variable {c : Char}

theorem ne_of_isDigit (hdigit : isDigit c = true) {other : Char} (hother : isDigit other = false) :
    c ≠ other := by
  intro heq
  rw [heq, hother] at hdigit
  cases hdigit

theorem isSign_eq_false_of_isDigit (hdigit : isDigit c = true) : isSign c = false := by
  have hplus : c ≠ '+' := ne_of_isDigit hdigit (by decide)
  have hminus : c ≠ '-' := ne_of_isDigit hdigit (by decide)
  simp [isSign, hplus, hminus]

theorem isExponentMark_eq_false_of_isDigit (hdigit : isDigit c = true) :
    Decimal.isExponentMark c = false := by
  have hsmall : c ≠ 'e' := ne_of_isDigit hdigit (by decide)
  have hcapital : c ≠ 'E' := ne_of_isDigit hdigit (by decide)
  simp [Decimal.isExponentMark, hsmall, hcapital]

theorem isDigit_eq_false_of_isExponentMark (hmark : Decimal.isExponentMark c = true) :
    isDigit c = false := by
  simp only [Decimal.isExponentMark, Bool.or_eq_true, beq_iff_eq] at hmark
  rcases hmark with rfl | rfl <;> decide

end Characters

theorem Digits.exists_cons (digits : Digits) :
    ∃ c cs, digits.chars = c :: cs ∧ isDigit c = true ∧ ∀ other ∈ cs, isDigit other = true := by
  obtain ⟨c, cs, hchars⟩ := List.exists_cons_of_ne_nil digits.ne_nil
  have hdigits := digits.isDigit_of_mem
  rw [hchars] at hdigits
  exact ⟨c, cs, hchars, hdigits c List.mem_cons_self,
    fun other hother => hdigits other (List.mem_cons_of_mem c hother)⟩

theorem Digits.startsWith_append (digits : Digits) (rest : List Char) :
    startsWith isDigit (digits.chars ++ rest) = true := by
  obtain ⟨c, cs, hchars, hdigit, -⟩ := digits.exists_cons
  simp [hchars, startsWith, hdigit]

/-- The digits in front of a text that does not go on with a digit. -/
theorem takeWhile_isDigit_append {cs rest : List Char} (hdigits : ∀ c ∈ cs, isDigit c = true)
    (hrest : startsWith isDigit rest = false) :
    (cs ++ rest).takeWhile isDigit = cs ∧ (cs ++ rest).dropWhile isDigit = rest := by
  rw [List.takeWhile_append_of_pos hdigits, List.dropWhile_append_of_pos hdigits]
  cases rest with
  | nil => simp
  | cons c rest =>
      have hc : isDigit c = false := by simpa [startsWith] using hrest
      simp [hc]

namespace Numeral

theorem startsWith_exponentChars (exponent : Option Exponent) :
    startsWith isDigit (exponentChars exponent) = false := by
  cases exponent with
  | none => rfl
  | some exponent =>
      have hdigit := isDigit_eq_false_of_isExponentMark exponent.isMark
      simpa [exponentChars, startsWith] using hdigit

theorem startsWith_pointChars (places : Option Digits) (exponent : Option Exponent) :
    startsWith isDigit (pointChars places ++ exponentChars exponent) = false := by
  cases places with
  | none => exact startsWith_exponentChars exponent
  | some digits => rfl

end Numeral

/-! ### Numerals are tokens -/

namespace Lexeme

theorem exponentDigits_chars (run : List Char) (digits : Digits) :
    exponentDigits run digits.chars = .word .number (run ++ digits.chars) := by
  have hstarts := digits.startsWith_append []
  have hnothing : startsWith isDigit [] = false := rfl
  obtain ⟨htake, hdrop⟩ := takeWhile_isDigit_append digits.isDigit_of_mem hnothing
  rw [List.append_nil] at hstarts htake hdrop
  rw [exponentDigits, if_pos hstarts, htake, hdrop]
  rfl

theorem exponent_chars (run : List Char) (exponent : Option Exponent) :
    Lexeme.exponent run (Numeral.exponentChars exponent) =
      .word .number (run ++ Numeral.exponentChars exponent) := by
  cases exponent with
  | none =>
      rw [Numeral.exponentChars, List.append_nil]
      rfl
  | some written =>
      obtain ⟨mark, hmark, sign, digits⟩ := written
      have hsigned (c : Char) (hsign : isSign c = true) :
          Lexeme.exponent run (mark :: c :: digits.chars) =
            .word .number (run ++ mark :: c :: digits.chars) := by
        rw [Decimal.isExponentMark] at hmark
        simp only [Lexeme.exponent, hmark, hsign, if_true, exponentDigits_chars,
          List.append_assoc, List.cons_append, List.nil_append]
      cases sign with
      | plus => exact hsigned '+' rfl
      | minus => exact hsigned '-' rfl
      | none =>
          obtain ⟨c, cs, hchars, hdigit, -⟩ := digits.exists_cons
          have hdigits := exponentDigits_chars (run ++ [mark]) digits
          rw [Decimal.isExponentMark] at hmark
          simp only [hchars] at hdigits
          simp only [Numeral.exponentChars, Sign.chars, List.nil_append, hchars, Lexeme.exponent,
            hmark, isSign_eq_false_of_isDigit hdigit, if_true, Bool.false_eq_true, if_false,
            hdigits, List.append_assoc, List.cons_append]

theorem fraction_chars (run : List Char) (places : Option Digits) (exponent : Option Exponent) :
    fraction run (Numeral.pointChars places ++ Numeral.exponentChars exponent) =
      .word .number (run ++ (Numeral.pointChars places ++ Numeral.exponentChars exponent)) := by
  cases places with
  | none =>
      rw [Numeral.pointChars, List.nil_append, ← exponent_chars]
      cases exponent with
      | none => rfl
      | some written =>
          have hpoint : written.mark ≠ '.' := by
            intro hpoint
            have hmark := written.isMark
            rw [hpoint] at hmark
            cases hmark
          simp [Numeral.exponentChars, fraction, hpoint]
  | some digits =>
      obtain ⟨htake, hdrop⟩ := takeWhile_isDigit_append digits.isDigit_of_mem
        (Numeral.startsWith_exponentChars exponent)
      simp only [Numeral.pointChars, List.cons_append, fraction, beq_self_eq_true, if_true,
        digits.startsWith_append, htake, hdrop, exponent_chars, List.append_assoc]

theorem number_chars {c : Char} {cs : List Char} (numeral : Numeral)
    (hchars : numeral.chars = c :: cs) : number c cs = .word .number (c :: cs) := by
  obtain ⟨sign, whole, places, exponent⟩ := numeral
  obtain ⟨first, others, hwhole, hfirst, hothers⟩ := whole.exists_cons
  have hrest := Numeral.startsWith_pointChars places exponent
  have hsigned (hcs : cs = whole.chars ++
      (Numeral.pointChars places ++ Numeral.exponentChars exponent)) :
      number c cs = .word .number (c :: cs) := by
    obtain ⟨htake, hdrop⟩ := takeWhile_isDigit_append whole.isDigit_of_mem hrest
    rw [number, hcs, htake, hdrop, fraction_chars]
    rfl
  cases sign with
  | plus => exact hsigned (List.cons.inj hchars).2.symm
  | minus => exact hsigned (List.cons.inj hchars).2.symm
  | none =>
      obtain ⟨htake, hdrop⟩ := takeWhile_isDigit_append hothers hrest
      simp only [Numeral.chars, Sign.chars, hwhole, List.nil_append, List.cons_append] at hchars
      obtain ⟨rfl, rfl⟩ := List.cons.inj hchars
      rw [number, htake, hdrop, fraction_chars]
      rfl

theorem ofChars_numeral {c : Char} {cs : List Char} (numeral : Numeral)
    (hchars : numeral.chars = c :: cs) : ofChars c cs = .word .number (c :: cs) := by
  rw [← number_chars numeral hchars]
  obtain ⟨sign, whole, places, exponent⟩ := numeral
  have hstarts := whole.startsWith_append
    (Numeral.pointChars places ++ Numeral.exponentChars exponent)
  cases sign with
  | none =>
      obtain ⟨first, others, hwhole, hdigit, -⟩ := whole.exists_cons
      simp only [Numeral.chars, Sign.chars, hwhole, List.nil_append, List.cons_append] at hchars
      obtain ⟨rfl, rfl⟩ := List.cons.inj hchars
      have hother {other : Char} (hnot : isDigit other = false) := ne_of_isDigit hdigit hnot
      simp [ofChars, hother (show isDigit '(' = false by decide),
        hother (show isDigit ')' = false by decide), hother (show isDigit '[' = false by decide),
        hother (show isDigit ']' = false by decide), hother (show isDigit ';' = false by decide),
        hother (show isDigit ':' = false by decide), hdigit]
  | plus =>
      obtain ⟨rfl, rfl⟩ := List.cons.inj hchars
      simp [ofChars, isSign, hstarts]
  | minus =>
      obtain ⟨rfl, rfl⟩ := List.cons.inj hchars
      simp [ofChars, isSign, hstarts]

/-! ### Tokens that are numbers are numerals -/

theorem eq_of_endNumber {run rest run' : List Char}
    (hlexeme : endNumber run rest = .word .number run') : run' = run := by
  unfold endNumber at hlexeme
  split at hlexeme
  · cases hlexeme
  · cases hlexeme
    rfl

/-- As many digits as there are in front of a text, if it starts with one. -/
def digitsOf (cs : List Char) (hstarts : startsWith isDigit cs = true) : Digits where
  chars := cs.takeWhile isDigit
  ne_nil := by
    cases cs with
    | nil => cases hstarts
    | cons c cs =>
        have hdigit : isDigit c = true := hstarts
        simp [hdigit]
  isDigit_of_mem := List.all_eq_true.mp List.all_takeWhile

theorem exists_of_exponentDigits {run rest run' : List Char}
    (hlexeme : exponentDigits run rest = .word .number run') :
    ∃ digits : Digits, run' = run ++ digits.chars := by
  unfold exponentDigits at hlexeme
  split at hlexeme
  · rename_i hstarts
    exact ⟨digitsOf rest hstarts, eq_of_endNumber hlexeme⟩
  · cases hlexeme

theorem exists_of_exponent {run rest run' : List Char}
    (hlexeme : Lexeme.exponent run rest = .word .number run') :
    ∃ exponent, run' = run ++ Numeral.exponentChars exponent := by
  unfold Lexeme.exponent at hlexeme
  split at hlexeme
  · rename_i mark digits
    split at hlexeme
    · rename_i hmark
      split at hlexeme
      · rename_i sign digits
        split at hlexeme
        · rename_i hsign
          obtain ⟨digits, rfl⟩ := exists_of_exponentDigits hlexeme
          simp only [isSign, Bool.or_eq_true, beq_iff_eq] at hsign
          rcases hsign with rfl | rfl
          · exact ⟨some ⟨mark, hmark, .plus, digits⟩, by simp [Numeral.exponentChars, Sign.chars]⟩
          · exact ⟨some ⟨mark, hmark, .minus, digits⟩, by simp [Numeral.exponentChars, Sign.chars]⟩
        · obtain ⟨digits, rfl⟩ := exists_of_exponentDigits hlexeme
          exact ⟨some ⟨mark, hmark, .none, digits⟩, by simp [Numeral.exponentChars, Sign.chars]⟩
      · cases hlexeme
    · exact ⟨none, by rw [eq_of_endNumber hlexeme, Numeral.exponentChars, List.append_nil]⟩
  · exact ⟨none, by rw [eq_of_endNumber hlexeme, Numeral.exponentChars, List.append_nil]⟩

theorem exists_of_fraction {run rest run' : List Char}
    (hlexeme : fraction run rest = .word .number run') :
    ∃ places exponent,
      run' = run ++ (Numeral.pointChars places ++ Numeral.exponentChars exponent) := by
  have hwithout (hexponent : Lexeme.exponent run rest = .word .number run') :
      ∃ places exponent,
        run' = run ++ (Numeral.pointChars places ++ Numeral.exponentChars exponent) := by
    obtain ⟨exponent, hrun⟩ := exists_of_exponent hexponent
    exact ⟨none, exponent, hrun⟩
  unfold fraction at hlexeme
  split at hlexeme
  · rename_i c digits
    split at hlexeme
    · rename_i hpoint
      split at hlexeme
      · rename_i hstarts
        obtain ⟨exponent, hrun⟩ := exists_of_exponent hlexeme
        refine ⟨some (digitsOf digits hstarts), exponent, ?_⟩
        rw [hrun, List.append_assoc, eq_of_beq hpoint]
        rfl
      · cases hlexeme
    · exact hwithout hlexeme
  · exact hwithout hlexeme

theorem exists_numeral_of_number {c : Char} {cs run : List Char}
    (hstarts : isDigit c = true ∨ isSign c = true ∧ startsWith isDigit cs = true)
    (hlexeme : number c cs = .word .number run) : ∃ numeral : Numeral, run = numeral.chars := by
  obtain ⟨places, exponent, hrun⟩ := exists_of_fraction hlexeme
  rcases hstarts with hdigit | ⟨hsign, hstarts⟩
  · have hwhole : (digitsOf (c :: cs) hdigit).chars = c :: cs.takeWhile isDigit :=
      List.takeWhile_cons_of_pos hdigit
    refine ⟨⟨.none, digitsOf (c :: cs) hdigit, places, exponent⟩, ?_⟩
    rw [hrun, Numeral.chars, hwhole]
    rfl
  · simp only [isSign, Bool.or_eq_true, beq_iff_eq] at hsign
    rcases hsign with rfl | rfl
    · exact ⟨⟨.plus, digitsOf cs hstarts, places, exponent⟩, hrun⟩
    · exact ⟨⟨.minus, digitsOf cs hstarts, places, exponent⟩, hrun⟩

theorem exists_numeral_of_ofChars {c : Char} {cs run : List Char}
    (hlexeme : ofChars c cs = .word .number run) : ∃ numeral : Numeral, run = numeral.chars := by
  unfold ofChars at hlexeme
  repeat' split at hlexeme
  all_goals first
    | rename_i hstarts
      refine exists_numeral_of_number ?_ hlexeme
      simpa using hstarts
    | cases hlexeme

theorem exists_numeral_of_kind {c : Char} {cs : List Char} (hnumber : (ofChars c cs).kind = .number) :
    ∃ numeral : Numeral, (ofChars c cs).text = numeral.text := by
  generalize hlexeme : ofChars c cs = lexeme at hnumber
  cases lexeme with
  | word kind run =>
      obtain rfl : kind = .number := hnumber
      obtain ⟨numeral, rfl⟩ := exists_numeral_of_ofChars hlexeme
      exact ⟨numeral, rfl⟩
  | malformed text run => cases hnumber
  | strange c => cases hnumber

end Lexeme

/-- Every number of a source is a numeral. -/
theorem Stream.exists_numeral_of_mem {source : Source} {token : Token}
    (hmem : token ∈ (ofSource source).tokens) (hnumber : token.kind = .number) :
    ∃ numeral : Numeral, token.text = numeral.text := by
  obtain ⟨c, cs, -, hkind, htext⟩ := exists_lexeme_of_mem hmem
  rw [htext]
  exact Lexeme.exists_numeral_of_kind (hkind.symm.trans hnumber)

/-! ### Reading numerals -/

namespace Decimal

theorem readDigits_of_isDigit {cs : List Char} (hdigits : ∀ c ∈ cs, isDigit c = true)
    (value : Nat) : readDigits value cs = some (Nat.ofDigitChars 10 cs value) := by
  induction cs generalizing value with
  | nil => rfl
  | cons c cs ih =>
      have hvalue : digitValue? c = some (c.toNat - '0'.toNat) := by
        have hdigit := hdigits c List.mem_cons_self
        simp only [isDigit, Bool.and_eq_true, decide_eq_true_eq] at hdigit
        exact if_pos hdigit
      rw [readDigits, hvalue, Option.bind_some, Nat.ofDigitChars_cons]
      exact ih (fun other hmem => hdigits other (List.mem_cons_of_mem c hmem)) _

theorem readInt?_signed (sign : Sign) {cs : List Char} (hne : cs ≠ [])
    (hdigits : ∀ c ∈ cs, isDigit c = true) :
    readInt? (sign.chars ++ cs) = some (sign.applied (Nat.ofDigitChars 10 cs 0)) := by
  have hnat : readNat? cs = some (Nat.ofDigitChars 10 cs 0) := by
    rw [readNat?, List.isEmpty_eq_false_iff.mpr hne]
    exact readDigits_of_isDigit hdigits 0
  cases sign with
  | plus => simp [Sign.chars, readInt?, hnat, Sign.applied]
  | minus => simp [Sign.chars, readInt?, hnat, Sign.applied]
  | none =>
      obtain ⟨c, cs, rfl⟩ := List.exists_cons_of_ne_nil hne
      have hdigit := hdigits c List.mem_cons_self
      have hplus : c ≠ '+' := ne_of_isDigit hdigit (by decide)
      have hminus : c ≠ '-' := ne_of_isDigit hdigit (by decide)
      simp [Sign.chars, readInt?, hplus, hminus, hnat, Sign.applied]

end Decimal

namespace Numeral

variable (numeral : Numeral)

/-- The characters in front of the exponent. -/
def frontChars : List Char :=
  numeral.sign.chars ++ (numeral.whole.chars ++ pointChars numeral.places)

theorem chars_eq_front : numeral.chars = numeral.frontChars ++ exponentChars numeral.exponent := by
  simp only [chars, frontChars, List.append_assoc]

theorem isDigit_of_mem_digits {c : Char} (hmem : c ∈ numeral.whole.chars ++ numeral.placeChars) :
    isDigit c = true := by
  rcases List.mem_append.mp hmem with hmem | hmem
  · exact numeral.whole.isDigit_of_mem c hmem
  · unfold placeChars at hmem
    cases hplaces : numeral.places with
    | none =>
        rw [hplaces] at hmem
        cases hmem
    | some digits =>
        rw [hplaces] at hmem
        exact digits.isDigit_of_mem c hmem

theorem isExponentMark_eq_false_of_mem_sign {sign : Sign} {c : Char} (hmem : c ∈ sign.chars) :
    Decimal.isExponentMark c = false := by
  cases sign <;> simp_all [Sign.chars] <;> decide

theorem isExponentMark_eq_false_of_mem_front {c : Char} (hmem : c ∈ numeral.frontChars) :
    Decimal.isExponentMark c = false := by
  unfold frontChars at hmem
  rcases List.mem_append.mp hmem with hsign | hmem
  · exact isExponentMark_eq_false_of_mem_sign hsign
  rcases List.mem_append.mp hmem with hwhole | hpoint
  · exact isExponentMark_eq_false_of_isDigit (numeral.whole.isDigit_of_mem c hwhole)
  · cases hplaces : numeral.places with
    | none =>
        rw [hplaces] at hpoint
        cases hpoint
    | some digits =>
        rw [hplaces] at hpoint
        cases hpoint with
        | head => decide
        | tail _ hmem => exact isExponentMark_eq_false_of_isDigit (digits.isDigit_of_mem c hmem)

theorem takeWhile_chars :
    numeral.chars.takeWhile (!Decimal.isExponentMark ·) = numeral.frontChars ∧
      numeral.chars.dropWhile (!Decimal.isExponentMark ·) = exponentChars numeral.exponent := by
  have hfront : ∀ c ∈ numeral.frontChars, (!Decimal.isExponentMark c) = true := by
    intro c hmem
    rw [isExponentMark_eq_false_of_mem_front numeral hmem, Bool.not_false]
  rw [chars_eq_front, List.takeWhile_append_of_pos hfront, List.dropWhile_append_of_pos hfront]
  cases numeral.exponent with
  | none => simp [exponentChars]
  | some exponent => simp [exponentChars, exponent.isMark]

theorem readExponent?_chars :
    Decimal.readExponent? numeral.chars =
      if Decimal.fits numeral.power then some numeral.power else none := by
  rw [Decimal.readExponent?, numeral.takeWhile_chars.2, power]
  cases numeral.exponent with
  | none => rfl
  | some exponent =>
      simp only [exponentChars]
      rw [Decimal.readInt?_signed _ exponent.digits.ne_nil exponent.digits.isDigit_of_mem]
      rfl

theorem splitPoint?_front :
    Decimal.splitPoint? numeral.frontChars =
      some (numeral.sign.chars ++ (numeral.whole.chars ++ numeral.placeChars),
        numeral.placeChars.length) := by
  have hpoint {digits : Digits} : '.' ∉ digits.chars := by
    intro hmem
    have hdigit := digits.isDigit_of_mem '.' hmem
    revert hdigit
    decide
  have hlead : ∀ c ∈ numeral.sign.chars ++ numeral.whole.chars, (c != '.') = true := by
    intro c hmem
    rw [bne_iff_ne]
    rintro rfl
    rcases List.mem_append.mp hmem with hmem | hmem
    · revert hmem
      cases numeral.sign <;> decide
    · exact hpoint hmem
  rw [Decimal.splitPoint?, frontChars, placeChars, ← List.append_assoc,
    List.dropWhile_append_of_pos hlead, List.takeWhile_append_of_pos hlead]
  cases numeral.places with
  | none => simp [pointChars]
  | some digits => simp [pointChars, hpoint]

/-- A numeral is read as its value if its exponents are in range, and not at all otherwise. -/
theorem ofText?_text :
    Decimal.ofText? numeral.text = if numeral.InRange then some numeral.value else none := by
  have hcoefficient :
      Decimal.readInt? (numeral.sign.chars ++ (numeral.whole.chars ++ numeral.placeChars)) =
        some numeral.coefficient := by
    refine Decimal.readInt?_signed _ ?_ fun c hmem => isDigit_of_mem_digits numeral hmem
    simp [numeral.whole.ne_nil]
  rw [Decimal.ofText?, text, String.toList_ofList, Decimal.ofChars?, readExponent?_chars,
    numeral.takeWhile_chars.1, splitPoint?_front]
  by_cases hpower : Decimal.fits numeral.power = true
  · by_cases hscale : Decimal.fits numeral.scale = true
    · rw [if_pos hpower, if_pos (show numeral.InRange from ⟨hpower, hscale⟩)]
      simp only [scale] at hscale
      simp [hcoefficient, hscale, value, scale]
    · rw [if_pos hpower, if_neg (fun hrange : numeral.InRange => hscale hrange.2)]
      simp only [scale] at hscale
      simp [hcoefficient, hscale]
  · rw [if_neg hpower, if_neg (fun hrange : numeral.InRange => hpower hrange.1)]
    rfl

end Numeral

/-! ### Numerals that are written alike -/

theorem Digits.ext {digits digits' : Digits} (hchars : digits.chars = digits'.chars) :
    digits = digits' := by
  obtain ⟨chars, hne, hdigits⟩ := digits
  cases hchars
  rfl

theorem Digits.append_inj {digits digits' : Digits} {rest rest' : List Char}
    (hrest : startsWith isDigit rest = false) (hrest' : startsWith isDigit rest' = false)
    (heq : digits.chars ++ rest = digits'.chars ++ rest') : digits = digits' ∧ rest = rest' := by
  obtain ⟨htake, hdrop⟩ := takeWhile_isDigit_append digits.isDigit_of_mem hrest
  obtain ⟨htake', hdrop'⟩ := takeWhile_isDigit_append digits'.isDigit_of_mem hrest'
  rw [heq] at htake hdrop
  exact ⟨Digits.ext (htake.symm.trans htake'), hdrop.symm.trans hdrop'⟩

theorem Sign.append_inj {sign sign' : Sign} {digits digits' : Digits} {rest rest' : List Char}
    (heq : sign.chars ++ (digits.chars ++ rest) = sign'.chars ++ (digits'.chars ++ rest')) :
    sign = sign' ∧ digits.chars ++ rest = digits'.chars ++ rest' := by
  obtain ⟨c, cs, hchars, hdigit, -⟩ := digits.exists_cons
  obtain ⟨c', cs', hchars', hdigit', -⟩ := digits'.exists_cons
  have hplus : c ≠ '+' ∧ '+' ≠ c' :=
    ⟨ne_of_isDigit hdigit (by decide), (ne_of_isDigit hdigit' (by decide)).symm⟩
  have hminus : c ≠ '-' ∧ '-' ≠ c' :=
    ⟨ne_of_isDigit hdigit (by decide), (ne_of_isDigit hdigit' (by decide)).symm⟩
  rw [hchars, hchars'] at heq ⊢
  cases sign <;> cases sign' <;> simp [Sign.chars, hplus, hminus] at heq ⊢ <;> exact heq

namespace Numeral

theorem exponentChars_inj {exponent exponent' : Option Exponent}
    (heq : exponentChars exponent = exponentChars exponent') : exponent = exponent' := by
  cases exponent with
  | none =>
      cases exponent' with
      | none => rfl
      | some written => cases heq
  | some written =>
      cases exponent' with
      | none => cases heq
      | some written' =>
          obtain ⟨mark, hmark, sign, digits⟩ := written
          obtain ⟨mark', hmark', sign', digits'⟩ := written'
          obtain ⟨rfl, hrest⟩ := List.cons.inj heq
          have hnothing : startsWith isDigit [] = false := rfl
          rw [← List.append_nil digits.chars, ← List.append_nil digits'.chars] at hrest
          obtain ⟨rfl, hdigits⟩ := Sign.append_inj hrest
          obtain ⟨rfl, -⟩ := Digits.append_inj hnothing hnothing hdigits
          rfl

theorem pointChars_inj {places places' : Option Digits} {exponent exponent' : Option Exponent}
    (heq : pointChars places ++ exponentChars exponent =
      pointChars places' ++ exponentChars exponent') :
    places = places' ∧ exponent = exponent' := by
  have hpoint {exponent : Option Exponent} {rest : List Char} :
      exponentChars exponent ≠ '.' :: rest := by
    intro heq
    cases exponent with
    | none => cases heq
    | some written =>
        have hmark := written.isMark
        rw [(List.cons.inj heq).1] at hmark
        cases hmark
  cases places with
  | none =>
      cases places' with
      | none => exact ⟨rfl, exponentChars_inj heq⟩
      | some digits => exact absurd heq hpoint
  | some digits =>
      cases places' with
      | none => exact absurd heq.symm hpoint
      | some digits' =>
          obtain ⟨rfl, hexponent⟩ := Digits.append_inj (startsWith_exponentChars exponent)
            (startsWith_exponentChars exponent') (List.cons.inj heq).2
          exact ⟨rfl, exponentChars_inj hexponent⟩

/-- Numerals that are written alike are the same. -/
theorem text_inj {numeral numeral' : Numeral} (heq : numeral.text = numeral'.text) :
    numeral = numeral' := by
  obtain ⟨sign, whole, places, exponent⟩ := numeral
  obtain ⟨sign', whole', places', exponent'⟩ := numeral'
  obtain ⟨rfl, hwhole⟩ := Sign.append_inj (String.ofList_injective heq)
  obtain ⟨rfl, hrest⟩ := Digits.append_inj (startsWith_pointChars places exponent)
    (startsWith_pointChars places' exponent') hwhole
  obtain ⟨rfl, rfl⟩ := pointChars_inj hrest
  rfl

end Numeral

end ProtoLisp
