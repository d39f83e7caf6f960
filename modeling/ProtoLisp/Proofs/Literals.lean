import ProtoLisp.Proofs.DecimalValues
import ProtoLisp.Proofs.Words

/-!
# Number literals

A numeral that a lexer comes upon, with no character of a word right behind it, is the next token,
and the number that is read from it is the one that its digits and its exponents say.  It is refused
if one of the two exponents is out of range.  No other token is a number.
-/

namespace ProtoLisp

/-! ### Words ahead of a lexer -/

/-- Ahead are the blanks `gap`, the characters `run`, and then `behind`, which does not start with a
character of a word. -/
structure Lexer.Faces (lexer : Lexer) (gap run behind : List Char) : Prop where
  running : lexer.halted = none
  rest_eq : lexer.cursor.rest = gap ++ (run ++ behind)
  blank : ∀ c ∈ gap, Text.isBlank c = true
  ends : startsWith isWord behind = false

/-- The place behind the blanks `gap` ahead of the lexer. -/
def Lexer.placeBehind (lexer : Lexer) (gap : List Char) : Location :=
  (lexer.cursor.here.afterAll gap).inFile lexer.cursor.file

/-- A word ahead is the next token, and the lexer goes on behind it. -/
theorem Lexer.word?_of_faces {lexer : Lexer} {gap run behind : List Char} {kind : Kind}
    (hfaces : lexer.Faces gap run behind) (hspelled : kind.Spelled run) (hkind : kind ≠ .comment) :
    ∃ after : Cursor, after.rest = behind ∧
      lexer.word? = some (⟨kind, String.ofList run, lexer.placeBehind gap⟩, ⟨after, none⟩) := by
  obtain ⟨hrunning, hrest, hblank, hends⟩ := hfaces
  obtain ⟨c, others, rfl, hfirst, hlexeme⟩ := hspelled.exists_ofChars hkind hends
  obtain ⟨cursor, halted⟩ := lexer
  obtain rfl : halted = none := hrunning
  have hdrop : cursor.rest.dropWhile Text.isBlank = c :: (others ++ behind) := by
    rw [hrest, List.dropWhile_append_of_pos hblank, List.cons_append,
      List.dropWhile_cons_of_neg hfirst]
  have htake : cursor.rest.takeWhile Text.isBlank = gap := by
    rw [hrest, List.takeWhile_append_of_pos hblank, List.cons_append,
      List.takeWhile_cons_of_neg hfirst, List.append_nil]
  have hplace : (skipBlanks cursor).startLocation = placeBehind ⟨cursor, none⟩ gap := by
    simp only [skipBlanks, htake]
    rfl
  have hbehind : (c :: (others ++ behind)).drop (c :: others).length = behind := by simp
  have hword := word?_eq hdrop
  simp only [hlexeme, hplace, Lexeme.run, Lexeme.isLast, hbehind] at hword
  exact ⟨_, rfl, hword⟩

/-! ### Reading numerals -/

/-- The exponents that a decimal can have. -/
def Decimal.exponents : Set Int := Set.Ico (-2 ^ 31) (2 ^ 31)

theorem Numeral.inRange_iff (numeral : Numeral) :
    numeral.InRange ↔
      numeral.power ∈ Decimal.exponents ∧
        numeral.power - numeral.placeChars.length ∈ Decimal.exponents := by
  simp only [InRange, scale, Decimal.fits_iff, Decimal.exponents, Set.mem_Ico]

theorem Reader.require_number (current : Option Token) (token : Token) (stream : Stream)
    (hkind : token.kind = .number) :
    (Reader.require ⟨current, .cons token stream⟩ .number).1 =
      match Decimal.ofText? token.text with
      | some value => .ok (.number value)
      | none => .error (.read ⟨some token.location, .badNumber token.text⟩) := by
  obtain ⟨kind, text, location⟩ := token
  obtain rfl : kind = .number := hkind
  show (finishExpression _ [] (⟨.number, text, location⟩ :: stream.tokens)).1.mapError _ = _
  simp only [finishExpression, shift]
  cases Decimal.ofText? text with
  | none => rfl
  | some value => rfl

/-- What is read from a numeral has all its digits in the coefficient, and the exponent that makes up
for it. -/
theorem Numeral.require_text (numeral : Numeral) (current : Option Token) (place : Location)
    (stream : Stream) :
    let parsed := (Reader.require ⟨current, .cons ⟨.number, numeral.text, place⟩ stream⟩ .number).1
    (numeral.InRange → ∃ value, parsed = .ok (.number value) ∧
      value.coefficient = numeral.coefficient ∧
      value.exponent.toInt = numeral.power - numeral.placeChars.length) ∧
    (¬ numeral.InRange → parsed = .error (.read ⟨some place, .badNumber numeral.text⟩)) := by
  intro parsed
  have hparsed := Reader.require_number current ⟨.number, numeral.text, place⟩ stream rfl
  rw [numeral.ofText?_text] at hparsed
  constructor
  · intro hrange
    rw [if_pos hrange] at hparsed
    exact ⟨numeral.value, hparsed, rfl, Decimal.toInt_ofInt_of_fits hrange.2⟩
  · intro hrange
    rw [if_neg hrange] at hparsed
    exact hparsed

/-- A token that is a number is a numeral, and only one. -/
theorem Lexer.existsUnique_numeral_of_next {lexer : Lexer} (hkind : lexer.next.1.kind = .number) :
    ∃! numeral : Numeral, lexer.next.1.text = numeral.text := by
  have hword : lexer.word? = some (lexer.next.1, lexer.next.2) := by
    apply word?_of_next
    rw [hkind]
    decide
  have hmem : lexer.next.1 ∈ (Stream.ofLexer lexer).tokens := by
    rw [Stream.ofLexer_of_word? hword]
    exact List.mem_cons_self
  obtain ⟨c, cs, -, hlexeme, htext⟩ := Stream.exists_lexeme_of_mem hmem
  obtain ⟨numeral, hnumeral⟩ := Lexeme.exists_numeral_of_kind (hlexeme.symm.trans hkind)
  refine ⟨numeral, htext.trans hnumeral, ?_⟩
  intro other hother
  exact Numeral.text_inj (hother.symm.trans (htext.trans hnumeral))

/-- A numeral ahead of a lexer is its next token.  What is read from it is the number that its digits
and its exponents say, if these can be exponents of decimals, and nothing otherwise.  All tokens that
are numbers are numerals. -/
theorem Lexer.next_numerals (lexer : Lexer) :
    (∀ (numeral : Numeral) (gap behind : List Char), lexer.Faces gap numeral.chars behind →
      let place := lexer.placeBehind gap
      let scale := numeral.power - numeral.placeChars.length
      (lexer.next.1 = ⟨.number, numeral.text, place⟩ ∧ lexer.next.2.cursor.rest = behind ∧
        lexer.next.2.halted = none) ∧
      ∀ current : Option Token,
        let parsed := (Reader.require ⟨current, .ofLexer lexer⟩ .number).1
        (numeral.power ∈ Decimal.exponents ∧ scale ∈ Decimal.exponents →
          ∃ value, parsed = .ok (.number value) ∧ value.coefficient = numeral.coefficient ∧
            value.exponent.toInt = scale) ∧
        (¬ (numeral.power ∈ Decimal.exponents ∧ scale ∈ Decimal.exponents) →
          parsed = .error (.read ⟨some place, .badNumber numeral.text⟩))) ∧
    (lexer.next.1.kind = .number → ∃! numeral : Numeral, lexer.next.1.text = numeral.text) := by
  refine ⟨?_, existsUnique_numeral_of_next⟩
  intro numeral gap behind hfaces place scale
  obtain ⟨after, hafter, hword⟩ := word?_of_faces hfaces numeral.spelled_chars nofun
  constructor
  · rw [next_of_word? hword]
    exact ⟨rfl, hafter, rfl⟩
  · intro current
    rw [Stream.ofLexer_of_word? hword, ← numeral.inRange_iff]
    exact numeral.require_text current place _

/-- Blanks in front, a sign, zeros at both ends, a signed exponent and a bracket behind. -/
theorem Lexer.next_numerals_signed :
    let numeral : Numeral := ⟨.minus, ⟨['0', '1', '2'], by decide, List.all_eq_true.mp rfl⟩,
      some ⟨['5', '0'], by decide, List.all_eq_true.mp rfl⟩,
      some ⟨'e', rfl, .minus, ⟨['3'], by decide, List.all_eq_true.mp rfl⟩⟩⟩
    let lexer := ofSource (.ofBytes "f" "\n -012.50e-3)".toUTF8)
    lexer.Faces ['\n', ' '] numeral.chars [')'] ∧
      lexer.next.1 = ⟨.number, "-012.50e-3", ⟨"f", 2, 2, 2⟩⟩ ∧
      (Reader.require ⟨none, .ofLexer lexer⟩ .number).1 = .ok (.number ⟨-1250, -5⟩) := by
  intro numeral lexer
  have hrest : lexer.cursor.rest = "\n -012.50e-3)".toList :=
    congrArg Prod.fst (Source.decodeFrom_toUTF8 "\n -012.50e-3)")
  have hfaces : lexer.Faces ['\n', ' '] numeral.chars [')'] := by
    refine ⟨rfl, hrest.trans ?_, ?_, ?_⟩
    · decide
    · exact List.all_eq_true.mp rfl
    · decide
  obtain ⟨⟨hnext, -, -⟩, hparsed⟩ := (next_numerals lexer).1 numeral _ _ hfaces
  have hpower : numeral.power = -3 := by decide
  have hscale : numeral.power - numeral.placeChars.length = -5 := by decide
  have hrange : numeral.power ∈ Decimal.exponents ∧
      numeral.power - numeral.placeChars.length ∈ Decimal.exponents := by
    rw [hscale, hpower]
    simp [Decimal.exponents]
  obtain ⟨⟨coefficient, exponent⟩, hvalue, hcoefficient, hexponent⟩ := (hparsed none).1 hrange
  obtain rfl : coefficient = -1250 := hcoefficient
  obtain rfl : exponent = -5 := Int32.toInt_inj.mp (hexponent.trans hscale)
  exact ⟨hfaces, hnext, hvalue⟩

end ProtoLisp
