import ProtoLisp.Proofs.TokenSequences

/-!
# The productions of tokens

    number   := sign? digits fraction? exponent?
    fraction := '.' digits
    exponent := ('e' | 'E') sign? digits
    symbol   := (letter | special) (letter | digit | special)*
    atom     := ':' symbol

The numbers among the tokens are the texts of their production, and the symbols are those of theirs
that do not start like a number with a sign.  The atoms are more than their production allows: what
stands behind the colon may start with a digit, which no symbol does.
-/

namespace ProtoLisp

open scoped Computability

namespace Production

/-- One character that satisfies `p`. -/
def single (p : Char → Bool) : Language Char := {cs | ∃ c, p c = true ∧ cs = [c]}

def oneOf (chars : String) : Language Char := single chars.toList.contains

def optional (language : Language Char) : Language Char := 1 + language

def letter : Language Char := single Text.isLetter

def digit : Language Char := oneOf "0123456789"

def special : Language Char := oneOf "._+-*/=<>!&~%?$"

def sign : Language Char := oneOf "+-"

def digits : Language Char := digit * digit∗

def fraction : Language Char := oneOf "." * digits

def exponent : Language Char := oneOf "eE" * (optional sign * digits)

def number : Language Char := optional sign * (digits * (optional fraction * optional exponent))

def symbol : Language Char := (letter + special) * (letter + digit + special)∗

def atom : Language Char := oneOf ":" * symbol

/-- The texts that start like a number with a sign. -/
def signed : Language Char := {cs | ∃ front ∈ sign * digit, front <+: cs}

/-- A colon with characters of a symbol behind it, the first of which is a digit. -/
def numbered : Language Char := oneOf ":" * (digit * (letter + digit + special)∗)

/-! ### Characters -/

theorem single_add (p q : Char → Bool) : single p + single q = single fun c => p c || q c := by
  ext cs
  simp only [Language.mem_add]
  constructor
  · rintro (⟨c, hc, rfl⟩ | ⟨c, hc, rfl⟩)
    · exact ⟨c, by simp [hc], rfl⟩
    · exact ⟨c, by simp [hc], rfl⟩
  · rintro ⟨c, hc, rfl⟩
    rcases Bool.or_eq_true_iff.mp hc with hc | hc
    · exact .inl ⟨c, hc, rfl⟩
    · exact .inr ⟨c, hc, rfl⟩

theorem isDigit_iff_mem {c : Char} : isDigit c = true ↔ c ∈ "0123456789".toList := by
  have hdigits : "0123456789".toList = ['0', '1', '2', '3', '4', '5', '6', '7', '8', '9'] := rfl
  rw [hdigits]
  constructor
  · intro hdigit
    simp only [isDigit, Bool.and_eq_true, decide_eq_true_eq, Char.le_def, UInt32.le_iff_toNat_le]
      at hdigit
    have hlow : 48 ≤ c.toNat := hdigit.1
    have hhigh : c.toNat ≤ 57 := hdigit.2
    have hall : ∀ n ∈ List.range 10,
        Char.ofNat (48 + n) ∈ ['0', '1', '2', '3', '4', '5', '6', '7', '8', '9'] := by decide
    have hmem := hall (c.toNat - 48) (List.mem_range.mpr (by omega))
    rwa [Nat.add_sub_cancel' hlow, Char.ofNat_toNat] at hmem
  · intro hmem
    have hall : ['0', '1', '2', '3', '4', '5', '6', '7', '8', '9'].all isDigit = true := rfl
    exact List.all_eq_true.mp hall c hmem

theorem digit_eq : digit = single isDigit := by
  have hdigits : ("0123456789".toList.contains · : Char → Bool) = isDigit := by
    funext c
    rw [Bool.eq_iff_iff, List.contains_iff_mem, isDigit_iff_mem]
  exact congrArg single hdigits

theorem sign_eq : sign = single isSign := by
  have hsigns : ("+-".toList.contains · : Char → Bool) = isSign := by
    funext c
    rw [Bool.eq_iff_iff]
    simp [isSign]
  exact congrArg single hsigns

theorem mark_eq : oneOf "eE" = single Decimal.isExponentMark := by
  have hmarks : ("eE".toList.contains · : Char → Bool) = Decimal.isExponentMark := by
    funext c
    rw [Bool.eq_iff_iff]
    simp [Decimal.isExponentMark]
  exact congrArg single hmarks

theorem special_eq : special = single wordSigns.contains := rfl

theorem start_eq : letter + special = single isWordStart := by
  rw [letter, special_eq, single_add]
  rfl

theorem word_eq : letter + digit + special = single isWord := by
  rw [letter, digit_eq, special_eq, single_add, single_add]
  rfl

theorem mem_single_mul {p : Char → Bool} {language : Language Char} {cs : List Char} :
    cs ∈ single p * language ↔ ∃ c rest, cs = c :: rest ∧ p c = true ∧ rest ∈ language := by
  rw [Language.mem_mul]
  constructor
  · rintro ⟨_, ⟨c, hc, rfl⟩, rest, hrest, rfl⟩
    exact ⟨c, rest, rfl, hc, hrest⟩
  · rintro ⟨c, rest, rfl, hc, hrest⟩
    exact ⟨[c], ⟨c, hc, rfl⟩, rest, hrest, rfl⟩

theorem mem_oneOf_mul {c : Char} {language : Language Char} {cs : List Char} :
    cs ∈ oneOf (String.ofList [c]) * language ↔ ∃ rest, cs = c :: rest ∧ rest ∈ language := by
  rw [oneOf, mem_single_mul]
  simp [and_left_comm]

theorem mem_single_star {p : Char → Bool} {cs : List Char} :
    cs ∈ (single p)∗ ↔ ∀ c ∈ cs, p c = true := by
  rw [Language.mem_kstar]
  constructor
  · rintro ⟨parts, rfl, hparts⟩ c hmem
    obtain ⟨part, hpart, hmem⟩ := List.mem_flatten.mp hmem
    obtain ⟨other, hother, rfl⟩ := hparts part hpart
    rwa [List.mem_singleton.mp hmem]
  · intro hcs
    refine ⟨cs.map fun c => [c], ?_, ?_⟩
    · rw [← List.flatMap_def, List.flatMap_singleton']
    intro part hpart
    obtain ⟨c, hmem, rfl⟩ := List.mem_map.mp hpart
    exact ⟨c, hcs c hmem, rfl⟩

theorem mem_optional {language : Language Char} {cs : List Char} :
    cs ∈ optional language ↔ cs = [] ∨ cs ∈ language := by
  rw [optional, Language.mem_add, Language.mem_one]

/-! ### Numerals -/

theorem mem_digits {cs : List Char} : cs ∈ digits ↔ ∃ digits : Digits, cs = digits.chars := by
  rw [digits, digit_eq, mem_single_mul]
  simp only [mem_single_star]
  constructor
  · rintro ⟨c, rest, rfl, hc, hrest⟩
    exact ⟨⟨c :: rest, List.cons_ne_nil c rest, List.forall_mem_cons.mpr ⟨hc, hrest⟩⟩, rfl⟩
  · rintro ⟨digits, rfl⟩
    obtain ⟨c, rest, hchars, hc, hrest⟩ := digits.exists_cons
    exact ⟨c, rest, hchars, hc, hrest⟩

theorem mem_optional_sign {cs : List Char} :
    cs ∈ optional sign ↔ ∃ sign : Sign, cs = sign.chars := by
  rw [mem_optional, sign_eq]
  constructor
  · rintro (rfl | ⟨c, hc, rfl⟩)
    · exact ⟨.none, rfl⟩
    · simp only [isSign, Bool.or_eq_true, beq_iff_eq] at hc
      rcases hc with rfl | rfl
      · exact ⟨.plus, rfl⟩
      · exact ⟨.minus, rfl⟩
  · rintro ⟨sign, rfl⟩
    cases sign with
    | none => exact .inl rfl
    | plus => exact .inr ⟨'+', rfl, rfl⟩
    | minus => exact .inr ⟨'-', rfl, rfl⟩

theorem mem_optional_fraction {cs : List Char} :
    cs ∈ optional fraction ↔ ∃ places, cs = Numeral.pointChars places := by
  have hpoint : fraction = oneOf (String.ofList ['.']) * digits := rfl
  rw [mem_optional, hpoint, mem_oneOf_mul]
  simp only [mem_digits]
  constructor
  · rintro (rfl | ⟨_, rfl, digits, rfl⟩)
    · exact ⟨none, rfl⟩
    · exact ⟨some digits, rfl⟩
  · rintro ⟨places, rfl⟩
    cases places with
    | none => exact .inl rfl
    | some digits => exact .inr ⟨_, rfl, digits, rfl⟩

theorem mem_optional_exponent {cs : List Char} :
    cs ∈ optional exponent ↔ ∃ exponent, cs = Numeral.exponentChars exponent := by
  rw [mem_optional, exponent, mark_eq, mem_single_mul]
  simp only [Language.mem_mul, mem_optional_sign, mem_digits]
  constructor
  · rintro (rfl | ⟨mark, _, rfl, hmark, _, ⟨sign, rfl⟩, _, ⟨digits, rfl⟩, rfl⟩)
    · exact ⟨none, rfl⟩
    · exact ⟨some ⟨mark, hmark, sign, digits⟩, rfl⟩
  · rintro ⟨exponent, rfl⟩
    cases exponent with
    | none => exact .inl rfl
    | some exponent =>
        obtain ⟨mark, hmark, sign, digits⟩ := exponent
        exact .inr ⟨mark, _, rfl, hmark, _, ⟨sign, rfl⟩, _, ⟨digits, rfl⟩, rfl⟩

theorem mem_number {cs : List Char} : cs ∈ number ↔ ∃ numeral : Numeral, cs = numeral.chars := by
  rw [number]
  simp only [Language.mem_mul, mem_optional_sign, mem_digits, mem_optional_fraction,
    mem_optional_exponent]
  constructor
  · rintro ⟨_, ⟨sign, rfl⟩, _, ⟨_, ⟨whole, rfl⟩, _, ⟨_, ⟨places, rfl⟩, _, ⟨exponent, rfl⟩, rfl⟩,
      rfl⟩, rfl⟩
    exact ⟨⟨sign, whole, places, exponent⟩, rfl⟩
  · rintro ⟨⟨sign, whole, places, exponent⟩, rfl⟩
    exact ⟨_, ⟨sign, rfl⟩, _, ⟨_, ⟨whole, rfl⟩, _, ⟨_, ⟨places, rfl⟩, _, ⟨exponent, rfl⟩, rfl⟩,
      rfl⟩, rfl⟩

/-! ### Words -/

theorem isWord_eq {c : Char} : isWord c = (isDigit c || isWordStart c) := by
  rw [isWord, isWordStart, ← Bool.or_assoc, Bool.or_comm (isDigit c)]

theorem isWordStart_eq_false_of_isDigit {c : Char} (hdigit : isDigit c = true) :
    isWordStart c = false := by
  have hsign : c ∉ wordSigns := by
    have hsigns : wordSigns.all (!isDigit ·) = true := rfl
    intro hmem
    have hnot := List.all_eq_true.mp hsigns c hmem
    simp [hdigit] at hnot
  simp only [isDigit, Bool.and_eq_true, decide_eq_true_eq, Char.le_def, UInt32.le_iff_toNat_le]
    at hdigit
  have hhigh : c.val.toNat ≤ 57 := hdigit.2
  have hascii : c.toNat < 128 := Nat.lt_of_le_of_lt hhigh (by decide)
  have habove {code : UInt32} (hcode : 57 < code.toNat) : ¬ code ≤ c.val := by
    rw [UInt32.le_iff_toNat_le]
    omega
  have hupper : ¬ 65 ≤ c.val := habove (by decide)
  have hlower : ¬ 97 ≤ c.val := habove (by decide)
  simp [isWordStart, Text.isLetter_of_isAlpha hascii, Char.isAlpha, Char.isUpper, Char.isLower,
    hupper, hlower, hsign]

theorem mem_symbol {cs : List Char} :
    cs ∈ symbol ↔ ∃ c rest, cs = c :: rest ∧ isWordStart c = true ∧ ∀ d ∈ rest, isWord d = true := by
  rw [symbol, start_eq, word_eq, mem_single_mul]
  simp only [mem_single_star]

theorem mem_atom {cs : List Char} : cs ∈ atom ↔ ∃ rest, cs = ':' :: rest ∧ rest ∈ symbol :=
  mem_oneOf_mul

theorem mem_numbered {cs : List Char} :
    cs ∈ numbered ↔
      ∃ c rest, cs = ':' :: c :: rest ∧ isDigit c = true ∧ ∀ d ∈ rest, isWord d = true := by
  have hcolon : numbered = oneOf (String.ofList [':']) * (digit * (letter + digit + special)∗) := rfl
  rw [hcolon, mem_oneOf_mul, word_eq, digit_eq]
  simp only [mem_single_mul, mem_single_star]
  constructor
  · rintro ⟨_, rfl, c, rest, rfl, hc, hrest⟩
    exact ⟨c, rest, rfl, hc, hrest⟩
  · rintro ⟨c, rest, rfl, hc, hrest⟩
    exact ⟨_, rfl, c, rest, rfl, hc, hrest⟩

theorem mem_signed {c : Char} {cs : List Char} :
    c :: cs ∈ signed ↔ (isSign c && startsWith isDigit cs) = true := by
  have hfront {front : List Char} : front ∈ sign * digit ↔
      ∃ c d, front = [c, d] ∧ isSign c = true ∧ isDigit d = true := by
    rw [sign_eq, mem_single_mul, digit_eq]
    constructor
    · rintro ⟨c, _, rfl, hc, d, hd, rfl⟩
      exact ⟨c, d, rfl, hc, hd⟩
    · rintro ⟨c, d, rfl, hc, hd⟩
      exact ⟨c, [d], rfl, hc, d, hd, rfl⟩
  rw [Bool.and_eq_true]
  constructor
  · rintro ⟨front, hmem, rest, heq⟩
    obtain ⟨c', d, rfl, hc, hd⟩ := hfront.mp hmem
    cases heq
    exact ⟨hc, hd⟩
  · rintro ⟨hc, hstarts⟩
    cases cs with
    | nil => cases hstarts
    | cons d cs => exact ⟨[c, d], hfront.mpr ⟨c, d, rfl, hc, hstarts⟩, cs, rfl⟩

end Production

/-! ### Texts of tokens -/

namespace Kind

/-- The texts of the tokens of this kind that lexers give. -/
def texts (kind : Kind) : Language Char :=
  {cs | ∃ (source : Source) (n : Nat),
    let token := (Lexer.ofSource source).tokenAt n
    token.kind = kind ∧ token.text.toList = cs}

/-- The texts of the words of a kind are those that are such a word by themselves. -/
theorem mem_texts {kind : Kind} (hkind : kind.isReport = false) {cs : List Char} :
    cs ∈ kind.texts ↔ kind.Spelled cs := by
  constructor
  · rintro ⟨source, n, rfl, rfl⟩
    rcases Lexer.tokenAt_mem (Lexer.fresh_ofSource source) n with hmem | hhalting
    · exact Stream.spelled_of_mem hmem hkind
    · rw [hhalting, Stream.isReport_halting] at hkind
      cases hkind
  · intro hspelled
    let source : Source := ⟨"", cs, none, none⟩
    have halone := Stream.along_spelled_alone hspelled "" .first
    have hstream : Stream.ofSource source = Stream.along "" none .first cs :=
      Stream.ofSource_of_read rfl
    have htoken : (Lexer.ofSource source).tokenAt 0 = (Stream.ofSource source).head :=
      (Stream.head_ofLexer _).symm
    rw [hstream, halone] at htoken
    refine ⟨source, 0, ?_⟩
    rw [htoken]
    exact ⟨rfl, String.toList_ofList⟩

theorem mem_texts_number {cs : List Char} : cs ∈ texts .number ↔ cs ∈ Production.number := by
  rw [mem_texts rfl, Production.mem_number]
  constructor
  · rintro ⟨c, rest, rfl, -, hlexeme⟩
    exact Lexeme.exists_numeral_of_ofChars hlexeme
  · rintro ⟨numeral, rfl⟩
    exact numeral.spelled_chars

theorem takeWhile_isWord_eq {c : Char} {cs : List Char} :
    c :: cs = c :: cs.takeWhile isWord ↔ ∀ d ∈ cs, isWord d = true := by
  rw [List.cons_inj_right, eq_comm, List.takeWhile_eq_self_iff]

theorem mem_texts_symbol {cs : List Char} :
    cs ∈ texts .symbol ↔ cs ∈ Production.symbol ∧ cs ∉ Production.signed := by
  rw [mem_texts rfl, Production.mem_symbol]
  constructor
  · rintro ⟨c, rest, rfl, -, hlexeme⟩
    obtain ⟨-, hnumber, hstart, hrest⟩ := Lexeme.ofChars_eq_symbol_iff.mp hlexeme
    refine ⟨⟨c, rest, rfl, hstart, takeWhile_isWord_eq.mp hrest⟩, ?_⟩
    rw [Production.mem_signed]
    simp [(Bool.or_eq_false_iff.mp hnumber).2]
  · rintro ⟨⟨c, rest, rfl, hstart, hrest⟩, hsigned⟩
    rw [Production.mem_signed, Bool.not_eq_true] at hsigned
    have hne {other : Char} (hother : isWordStart other = false) : c ≠ other := by
      rintro rfl
      rw [hstart] at hother
      cases hother
    have hdigit : isDigit c = false := by
      rw [← Bool.not_eq_true]
      exact fun hdigit => hne (Production.isWordStart_eq_false_of_isDigit hdigit) rfl
    have hblank : ¬ Text.isBlank c = true := by
      intro hblank
      have hword := isWord_eq_false_of_isBlank hblank
      simp only [isWord, hdigit, Bool.or_false] at hword
      exact hne hword rfl
    refine ⟨c, rest, rfl, hblank, Lexeme.ofChars_eq_symbol_iff.mpr ⟨?_, ?_, hstart, ?_⟩⟩
    · exact ⟨hne (by decide), hne (by decide), hne (by decide), hne (by decide), hne (by decide),
        hne (by decide)⟩
    · rw [hdigit, hsigned]
      rfl
    · exact takeWhile_isWord_eq.mpr hrest

theorem mem_texts_atom {cs : List Char} :
    cs ∈ texts .atom ↔ cs ∈ Production.atom ∨ cs ∈ Production.numbered := by
  have hspelled : Kind.atom.Spelled cs ↔
      ∃ c rest, cs = ':' :: c :: rest ∧ isWord c = true ∧ ∀ d ∈ rest, isWord d = true := by
    constructor
    · rintro ⟨colon, rest, rfl, -, hlexeme⟩
      obtain ⟨rfl, hstarts, hrest⟩ := Lexeme.ofChars_eq_atom_iff.mp hlexeme
      cases rest with
      | nil => cases hstarts
      | cons c rest =>
          have hword := List.forall_mem_cons.mp (takeWhile_isWord_eq.mp hrest)
          exact ⟨c, rest, rfl, hword.1, hword.2⟩
    · rintro ⟨c, rest, rfl, hc, hrest⟩
      have hword : ∀ d ∈ c :: rest, isWord d = true := List.forall_mem_cons.mpr ⟨hc, hrest⟩
      have hstarts : startsWith isWord (c :: rest) = true := hc
      have hlexeme := Lexeme.ofChars_eq_atom_iff.mpr
        ⟨rfl, hstarts, takeWhile_isWord_eq.mpr hword⟩
      exact ⟨':', c :: rest, rfl, by decide, hlexeme⟩
  rw [mem_texts rfl, hspelled, Production.mem_atom, Production.mem_numbered]
  simp only [Production.mem_symbol]
  constructor
  · rintro ⟨c, rest, rfl, hc, hrest⟩
    rw [Production.isWord_eq, Bool.or_eq_true] at hc
    rcases hc with hdigit | hstart
    · exact .inr ⟨c, rest, rfl, hdigit, hrest⟩
    · exact .inl ⟨_, rfl, c, rest, rfl, hstart, hrest⟩
  · rintro (⟨_, rfl, c, rest, rfl, hstart, hrest⟩ | ⟨c, rest, rfl, hdigit, hrest⟩)
    · exact ⟨c, rest, rfl, by rw [Production.isWord_eq, hstart, Bool.or_true], hrest⟩
    · exact ⟨c, rest, rfl, isWord_of_isDigit hdigit, hrest⟩

theorem disjoint_atom_numbered : Disjoint Production.atom Production.numbered := by
  refine Set.disjoint_left.mpr ?_
  intro cs hatom hnumbered
  obtain ⟨_, rfl, hsymbol⟩ := Production.mem_atom.mp hatom
  obtain ⟨c, rest, heq, hdigit, -⟩ := Production.mem_numbered.mp hnumbered
  obtain ⟨-, rfl⟩ := List.cons.inj heq
  obtain ⟨_, _, heq, hstart, -⟩ := Production.mem_symbol.mp hsymbol
  obtain ⟨rfl, -⟩ := List.cons.inj heq
  rw [Production.isWordStart_eq_false_of_isDigit hdigit] at hstart
  cases hstart

/-- The texts of the numbers and of the symbols are as their productions say, but a symbol does not
start like a number with a sign.  The texts of the atoms are those of their production and, besides,
those that have a digit behind the colon. -/
theorem texts_productions :
    texts .number = Production.number ∧
      texts .symbol = Production.symbol \ Production.signed ∧
      texts .atom = Production.atom + Production.numbered := by
  refine ⟨?_, ?_, ?_⟩
  · ext cs
    exact mem_texts_number
  · ext cs
    exact mem_texts_symbol
  · ext cs
    rw [Language.mem_add]
    exact mem_texts_atom

end Kind

/-- The text of the token is as the production of its kind says, if there is one. -/
def Token.Produced (token : Token) : Prop :=
  match token.kind with
  | .number => token.text.toList ∈ Production.number
  | .symbol => token.text.toList ∈ Production.symbol
  | .atom => token.text.toList ∈ Production.atom
  | _ => True

/-- Every token is as its production says, unless it is an atom with a digit behind the colon. -/
theorem Lexer.produced_tokenAt_iff (source : Source) (n : Nat) :
    ((ofSource source).tokenAt n).Produced ↔
      ¬ (((ofSource source).tokenAt n).kind = .atom ∧
        ((ofSource source).tokenAt n).text.toList ∈ Production.numbered) := by
  generalize htoken : (ofSource source).tokenAt n = token
  have htext {kind : Kind} (hkind : token.kind = kind) : token.text.toList ∈ kind.texts :=
    ⟨source, n, by rw [htoken, hkind], by rw [htoken]⟩
  unfold Token.Produced
  split
  · rename_i hkind
    have hnumber := Kind.mem_texts_number.mp (htext hkind)
    simp [hkind, hnumber]
  · rename_i hkind
    have hsymbol := Kind.mem_texts_symbol.mp (htext hkind)
    simp [hkind, hsymbol.1]
  · rename_i hkind
    rw [hkind, eq_self_iff_true, true_and]
    constructor
    · intro hatom hnumbered
      exact Set.disjoint_left.mp Kind.disjoint_atom_numbered hatom hnumbered
    · exact (Kind.mem_texts_atom.mp (htext hkind)).resolve_right
  · rename_i hother
    exact iff_of_true trivial fun hatom => hother hatom.1

/-- A colon with a digit behind it is an atom that is not of the production. -/
theorem Lexer.produced_tokenAt_iff_digit :
    (ofSource (.ofString "f" ":1")).tokenAt 0 = ⟨.atom, ":1", ⟨"f", 0, 1, 1⟩⟩ ∧
      ¬ ((ofSource (.ofString "f" ":1")).tokenAt 0).Produced := by
  have htoken : (ofSource (.ofString "f" ":1")).tokenAt 0 = ⟨.atom, ":1", ⟨"f", 0, 1, 1⟩⟩ := by cbv
  refine ⟨htoken, ?_⟩
  rw [produced_tokenAt_iff, htoken, not_not]
  exact ⟨rfl, Production.mem_numbered.mpr ⟨'1', [], by decide, rfl, by simp⟩⟩

end ProtoLisp
