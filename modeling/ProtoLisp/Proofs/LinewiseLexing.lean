import ProtoLisp.Stream
import ProtoLisp.ReadError

/-!
# Tokens line by line

No token reaches over the end of a line.  So the tokens of a text that goes on after a newline are
those in front of the newline, as they are without the rest, and then those of the rest; unless a
character that starts no token stands in front, which ends the tokens for good.
-/

namespace ProtoLisp

/-- What a token is and says, wherever it stands. -/
def Token.word (token : Token) : Kind × String := (token.kind, token.text)

/-- A token at which no text ends too early: it is not the end of the text, nor does it report that
the text was interrupted. -/
def Token.Conclusive (token : Token) : Prop :=
  token.kind ≠ .eof ∧
    (token.kind = .error ∨ token.kind = .invalid → token.text ≠ Fault.interruption)

theorem Token.conclusive_of_kind {token : Token} (heof : token.kind ≠ .eof)
    (herror : token.kind ≠ .error) (hinvalid : token.kind ≠ .invalid) : token.Conclusive :=
  ⟨heof, fun hreport => (hreport.elim herror hinvalid).elim⟩

/-- A report that starts with more words than that of an interruption is another report. -/
theorem Fault.append_ne_interruption {phrase : String}
    (hlonger : interruption.length < phrase.length) (rest : String) :
    phrase ++ rest ≠ interruption := by
  intro heq
  have hlength := congrArg String.length heq
  rw [String.length_append] at hlength
  omega

/-! ### Runs of characters that another character ends -/

section Runs

variable {p : Char → Bool} {stop : Char}

theorem takeWhile_append_stop (hstop : p stop = false) (xs ys : List Char) :
    (xs ++ stop :: ys).takeWhile p = xs.takeWhile p := by
  induction xs with
  | nil => simp [hstop]
  | cons c xs ih => simp only [List.cons_append, List.takeWhile_cons, ih]

theorem dropWhile_append_stop (hstop : p stop = false) (xs ys : List Char) :
    (xs ++ stop :: ys).dropWhile p = xs.dropWhile p ++ stop :: ys := by
  induction xs with
  | nil => simp [hstop]
  | cons c xs ih =>
      simp only [List.cons_append, List.dropWhile_cons, ih]
      split <;> rfl

theorem startsWith_append_stop (hstop : p stop = false) (xs ys : List Char) :
    startsWith p (xs ++ stop :: ys) = startsWith p xs := by
  cases xs with
  | nil => simp [startsWith, hstop]
  | cons c xs => rfl

end Runs

theorem isDigit_eq_false_of_isWord_eq_false {c : Char} (hword : isWord c = false) :
    isDigit c = false := by
  simp only [isWord, Bool.or_eq_false_iff] at hword
  exact hword.1.2

theorem isSign_eq_false_of_isWord_eq_false {c : Char} (hword : isWord c = false) :
    isSign c = false := by
  cases hsign : isSign c with
  | false => rfl
  | true =>
      simp only [isSign, Bool.or_eq_true, beq_iff_eq] at hsign
      rcases hsign with rfl | rfl
      · exact absurd hword (by decide)
      · exact absurd hword (by decide)

theorem isWord_newline : isWord '\n' = false := by decide

namespace Lexeme

/-! ### Lexemes in front of a character that ends them -/

section Stop

variable {stop : Char} (hstop : isWord stop = false)

include hstop

theorem endNumber_append_stop (run rest ys : List Char) :
    endNumber run (rest ++ stop :: ys) = endNumber run rest := by
  cases rest with
  | nil => simp [endNumber, Option.filter, hstop]
  | cons c rest => rfl

theorem exponentDigits_append_stop (run rest ys : List Char) :
    exponentDigits run (rest ++ stop :: ys) = exponentDigits run rest := by
  have hdigit := isDigit_eq_false_of_isWord_eq_false hstop
  simp only [exponentDigits, startsWith_append_stop hdigit, takeWhile_append_stop hdigit,
    dropWhile_append_stop hdigit, endNumber_append_stop hstop]

theorem exponent_append_stop (run rest ys : List Char) :
    exponent run (rest ++ stop :: ys) = exponent run rest := by
  match rest with
  | [] =>
      have hmark : ¬ (stop == 'e' || stop == 'E') = true := by
        intro hmark
        simp only [Bool.or_eq_true, beq_iff_eq] at hmark
        rcases hmark with rfl | rfl
        · exact absurd hstop (by decide)
        · exact absurd hstop (by decide)
      have hend := endNumber_append_stop hstop run [] ys
      exact (if_neg hmark).trans hend
  | [c] =>
      have hdigits := exponentDigits_append_stop hstop (run ++ [c]) [] ys
      have hend := endNumber_append_stop hstop run [c] ys
      simp only [List.cons_append, List.nil_append] at hdigits hend
      simp [exponent, isSign_eq_false_of_isWord_eq_false hstop, hdigits, hend]
  | c :: s :: digits =>
      have hend := endNumber_append_stop hstop run (c :: s :: digits) ys
      have hunsigned := exponentDigits_append_stop hstop (run ++ [c]) (s :: digits) ys
      simp only [List.cons_append] at hend hunsigned
      simp only [List.cons_append, exponent, hend, hunsigned, exponentDigits_append_stop hstop]

theorem fraction_append_stop (run rest ys : List Char) :
    fraction run (rest ++ stop :: ys) = fraction run rest := by
  cases rest with
  | nil =>
      have hpoint : stop ≠ '.' := by
        rintro rfl
        exact absurd hstop (by decide)
      have hexponent := exponent_append_stop hstop run [] ys
      simp only [List.nil_append] at hexponent ⊢
      simp [fraction, hpoint, hexponent]
  | cons c digits =>
      have hdigit := isDigit_eq_false_of_isWord_eq_false hstop
      have hexponent := exponent_append_stop hstop run (c :: digits) ys
      simp only [List.cons_append] at hexponent
      simp only [List.cons_append, fraction, startsWith_append_stop hdigit,
        takeWhile_append_stop hdigit, dropWhile_append_stop hdigit, exponent_append_stop hstop,
        hexponent]

theorem number_append_stop (c : Char) (cs ys : List Char) :
    number c (cs ++ stop :: ys) = number c cs := by
  have hdigit := isDigit_eq_false_of_isWord_eq_false hstop
  simp only [number, takeWhile_append_stop hdigit, dropWhile_append_stop hdigit,
    fraction_append_stop hstop]

/-- A lexeme that is no comment is at its end where no word goes on. -/
theorem ofChars_append_stop {c : Char} (hcomment : c ≠ ';') (cs ys : List Char) :
    ofChars c (cs ++ stop :: ys) = ofChars c cs := by
  have hdigit := isDigit_eq_false_of_isWord_eq_false hstop
  simp only [ofChars, hcomment, if_false, takeWhile_append_stop hstop,
    startsWith_append_stop hstop, startsWith_append_stop hdigit, number_append_stop hstop]

end Stop

/-- What stands on later lines has no part in a lexeme. -/
theorem ofChars_append_newline (c : Char) (cs ys : List Char) :
    ofChars c (cs ++ '\n' :: ys) = ofChars c cs := by
  by_cases hcomment : c = ';'
  · have hline : (cs ++ '\n' :: ys).takeWhile (· != '\n') = cs.takeWhile (· != '\n') :=
      takeWhile_append_stop (by decide) cs ys
    simp only [ofChars, hcomment, hline]
    rfl
  · exact ofChars_append_stop isWord_newline hcomment cs ys

/-! ### Lexemes take up the characters in front -/

theorem prefix_run_exponentDigits (run rest : List Char) :
    (exponentDigits run rest).run <+: run ++ rest := by
  unfold exponentDigits
  split
  · rw [run_endNumber, List.prefix_append_right_inj]
    exact List.takeWhile_prefix isDigit
  · exact List.prefix_append run rest

theorem prefix_run_exponent (run rest : List Char) : (exponent run rest).run <+: run ++ rest := by
  match rest with
  | [] =>
      rw [exponent, run_endNumber]
      exact List.prefix_append run []
  | [c] =>
      simp only [exponent]
      split
      · exact prefix_run_exponentDigits (run ++ [c]) [] |>.trans (by simp)
      · rw [run_endNumber]
        exact List.prefix_append run [c]
  | c :: s :: digits =>
      simp only [exponent]
      split
      · split
        · exact (prefix_run_exponentDigits (run ++ [c, s]) digits).trans (by simp)
        · exact (prefix_run_exponentDigits (run ++ [c]) (s :: digits)).trans (by simp)
      · rw [run_endNumber]
        exact List.prefix_append run (c :: s :: digits)

theorem prefix_run_fraction (run rest : List Char) : (fraction run rest).run <+: run ++ rest := by
  cases rest with
  | nil => exact prefix_run_exponent run []
  | cons c digits =>
      simp only [fraction]
      split
      · split
        · have hrun := prefix_run_exponent (run ++ c :: digits.takeWhile isDigit)
            (digits.dropWhile isDigit)
          rwa [List.append_assoc, List.cons_append, List.takeWhile_append_dropWhile] at hrun
        · simp [badNumber, Lexeme.run]
      · exact prefix_run_exponent run (c :: digits)

theorem prefix_run_number (c : Char) (cs : List Char) : (number c cs).run <+: c :: cs := by
  have hrun := prefix_run_fraction (c :: cs.takeWhile isDigit) (cs.dropWhile isDigit)
  rwa [List.cons_append, List.takeWhile_append_dropWhile] at hrun

theorem prefix_run_ofChars (c : Char) (cs : List Char) : (ofChars c cs).run <+: c :: cs := by
  have hnumber := prefix_run_number c cs
  have hself : [c] <+: c :: cs := by simp
  have hwhile (p : Char → Bool) : c :: cs.takeWhile p <+: c :: cs := by
    simpa using List.takeWhile_prefix p
  unfold ofChars
  repeat' split
  · exact hself
  · exact hself
  · exact hself
  · exact hself
  · exact hwhile _
  · exact hwhile isWord
  · exact hself
  · exact hnumber
  · exact hwhile isWord
  · exact hself

theorem run_append_drop (c : Char) (cs : List Char) :
    (ofChars c cs).run ++ (c :: cs).drop (ofChars c cs).run.length = c :: cs :=
  List.prefix_iff_eq_append.mp (prefix_run_ofChars c cs)

/-! ### The token of a lexeme -/

def kind : Lexeme → Kind
  | .word kind _ => kind
  | .malformed _ _ => .error
  | .strange _ => .invalid

def text : Lexeme → String
  | .word _ run => String.ofList run
  | .malformed text _ => text
  | .strange c => "unexpected text starting with " ++ Text.quoteChar c

/-- No token follows the lexeme, whatever stands behind it. -/
def isLast : Lexeme → Bool
  | .strange _ => true
  | _ => false

theorem kind_of_isLast {lexeme : Lexeme} (hlast : lexeme.isLast = true) :
    lexeme.kind = .invalid := by
  cases lexeme with
  | word kind run => cases hlast
  | malformed text run => cases hlast
  | strange c => rfl

/-! ### What lexemes report -/

def IsNumeric (lexeme : Lexeme) : Prop :=
  (∃ run, lexeme = .word .number run) ∨ ∃ shown run, lexeme = badNumber shown run

theorem isNumeric_endNumber (run rest : List Char) : (endNumber run rest).IsNumeric := by
  unfold endNumber
  split
  · exact .inr ⟨_, _, rfl⟩
  · exact .inl ⟨_, rfl⟩

theorem isNumeric_exponentDigits (run rest : List Char) : (exponentDigits run rest).IsNumeric := by
  unfold exponentDigits
  split
  · exact isNumeric_endNumber _ _
  · exact .inr ⟨_, _, rfl⟩

theorem isNumeric_exponent (run rest : List Char) : (exponent run rest).IsNumeric := by
  unfold exponent
  repeat' split
  · exact isNumeric_exponentDigits _ _
  · exact isNumeric_exponentDigits _ _
  · exact isNumeric_exponentDigits _ _
  · exact isNumeric_endNumber _ _
  · exact isNumeric_endNumber _ _

theorem isNumeric_fraction (run rest : List Char) : (fraction run rest).IsNumeric := by
  unfold fraction
  repeat' split
  · exact isNumeric_exponent _ _
  · exact .inr ⟨_, _, rfl⟩
  · exact isNumeric_exponent _ _
  · exact isNumeric_exponent _ _

theorem text_badNumber_ne (shown run : List Char) :
    (badNumber shown run).text ≠ Fault.interruption :=
  Fault.append_ne_interruption (by decide) (String.ofList shown)

theorem conclusive_ofChars (c : Char) (cs : List Char) (location : Location) :
    Token.Conclusive ⟨(ofChars c cs).kind, (ofChars c cs).text, location⟩ := by
  have hword (kind : Kind) (run : List Char) (heof : kind ≠ .eof) (herror : kind ≠ .error)
      (hinvalid : kind ≠ .invalid) :
      Token.Conclusive ⟨(Lexeme.word kind run).kind, (Lexeme.word kind run).text, location⟩ :=
    Token.conclusive_of_kind heof herror hinvalid
  unfold ofChars
  repeat' split
  · exact hword _ _ nofun nofun nofun
  · exact hword _ _ nofun nofun nofun
  · exact hword _ _ nofun nofun nofun
  · exact hword _ _ nofun nofun nofun
  · exact hword _ _ nofun nofun nofun
  · exact hword _ _ nofun nofun nofun
  · exact ⟨nofun, fun _ => Fault.append_ne_interruption (by decide) (Text.quoteChar c)⟩
  · rcases isNumeric_fraction (c :: cs.takeWhile isDigit) (cs.dropWhile isDigit) with
      ⟨run, hrun⟩ | ⟨shown, run, hrun⟩
    · rw [number, hrun]
      exact hword _ _ nofun nofun nofun
    · rw [number, hrun]
      exact ⟨nofun, fun _ => text_badNumber_ne shown run⟩
  · exact hword _ _ nofun nofun nofun
  · exact ⟨nofun, fun _ => Fault.append_ne_interruption (by decide) (Text.quoteChar c)⟩

end Lexeme

theorem Lexer.ofLexeme_eq (cursor : Cursor) (lexeme : Lexeme) (htaken : cursor.taken = lexeme.run) :
    ofLexeme cursor lexeme =
      (⟨lexeme.kind, lexeme.text, cursor.startLocation⟩,
        ⟨cursor.ignore, if lexeme.isLast then some (.failure lexeme.text) else none⟩) := by
  cases lexeme with
  | word kind run => simp only [ofLexeme, Cursor.emit, Cursor.text, htaken]; rfl
  | malformed text run => rfl
  | strange c => rfl

/-- What a lexer finds behind the blanks ahead is the lexeme at the front of the rest. -/
theorem Lexer.word?_eq {cursor : Cursor} {c : Char} {cs : List Char}
    (hrest : cursor.rest.dropWhile Text.isBlank = c :: cs) :
    let lexeme := Lexeme.ofChars c cs
    let start := skipBlanks cursor
    word? ⟨cursor, none⟩ =
      some (⟨lexeme.kind, lexeme.text, start.startLocation⟩,
        ⟨(start.consume lexeme.run ((c :: cs).drop lexeme.run.length)).ignore,
          if lexeme.isLast then some (.failure lexeme.text) else none⟩) := by
  intro lexeme start
  have hstart : start.rest = c :: cs := hrest
  simp only [word?, Option.isSome_none, Bool.false_eq_true, if_false]
  rw [show skipBlanks cursor = start from rfl, hstart]
  exact congrArg some (ofLexeme_eq _ _ rfl)

namespace Stream

/-! ### The stream of a text -/

/-- Why the characters end at `place`, before a stray byte or at the end of the text. -/
def ending (stray : Option UInt8) (place : Location) : Halt :=
  match stray with
  | none => .eof
  | some byte => .failure (place.text ++ ": invalid utf-8 sequence starting with byte " ++
      Text.quoteChar (Char.ofNat byte.toNat))

def cons (token : Token) (stream : Stream) : Stream :=
  { stream with tokens := token :: stream.tokens }

/-- The stream of the characters `cs`, the first of which stands at `here`. -/
def along (file : String) (stray : Option UInt8) (here : Mark) : List Char → Stream
  | [] => ⟨[], ending stray (here.inFile file), here.inFile file⟩
  | c :: cs =>
    if Text.isBlank c then along file stray (here.after c) cs
    else
      let lexeme := Lexeme.ofChars c cs
      let behind := here.afterAll lexeme.run
      cons ⟨lexeme.kind, lexeme.text, here.inFile file⟩
        (if lexeme.isLast then ⟨[], .failure lexeme.text, behind.inFile file⟩
        else along file stray behind ((c :: cs).drop lexeme.run.length))
termination_by cs => cs.length
decreasing_by
  · simp
  · have hpos := Lexeme.length_run_pos c cs
    simp only [List.length_drop, List.length_cons]
    omega

section Along

variable (file : String) (stray : Option UInt8) (here : Mark)

theorem along_nil :
    along file stray here [] = ⟨[], ending stray (here.inFile file), here.inFile file⟩ := by
  rw [along]

theorem along_blank {c : Char} (hblank : Text.isBlank c = true) (cs : List Char) :
    along file stray here (c :: cs) = along file stray (here.after c) cs := by
  rw [along, if_pos hblank]

theorem along_lexeme {c : Char} (hblank : ¬ Text.isBlank c = true) (cs : List Char) :
    along file stray here (c :: cs) =
      cons ⟨(Lexeme.ofChars c cs).kind, (Lexeme.ofChars c cs).text, here.inFile file⟩
        (if (Lexeme.ofChars c cs).isLast then
          ⟨[], .failure (Lexeme.ofChars c cs).text,
            (here.afterAll (Lexeme.ofChars c cs).run).inFile file⟩
        else along file stray (here.afterAll (Lexeme.ofChars c cs).run)
          ((c :: cs).drop (Lexeme.ofChars c cs).run.length)) := by
  rw [along, if_neg hblank]

theorem along_skip (cs : List Char) :
    along file stray here cs =
      along file stray (here.afterAll (cs.takeWhile Text.isBlank)) (cs.dropWhile Text.isBlank) := by
  induction cs generalizing here with
  | nil => rfl
  | cons c cs ih =>
      by_cases hblank : Text.isBlank c = true
      · rw [along_blank file stray here hblank, ih, List.takeWhile_cons_of_pos hblank,
          List.dropWhile_cons_of_pos hblank]
        rfl
      · rw [List.takeWhile_cons_of_neg hblank, List.dropWhile_cons_of_neg hblank]
        rfl

end Along

theorem ofLexer_of_word? {lexer lexer' : Lexer} {token : Token}
    (hword : lexer.word? = some (token, lexer')) :
    ofLexer lexer = cons token (ofLexer lexer') := by
  rw [ofLexer]
  split
  · rename_i hfound
    rw [hword] at hfound
    cases hfound
    rfl
  · rename_i hfound
    rw [hword] at hfound
    cases hfound

theorem ofLexer_of_word?_none {lexer : Lexer} (hword : lexer.word? = none) :
    ofLexer lexer = ⟨[], lexer.outcome.1, lexer.outcome.2.startLocation⟩ := by
  rw [ofLexer]
  split
  · rename_i hfound
    rw [hword] at hfound
    cases hfound
  · rfl

/-- A lexer that has not halted reports the characters ahead of its cursor. -/
theorem ofLexer_eq_along (cursor : Cursor) :
    ofLexer ⟨cursor, none⟩ = along cursor.file cursor.stray cursor.here cursor.rest := by
  induction hlength : cursor.rest.length using Nat.strongRecOn generalizing cursor with
  | ind n ih =>
      rw [along_skip]
      cases hrest : cursor.rest.dropWhile Text.isBlank with
      | nil =>
          have hword : Lexer.word? ⟨cursor, none⟩ = none := by
            simp [Lexer.word?, Lexer.skipBlanks, Cursor.consume, Cursor.ignore, hrest]
          rw [ofLexer_of_word?_none hword, along_nil]
          rfl
      | cons c cs =>
          have hblank : ¬ Text.isBlank c = true := by
            have hhead := List.head?_dropWhile_not Text.isBlank cursor.rest
            rw [hrest] at hhead
            simpa using hhead
          let lexeme := Lexeme.ofChars c cs
          let start := Lexer.skipBlanks cursor
          let after := (start.consume lexeme.run ((c :: cs).drop lexeme.run.length)).ignore
          have hword := Lexer.word?_eq hrest
          have hshorter := Lexer.length_rest_lt_of_word? hword
          rw [ofLexer_of_word? hword, along_lexeme _ _ _ hblank]
          refine congrArg (cons _) ?_
          cases lexeme.isLast with
          | true =>
              have hhalted : Lexer.word? ⟨after, some (.failure lexeme.text)⟩ = none := rfl
              exact ofLexer_of_word?_none hhalted
          | false => exact ih _ (hlength ▸ hshorter) after rfl

theorem ofSource_ofBytes (file : String) (bytes : ByteArray) :
    ofSource (.ofBytes file bytes) =
      along file (Source.decodeFrom bytes 0).2 .first (Source.decodeFrom bytes 0).1 :=
  ofLexer_eq_along (.ofSource (.ofBytes file bytes))

/-! ### Lines -/

/-- The stream `first`, which goes on with `second` if it reaches the end of its text. -/
def andThen (first second : Stream) : Stream :=
  match first.halt with
  | .eof => { second with tokens := first.tokens ++ second.tokens }
  | .failure _ => first

theorem andThen_of_eof {first : Stream} (heof : first.halt = .eof) (second : Stream) :
    first.andThen second = { second with tokens := first.tokens ++ second.tokens } := by
  rw [andThen, heof]

theorem andThen_cons (token : Token) (first second : Stream) :
    (cons token first).andThen second = cons token (first.andThen second) := by
  obtain ⟨tokens, halt, place⟩ := first
  cases halt <;> rfl

theorem tokens_prefix_andThen (first second : Stream) :
    first.tokens <+: (first.andThen second).tokens := by
  unfold andThen
  cases first.halt with
  | eof => exact List.prefix_append first.tokens second.tokens
  | failure text => exact List.prefix_refl first.tokens

/-- A text that goes on after a newline has the tokens of its first part, and then those of the
rest. -/
theorem along_append_newline (file : String) (stray : Option UInt8) (here : Mark)
    (xs ys : List Char) :
    along file stray here (xs ++ '\n' :: ys) =
      (along file none here xs).andThen (along file stray (here.afterAll (xs ++ ['\n'])) ys) := by
  fun_induction along file none here xs with
  | case1 here => exact along_blank file stray here (by decide) ys
  | case2 here c xs hblank ih =>
      rw [List.cons_append, along_blank file stray here hblank, ih]
      rfl
  | case3 here c xs hblank lexeme behind ih =>
      -- The lexeme is the same with the next lines behind it, and the rest is cut off at its end.
      obtain ⟨rest, hrest⟩ := Lexeme.prefix_run_ofChars c xs
      have hdrop : (c :: xs).drop lexeme.run.length = rest := by
        rw [← hrest, List.drop_left]
      have hdrop' : (c :: (xs ++ '\n' :: ys)).drop lexeme.run.length = rest ++ '\n' :: ys := by
        rw [← List.cons_append, ← hrest, List.append_assoc, List.drop_left]
      have hmark : behind.afterAll (rest ++ ['\n']) = here.afterAll (c :: xs ++ ['\n']) := by
        rw [← hrest, List.append_assoc, Mark.afterAll_append here]
      rw [hdrop, hmark, ← hdrop'] at ih
      rw [List.cons_append, along_lexeme file stray here hblank, andThen_cons,
        Lexeme.ofChars_append_newline]
      refine congrArg (cons _) ?_
      cases lexeme.isLast with
      | true => rfl
      | false => exact hdrop ▸ ih

/-! ### Words and places -/

/-- The words of a text do not depend on where it stands. -/
theorem words_along (file file' : String) (here here' : Mark) (cs : List Char) :
    (along file none here cs).tokens.map Token.word =
      (along file' none here' cs).tokens.map Token.word ∧
    (along file none here cs).halt = (along file' none here' cs).halt := by
  fun_induction along file none here cs generalizing here' with
  | case1 here =>
      rw [along_nil]
      exact ⟨rfl, rfl⟩
  | case2 here c cs hblank ih =>
      rw [along_blank file' none here' hblank]
      exact ih (here'.after c)
  | case3 here c cs hblank lexeme behind ih =>
      rw [along_lexeme file' none here' hblank]
      cases lexeme.isLast with
      | true => exact ⟨rfl, rfl⟩
      | false =>
          obtain ⟨hwords, hhalt⟩ := ih (here'.afterAll lexeme.run)
          exact ⟨congrArg (List.cons _) hwords, hhalt⟩

/-- A well-formed text ends where it ends, unless it holds a character that starts no token. -/
theorem halt_along (file : String) (here : Mark) (cs : List Char) :
    (along file none here cs).halt = .eof ∨
      ∃ token ∈ (along file none here cs).tokens, token.kind = .invalid := by
  fun_induction along file none here cs with
  | case1 here => exact .inl rfl
  | case2 here c cs hblank ih => exact ih
  | case3 here c cs hblank lexeme behind ih =>
      cases hlast : lexeme.isLast with
      | true =>
          exact .inr ⟨_, List.mem_cons_self, Lexeme.kind_of_isLast hlast⟩
      | false =>
          refine ih.imp id ?_
          intro ⟨token, hmem, hkind⟩
          exact ⟨token, List.mem_cons_of_mem _ hmem, hkind⟩

theorem halt_along_stray (file : String) (byte : UInt8) (here : Mark) (cs : List Char) :
    ∃ text, (along file (some byte) here cs).halt = .failure text := by
  fun_induction along file (some byte) here cs with
  | case1 here => exact ⟨_, rfl⟩
  | case2 here c cs hblank ih => exact ih
  | case3 here c cs hblank lexeme behind ih =>
      cases lexeme.isLast with
      | true => exact ⟨_, rfl⟩
      | false => exact ih

theorem stray_of_halt {file : String} {stray : Option UInt8} {here : Mark} {cs : List Char}
    (heof : (along file stray here cs).halt = .eof) : stray = none := by
  cases stray with
  | none => rfl
  | some byte =>
      obtain ⟨text, hhalt⟩ := halt_along_stray file byte here cs
      rw [hhalt] at heof
      cases heof

/-- Whatever a text reports, it is never that it was interrupted. -/
theorem conclusive_along (file : String) (stray : Option UInt8) (here : Mark) (cs : List Char) :
    (∀ token ∈ (along file stray here cs).tokens, token.Conclusive) ∧
      ∀ text, (along file stray here cs).halt = .failure text → text ≠ Fault.interruption := by
  fun_induction along file stray here cs with
  | case1 here =>
      refine ⟨by simp, ?_⟩
      intro text hhalt
      cases stray with
      | none => cases hhalt
      | some byte =>
          cases hhalt
          refine Fault.append_ne_interruption ?_ _
          rw [String.length_append]
          exact Nat.lt_add_left _ (by decide)
  | case2 here c cs hblank ih => exact ih
  | case3 here c cs hblank lexeme behind ih =>
      have hhead : Token.Conclusive ⟨lexeme.kind, lexeme.text, here.inFile file⟩ :=
        Lexeme.conclusive_ofChars c cs (here.inFile file)
      cases hlast : lexeme.isLast with
      | true =>
          refine ⟨by simpa [cons] using hhead, ?_⟩
          intro text hhalt
          cases hhalt
          exact hhead.2 (.inr (Lexeme.kind_of_isLast hlast))
      | false =>
          refine ⟨?_, ih.2⟩
          intro token hmem
          cases hmem with
          | head => exact hhead
          | tail _ hmem => exact ih.1 token hmem

/-! ### Tokens come from lexemes -/

theorem exists_lexeme_of_mem_along {file : String} {stray : Option UInt8} {here : Mark}
    {cs : List Char} {token : Token} (hmem : token ∈ (along file stray here cs).tokens) :
    ∃ c cs, ¬ Text.isBlank c = true ∧ token.kind = (Lexeme.ofChars c cs).kind ∧
      token.text = (Lexeme.ofChars c cs).text := by
  fun_induction along file stray here cs with
  | case1 here => cases hmem
  | case2 here c cs hblank ih => exact ih hmem
  | case3 here c cs hblank lexeme behind ih =>
      cases hmem with
      | head => exact ⟨c, cs, hblank, rfl, rfl⟩
      | tail _ hmem =>
          split at hmem
          · cases hmem
          · exact ih hmem

/-- Every token that a lexer finds is that of the lexeme at the front of some text. -/
theorem exists_lexeme_of_mem {lexer : Lexer} {token : Token}
    (hmem : token ∈ (ofLexer lexer).tokens) :
    ∃ c cs, ¬ Text.isBlank c = true ∧ token.kind = (Lexeme.ofChars c cs).kind ∧
      token.text = (Lexeme.ofChars c cs).text := by
  obtain ⟨cursor, halted⟩ := lexer
  cases halted with
  | none =>
      rw [ofLexer_eq_along] at hmem
      exact exists_lexeme_of_mem_along hmem
  | some why =>
      have hword : Lexer.word? ⟨cursor, some why⟩ = none := rfl
      rw [ofLexer_of_word?_none hword] at hmem
      cases hmem

end Stream

end ProtoLisp
