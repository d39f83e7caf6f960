import Mathlib
import ProtoLisp.Proofs.Tiling

/-!
# Tokens one after the other

A lexer can be asked for a token at any time, and as often as one likes.  Each call either takes up
characters of the text or reports why there is no word.  The reports that nothing can be found any
more, of the end of the text, of a failure or of a character that starts no token, come back at every
later call.

The calls give the tokens of the lexer's stream, and then its halt for ever.
-/

namespace ProtoLisp

namespace Lexeme

theorem ofChars_ne_invalid (c : Char) (cs run : List Char) : ofChars c cs ≠ .word .invalid run := by
  intro hlexeme
  unfold ofChars at hlexeme
  repeat' split at hlexeme
  all_goals first
    | exact absurd hlexeme (number_ne_word nofun)
    | cases hlexeme

theorem isLast_of_kind {c : Char} {cs : List Char} (hkind : (ofChars c cs).kind = .invalid) :
    (ofChars c cs).isLast = true := by
  generalize hlexeme : ofChars c cs = lexeme at hkind
  cases lexeme with
  | word kind run =>
      obtain rfl : kind = .invalid := hkind
      exact absurd hlexeme (ofChars_ne_invalid c cs run)
  | malformed text run => cases hkind
  | strange c => rfl

end Lexeme

namespace Lexer

/-- The lexer after it has given `n` tokens. -/
def after (lexer : Lexer) (n : Nat) : Lexer := (fun lexer => lexer.next.2)^[n] lexer

/-- The token that the lexer gives after `n` others. -/
def tokenAt (lexer : Lexer) (n : Nat) : Token := (lexer.after n).next.1

/-! ### Calls and streams -/

/-- No character has been taken for the next token. -/
def Fresh (lexer : Lexer) : Prop := lexer.cursor.start = lexer.cursor.here

theorem fresh_ofSource (source : Source) : (ofSource source).Fresh := rfl

/-- A token that a lexer finds is that of the lexeme behind the blanks ahead, and the lexer goes on
behind the lexeme unless this is its last. -/
theorem exists_lexeme_of_word? {lexer lexer' : Lexer} {token : Token}
    (hword : lexer.word? = some (token, lexer')) :
    ∃ c cs, (skipBlanks lexer.cursor).rest = c :: cs ∧
      let lexeme := Lexeme.ofChars c cs
      let start := skipBlanks lexer.cursor
      token = ⟨lexeme.kind, lexeme.text, start.startLocation⟩ ∧
        lexer' = ⟨(start.consume lexeme.run ((c :: cs).drop lexeme.run.length)).ignore,
          if lexeme.isLast then some (.failure lexeme.text) else none⟩ := by
  obtain ⟨cursor, halted⟩ := lexer
  cases halted with
  | some why => cases hword
  | none =>
      cases hrest : cursor.rest.dropWhile Text.isBlank with
      | nil =>
          have hnone : word? ⟨cursor, none⟩ = none := by
            simp [word?, skipBlanks, Cursor.consume, Cursor.ignore, hrest]
          rw [hnone] at hword
          cases hword
      | cons c cs =>
          rw [word?_eq hrest] at hword
          cases hword
          exact ⟨c, cs, hrest, rfl, rfl⟩

theorem fresh_of_word? {lexer lexer' : Lexer} {token : Token}
    (hword : lexer.word? = some (token, lexer')) : lexer'.Fresh := by
  obtain ⟨c, cs, -, -, rfl⟩ := exists_lexeme_of_word? hword
  rfl

theorem next_of_none {lexer : Lexer} (hword : lexer.word? = none) :
    lexer.next =
      (⟨lexer.outcome.1.kind, lexer.outcome.1.message, lexer.outcome.2.startLocation⟩,
        ⟨lexer.outcome.2.ignore, some lexer.outcome.1⟩) := by
  rw [next, hword]
  rfl

theorem fresh_next (lexer : Lexer) : lexer.next.2.Fresh := by
  cases hword : lexer.word? with
  | none =>
      rw [next_of_none hword]
      rfl
  | some found =>
      rw [next_of_word? hword]
      exact fresh_of_word? hword

end Lexer

namespace Stream

theorem head_ofLexer (lexer : Lexer) : (ofLexer lexer).head = lexer.next.1 := by
  cases hword : lexer.word? with
  | none =>
      rw [Lexer.next_of_word?_none hword, ofLexer_of_word?_none hword]
      rfl
  | some found =>
      rw [Lexer.next_of_word? hword, ofLexer_of_word? hword]
      rfl

theorem tail_ofLexer {lexer : Lexer} (hfresh : lexer.Fresh) :
    (ofLexer lexer).tail = ofLexer lexer.next.2 := by
  cases hword : lexer.word? with
  | some found =>
      rw [Lexer.next_of_word? hword, ofLexer_of_word? hword]
      rfl
  | none =>
      have hstart : lexer.outcome.2.start = lexer.outcome.2.here := by
        unfold Lexer.outcome
        split
        · exact hfresh
        · rfl
      have hstays : Lexer.word? ⟨lexer.outcome.2.ignore, some lexer.outcome.1⟩ = none := rfl
      rw [Lexer.next_of_none hword, ofLexer_of_word?_none hword, ofLexer_of_word?_none hstays]
      have hplace : lexer.outcome.2.startLocation = lexer.outcome.2.ignore.startLocation := by
        rw [Cursor.startLocation, hstart]
        rfl
      rw [hplace]
      rfl

end Stream

theorem Stream.tails_ofLexer {lexer : Lexer} (hfresh : lexer.Fresh) (n : Nat) :
    tail^[n] (ofLexer lexer) = ofLexer (lexer.after n) := by
  induction n generalizing lexer with
  | zero => rfl
  | succ n ih =>
      rw [Function.iterate_succ_apply, tail_ofLexer hfresh, ih lexer.fresh_next]
      rfl

theorem Stream.tails_eq (stream : Stream) (n : Nat) :
    tail^[n] stream = { stream with tokens := stream.tokens.drop n } := by
  induction n generalizing stream with
  | zero => rfl
  | succ n ih =>
      rw [Function.iterate_succ_apply, ih]
      simp [tail]

/-- Every token that a lexer gives is one of its stream, or reports the halt of the stream. -/
theorem Lexer.tokenAt_mem {lexer : Lexer} (hfresh : lexer.Fresh) (n : Nat) :
    lexer.tokenAt n ∈ (Stream.ofLexer lexer).tokens ∨
      lexer.tokenAt n = (Stream.ofLexer lexer).halting := by
  have htoken : lexer.tokenAt n = (Stream.tail^[n] (Stream.ofLexer lexer)).head := by
    rw [Stream.tails_ofLexer hfresh, Stream.head_ofLexer]
    rfl
  rw [htoken, Stream.tails_eq]
  generalize Stream.ofLexer lexer = stream
  cases hdrop : stream.tokens.drop n with
  | nil => exact .inr rfl
  | cons token tokens =>
      left
      have hmem : token ∈ stream.tokens.drop n := by simp [hdrop]
      exact List.mem_of_mem_drop hmem

/-- What a reader takes, one by one, are the tokens that the lexer of its source gives. -/
theorem Reader.current_readTokens (source : Source) (n : Nat) :
    (readToken^[n + 1] (ofSource source)).current = some ((Lexer.ofSource source).tokenAt n) := by
  have hahead (reader : Reader) : (readToken^[n] reader).ahead = Stream.tail^[n] reader.ahead := by
    induction n generalizing reader with
    | zero => rfl
    | succ n ih => exact ih reader.readToken
  rw [Function.iterate_succ_apply', readToken, hahead]
  show some (Stream.tail^[n] (Stream.ofLexer _)).head = _
  rw [Stream.tails_ofLexer (Lexer.fresh_ofSource source), Stream.head_ofLexer]
  rfl

/-! ### Progress -/

theorem Mark.length_le_pos_afterAll (m : Mark) (cs : List Char) :
    m.pos + cs.length ≤ (m.afterAll cs).pos := by
  induction cs generalizing m with
  | nil => exact Nat.le_refl _
  | cons c cs ih =>
      have hstep := m.pos_after c
      have hsize := c.utf8Size_pos
      have hrest := ih (m.after c)
      show m.pos + (cs.length + 1) ≤ ((m.after c).afterAll cs).pos
      omega

namespace Lexer

/-- A token that a lexer finds takes up bytes of the text. -/
theorem pos_lt_of_word? {lexer lexer' : Lexer} {token : Token}
    (hword : lexer.word? = some (token, lexer')) :
    lexer.cursor.here.pos < lexer'.cursor.here.pos := by
  obtain ⟨c, cs, -, -, rfl⟩ := exists_lexeme_of_word? hword
  let blanks := lexer.cursor.rest.takeWhile Text.isBlank
  let lexeme := Lexeme.ofChars c cs
  have hblanks := lexer.cursor.here.length_le_pos_afterAll blanks
  have hrun := (lexer.cursor.here.afterAll blanks).length_le_pos_afterAll lexeme.run
  have hpos : 0 < lexeme.run.length := Lexeme.length_run_pos c cs
  show _ < ((lexer.cursor.here.afterAll blanks).afterAll lexeme.run).pos
  omega

/-! ### Reports that stay -/

/-- The lexer finds no token any more, for the reason `why`. -/
structure Ended (lexer : Lexer) (why : Halt) : Prop where
  word? : lexer.word? = none
  outcome : lexer.outcome.1 = why

theorem ended_of_halted {lexer : Lexer} {why : Halt} (hhalted : lexer.halted = some why) :
    lexer.Ended why := by
  obtain ⟨cursor, halted⟩ := lexer
  obtain rfl : halted = some why := hhalted
  exact ⟨rfl, rfl⟩

theorem Ended.halted_next {lexer : Lexer} {why : Halt} (hended : lexer.Ended why) :
    lexer.next.2.halted = some why := by
  rw [next_of_none hended.word?, hended.outcome]

theorem Ended.next {lexer : Lexer} {why : Halt} (hended : lexer.Ended why) :
    lexer.next.2.Ended why :=
  ended_of_halted hended.halted_next

theorem Ended.word_tokenAt {lexer : Lexer} {why : Halt} (hended : lexer.Ended why) (n : Nat) :
    (lexer.tokenAt n).word = (why.kind, why.message) := by
  induction n generalizing lexer with
  | zero =>
      show lexer.next.1.word = _
      rw [next_of_none hended.word?, hended.outcome]
      rfl
  | succ n ih => exact ih hended.next

theorem ended_of_eof {lexer : Lexer} (hkind : lexer.next.1.kind = .eof) : lexer.Ended .eof := by
  cases hword : lexer.word? with
  | none =>
      refine ⟨hword, ?_⟩
      rw [next_of_none hword] at hkind
      cases hwhy : lexer.outcome.1 with
      | eof => rfl
      | failure text =>
          rw [hwhy] at hkind
          cases hkind
  | some found =>
      rw [next_of_word? hword] at hkind
      obtain ⟨c, cs, -, htoken, -⟩ := exists_lexeme_of_word? hword
      have hconclusive := Lexeme.conclusive_ofChars c cs found.1.location
      rw [htoken] at hkind
      exact absurd hkind hconclusive.1

/-- After a character that starts no token there is no token any more. -/
theorem ended_of_invalid {lexer : Lexer} (hkind : lexer.next.1.kind = .invalid) :
    lexer.next.2.Ended (.failure lexer.next.1.text) := by
  cases hword : lexer.word? with
  | none =>
      rw [next_of_none hword] at hkind
      cases hwhy : lexer.outcome.1 <;> rw [hwhy] at hkind <;> cases hkind
  | some found =>
      obtain ⟨token, lexer'⟩ := found
      rw [next_of_word? hword] at hkind ⊢
      obtain ⟨c, cs, -, rfl, rfl⟩ := exists_lexeme_of_word? hword
      apply ended_of_halted
      simp only [Lexeme.isLast_of_kind hkind, if_true]

/-- The next character cannot be scanned, because of the failure `text`; or a failure has ended the
tokens before. -/
def Fails (lexer : Lexer) (text : String) : Prop :=
  lexer.halted = some (.failure text) ∨
    lexer.halted = none ∧ (skipBlanks lexer.cursor).scan = .error (.failure text)

theorem Fails.ended {lexer : Lexer} {text : String} (hfails : lexer.Fails text) :
    lexer.Ended (.failure text) := by
  rcases hfails with hhalted | ⟨hrunning, hscan⟩
  · exact ended_of_halted hhalted
  · obtain ⟨cursor, halted⟩ := lexer
    obtain rfl : halted = none := hrunning
    unfold Cursor.scan at hscan
    split at hscan
    · cases hscan
    · rename_i hrest
      exact ⟨by simp [word?, hrest], Except.error.inj hscan⟩

theorem fails_of_outcome {lexer : Lexer} {text : String} (hword : lexer.word? = none)
    (hwhy : lexer.outcome.1 = .failure text) : lexer.Fails text := by
  obtain ⟨cursor, halted⟩ := lexer
  cases halted with
  | some why => exact .inl (congrArg some hwhy)
  | none =>
      right
      refine ⟨rfl, ?_⟩
      cases hrest : (skipBlanks cursor).rest with
      | nil =>
          rw [Cursor.scan, hrest]
          exact congrArg Except.error hwhy
      | cons c cs =>
          simp [word?, hrest] at hword

end Lexer

/-! ### Streams of sources -/

namespace Stream

theorem ofSource_of_read {source : Source} (hread : source.readError = none) :
    ofSource source = along source.file source.stray .first source.chars := by
  have hrunning : Lexer.ofSource source = ⟨.ofSource source, none⟩ := by
    rw [Lexer.ofSource, hread]
    rfl
  rw [ofSource, hrunning, ofLexer_eq_along]
  rfl

theorem ofSource_of_unread {source : Source} {text : String}
    (hread : source.readError = some text) :
    ofSource source = ⟨[], .failure text, Mark.first.inFile source.file⟩ := by
  have hhalted : (Lexer.ofSource source).halted = some (.failure text) := by
    rw [Lexer.ofSource, hread]
    rfl
  have hended := Lexer.ended_of_halted hhalted
  rw [ofSource, ofLexer_of_word?_none hended.word?, hended.outcome]
  simp only [Lexer.outcome, hhalted]
  rfl

/-! ### Places in the text -/

/-- The location is one behind a front part of the characters, the first of which stands at `here`. -/
def Places (file : String) (here : Mark) (cs : List Char) (location : Location) : Prop :=
  ∃ front, front <+: cs ∧ location = (here.afterAll front).inFile file

theorem Places.behind {file : String} {here : Mark} {run rest cs : List Char}
    {location : Location} (hplaces : Places file (here.afterAll run) rest location)
    (hcs : run ++ rest = cs) : Places file here cs location := by
  obtain ⟨front, hfront, rfl⟩ := hplaces
  refine ⟨run ++ front, ?_, by rw [Mark.afterAll_append]⟩
  rw [← hcs]
  exact List.prefix_append_right_inj run |>.mpr hfront

/-- All that a text reports is located in the text or at its end. -/
theorem places_along (file : String) (stray : Option UInt8) (here : Mark) (cs : List Char) :
    (∀ token ∈ (along file stray here cs).tokens, Places file here cs token.location) ∧
      Places file here cs (along file stray here cs).place := by
  fun_induction along file stray here cs with
  | case1 here => exact ⟨by simp, [], List.nil_prefix, rfl⟩
  | case2 here c cs hblank ih =>
      have hbehind {location : Location} (hplaces : Places file (here.after c) cs location) :
          Places file here (c :: cs) location := by
        have hrun : Places file (here.afterAll [c]) cs location := hplaces
        exact hrun.behind rfl
      exact ⟨fun token hmem => hbehind (ih.1 token hmem), hbehind ih.2⟩
  | case3 here c cs hblank lexeme behind ih =>
      have hsplit : lexeme.run ++ (c :: cs).drop lexeme.run.length = c :: cs :=
        Lexeme.run_append_drop c cs
      have hhead : Places file here (c :: cs) (here.inFile file) := ⟨[], List.nil_prefix, rfl⟩
      split
      · refine ⟨?_, lexeme.run, Lexeme.prefix_run_ofChars c cs, rfl⟩
        intro token hmem
        obtain rfl := List.mem_singleton.mp hmem
        exact hhead
      · refine ⟨?_, ih.2.behind hsplit⟩
        intro token hmem
        rcases List.mem_cons.mp hmem with rfl | hmem
        · exact hhead
        · exact (ih.1 token hmem).behind hsplit

end Stream

/-! ### Interruptions -/

theorem Kind.Spelled.ne_interruption {kind : Kind} {cs : List Char} (hspelled : kind.Spelled cs) :
    cs ≠ Fault.interruption.toList := by
  rintro rfl
  obtain ⟨c, rest, hcs, -, hlexeme⟩ := hspelled
  have hchars : Fault.interruption.toList = 'u' :: "nexpected EOF".toList := by decide
  obtain ⟨rfl, rfl⟩ := List.cons.inj (hchars.symm.trans hcs)
  cases hlexeme

/-- Only a source that could not be read has a token that says that the text was interrupted. -/
theorem Lexer.readError_of_interruption {source : Source} {n : Nat}
    (htext : ((ofSource source).tokenAt n).text = Fault.interruption) :
    source.readError = some Fault.interruption := by
  have hmem := tokenAt_mem (fresh_ofSource source) n
  generalize (ofSource source).tokenAt n = token at htext hmem
  change token ∈ (Stream.ofSource source).tokens ∨ token = (Stream.ofSource source).halting at hmem
  cases hread : source.readError with
  | some text =>
      rw [Stream.ofSource_of_unread hread] at hmem
      rcases hmem with hmem | rfl
      · cases hmem
      · exact congrArg some htext
  | none =>
      have hconclusive := Stream.conclusive_along source.file source.stray .first source.chars
      rw [← Stream.ofSource_of_read hread] at hconclusive
      rcases hmem with hmem | rfl
      · cases hkind : token.kind.isReport with
        | true =>
            have hreport := hconclusive.1 token hmem
            have hbad := (Kind.isReport_iff.mp hkind).resolve_left hreport.1
            exact absurd htext (hreport.2 hbad)
        | false =>
            have hspelled := Stream.spelled_of_mem hmem hkind
            exact absurd (congrArg String.toList htext) hspelled.ne_interruption
      · cases hhalt : (Stream.ofSource source).halt with
        | eof =>
            rw [Stream.halting, hhalt] at htext
            have hempty : "" ≠ Fault.interruption := by decide
            exact absurd htext hempty
        | failure text =>
            rw [Stream.halting, hhalt] at htext
            exact absurd htext (hconclusive.2 text hhalt)

end ProtoLisp
