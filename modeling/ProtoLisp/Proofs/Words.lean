import ProtoLisp.Proofs.RoundTrip

/-!
# Words and reports

A lexer that is asked again and again gives words, until it reports that it has found none: the text
is at its end, or what stands there is no word.  Its transcript is all of this.

What a word is does not depend on its neighbours.  Each word of a transcript is one again when it
stands alone, and the words written one to a line make a text with the same words.
-/

namespace ProtoLisp

/-- Words, and the report that follows them. -/
structure Transcript where
  words : List Token
  report : Token

def Transcript.cons (word : Token) (transcript : Transcript) : Transcript :=
  { transcript with words := word :: transcript.words }

/-! ### Asking for tokens -/

theorem Stream.isReport_halting (stream : Stream) : stream.halting.kind.isReport = true := by
  obtain ⟨tokens, halt, place⟩ := stream
  cases halt <;> rfl

namespace Lexer

theorem next_of_word? {lexer lexer' : Lexer} {token : Token}
    (hword : lexer.word? = some (token, lexer')) : lexer.next = (token, lexer') := by
  rw [next, hword]

theorem next_of_word?_none {lexer : Lexer} (hword : lexer.word? = none) :
    lexer.next.1 = (Stream.ofLexer lexer).halting := by
  rw [Stream.ofLexer_of_word?_none hword, next, hword]
  rfl

theorem word?_of_next {lexer : Lexer} (hword : ¬ lexer.next.1.kind.isReport = true) :
    lexer.word? = some (lexer.next.1, lexer.next.2) := by
  cases hfound : lexer.word? with
  | none =>
      rw [next_of_word?_none hfound] at hword
      exact absurd (Stream.isReport_halting _) hword
  | some found => rw [next_of_word? hfound]

/-- The tokens that the lexer gives one after the other, up to the first that is no word. -/
def transcript (lexer : Lexer) : Transcript :=
  if lexer.next.1.kind.isReport then ⟨[], lexer.next.1⟩
  else .cons lexer.next.1 lexer.next.2.transcript
termination_by lexer.cursor.rest.length
decreasing_by exact length_rest_lt_of_word? (word?_of_next ‹_›)

end Lexer

/-! ### The front of a stream -/

namespace Stream

/-- The tokens up to the first that is no word. -/
def transcript (stream : Stream) : Transcript where
  words := stream.tokens.takeWhile (!·.kind.isReport)
  report := (stream.tokens.find? (·.kind.isReport)).getD stream.halting

theorem transcript_cons_report {token : Token} (hreport : token.kind.isReport = true)
    (stream : Stream) : (cons token stream).transcript = ⟨[], token⟩ := by
  simp [cons, transcript, hreport]

theorem transcript_cons_word {token : Token} (hword : ¬ token.kind.isReport = true)
    (stream : Stream) : (cons token stream).transcript = .cons token stream.transcript := by
  simp [cons, transcript, Transcript.cons, halting, hword]

theorem of_mem_words {stream : Stream} {token : Token} (hmem : token ∈ stream.transcript.words) :
    token ∈ stream.tokens ∧ token.kind.isReport = false := by
  have hall : stream.transcript.words.all (!·.kind.isReport) = true := List.all_takeWhile
  have hword := List.all_eq_true.mp hall token hmem
  exact ⟨List.takeWhile_subset _ hmem, by simpa using hword⟩

theorem transcript_of_words {stream : Stream}
    (hwords : ∀ token ∈ stream.tokens, token.kind.isReport = false) :
    stream.transcript = ⟨stream.tokens, stream.halting⟩ := by
  have hfind : stream.tokens.find? (·.kind.isReport) = none := by simpa using hwords
  have htake : stream.tokens.takeWhile (!·.kind.isReport) = stream.tokens := by
    simpa [List.takeWhile_eq_self_iff] using hwords
  rw [transcript, hfind, htake]
  rfl

end Stream

/-- A lexer's transcript is the front of all that it has to report. -/
theorem Lexer.transcript_eq (lexer : Lexer) :
    lexer.transcript = (Stream.ofLexer lexer).transcript := by
  fun_induction Lexer.transcript lexer with
  | case1 lexer hreport =>
      cases hfound : lexer.word? with
      | none =>
          have htokens : ∀ token ∈ (Stream.ofLexer lexer).tokens,
              token.kind.isReport = false := by
            simp [Stream.ofLexer_of_word?_none hfound]
          rw [Stream.transcript_of_words htokens, next_of_word?_none hfound,
            Stream.ofLexer_of_word?_none hfound]
      | some found =>
          rw [next_of_word? hfound] at hreport ⊢
          rw [Stream.ofLexer_of_word? hfound, Stream.transcript_cons_report hreport]
  | case2 lexer hword ih =>
      have hfound := word?_of_next hword
      rw [Stream.ofLexer_of_word? hfound, Stream.transcript_cons_word hword, ih]

/-! ### Words to a line -/

namespace Stream

theorem along_spelled_alone {kind : Kind} {cs : List Char} (hspelled : kind.Spelled cs)
    (file : String) (here : Mark) :
    along file none here cs =
      ⟨[⟨kind, String.ofList cs, here.inFile file⟩], .eof, (here.afterAll cs).inFile file⟩ := by
  obtain ⟨c, rest, rfl, hblank, hlexeme⟩ := hspelled
  rw [along_lexeme file none here hblank, hlexeme]
  simp only [Lexeme.isLast, Lexeme.run, List.drop_length, along_nil]
  rfl

/-- Words written one to a line are the words of the lines. -/
theorem words_along_lines {words : List Token}
    (hspelled : ∀ word ∈ words, word.kind.Spelled word.text.toList) (file : String) (here : Mark) :
    let lines := along file none here (['\n'].intercalate (words.map (·.text.toList)))
    lines.tokens.map Token.word = words.map Token.word ∧ lines.halt = .eof := by
  induction words generalizing here with
  | nil =>
      intro lines
      have hlines : lines = ⟨[], .eof, here.inFile file⟩ := along_nil file none here
      rw [hlines]
      exact ⟨rfl, rfl⟩
  | cons word words ih =>
      obtain ⟨hfirst, hspelled⟩ := List.forall_mem_cons.mp hspelled
      have halone := along_spelled_alone hfirst file here
      rw [String.ofList_toList] at halone
      cases words with
      | nil =>
          intro lines
          have hlines : lines = along file none here word.text.toList := by simp [lines]
          rw [hlines, halone]
          exact ⟨rfl, rfl⟩
      | cons second words =>
          let behind := here.afterAll (word.text.toList ++ ['\n'])
          obtain ⟨hwords, hhalt⟩ := ih hspelled behind
          intro lines
          have hlines : lines = (along file none here word.text.toList).andThen
              (along file none behind
                (['\n'].intercalate ((second :: words).map (·.text.toList)))) := by
            rw [← along_append_newline]
            simp [lines, List.intercalate_cons_cons]
          rw [hlines, halone, andThen_of_eof rfl]
          exact ⟨congrArg (List.cons word.word) hwords, hhalt⟩

/-- A text whose words are spelled like `words` has no report but that of its end. -/
theorem transcript_of_map_word {stream : Stream} {words : List Token}
    (hwords : ∀ word ∈ words, word.kind.isReport = false)
    (hmap : stream.tokens.map Token.word = words.map Token.word) (hhalt : stream.halt = .eof) :
    stream.transcript.words.map Token.word = words.map Token.word ∧
      stream.transcript.report.kind = .eof := by
  have htokens : ∀ token ∈ stream.tokens, token.kind.isReport = false := by
    intro token hmem
    have hmem' : token.word ∈ words.map Token.word := hmap ▸ List.mem_map_of_mem hmem
    obtain ⟨word, hword, heq⟩ := List.mem_map.mp hmem'
    have hkind : word.kind = token.kind := congrArg Prod.fst heq
    exact hkind ▸ hwords word hword
  rw [transcript_of_words htokens]
  exact ⟨hmap, congrArg Halt.kind hhalt⟩

end Stream

theorem Lexer.transcript_ofBytes (file : String) (bytes : ByteArray) :
    (ofSource (.ofBytes file bytes)).transcript =
      (Stream.along file (Source.decodeFrom bytes 0).2 .first
        (Source.decodeFrom bytes 0).1).transcript := by
  rw [transcript_eq, ← Stream.ofSource_ofBytes]
  rfl

/-- Words that are written one to a line are found again. -/
theorem Lexer.transcript_of_spelled {words : List Token}
    (hwords : ∀ word ∈ words, word.kind.isReport = false)
    (hspelled : ∀ word ∈ words, word.kind.Spelled word.text.toList) (file : String) :
    let lines := "\n".intercalate (words.map Token.text)
    let again := (ofSource (.ofBytes file lines.toUTF8)).transcript
    again.words.map Token.word = words.map Token.word ∧ again.report.kind = .eof := by
  intro lines again
  have hchars : lines.toList = ['\n'].intercalate (words.map (·.text.toList)) := by
    rw [String.toList_intercalate, List.map_map]
    rfl
  have hagain : again = (Stream.along file none .first lines.toList).transcript := by
    have hbytes := transcript_ofBytes file lines.toUTF8
    rwa [Source.decodeFrom_toUTF8] at hbytes
  obtain ⟨hmap, hhalt⟩ := Stream.words_along_lines hspelled file .first
  rw [← hchars] at hmap hhalt
  rw [hagain]
  exact Stream.transcript_of_map_word hwords hmap hhalt

/-- The words of a source, written one to a line, are the words of what is written, and each of them
is the one word of its own text. -/
theorem Lexer.transcript_lines (source : Source) (file : String) :
    let words := (ofSource source).transcript.words
    let lines := "\n".intercalate (words.map Token.text)
    let again := (ofSource (.ofBytes file lines.toUTF8)).transcript
    (again.words.map Token.word = words.map Token.word ∧ again.report.kind = .eof) ∧
      ∀ word ∈ words,
        let alone := (ofSource (.ofBytes file word.text.toUTF8)).transcript
        alone.words.map Token.word = [word.word] ∧ alone.report.kind = .eof := by
  intro words lines again
  have hfound : ∀ word ∈ words,
      word.kind.isReport = false ∧ word.kind.Spelled word.text.toList := by
    intro word hmem
    have hwords : words = (Stream.ofSource source).transcript.words :=
      congrArg Transcript.words (transcript_eq (ofSource source))
    obtain ⟨hmem, hkind⟩ := Stream.of_mem_words (hwords ▸ hmem)
    exact ⟨hkind, Stream.spelled_of_mem hmem hkind⟩
  constructor
  · exact transcript_of_spelled (fun word hmem => (hfound word hmem).1)
      (fun word hmem => (hfound word hmem).2) file
  · intro word hmem
    obtain ⟨hkind, hspelled⟩ := hfound word hmem
    have hkinds : ∀ other ∈ [word], other.kind.isReport = false := by simpa using hkind
    have hspelling : ∀ other ∈ [word], other.kind.Spelled other.text.toList := by
      simpa using hspelled
    exact transcript_of_spelled hkinds hspelling file

/-- A number and a name that start with a sign, an atom right behind the name, and a number and a
comment right behind the list. -/
theorem Lexer.transcript_lines_signs :
    let source := Source.ofBytes "f" "(-1 -x:a)2;c".toUTF8
    let words := [(Kind.opening .paren, "("), (.number, "-1"), (.symbol, "-x"), (.atom, ":a"),
      (.closing .paren, ")"), (.number, "2"), (.comment, ";c")]
    let again := (ofSource (.ofBytes "g" "(\n-1\n-x\n:a\n)\n2\n;c".toUTF8)).transcript
    let alone := (ofSource (.ofBytes "g" "-x".toUTF8)).transcript
    (ofSource source).transcript.words.map Token.word = words ∧
      (again.words.map Token.word = words ∧ again.report.kind = .eof) ∧
      alone.words.map Token.word = [(.symbol, "-x")] ∧ alone.report.kind = .eof := by
  intro source words again alone
  have hfound : (ofSource (.ofBytes "f" "(-1 -x:a)2;c".toUTF8)).transcript.words =
      [⟨.opening .paren, "(", ⟨"f", 0, 1, 1⟩⟩, ⟨.number, "-1", ⟨"f", 1, 1, 2⟩⟩,
        ⟨.symbol, "-x", ⟨"f", 4, 1, 5⟩⟩, ⟨.atom, ":a", ⟨"f", 6, 1, 7⟩⟩,
        ⟨.closing .paren, ")", ⟨"f", 8, 1, 9⟩⟩, ⟨.number, "2", ⟨"f", 9, 1, 10⟩⟩,
        ⟨.comment, ";c", ⟨"f", 10, 1, 11⟩⟩] := by cbv
  obtain ⟨hagain, halone⟩ := transcript_lines source "g"
  rw [hfound] at hagain halone
  refine ⟨congrArg (List.map Token.word) hfound, hagain, ?_⟩
  exact halone ⟨.symbol, "-x", ⟨"f", 4, 1, 5⟩⟩ (by simp)

end ProtoLisp
