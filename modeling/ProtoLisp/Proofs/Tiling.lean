import ProtoLisp.Proofs.Grammar
import ProtoLisp.Proofs.Words

/-!
# Words tile the source

The words of a source and the blanks between them, one behind the other, are its bytes: no byte is
passed over and none belongs to two words.  Each word says where it starts, in bytes, in lines and in
characters of its line.  A source whose words end at its end is well-formed throughout, and the blanks
behind the last word reach to the last byte.
-/

namespace ProtoLisp

/-! ### Characters among bytes -/

/-- The bytes from offset `i` to offset `j` are the characters `cs`. -/
structure Spells (bytes : ByteArray) (i j : Nat) (cs : List Char) : Prop where
  ordered : i ≤ j
  within : j ≤ bytes.size
  spelled : bytes.extract i j = cs.utf8Encode

/-- There are only blanks between the offsets, if anything. -/
def Blanks (bytes : ByteArray) (i j : Nat) : Prop :=
  ∃ gap, (∀ c ∈ gap, Text.isBlank c = true) ∧ Spells bytes i j gap

/-- Characters stand behind those in front of them. -/
theorem Spells.of_append {bytes tail : ByteArray} {front cs behind : List Char}
    (hbytes : bytes = (front ++ (cs ++ behind)).utf8Encode ++ tail) :
    Spells bytes front.utf8Encode.size (front ++ cs).utf8Encode.size cs := by
  have hsize : (front ++ cs).utf8Encode.size = front.utf8Encode.size + cs.utf8Encode.size := by
    rw [List.utf8Encode_append, ByteArray.size_append]
  have hsplit : bytes = front.utf8Encode ++ (cs.utf8Encode ++ (behind.utf8Encode ++ tail)) := by
    rw [hbytes, List.utf8Encode_append, List.utf8Encode_append, ByteArray.append_assoc,
      ByteArray.append_assoc]
  refine ⟨?_, ?_, ?_⟩
  · omega
  · rw [hsplit, hsize, ByteArray.size_append, ByteArray.size_append]
    omega
  · have hcs := ByteArray.extract_append_size_add (a := front.utf8Encode)
      (b := cs.utf8Encode ++ (behind.utf8Encode ++ tail)) (i := 0) (j := cs.utf8Encode.size)
    rw [hsplit, hsize]
    exact hcs.trans (ByteArray.extract_append_eq_left rfl)

theorem Spells.of_prefix {bytes tail : ByteArray} {front behind : List Char}
    (hbytes : bytes = (front ++ behind).utf8Encode ++ tail) :
    Spells bytes 0 front.utf8Encode.size front := by
  have hfront : Spells bytes (List.utf8Encode []).size ([] ++ front).utf8Encode.size front :=
    of_append hbytes
  rwa [List.utf8Encode_nil] at hfront

theorem Spells.append {bytes : ByteArray} {i j k : Nat} {cs cs' : List Char}
    (hcs : Spells bytes i j cs) (hcs' : Spells bytes j k cs') : Spells bytes i k (cs ++ cs') where
  ordered := Nat.le_trans hcs.ordered hcs'.ordered
  within := hcs'.within
  spelled := by
    rw [ByteArray.extract_eq_extract_append_extract j hcs.ordered hcs'.ordered, hcs.spelled,
      hcs'.spelled, List.utf8Encode_append]

namespace Source

/-- The characters that are decoded are the bytes up to the stray one. -/
theorem extract_eq_decodeFrom {bytes : ByteArray} {i : Nat} (hle : i ≤ bytes.size) :
    ∃ tail, bytes.extract i bytes.size = (decodeFrom bytes i).1.utf8Encode ++ tail ∧
      ((decodeFrom bytes i).2 = none → tail = .empty) := by
  fun_induction decodeFrom bytes i with
  | case1 i hlt c hchar cs stray hrest ih =>
      have hend := ByteArray.le_size_of_utf8DecodeChar?_eq_some hchar
      obtain ⟨tail, htail, hempty⟩ := ih hend
      rw [hrest] at htail hempty
      refine ⟨tail, ?_, hempty⟩
      rw [ByteArray.extract_eq_extract_append_extract (i + c.utf8Size) (Nat.le_add_right _ _) hend,
        htail, ← encoded_eq_extract hchar, List.utf8Encode_cons, List.utf8Encode_singleton,
        ByteArray.append_assoc]
  | case2 i hlt hchar =>
      refine ⟨bytes.extract i bytes.size, ?_, ?_⟩
      · rw [List.utf8Encode_nil, ByteArray.empty_append]
      · intro hnone
        cases hnone
  | case3 i hnot =>
      have hi : i = bytes.size := by omega
      refine ⟨.empty, ?_, fun _ => rfl⟩
      rw [hi, ByteArray.extract_same]
      rfl

end Source

/-! ### Marks -/

/-- The place behind the characters `front`, counted out. -/
theorem Mark.afterAll_first (front : List Char) :
    Mark.first.afterAll front =
      ⟨front.utf8Encode.size, 1 + front.count '\n',
        1 + (front.reverse.takeWhile (· != '\n')).length⟩ := by
  rw [← front.reverse_reverse]
  induction front.reverse with
  | nil => rfl
  | cons c behind ih =>
      have hstep : Mark.first.afterAll (c :: behind).reverse =
          (Mark.first.afterAll behind.reverse).after c := by
        rw [List.reverse_cons, Mark.afterAll_append]
        rfl
      have hsize : (c :: behind).reverse.utf8Encode.size =
          behind.reverse.utf8Encode.size + c.utf8Size := by
        rw [List.reverse_cons, List.utf8Encode_append, List.utf8Encode_singleton,
          ByteArray.size_append, List.size_toByteArray, String.length_utf8EncodeChar]
      rw [hstep, ih, Mark.after, hsize]
      by_cases hnewline : c = '\n'
      · simp [hnewline, Nat.add_assoc]
      · simp [hnewline, Nat.add_comm]

/-! ### Words among bytes -/

namespace Token

/-- The offset of the first byte. -/
def start (token : Token) : Nat := token.location.pos.toNat

/-- The offset behind the last byte. -/
def finish (token : Token) : Nat := token.start + token.text.utf8ByteSize

/-- The token says what stands in `bytes` at the place that it names: `front` is all in front of it. -/
structure StandsIn (file : String) (bytes : ByteArray) (token : Token) : Prop where
  nonempty : token.text ≠ ""
  spelled : Spells bytes token.start token.finish token.text.toList
  located : ∃ front, Spells bytes 0 token.start front ∧
    token.location = ⟨file, token.start, 1 + front.count '\n',
      1 + (front.reverse.takeWhile (· != '\n')).length⟩

end Token

/-- From offset `i` on there are the words, one behind the other, with blanks in front of each; the
report of the end stands behind the last byte, with nothing but blanks in front of it. -/
inductive Transcript.Covers (file : String) (bytes : ByteArray) : Nat → Transcript → Prop
  | report {i : Nat} {report : Token} (hend : report.kind = .eof → Blanks bytes i bytes.size) :
      Covers file bytes i ⟨[], report⟩
  | cons {i : Nat} {word : Token} {behind : Transcript} (hgap : Blanks bytes i word.start)
      (hword : word.StandsIn file bytes) (hbehind : Covers file bytes word.finish behind) :
      Covers file bytes i (.cons word behind)

namespace Transcript.Covers

variable {file : String} {bytes : ByteArray} {i : Nat} {found : Transcript}

theorem standsIn (hcovers : Covers file bytes i found) :
    ∀ word ∈ found.words, word.StandsIn file bytes := by
  induction hcovers with
  | report hend => simp
  | cons hgap hword hbehind ih => exact List.forall_mem_cons.mpr ⟨hword, ih⟩

theorem le_start (hcovers : Covers file bytes i found) :
    ∀ word ∈ found.words, i ≤ word.start := by
  induction hcovers with
  | report hend => simp
  | @cons i word behind hgap hword hbehind ih =>
      obtain ⟨gap, -, hgap⟩ := hgap
      have hfirst := hgap.ordered
      have hlength := hword.spelled.ordered
      refine List.forall_mem_cons.mpr ⟨hfirst, ?_⟩
      intro later hmem
      have hlater := ih later hmem
      omega

/-- No byte belongs to two words. -/
theorem pairwise (hcovers : Covers file bytes i found) :
    found.words.Pairwise fun earlier later => earlier.finish ≤ later.start := by
  induction hcovers with
  | report hend => exact .nil
  | cons hgap hword hbehind ih => exact .cons hbehind.le_start ih

/-- What is covered to the end is well-formed. -/
theorem exists_spells (hcovers : Covers file bytes i found) (heof : found.report.kind = .eof) :
    ∃ cs, Spells bytes i bytes.size cs := by
  induction hcovers with
  | report hend =>
      obtain ⟨gap, -, hgap⟩ := hend heof
      exact ⟨gap, hgap⟩
  | cons hgap hword hbehind ih =>
      obtain ⟨gap, -, hgap⟩ := hgap
      obtain ⟨cs, hcs⟩ := ih heof
      exact ⟨_, (hgap.append hword.spelled).append hcs⟩

end Transcript.Covers

/-- A token with the characters `run`, located behind all that is in front of them. -/
theorem Token.standsIn_of_append {file : String} {bytes tail : ByteArray}
    {front run behind : List Char} {token : Token} (htext : token.text = String.ofList run)
    (hlocation : token.location = (Mark.first.afterAll front).inFile file) (hne : run ≠ [])
    (hbytes : bytes = (front ++ (run ++ behind)).utf8Encode ++ tail) :
    token.start = front.utf8Encode.size ∧ token.finish = (front ++ run).utf8Encode.size ∧
      token.StandsIn file bytes := by
  rw [Mark.afterAll_first] at hlocation
  have hstart : token.start = front.utf8Encode.size := by
    rw [start, hlocation]
    rfl
  have hfinish : token.finish = (front ++ run).utf8Encode.size := by
    have hsize : token.text.utf8ByteSize = run.utf8Encode.size := by
      rw [htext]
      exact congrArg ByteArray.size String.toByteArray_ofList
    rw [finish, hstart, hsize, List.utf8Encode_append, ByteArray.size_append]
  refine ⟨hstart, hfinish, ?_, ?_, front, ?_, ?_⟩
  · simpa [htext] using hne
  · rw [hstart, hfinish, htext, String.toList_ofList]
    exact Spells.of_append hbytes
  · rw [hstart]
    exact Spells.of_prefix hbytes
  · rw [hstart, hlocation]
    simp only [Mark.inFile, Int.natCast_add, Int.natCast_one]

/-! ### Tokens of a text among its bytes -/

theorem Lexeme.exists_word {lexeme : Lexeme} (hkind : ¬ lexeme.kind.isReport = true) :
    ∃ kind run, lexeme = .word kind run := by
  cases lexeme with
  | word kind run => exact ⟨kind, run, rfl⟩
  | malformed text run => exact absurd rfl hkind
  | strange c => exact absurd rfl hkind

namespace Stream

/-- The transcript of the characters `cs` covers their bytes; `gap` are the blanks behind the word
found last, and `front` is all up to the end of that word. -/
theorem covers_along {file : String} {stray : Option UInt8} {bytes tail : ByteArray}
    (htail : stray = none → tail = .empty) (here : Mark) (front gap cs : List Char)
    (hbytes : bytes = (front ++ (gap ++ cs)).utf8Encode ++ tail)
    (hgap : ∀ c ∈ gap, Text.isBlank c = true)
    (hhere : here = Mark.first.afterAll (front ++ gap)) :
    (along file stray here cs).transcript.Covers file bytes front.utf8Encode.size := by
  fun_induction along file stray here cs generalizing front gap with
  | case1 here =>
      apply Transcript.Covers.report
      intro heof
      have hstray : stray = none := by
        cases stray with
        | none => rfl
        | some byte => cases heof
      have hall : bytes.size = (front ++ gap).utf8Encode.size := by
        rw [hbytes, htail hstray, ByteArray.append_empty, List.append_nil]
      rw [hall]
      exact ⟨gap, hgap, Spells.of_append hbytes⟩
  | case2 here c cs hblank ih =>
      apply ih front (gap ++ [c])
      · simpa using hbytes
      · simpa [or_imp, forall_and] using ⟨hgap, hblank⟩
      · rw [← List.append_assoc, Mark.afterAll_append, ← hhere]
        rfl
  | case3 here c cs hblank lexeme behind ih =>
      by_cases hreport : lexeme.kind.isReport = true
      · rw [transcript_cons_report hreport]
        apply Transcript.Covers.report
        intro heof
        exact absurd heof (Lexeme.conclusive_ofChars c cs (here.inFile file)).1
      · -- A word takes up the characters at the front of the rest, and the gap is behind it again.
        obtain ⟨kind, run, hword⟩ := Lexeme.exists_word hreport
        have hrun : lexeme.run = run := congrArg Lexeme.run hword
        have htext : lexeme.text = String.ofList run := congrArg Lexeme.text hword
        have hlast : lexeme.isLast = false := congrArg Lexeme.isLast hword
        have hne : run ≠ [] := hrun ▸ List.ne_nil_of_length_pos (Lexeme.length_run_pos c cs)
        let rest := (c :: cs).drop lexeme.run.length
        have hsplit : bytes = (front ++ gap ++ (run ++ rest)).utf8Encode ++ tail := by
          rw [← hrun, Lexeme.run_append_drop, List.append_assoc, hbytes]
        let word : Token := ⟨lexeme.kind, lexeme.text, here.inFile file⟩
        have hlocation : word.location = (Mark.first.afterAll (front ++ gap)).inFile file := by
          rw [← hhere]
        obtain ⟨hstart, hfinish, hstands⟩ := Token.standsIn_of_append htext hlocation hne hsplit
        rw [transcript_cons_word hreport, hlast]
        refine .cons ?_ hstands ?_
        · rw [hstart]
          exact ⟨gap, hgap, Spells.of_append hbytes⟩
        · rw [hfinish]
          apply ih (front ++ gap ++ run) []
          · simpa using hsplit
          · simp
          · rw [List.append_nil, Mark.afterAll_append, ← hhere, ← hrun]

end Stream

theorem Lexer.covers_ofBytes (file : String) (bytes : ByteArray) :
    (ofSource (.ofBytes file bytes)).transcript.Covers file bytes 0 := by
  obtain ⟨tail, hbytes, htail⟩ := Source.extract_eq_decodeFrom (Nat.zero_le bytes.size)
  rw [ByteArray.extract_zero_size] at hbytes
  rw [transcript_ofBytes]
  exact Stream.covers_along htail .first [] [] _ hbytes (by simp) rfl

/-- A source that can be read has no report but that of its end. -/
theorem Lexer.report_of_readProgram {file : String} {bytes : ByteArray} {nodes : List Node}
    (hreads : readProgram (.ofBytes file bytes) = .ok nodes) :
    (ofSource (.ofBytes file bytes)).transcript.report.kind = .eof := by
  rw [readProgram_eq_program, Stream.program_eq_ok_iff] at hreads
  obtain ⟨done, hreads, hhalt, -⟩ := hreads
  have hwords : ∀ token ∈ (Stream.ofSource (.ofBytes file bytes)).tokens,
      token.kind.isReport = false := by
    intro token hmem
    obtain ⟨herror, hinvalid, -⟩ := Reading.acceptable_of_readAll hreads token hmem
    rw [Stream.ofSource_ofBytes] at hmem
    have heof := ((Stream.conclusive_along _ _ _ _).1 token hmem).1
    rw [← Bool.not_eq_true, Kind.isReport_iff]
    intro hkind
    rcases hkind with hkind | hkind | hkind
    · exact heof hkind
    · exact herror hkind
    · exact hinvalid hkind
  have htranscript := (transcript_eq (ofSource (.ofBytes file bytes))).trans
    (Stream.transcript_of_words hwords)
  rw [htranscript]
  exact congrArg Halt.kind hhalt

/-- The words of a source and the blanks between them are its bytes, one behind the other, and each
word names the place where it stands.  If they reach to the end, as they do whenever the source can
be read, there is no other byte, and all are well-formed. -/
theorem Lexer.transcript_covers (file : String) (bytes : ByteArray) :
    (ofSource (.ofBytes file bytes)).transcript.Covers file bytes 0 ∧
      let found := (ofSource (.ofBytes file bytes)).transcript
      (∀ word ∈ found.words, word.StandsIn file bytes) ∧
        found.words.Pairwise (fun earlier later => earlier.finish ≤ later.start) ∧
        (found.report.kind = .eof → bytes.IsValidUTF8) ∧
        ∀ nodes, readProgram (.ofBytes file bytes) = .ok nodes → found.report.kind = .eof := by
  have hcovers := covers_ofBytes file bytes
  refine ⟨hcovers, hcovers.standsIn, hcovers.pairwise, ?_, fun nodes => report_of_readProgram⟩
  intro heof
  obtain ⟨cs, hcs⟩ := hcovers.exists_spells heof
  have hspelled := hcs.spelled
  rw [ByteArray.extract_zero_size] at hspelled
  exact .intro cs hspelled

/-- A list over two lines, and a comment behind it in which a character has two bytes. -/
theorem Lexer.transcript_covers_twoLines :
    let bytes := "(a\n 1.5) ; é".toUTF8
    let found : Transcript :=
      ⟨[⟨.opening .paren, "(", ⟨"f", 0, 1, 1⟩⟩, ⟨.symbol, "a", ⟨"f", 1, 1, 2⟩⟩,
        ⟨.number, "1.5", ⟨"f", 4, 2, 2⟩⟩, ⟨.closing .paren, ")", ⟨"f", 7, 2, 5⟩⟩,
        ⟨.comment, "; é", ⟨"f", 9, 2, 7⟩⟩], ⟨.eof, "", ⟨"f", 13, 2, 10⟩⟩⟩
    (ofSource (.ofBytes "f" bytes)).transcript = found ∧ found.Covers "f" bytes 0 ∧
      (∀ word ∈ found.words, word.StandsIn "f" bytes) ∧ bytes.IsValidUTF8 := by
  intro bytes found
  have hfound : (ofSource (.ofBytes "f" "(a\n 1.5) ; é".toUTF8)).transcript = found := by cbv
  obtain ⟨hcovers, hstands, -, hvalid, -⟩ := transcript_covers "f" bytes
  rw [hfound] at hcovers hstands hvalid
  exact ⟨hfound, hcovers, hstands, hvalid rfl⟩

end ProtoLisp
