import Mathlib
import ProtoLisp.Proofs.Decoding
import ProtoLisp.Proofs.TokenReading

/-!
# Incomplete texts are those that can be completed

A text that cannot be read may still be the beginning of one that can.  The reader says which: its
failure is marked as incomplete exactly if some continuation on the next line makes the text
readable.  A stray byte, a malformed token, a number out of range or a wrong delimiter is there
whatever follows.  Otherwise the text has only left lists open, and their closing delimiters
complete it.
-/

namespace ProtoLisp

open Source (decodeFrom newline)

/-! ### Streams that can be read -/

namespace Stream

theorem program_eq_ok_iff {stream : Stream} {nodes : List Node} :
    stream.program = .ok nodes ↔
      ∃ done, Reading.start.readAll stream.tokens = .ok ⟨done, []⟩ ∧ stream.halt = .eof ∧
        nodes = done.reverse := by
  constructor
  · intro hprogram
    unfold program at hprogram
    cases hreads : Reading.start.readAll stream.tokens with
    | error error =>
        rw [hreads] at hprogram
        cases hprogram
    | ok reading =>
        obtain ⟨done, lists⟩ := reading
        rw [hreads] at hprogram
        cases hhalt : stream.halt with
        | failure text =>
            rw [hhalt] at hprogram
            cases hprogram
        | eof =>
            rw [hhalt] at hprogram
            cases lists with
            | nil =>
                cases hprogram
                exact ⟨done, rfl, rfl, rfl⟩
            | cons list lists => cases hprogram
  · intro ⟨done, hreads, hhalt, hnodes⟩
    rw [program, hreads, hhalt, hnodes]
    rfl

theorem program_of_readAll_error {stream : Stream} {error : ReadError}
    (hreads : Reading.start.readAll stream.tokens = .error error) :
    stream.program = .error error := by
  rw [program, hreads]
  rfl

/-- A run of tokens that fails does so whatever follows it. -/
theorem program_of_prefix_error {stream : Stream} {tokens : List Token} {error : ReadError}
    (hbefore : tokens <+: stream.tokens) (hreads : Reading.start.readAll tokens = .error error) :
    stream.program = .error error := by
  obtain ⟨more, hmore⟩ := hbefore
  apply program_of_readAll_error
  rw [← hmore, Reading.readAll_append, hreads]
  rfl

theorem incomplete_of_failure {stream : Stream} {text : String} {error : ReadError}
    (htokens : ∀ token ∈ stream.tokens, token.Conclusive) (hhalt : stream.halt = .failure text)
    (htext : text ≠ Fault.interruption) (hprogram : stream.program = .error error) :
    error.incomplete = false := by
  cases hreads : Reading.start.readAll stream.tokens with
  | error error' =>
      rw [program_of_readAll_error hreads] at hprogram
      cases hprogram
      exact Reading.incomplete_of_readAll htokens hreads
  | ok reading =>
      rw [program, hreads, hhalt] at hprogram
      cases hprogram
      simpa [ReadError.incomplete, stopped, Fault.ofReport, Fault.incomplete] using htext

end Stream

/-! ### Bytes on the next line -/

section NextLine

variable (file : String) {s : ByteArray}

theorem ofBytes_append_of_stray {byte : UInt8} (hstray : (decodeFrom s 0).2 = some byte)
    (t : ByteArray) : Source.ofBytes file (s ++ newline ++ t) = .ofBytes file s := by
  have hdecode := Source.decodeFrom_append_newline (Nat.zero_le s.size) t
  rw [hstray] at hdecode
  simp only [Source.ofBytes, ByteArray.append_assoc, hdecode, ← hstray]

theorem halt_of_readAll {reading : Reading} (hstray : (decodeFrom s 0).2 = none)
    (hreads : Reading.start.readAll (Stream.ofSource (.ofBytes file s)).tokens = .ok reading) :
    (Stream.ofSource (.ofBytes file s)).halt = .eof := by
  rw [Stream.ofSource_ofBytes, hstray] at hreads ⊢
  rcases Stream.halt_along file .first (decodeFrom s 0).1 with hhalt | ⟨token, hmem, hkind⟩
  · exact hhalt
  · exact absurd hkind (Reading.kind_ne_invalid_of_readAll hreads token hmem)

theorem ofSource_append_of_no_stray (hstray : (decodeFrom s 0).2 = none) (t : ByteArray) :
    Stream.ofSource (.ofBytes file (s ++ newline ++ t)) =
      (Stream.ofSource (.ofBytes file s)).andThen
        (.along file (decodeFrom t 0).2 (Mark.first.afterAll ((decodeFrom s 0).1 ++ ['\n']))
          (decodeFrom t 0).1) := by
  have hdecode := Source.decodeFrom_append_newline (Nat.zero_le s.size) t
  rw [hstray] at hdecode
  rw [Stream.ofSource_ofBytes, Stream.ofSource_ofBytes, ByteArray.append_assoc, hdecode, hstray]
  exact Stream.along_append_newline _ _ _ _ _

end NextLine

/-! ### Closing what is left open -/

def Delimiter.closer : Delimiter → Char
  | .paren => ')'
  | .bracket => ']'

theorem ofChars_closer (delimiter : Delimiter) (cs : List Char) :
    Lexeme.ofChars delimiter.closer cs = .word (.closing delimiter) [delimiter.closer] := by
  cases delimiter <;> rfl

theorem along_closers (file : String) (here : Mark) (delimiters : List Delimiter) :
    (Stream.along file none here (delimiters.map Delimiter.closer)).tokens.map (·.kind) =
      delimiters.map .closing ∧
    (Stream.along file none here (delimiters.map Delimiter.closer)).halt = .eof := by
  induction delimiters generalizing here with
  | nil =>
      rw [List.map_nil, Stream.along_nil]
      exact ⟨rfl, rfl⟩
  | cons delimiter delimiters ih =>
      have hblank : ¬ Text.isBlank delimiter.closer = true := by
        cases delimiter <;> decide
      rw [List.map_cons, Stream.along_lexeme _ _ _ hblank, ofChars_closer]
      obtain ⟨hkinds, hhalt⟩ := ih (here.after delimiter.closer)
      exact ⟨congrArg (List.cons _) hkinds, hhalt⟩

theorem exists_delimiters {openers : List Token}
    (hopeners : ∀ opener ∈ openers, ∃ delimiter, opener.kind = .opening delimiter) :
    ∃ delimiters : List Delimiter, openers.map (·.kind) = delimiters.map .opening := by
  induction openers with
  | nil => exact ⟨[], rfl⟩
  | cons opener openers ih =>
      obtain ⟨delimiter, hkind⟩ := hopeners opener List.mem_cons_self
      obtain ⟨delimiters, hkinds⟩ :=
        ih (fun opener hmem => hopeners opener (List.mem_cons_of_mem _ hmem))
      refine ⟨delimiter :: delimiters, ?_⟩
      rw [List.map_cons, List.map_cons, hkind, hkinds]

/-- A text that has only left lists open can be completed. -/
theorem exists_completion (file : String) {s : ByteArray} {reading : Reading}
    (hstray : (decodeFrom s 0).2 = none)
    (hreads : Reading.start.readAll (Stream.ofSource (.ofBytes file s)).tokens = .ok reading) :
    ∃ t nodes, readProgram (.ofBytes file (s ++ newline ++ t)) = .ok nodes := by
  have hopeners := Reading.unclosed_readAll hreads
  obtain ⟨delimiters, hkinds⟩ := exists_delimiters (fun _ hmem => hopeners.kind_of_mem hmem)
  let t := (delimiters.map Delimiter.closer).utf8Encode
  let here := Mark.first.afterAll ((decodeFrom s 0).1 ++ ['\n'])
  obtain ⟨hclosers, heof⟩ := along_closers file here delimiters
  obtain ⟨done, hclosed⟩ := Reading.exists_readAll_closing hkinds hclosers
  have hhalt := halt_of_readAll file hstray hreads
  refine ⟨t, done.reverse, ?_⟩
  rw [readProgram_eq_program, ofSource_append_of_no_stray file hstray,
    Source.decodeFrom_utf8Encode, Stream.andThen_of_eof hhalt, Stream.program_eq_ok_iff]
  refine ⟨done, ?_, heof, rfl⟩
  rw [Reading.readAll_append, hreads]
  exact hclosed

/-! ### Failures that nothing mends -/

/-- A text that cannot be read either fails for good or has left a list open. -/
theorem error_cases {file : String} {s : ByteArray} {error : ReadError}
    (hfails : readProgram (.ofBytes file s) = .error error) :
    (error.incomplete = false ∧
      ∀ t nodes, readProgram (.ofBytes file (s ++ newline ++ t)) ≠ .ok nodes) ∨
    ∃ done list lists, (decodeFrom s 0).2 = none ∧
      Reading.start.readAll (Stream.ofSource (.ofBytes file s)).tokens = .ok ⟨done, list :: lists⟩ ∧
      error = ⟨some list.opener.location, .unmatched list.opener.text⟩ := by
  have hconclusive := Stream.conclusive_along file (decodeFrom s 0).2 .first (decodeFrom s 0).1
  rw [← Stream.ofSource_ofBytes] at hconclusive
  have hprogram := hfails
  rw [readProgram_eq_program] at hprogram
  cases hstray : (decodeFrom s 0).2 with
  | some byte =>
      -- The bytes end before the stray one, with or without a next line.
      refine .inl ⟨?_, ?_⟩
      · obtain ⟨text, hhalt⟩ := Stream.halt_along_stray file byte .first (decodeFrom s 0).1
        rw [← hstray, ← Stream.ofSource_ofBytes] at hhalt
        exact Stream.incomplete_of_failure hconclusive.1 hhalt (hconclusive.2 text hhalt) hprogram
      · intro t nodes hok
        rw [ofBytes_append_of_stray file hstray, hfails] at hok
        cases hok
  | none =>
      cases hreads : Reading.start.readAll (Stream.ofSource (.ofBytes file s)).tokens with
      | error error' =>
          rw [Stream.program_of_readAll_error hreads] at hprogram
          cases hprogram
          refine .inl ⟨Reading.incomplete_of_readAll hconclusive.1 hreads, ?_⟩
          intro t nodes hok
          rw [readProgram_eq_program, ofSource_append_of_no_stray file hstray,
            Stream.program_of_prefix_error (Stream.tokens_prefix_andThen _ _) hreads] at hok
          cases hok
      | ok reading =>
          obtain ⟨done, lists⟩ := reading
          rw [Stream.program, hreads, halt_of_readAll file hstray hreads] at hprogram
          cases lists with
          | nil => cases hprogram
          | cons list lists =>
              cases hprogram
              exact .inr ⟨done, list, lists, rfl, rfl, rfl⟩

/-- Reading a text fails as incomplete exactly if the text can be completed on the next line, and
then the failure shows at the innermost delimiter that the text leaves open. -/
theorem incomplete_iff_completable (file : String) (s : ByteArray) {error : ReadError}
    (hfails : readProgram (.ofBytes file s) = .error error) :
    (error.incomplete = true ↔
      ∃ t nodes, readProgram (.ofBytes file (s ++ newline ++ t)) = .ok nodes) ∧
    (error.incomplete = true →
      ∃ opener outer, Unclosed (Stream.ofSource (.ofBytes file s)).tokens (opener :: outer) ∧
        error.location = some opener.location) := by
  rcases error_cases hfails with ⟨hfinal, hnone⟩ | ⟨done, list, lists, hstray, hreads, rfl⟩
  · have hcomplete : ¬ error.incomplete = true := by simp [hfinal]
    refine ⟨⟨fun hincomplete => absurd hincomplete hcomplete, ?_⟩,
      fun hincomplete => absurd hincomplete hcomplete⟩
    intro ⟨t, nodes, hok⟩
    exact absurd hok (hnone t nodes)
  · refine ⟨⟨fun _ => exists_completion file hstray hreads, fun _ => rfl⟩, fun _ => ?_⟩
    have hunclosed := Reading.unclosed_readAll hreads
    rw [Reading.openers, List.map_cons] at hunclosed
    exact ⟨list.opener, _, hunclosed, rfl⟩

/-- The text ends in a comment inside two lists. -/
theorem incomplete_iff_completable_comment :
    readProgram (.ofBytes "f" "(a [b ; c".toUTF8) =
      .error ⟨some ⟨"f", 3, 1, 4⟩, .unmatched "["⟩ ∧
    ∃ t nodes, readProgram (.ofBytes "f" ("(a [b ; c".toUTF8 ++ newline ++ t)) = .ok nodes :=
  have hfails : readProgram (.ofBytes "f" "(a [b ; c".toUTF8) =
      .error ⟨some ⟨"f", 3, 1, 4⟩, .unmatched "["⟩ := by cbv
  ⟨hfails, (incomplete_iff_completable "f" _ hfails).1.mp rfl⟩

end ProtoLisp
