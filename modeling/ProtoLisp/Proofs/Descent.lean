import ProtoLisp.Proofs.TokenSequences

/-!
# Reading by descent

Expressions can be read by descending into each list and coming back with what it is.  Such a reader
has the token read last and the token ahead.  It goes on as long as there are comments, elements and
expressions, it takes the name of an atom from behind the colon, and it reports what is wrong at the
token read last; so it might not end, and there might be no name, or no token to report at.

None of this happens.  As deep as twice the number of tokens, the descent comes to an end, and what it
reads, or reports, is what is read with the open lists on a stack.
-/

namespace ProtoLisp

namespace Reader

/-! ### The descent -/

/-- The token read last.  It crashes if none has been read. -/
def token (reader : Reader) : Except Failure Token :=
  match reader.current with
  | some token => .ok token
  | none => .error (.crash .absence)

/-- Reports a fault at the token read last. -/
def refuse {α : Type} (reader : Reader) (fault : Token → Fault) : Except Failure α := do
  let token ← reader.token
  .error (.read ⟨some token.location, fault token⟩)

/-- Passes over the comments ahead. -/
def skipComments : Nat → Reader → Except Failure Reader
  | 0, _ => .error .tooDeep
  | depth + 1, reader =>
    if reader.ahead.head.kind = .comment then skipComments depth reader.readToken else .ok reader

mutual

/-- The next expression, and the reader behind it.  `depth` bounds how deep the descent goes. -/
def descend : Nat → Reader → Except Failure (Node × Reader)
  | 0, _ => .error .tooDeep
  | depth + 1, reader => do
    let reader ← reader.skipComments depth
    let found := reader.ahead.head.kind
    let reader := reader.readToken
    match found with
    | .number =>
      let token ← reader.token
      match Decimal.ofText? token.text with
      | some value => .ok (.number value, reader)
      | none => reader.refuse fun token => .badNumber token.text
    | .atom =>
      let token ← reader.token
      match token.text.toList with
      | _ :: name => .ok (.atom (String.ofList name), reader)
      | [] => .error (.crash .absence)
    | .symbol =>
      let token ← reader.token
      .ok (.variable token.text, reader)
    | .opening _ =>
      let opener ← reader.token
      descendList depth opener [] reader
    | .eof => reader.refuse fun _ => .endOfInput
    | .error | .invalid => reader.refuse fun token => .ofReport token.text
    | .comment | .closing _ => reader.refuse fun token => .unexpected token.kind

/-- The list that `opener` has opened.  `items` are its elements so far, the last one first. -/
def descendList : Nat → Token → List Node → Reader → Except Failure (Node × Reader)
  | 0, _, _, _ => .error .tooDeep
  | depth + 1, opener, items, reader => do
    let reader ← reader.skipComments depth
    match reader.ahead.head.kind with
    | .eof => .error (.read ⟨some opener.location, .unmatched opener.text⟩)
    | .closing delimiter =>
      let reader := reader.readToken
      if opener.kind.closer = .closing delimiter then .ok (Node.ofItems items.reverse, reader)
      else reader.refuse fun closer => .mismatched closer.text opener.text opener.location
    | _ =>
      let (item, reader) ← descend depth reader
      descendList depth opener (item :: items) reader

end

/-- All expressions up to the end of the text, behind those that are done. -/
def descendProgram : Nat → List Node → Reader → Except Failure (List Node)
  | 0, _, _ => .error .tooDeep
  | depth + 1, done, reader => do
    let reader ← reader.skipComments depth
    if reader.ahead.head.kind = .eof then .ok done.reverse
    else
      let (node, reader) ← reader.descend depth
      descendProgram depth (node :: done) reader

theorem token_readToken (reader : Reader) : reader.readToken.token = .ok reader.ahead.head := rfl

theorem refuse_readToken {α : Type} (reader : Reader) (fault : Token → Fault) :
    (reader.readToken.refuse fault : Except Failure α) =
      .error (.read ⟨some reader.ahead.head.location, fault reader.ahead.head⟩) := rfl

end Reader

/-! ### The rest of a program -/

/-- What becomes of the program when the tokens of the stream are read. -/
def Reading.rest (reading : Reading) (stream : Stream) : Except ReadError (List Node) :=
  reading.readAll stream.tokens >>= (finish · stream.halt stream.place)

/-- No token of the stream pretends to be its end, and no atom is without text. -/
def Stream.Genuine (stream : Stream) : Prop :=
  ∀ token ∈ stream.tokens, token.kind ≠ .eof ∧ (token.kind = .atom → token.text.toList ≠ [])

namespace Stream

variable {stream : Stream}

theorem tokens_cases (stream : Stream) :
    stream.tokens = [] ∧ stream.head = stream.halting ∨
      stream.tokens = stream.head :: stream.tail.tokens := by
  obtain ⟨tokens, halt, place⟩ := stream
  cases tokens with
  | nil => exact .inl ⟨rfl, rfl⟩
  | cons token tokens => exact .inr rfl

theorem tokens_of_word (hkind : stream.head.kind.isReport = false) :
    stream.tokens = stream.head :: stream.tail.tokens := by
  rcases stream.tokens_cases with ⟨-, hhead⟩ | htokens
  · rw [hhead, isReport_halting] at hkind
    cases hkind
  · exact htokens

theorem length_tokens (htokens : stream.tokens = stream.head :: stream.tail.tokens) :
    stream.tokens.length = stream.tail.tokens.length + 1 :=
  congrArg List.length htokens

theorem tokens_of_eof (hgenuine : stream.Genuine) (hkind : stream.head.kind = .eof) :
    stream.tokens = [] ∧ stream.halt = .eof := by
  rcases stream.tokens_cases with ⟨htokens, hhead⟩ | htokens
  · refine ⟨htokens, ?_⟩
    rw [hhead] at hkind
    cases hhalt : stream.halt with
    | eof => rfl
    | failure text =>
        rw [halting, hhalt] at hkind
        cases hkind
  · exact absurd hkind (hgenuine _ (htokens ▸ List.mem_cons_self)).1

theorem tail_suffix (stream : Stream) : stream.tail.tokens <:+ stream.tokens :=
  List.tail_suffix stream.tokens

theorem Genuine.of_suffix {later : Stream} (hgenuine : stream.Genuine)
    (hsuffix : later.tokens <:+ stream.tokens) : later.Genuine :=
  fun token hmem => hgenuine token (hsuffix.subset hmem)

end Stream

namespace Reading

variable {reading next : Reading} {stream : Stream}

theorem rest_of_tokens (htokens : stream.tokens = stream.head :: stream.tail.tokens) :
    reading.rest stream = reading.step stream.head >>= (rest · stream.tail) := by
  rw [rest, htokens, readAll_cons, bind_assoc]
  rfl

theorem rest_of_advance (htokens : stream.tokens = stream.head :: stream.tail.tokens)
    (hadvance : reading.Advance stream.head next) : reading.rest stream = next.rest stream.tail := by
  rw [rest_of_tokens htokens, step_of_advance hadvance]
  rfl

theorem rest_of_failed {error : ReadError}
    (htokens : stream.tokens = stream.head :: stream.tail.tokens)
    (hshift : shift reading.lists stream.head = .failed error) :
    reading.rest stream = .error error := by
  rw [rest_of_tokens htokens, step, hshift]
  rfl

theorem rest_of_eof (hgenuine : stream.Genuine) (hkind : stream.head.kind = .eof) :
    reading.rest stream = reading.finish .eof stream.place := by
  obtain ⟨htokens, hhalt⟩ := Stream.tokens_of_eof hgenuine hkind
  rw [rest, htokens, hhalt]
  rfl

-- A failure is reported wherever it shows, at the end of the tokens or among them.
theorem rest_of_report (hkind : stream.head.kind = .error ∨ stream.head.kind = .invalid) :
    reading.rest stream =
      .error ⟨some stream.head.location, .ofReport stream.head.text⟩ := by
  rcases stream.tokens_cases with ⟨htokens, hhead⟩ | htokens
  · cases hhalt : stream.halt with
    | eof =>
        rw [hhead, Stream.halting, hhalt] at hkind
        rcases hkind with hkind | hkind <;> cases hkind
    | failure text =>
        rw [rest, htokens, hhead, Stream.halting, hhalt]
        cases reading.lists <;> rfl
  · apply rest_of_failed htokens
    rcases hkind with hkind | hkind <;> simp only [shift, hkind] <;> rfl

end Reading

/-! ### The descent reads the rest -/

namespace Reader

theorem skipComments_of_ne {reader : Reader} (hkind : reader.ahead.head.kind ≠ .comment)
    {depth : Nat} (hdepth : 0 < depth) : reader.skipComments depth = .ok reader := by
  obtain ⟨depth, rfl⟩ := Nat.exists_eq_succ_of_ne_zero (Nat.ne_of_gt hdepth)
  rw [skipComments, if_neg hkind]

/-- Comments are passed over, and they change nothing. -/
theorem exists_skipComments (reader : Reader) {depth : Nat}
    (hdepth : reader.ahead.tokens.length < depth) :
    ∃ behind, reader.skipComments depth = .ok behind ∧ behind.ahead.head.kind ≠ .comment ∧
      behind.ahead.tokens <:+ reader.ahead.tokens ∧
      ∀ reading : Reading, reading.rest reader.ahead = reading.rest behind.ahead := by
  induction depth generalizing reader with
  | zero => cases hdepth
  | succ depth ih =>
      by_cases hkind : reader.ahead.head.kind = .comment
      · have htokens := Stream.tokens_of_word (congrArg Kind.isReport hkind)
        have hlength := Stream.length_tokens htokens
        have hshorter : reader.readToken.ahead.tokens.length < depth := by
          show reader.ahead.tail.tokens.length < depth
          omega
        obtain ⟨behind, hskip, hother, hsuffix, hrest⟩ := ih reader.readToken hshorter
        refine ⟨behind, ?_, hother, hsuffix.trans reader.ahead.tail_suffix, ?_⟩
        · rw [skipComments, if_pos hkind, hskip]
        · intro reading
          rw [Reading.rest_of_advance htokens (.comment hkind), ← hrest]
          rfl
      · exact ⟨reader, skipComments_of_ne hkind (Nat.succ_pos depth), hkind, List.suffix_rfl,
          fun _ => rfl⟩

/-- An outcome of the descent tells what becomes of the rest of the program: it goes on with the
expression that has been read, or it fails in the same way. -/
inductive Foretells (reading : Reading) (rest : Except ReadError (List Node)) (ahead : Stream) :
    Except Failure (Node × Reader) → Prop
  | complete {node : Node} {behind : Reader}
      (hsuffix : behind.ahead.tokens <:+ ahead.tokens)
      (hshorter : behind.ahead.tokens.length < ahead.tokens.length)
      (hrest : rest = (reading.put node).rest behind.ahead) :
      Foretells reading rest ahead (.ok (node, behind))
  | failed {error : ReadError} (hrest : rest = .error error) :
      Foretells reading rest ahead (.error (.read error))

theorem foretells_literal {reading : Reading} {reader : Reader} {node : Node}
    (htokens : reader.ahead.tokens = reader.ahead.head :: reader.ahead.tail.tokens)
    (hnode : reader.ahead.head.literal? = some node) :
    Foretells reading (reading.rest reader.ahead) reader.ahead (.ok (node, reader.readToken)) := by
  refine .complete reader.ahead.tail_suffix ?_ (Reading.rest_of_advance htokens (.literal hnode))
  have hlength := Stream.length_tokens htokens
  show reader.ahead.tail.tokens.length < _
  omega

theorem Foretells.of_suffix {reading : Reading} {rest : Except ReadError (List Node)}
    {ahead earlier : Stream} {outcome : Except Failure (Node × Reader)}
    (hforetells : Foretells reading rest ahead outcome) (hsuffix : ahead.tokens <:+ earlier.tokens) :
    Foretells reading rest earlier outcome := by
  cases hforetells with
  | complete hbehind hshorter hrest =>
      exact .complete (hbehind.trans hsuffix) (Nat.lt_of_lt_of_le hshorter hsuffix.length_le) hrest
  | failed hrest => exact .failed hrest

/-- A descent goes on behind the element that another one has read. -/
theorem Foretells.bind {reading : Reading} {opener : Token} {items : List Node}
    {rest : Except ReadError (List Node)} {ahead : Stream}
    {outcome : Except Failure (Node × Reader)}
    {behind : Node × Reader → Except Failure (Node × Reader)}
    (hitem : Foretells ⟨reading.done, ⟨opener, items⟩ :: reading.lists⟩ rest ahead outcome)
    (hbehind : ∀ (item : Node) (next : Reader), next.ahead.tokens <:+ ahead.tokens →
      next.ahead.tokens.length < ahead.tokens.length →
      Foretells reading
        ((Reading.mk reading.done (⟨opener, item :: items⟩ :: reading.lists)).rest next.ahead)
        next.ahead (behind (item, next))) :
    Foretells reading rest ahead (outcome >>= behind) := by
  cases hitem with
  | failed hrest => exact .failed hrest
  | @complete item next hnext hshorter hrest =>
      rw [hrest]
      exact (hbehind item next hnext hshorter).of_suffix hnext

-- A token costs at most two levels: in a list, the descent goes one level deeper for an element and
-- another one for what is behind it.
mutual

/-- Where an expression can start, the descent reads it, or fails as the stack does. -/
theorem foretells_descend : (depth : Nat) → (reading : Reading) → (reader : Reader) →
    reader.ahead.Genuine → reader.ahead.head.kind ≠ .comment → reader.ahead.head.kind ≠ .eof →
    (∀ delimiter, reader.ahead.head.kind = .closing delimiter → reading.lists = []) →
    2 * reader.ahead.tokens.length + 2 ≤ depth →
    Foretells reading (reading.rest reader.ahead) reader.ahead (reader.descend depth)
  | 0, _, _, _, _, _, _, hdepth => nomatch hdepth
  | depth + 1, reading, reader, hgenuine, hcomment, heof, hclosing, hdepth => by
      have hskip : reader.skipComments depth = .ok reader :=
        skipComments_of_ne hcomment (by omega)
      have hword (hkind : reader.ahead.head.kind.isReport = false) := Stream.tokens_of_word hkind
      cases hkind : reader.ahead.head.kind with
      | number =>
          have htokens := hword (congrArg Kind.isReport hkind)
          simp only [descend, hskip, bind, Except.bind, hkind, token_readToken, refuse_readToken]
          cases hvalue : Decimal.ofText? reader.ahead.head.text with
          | some value =>
              refine foretells_literal htokens ?_
              rw [Token.literal?, hkind, hvalue]
              rfl
          | none =>
              refine .failed (Reading.rest_of_failed htokens ?_)
              simp only [shift, hkind, hvalue]
              rfl
      | atom =>
          have htokens := hword (congrArg Kind.isReport hkind)
          have hatom := (hgenuine _ (htokens ▸ List.mem_cons_self)).2 hkind
          simp only [descend, hskip, bind, Except.bind, hkind, token_readToken]
          cases hchars : reader.ahead.head.text.toList with
          | nil => exact absurd hchars hatom
          | cons colon name =>
              refine foretells_literal htokens ?_
              rw [Token.literal?, hkind, hchars]
              rfl
      | symbol =>
          simp only [descend, hskip, bind, Except.bind, hkind, token_readToken]
          refine foretells_literal (hword (congrArg Kind.isReport hkind)) ?_
          rw [Token.literal?, hkind]
      | comment => exact absurd hkind hcomment
      | eof => exact absurd hkind heof
      | opening delimiter =>
          have htokens := hword (congrArg Kind.isReport hkind)
          have hlength := Stream.length_tokens htokens
          have hbehind := hgenuine.of_suffix reader.ahead.tail_suffix
          have hlist := foretells_descendList depth reader.ahead.head [] reading reader.readToken
            hbehind hkind (by show 2 * reader.ahead.tail.tokens.length + 3 ≤ depth; omega)
          simp only [descend, hskip, bind, Except.bind, hkind, token_readToken]
          rw [Reading.rest_of_advance htokens (.opening hkind)]
          exact hlist.of_suffix reader.ahead.tail_suffix
      | closing delimiter =>
          have htokens := hword (congrArg Kind.isReport hkind)
          simp only [descend, hskip, bind, Except.bind, hkind, refuse_readToken]
          refine .failed (Reading.rest_of_failed htokens ?_)
          simp only [shift, hkind, hclosing delimiter hkind, Progress.close, Progress.failAt]
      | error =>
          simp only [descend, hskip, bind, Except.bind, hkind, refuse_readToken]
          exact .failed (Reading.rest_of_report (.inl hkind))
      | invalid =>
          simp only [descend, hskip, bind, Except.bind, hkind, refuse_readToken]
          exact .failed (Reading.rest_of_report (.inr hkind))

/-- Inside a list the descent reads what is left of it, or fails as the stack does. -/
theorem foretells_descendList : (depth : Nat) → (opener : Token) → (items : List Node) →
    (reading : Reading) → (reader : Reader) → {delimiter : Delimiter} →
    reader.ahead.Genuine → opener.kind = .opening delimiter →
    2 * reader.ahead.tokens.length + 3 ≤ depth →
    Foretells reading ((Reading.mk reading.done (⟨opener, items⟩ :: reading.lists)).rest reader.ahead)
      reader.ahead (descendList depth opener items reader)
  | 0, _, _, _, _, _, _, _, hdepth => nomatch hdepth
  | depth + 1, opener, items, reading, reader, delimiter, hgenuine, hopener, hdepth => by
      have hskips : reader.ahead.tokens.length < depth := by omega
      obtain ⟨behind, hskip, hcomment, hsuffix, hrest⟩ := reader.exists_skipComments hskips
      have hlength := hsuffix.length_le
      replace hgenuine := hgenuine.of_suffix hsuffix
      let within : Reading := ⟨reading.done, ⟨opener, items⟩ :: reading.lists⟩
      have helement (heof : behind.ahead.head.kind ≠ .eof)
          (hopen : ∀ delimiter, behind.ahead.head.kind ≠ .closing delimiter) :
          Foretells reading (within.rest behind.ahead) behind.ahead
            (behind.descend depth >>= fun read =>
              descendList depth opener (read.1 :: items) read.2) := by
        have hitem := foretells_descend depth within behind hgenuine hcomment heof
          (fun delimiter hclosing => absurd hclosing (hopen delimiter)) (by omega)
        refine hitem.bind fun item next hnext hshorter => ?_
        exact foretells_descendList depth opener (item :: items) reading next
          (hgenuine.of_suffix hnext) hopener (by omega)
      rw [hrest]
      refine Foretells.of_suffix ?_ hsuffix
      cases hkind : behind.ahead.head.kind with
      | eof =>
          simp only [descendList, hskip, bind, Except.bind, hkind]
          refine .failed ?_
          rw [Reading.rest_of_eof hgenuine hkind]
          rfl
      | closing closes =>
          have htokens := Stream.tokens_of_word (congrArg Kind.isReport hkind)
          have hshorter := Stream.length_tokens htokens
          simp only [descendList, hskip, bind, Except.bind, hkind, refuse_readToken, hopener,
            Kind.closer]
          split
          · rename_i hcloses
            cases hcloses
            have hlists : within.lists = ⟨opener, items⟩ :: reading.lists := rfl
            have hadvance : within.Advance behind.ahead.head
                (reading.put (Node.ofItems items.reverse)) := .closing hkind hlists hopener
            refine .complete behind.ahead.tail_suffix ?_ (Reading.rest_of_advance htokens hadvance)
            show behind.ahead.tail.tokens.length < _
            omega
          · rename_i hcloses
            refine .failed (Reading.rest_of_failed htokens ?_)
            have hother : opener.kind ≠ .opening closes := by
              rw [hopener]
              rintro ⟨⟩
              exact hcloses rfl
            simp only [shift, hkind, Progress.close, if_neg hother]
            rfl
      | comment => exact absurd hkind hcomment
      | _ =>
          have hitem := helement (by simp [hkind]) (by simp [hkind])
          simpa only [descendList, hskip, bind, Except.bind, hkind] using hitem

end

/-- The descent reads the rest of the program. -/
theorem descendProgram_eq {depth : Nat} {reader : Reader} (hgenuine : reader.ahead.Genuine)
    (hdepth : 2 * reader.ahead.tokens.length + 3 ≤ depth) (done : List Node) :
    reader.descendProgram depth done =
      ((⟨done, []⟩ : Reading).rest reader.ahead).mapError .read := by
  induction depth generalizing reader done with
  | zero => cases hdepth
  | succ depth ih =>
      have hskips : reader.ahead.tokens.length < depth := by omega
      obtain ⟨behind, hskip, hcomment, hsuffix, hrest⟩ := reader.exists_skipComments hskips
      have hlength := hsuffix.length_le
      replace hgenuine := hgenuine.of_suffix hsuffix
      simp only [descendProgram, hskip, hrest, bind, Except.bind]
      by_cases hkind : behind.ahead.head.kind = .eof
      · rw [if_pos hkind, Reading.rest_of_eof hgenuine hkind]
        rfl
      · rw [if_neg hkind]
        have hnode := foretells_descend depth ⟨done, []⟩ behind hgenuine hcomment hkind
          (fun _ _ => rfl) (by omega)
        generalize behind.descend depth = outcome at hnode
        cases hnode with
        | failed hfails => rw [hfails]; rfl
        | @complete node next hnext hshorter hgoes =>
            rw [hgoes]
            exact ih (hgenuine.of_suffix hnext) (by omega) (node :: done)

end Reader

/-! ### Sources -/

theorem Stream.genuine_ofSource (source : Source) : (ofSource source).Genuine := by
  intro token hmem
  refine ⟨?_, ?_⟩
  · cases hread : source.readError with
    | some text =>
        rw [ofSource_of_unread hread] at hmem
        cases hmem
    | none =>
        rw [ofSource_of_read hread] at hmem
        exact ((conclusive_along _ _ _ _).1 token hmem).1
  · intro hkind hempty
    obtain ⟨c, rest, htext, -⟩ := spelled_of_mem hmem (congrArg Kind.isReport hkind)
    cases hempty.symm.trans htext

theorem Stream.length_tokens_ofLexer_le (lexer : Lexer) :
    (ofLexer lexer).tokens.length ≤ lexer.cursor.rest.length := by
  fun_induction ofLexer lexer with
  | case1 lexer token lexer' hword stream ih =>
      have hshorter := Lexer.length_rest_lt_of_word? hword
      show (ofLexer lexer').tokens.length + 1 ≤ _
      omega
  | case2 lexer hword => exact Nat.zero_le _

theorem Source.length_decodeFrom_le (bytes : ByteArray) (i : Nat) :
    (decodeFrom bytes i).1.length ≤ bytes.size - i := by
  fun_induction decodeFrom bytes i with
  | case1 i hlt c hchar cs stray hrest ih =>
      have hsize := c.utf8Size_pos
      rw [hrest] at ih
      simp only [List.length_cons] at ih ⊢
      omega
  | case2 i hlt hchar => exact Nat.zero_le _
  | case3 i hge => exact Nat.zero_le _

/-- However the bytes of a source can be read, the descent ends, and reads the program. -/
theorem Reader.descendProgram_ofSource (source : Source) {depth : Nat}
    (hdepth : 2 * source.chars.length + 3 ≤ depth) :
    (ofSource source).descendProgram depth [] = (readProgram source).mapError .read := by
  have hlength := Stream.length_tokens_ofLexer_le (.ofSource source)
  have hdeep : 2 * (ofSource source).ahead.tokens.length + 3 ≤ depth :=
    Nat.le_trans (Nat.add_le_add_right (Nat.mul_le_mul_left 2 hlength) 3) hdepth
  rw [descendProgram_eq (Stream.genuine_ofSource source) hdeep, readProgram_eq_program]
  rfl

end ProtoLisp
