import ProtoLisp.Proofs.Descent

/-!
# Reading any bytes

Whatever the bytes of a source are, and whether or not they could be read to their end, the reader
comes to an end with the expressions of the program or with a failure.  A failure is located between
two characters of the source, or at its end.
-/

namespace ProtoLisp

/-! ### Where failures show -/

/-- The location is that behind some of the characters at the front of the bytes. -/
def Location.Within (file : String) (bytes : ByteArray) (location : Location) : Prop :=
  ∃ front pos, Spells bytes 0 pos front ∧
    location = ⟨file, pos, 1 + front.count '\n',
      1 + (front.reverse.takeWhile (· != '\n')).length⟩

/-- The failure is located, at a place with the property `P`. -/
def ReadError.Shows (P : Location → Prop) (error : ReadError) : Prop :=
  ∃ location, error.location = some location ∧ P location

section Shows

variable {P : Location → Prop} {lists : List OpenList} {token : Token} {error : ReadError}

theorem Progress.shows_of_close {delimiter : Delimiter} (htoken : P token.location)
    (hclose : close lists delimiter token = .failed error) : error.Shows P := by
  unfold close at hclose
  split at hclose
  · cases hclose
    exact ⟨_, rfl, htoken⟩
  · split at hclose
    · exact absurd hclose (place_ne_failed _ _ _)
    · cases hclose
      exact ⟨_, rfl, htoken⟩

theorem shows_stopped {halt : Halt} {place : Location} (hplace : P place)
    (hlists : ∀ list ∈ lists, P list.opener.location) : (stopped lists halt place).Shows P := by
  cases halt with
  | failure text => exact ⟨place, rfl, hplace⟩
  | eof =>
      cases lists with
      | nil => exact ⟨place, rfl, hplace⟩
      | cons list lists => exact ⟨_, rfl, hlists list List.mem_cons_self⟩

theorem shows_of_shift (htoken : P token.location)
    (hlists : ∀ list ∈ lists, P list.opener.location)
    (hshift : shift lists token = .failed error) : error.Shows P := by
  unfold shift at hshift
  split at hshift
  · split at hshift
    · exact absurd hshift (Progress.place_ne_failed _ _ _)
    · cases hshift
      exact ⟨_, rfl, htoken⟩
  · exact absurd hshift (Progress.place_ne_failed _ _ _)
  · exact absurd hshift (Progress.place_ne_failed _ _ _)
  · cases hshift
  · cases hshift
  · exact Progress.shows_of_close htoken hshift
  · cases hshift
    exact ⟨_, rfl, htoken⟩
  · cases hshift
    exact ⟨_, rfl, htoken⟩
  · cases hshift
    exact shows_stopped htoken hlists

namespace Reading

theorem openers_of_advance {reading next : Reading} (hadvance : reading.Advance token next) :
    ∀ opener ∈ next.openers, opener = token ∨ opener ∈ reading.openers := by
  cases hadvance with
  | literal hnode =>
      rw [openers_put]
      exact fun _ hmem => .inr hmem
  | comment hkind => exact fun _ hmem => .inr hmem
  | opening hkind => exact fun _ hmem => List.mem_cons.mp hmem
  | closing hkind hlists hopener =>
      intro opener hmem
      rw [openers_put] at hmem
      rw [openers, hlists]
      exact .inr (List.mem_cons_of_mem _ hmem)

/-- A failure shows at a token, at an opener or at the end of the tokens. -/
theorem shows_of_rest {reading : Reading} {stream : Stream}
    (htokens : ∀ token ∈ stream.tokens, P token.location) (hplace : P stream.place)
    (hopeners : ∀ opener ∈ reading.openers, P opener.location)
    (hrest : reading.rest stream = .error error) : error.Shows P := by
  obtain ⟨tokens, halt, place⟩ := stream
  have hlists {reading : Reading} (hopeners : ∀ opener ∈ reading.openers, P opener.location) :
      ∀ list ∈ reading.lists, P list.opener.location :=
    fun list hmem => hopeners list.opener (List.mem_map_of_mem hmem)
  induction tokens generalizing reading with
  | nil =>
      change reading.finish halt place = .error error at hrest
      unfold finish at hrest
      split at hrest
      · cases hrest
      · cases hrest
        exact shows_stopped hplace (hlists hopeners)
  | cons token tokens ih =>
      rw [rest_of_tokens rfl] at hrest
      change reading.step token >>= (rest · ⟨tokens, halt, place⟩) = .error error at hrest
      have htoken := htokens token List.mem_cons_self
      cases hstep : reading.step token with
      | error error' =>
          rw [hstep] at hrest
          cases hrest
          exact shows_of_shift htoken (hlists hopeners) (shift_of_step_error hstep)
      | ok next =>
          rw [hstep] at hrest
          refine ih ?_ (fun token hmem => htokens token (List.mem_cons_of_mem _ hmem)) hplace hrest
          intro opener hmem
          rcases openers_of_advance (advance_of_step hstep) opener hmem with rfl | hmem
          · exact htoken
          · exact hopeners opener hmem

end Reading

end Shows

theorem Location.within_of_places {file : String} {bytes : ByteArray} {location : Location}
    (hplaces : Stream.Places file .first (Source.ofBytes file bytes).chars location) :
    Within file bytes location := by
  obtain ⟨front, ⟨behind, hchars⟩, rfl⟩ := hplaces
  obtain ⟨tail, hbytes, -⟩ := Source.extract_eq_decodeFrom (Nat.zero_le bytes.size)
  change bytes.extract 0 bytes.size = (Source.ofBytes file bytes).chars.utf8Encode ++ tail at hbytes
  rw [ByteArray.extract_zero_size, ← hchars] at hbytes
  refine ⟨front, front.utf8Encode.size, Spells.of_prefix hbytes, ?_⟩
  rw [Mark.afterAll_first]
  simp only [Mark.inFile, Int.natCast_add, Int.natCast_one]

/-- The bytes of a source, and why they could not be read to their end if they could not. -/
def Source.reading (file : String) (bytes : ByteArray) (failure : Option String) : Source :=
  { ofBytes file bytes with readError := failure }

theorem Stream.within_ofSource (file : String) (bytes : ByteArray) (failure : Option String) :
    let stream := ofSource (.reading file bytes failure)
    (∀ token ∈ stream.tokens, token.location.Within file bytes) ∧
      stream.place.Within file bytes := by
  cases failure with
  | some text =>
      have hunread : (Source.reading file bytes (some text)).readError = some text := rfl
      rw [ofSource_of_unread hunread]
      exact ⟨nofun, Location.within_of_places ⟨[], List.nil_prefix, rfl⟩⟩
  | none =>
      have hread : (Source.reading file bytes none).readError = none := rfl
      rw [ofSource_of_read hread]
      obtain ⟨htokens, hplace⟩ := places_along file (Source.ofBytes file bytes).stray .first
        (Source.ofBytes file bytes).chars
      exact ⟨fun token hmem => Location.within_of_places (htokens token hmem),
        Location.within_of_places hplace⟩

/-! ### Calls for tokens -/

/-- What holds of a call for a token, and of all calls after it. -/
structure Lexer.Orderly (lexer : Lexer) : Prop where
  advances : lexer.cursor.here.pos < lexer.next.2.cursor.here.pos ∨ lexer.next.1.kind = .eof ∨
    ∃ text, lexer.next.1.word = (.error, text) ∧ lexer.Fails text
  ends : lexer.next.1.kind = .eof → ∀ n, (lexer.tokenAt n).word = (.eof, "")
  spoils : lexer.next.1.kind = .invalid →
    ∀ n, (lexer.tokenAt (n + 1)).word = (.error, lexer.next.1.text)
  fails : ∀ text, lexer.Fails text → ∀ n, (lexer.tokenAt n).word = (.error, text)

theorem Lexer.orderly (lexer : Lexer) : lexer.Orderly where
  advances := by
    cases hword : lexer.word? with
    | some found =>
        rw [next_of_word? hword]
        exact .inl (pos_lt_of_word? hword)
    | none =>
        rw [next_of_none hword]
        cases hwhy : lexer.outcome.1 with
        | eof => exact .inr (.inl rfl)
        | failure text => exact .inr (.inr ⟨text, rfl, fails_of_outcome hword hwhy⟩)
  ends hkind := (ended_of_eof hkind).word_tokenAt
  spoils hkind := (ended_of_invalid hkind).word_tokenAt
  fails _ hfails := hfails.ended.word_tokenAt

/-- Reading the source comes to an end and crashes nowhere, wherever its bytes could not be read. -/
structure Source.SafelyRead (source : Source) (bytes : ByteArray) : Prop where
  /-- the descent reads the program, or fails as the stack does -/
  ends : ∀ depth, 2 * bytes.size + 3 ≤ depth →
    (Reader.ofSource source).descendProgram depth [] = (readProgram source).mapError .read
  /-- a failure shows in the source or at its end -/
  located : ∀ error, readProgram source = .error error →
    error.Shows (Location.Within source.file bytes)
  /-- what is read, one after the other, are the tokens that the lexer gives -/
  tokens : ∀ n, (Reader.readToken^[n + 1] (.ofSource source)).current =
    some ((Lexer.ofSource source).tokenAt n)
  orderly : ∀ n, ((Lexer.ofSource source).after n).Orderly
  /-- bytes that could not be read to their end are a failure from the first token on -/
  unread : ∀ text, source.readError = some text → (Lexer.ofSource source).Fails text
  /-- no token says that the text was interrupted, unless reading its bytes failed so -/
  uninterrupted : ∀ n, ((Lexer.ofSource source).tokenAt n).text = Fault.interruption →
    source.readError = some Fault.interruption

/-- Whatever the bytes of a source are, and whether or not reading them failed. -/
theorem Source.safelyRead (file : String) (bytes : ByteArray) (failure : Option String) :
    (reading file bytes failure).SafelyRead bytes where
  ends depth hdepth := by
    have hlength := length_decodeFrom_le bytes 0
    apply Reader.descendProgram_ofSource
    show 2 * (decodeFrom bytes 0).1.length + 3 ≤ depth
    omega
  located error herror := by
    obtain ⟨htokens, hplace⟩ := Stream.within_ofSource file bytes failure
    have hopeners : ∀ opener ∈ Reading.start.openers, opener.location.Within file bytes := nofun
    rw [readProgram_eq_program] at herror
    exact Reading.shows_of_rest htokens hplace hopeners herror
  tokens := Reader.current_readTokens _
  orderly _ := Lexer.orderly _
  unread text htext := .inl (congrArg (Option.map Halt.failure) htext)
  uninterrupted _ htext := Lexer.readError_of_interruption htext

set_option maxRecDepth 4000 in
/-- A list is left open by a stray byte behind a comment.  Another text could not be read. -/
theorem Source.safelyRead_stray :
    let bytes : ByteArray := ⟨#[40, 59, 10, 255]⟩
    let error : ReadError :=
      ⟨some ⟨"f", 3, 2, 1⟩, .reported "f:2:1: invalid utf-8 sequence starting with byte 'ÿ'" false⟩
    let unread := reading "f" ":a".toUTF8 (some "unexpected EOF")
    readProgram (reading "f" bytes none) = .error error ∧
    error.Shows (Location.Within "f" bytes) ∧
    (Lexer.ofSource unread).Fails "unexpected EOF" ∧
    ((Lexer.ofSource unread).tokenAt 7).word = (.error, "unexpected EOF") := by
  have hsafe := safelyRead "f" ⟨#[40, 59, 10, 255]⟩ none
  have hunread := safelyRead "f" ":a".toUTF8 (some "unexpected EOF")
  have hstray : readProgram (reading "f" ⟨#[40, 59, 10, 255]⟩ none) =
      .error ⟨some ⟨"f", 3, 2, 1⟩,
        .reported "f:2:1: invalid utf-8 sequence starting with byte 'ÿ'" false⟩ := by cbv
  have hfails := hunread.unread _ rfl
  exact ⟨hstray, hsafe.located _ hstray, hfails, (hunread.orderly 0).fails _ hfails 7⟩

end ProtoLisp
