import ProtoLisp.Program
import ProtoLisp.Proofs.Completability

/-!
# Feeding a text line by line

A session reads the lines that it is fed as they come, and evaluates expressions as soon as no list
is left open.  For a text that can be read as a whole this comes to the same as evaluating the whole
text: every beginning of it that ends with a line either waits for more or is made of the first
expressions, and what follows those is read as if it stood alone.
-/

namespace ProtoLisp

open Source (decodeFrom newline)

/-! ### A readable text in two parts -/

theorem stray_of_readProgram_ok {file : String} {bytes : ByteArray} {nodes : List Node}
    (hok : readProgram (.ofBytes file bytes) = .ok nodes) : (decodeFrom bytes 0).2 = none := by
  rw [readProgram_eq_program, Stream.program_eq_ok_iff, Stream.ofSource_ofBytes] at hok
  obtain ⟨done, hreads, heof, hnodes⟩ := hok
  exact Stream.stray_of_halt heof

/-- Tokens that are read after the expressions `old` are read in the same way from the start, under
another name and at another place. -/
theorem readProgram_of_resumed {file : String} {here : Mark} {t : ByteArray} {old done : List Node}
    (hstray : (decodeFrom t 0).2 = none)
    (hreads : Reading.readAll ⟨old, []⟩ (Stream.along file none here (decodeFrom t 0).1).tokens =
      .ok ⟨done, []⟩)
    (heof : (Stream.along file none here (decodeFrom t 0).1).halt = .eof) (file' : String) :
    ∃ nodes, readProgram (.ofBytes file' t) = .ok nodes ∧ done.reverse = old.reverse ++ nodes := by
  obtain ⟨hwords, hhalt⟩ := Stream.words_along file file' here .first (decodeFrom t 0).1
  have hresumes : Reading.Resumes old ⟨old, []⟩ .start := ⟨rfl, rfl⟩
  obtain ⟨⟨done', lists'⟩, hreads', hdone, hlists⟩ := hresumes.readAll hwords hreads
  cases List.map_eq_nil_iff.mp hlists.symm
  refine ⟨done'.reverse, ?_, ?_⟩
  · rw [readProgram_eq_program, Stream.program_eq_ok_iff, Stream.ofSource_ofBytes, hstray]
    exact ⟨done', hreads', hhalt ▸ heof, rfl⟩
  · rw [show done = done' ++ old from hdone, List.reverse_append]

theorem readProgram_empty (file : String) : readProgram (.ofBytes file .empty) = .ok [] := by
  rw [readProgram_eq_program, Stream.ofSource_ofBytes, Source.decodeFrom_empty, Stream.along_nil]
  rfl

theorem readProgram_rename {file : String} {bytes : ByteArray} {nodes : List Node}
    (hok : readProgram (.ofBytes file bytes) = .ok nodes) (file' : String) :
    readProgram (.ofBytes file' bytes) = .ok nodes := by
  have hstray := stray_of_readProgram_ok hok
  rw [readProgram_eq_program, Stream.program_eq_ok_iff, Stream.ofSource_ofBytes, hstray] at hok
  obtain ⟨done, hreads, heof, rfl⟩ := hok
  obtain ⟨nodes, hnodes, hdone⟩ := readProgram_of_resumed hstray hreads heof file'
  rw [hnodes, hdone]
  rfl

theorem program_append_newline {file : String} {s : ByteArray} {reading : Reading}
    (hstray : (decodeFrom s 0).2 = none)
    (hreads : Reading.start.readAll (Stream.ofSource (.ofBytes file s)).tokens = .ok reading) :
    ∃ place, readProgram (.ofBytes file (s ++ newline)) = reading.finish .eof place := by
  have hstream := ofSource_append_of_no_stray file hstray .empty
  rw [ByteArray.append_empty, Source.decodeFrom_empty, Stream.along_nil,
    Stream.andThen_of_eof (halt_of_readAll file hstray hreads), List.append_nil] at hstream
  rw [readProgram_eq_program, hstream, Stream.program, hreads]
  exact ⟨_, rfl⟩

/-- The first lines of a readable text either wait for more or hold its first expressions; the rest
then holds the others. -/
theorem read_lines_of_ok {file : String} {s t : ByteArray} {nodes : List Node}
    (hok : readProgram (.ofBytes file (s ++ newline ++ t)) = .ok nodes) :
    (∃ first second, readProgram (.ofBytes file (s ++ newline)) = .ok first ∧
      readProgram (.ofBytes file t) = .ok second ∧ nodes = first ++ second) ∨
    ∃ error, readProgram (.ofBytes file (s ++ newline)) = .error error ∧
      error.incomplete = true := by
  have hstray : (decodeFrom s 0).2 = none := by
    cases hbyte : (decodeFrom s 0).2 with
    | none => rfl
    | some byte =>
        rw [ofBytes_append_of_stray file hbyte] at hok
        rw [stray_of_readProgram_ok hok] at hbyte
        cases hbyte
  have hprogram := hok
  rw [readProgram_eq_program, ofSource_append_of_no_stray file hstray] at hprogram
  cases hreads : Reading.start.readAll (Stream.ofSource (.ofBytes file s)).tokens with
  | error error =>
      rw [Stream.program_of_prefix_error (Stream.tokens_prefix_andThen _ _) hreads] at hprogram
      cases hprogram
  | ok reading =>
      obtain ⟨old, lists⟩ := reading
      obtain ⟨place, hline⟩ := program_append_newline hstray hreads
      rw [hline]
      cases lists with
      | cons list lists => exact .inr ⟨_, rfl, rfl⟩
      | nil =>
          rw [Stream.andThen_of_eof (halt_of_readAll file hstray hreads),
            Stream.program_eq_ok_iff] at hprogram
          obtain ⟨done, hboth, heof, rfl⟩ := hprogram
          rw [Reading.readAll_append, hreads] at hboth
          have hstray' : (decodeFrom t 0).2 = none := Stream.stray_of_halt heof
          rw [hstray'] at hboth heof
          obtain ⟨second, hsecond, hdone⟩ := readProgram_of_resumed hstray' hboth heof file
          exact .inl ⟨old.reverse, second, rfl, hsecond, hdone⟩

/-! ### Evaluation in two parts -/

namespace Interpreter

/-- The expressions that are evaluated, in order: all up to the first that fails, and that one. -/
def attempted (interpreter : Interpreter) (depth : Nat) : List Node → List Node
  | [] => []
  | node :: nodes =>
    match interpreter.eval depth node with
    | (.ok _, interpreter) => node :: interpreter.attempted depth nodes
    | (.error _, _) => [node]

theorem evalEach_append (interpreter : Interpreter) (depth : Nat) (printing : Bool) (out : String)
    (first second : List Node) :
    interpreter.evalEach depth printing out (first ++ second) =
      match interpreter.evalEach depth printing out first with
      | (out, none, next) => next.evalEach depth printing out second
      | (out, some failure, next) => (out, some failure, next) := by
  induction first generalizing interpreter out with
  | nil => rfl
  | cons node first ih =>
      simp only [List.cons_append, evalEach]
      cases interpreter.eval depth node with
      | mk result next =>
          cases result with
          | ok slot => exact ih next _
          | error failure => rfl

theorem attempted_append (interpreter : Interpreter) (depth : Nat) (printing : Bool) (out : String)
    (first second : List Node) :
    interpreter.attempted depth (first ++ second) =
      match interpreter.evalEach depth printing out first with
      | (_, none, next) => interpreter.attempted depth first ++ next.attempted depth second
      | (_, some _, _) => interpreter.attempted depth first := by
  induction first generalizing interpreter out with
  | nil => rfl
  | cons node first ih =>
      simp only [List.cons_append, attempted, evalEach]
      cases interpreter.eval depth node with
      | mk result next =>
          cases result with
          | ok slot =>
              simp only
              rw [ih next (if printing then out ++ next.text slot ++ "\n" else out)]
              split <;> rfl
          | error failure => rfl

theorem evalEach_out (interpreter : Interpreter) (depth : Nat) (printing : Bool) (out : String)
    (nodes : List Node) :
    interpreter.evalEach depth printing out nodes =
      (out ++ (interpreter.evalEach depth printing "" nodes).1,
        (interpreter.evalEach depth printing "" nodes).2) := by
  induction nodes generalizing interpreter out with
  | nil => simp [evalEach]
  | cons node nodes ih =>
      simp only [evalEach]
      cases interpreter.eval depth node with
      | mk result next =>
          cases result with
          | ok slot =>
              simp only
              rw [ih next, ih next (if printing then "" ++ next.text slot ++ "\n" else "")]
              cases printing <;> simp [String.append_assoc]
          | error failure => simp

/-- Of the expressions only those are evaluated that are attempted. -/
theorem evalEach_attempted (interpreter : Interpreter) (depth : Nat) (printing : Bool)
    (out : String) (nodes : List Node) :
    interpreter.evalEach depth printing out (interpreter.attempted depth nodes) =
      interpreter.evalEach depth printing out nodes := by
  induction nodes generalizing interpreter out with
  | nil => rfl
  | cons node nodes ih =>
      simp only [attempted, evalEach]
      cases heval : interpreter.eval depth node with
      | mk result next =>
          cases result with
          | ok slot =>
              simp only [evalEach, heval]
              exact ih next _
          | error failure => simp only [evalEach, heval]

end Interpreter

/-! ### Sessions -/

/-- The text of lines, each of which ends with a newline. -/
def joinLines : List ByteArray → ByteArray
  | [] => .empty
  | line :: lines => line ++ newline ++ joinLines lines

def Reply.failed (reply : Reply) : Bool := reply.err != "" || reply.crash.isSome

/-- What has come of the lines that a session was fed. -/
structure Feeding where
  session : Session
  /-- the expressions that were evaluated, in order -/
  evaluated : List Node
  /-- the values that were written -/
  out : String
  failed : Bool

/-- Goes on feeding, unless there was a failure. -/
def Feeding.andThen (first : Feeding) (next : Session → Feeding) : Feeding :=
  if first.failed then first
  else
    let second := next first.session
    { second with
      evaluated := first.evaluated ++ second.evaluated
      out := first.out ++ second.out }

theorem Feeding.andThen_congr {first : Feeding} {next next' : Session → Feeding}
    (hnext : next first.session = next' first.session) :
    first.andThen next = first.andThen next' := by
  rw [andThen, andThen, hnext]

theorem Feeding.andThen_silent (session : Session) (next : Session → Feeding) :
    Feeding.andThen ⟨session, [], "", false⟩ next = next session := by
  simp [andThen]

namespace Session

/-- The expressions that a line completes, together with the lines that wait for it. -/
def completed (session : Session) (line : ByteArray) : List Node :=
  if !session.isPending && isExit line then []
  else match readProgram (.ofBytes inputName (session.pending ++ line ++ newline)) with
    | .ok nodes => nodes
    | .error _ => []

/-- Feeds one line, and takes down which expressions are evaluated. -/
def feedLine (session : Session) (depth : Nat) (line : ByteArray) : Feeding :=
  let (next, reply) := session.feed depth line
  ⟨next, session.interpreter.attempted depth (session.completed line), reply.out, reply.failed⟩

/-- Feeds lines up to the first failure. -/
def feedLines (depth : Nat) : List ByteArray → Session → Feeding
  | [], session => ⟨session, [], "", false⟩
  | line :: lines, session => (session.feedLine depth line).andThen (feedLines depth lines)

/-- What comes of the evaluation of `nodes` by a session for which no lines wait. -/
def evaluation (depth : Nat) (nodes : List Node) (session : Session) : Feeding :=
  let (out, failure, interpreter) := session.interpreter.evalEach depth true "" nodes
  ⟨{ session with interpreter := interpreter, pending := .empty },
    session.interpreter.attempted depth nodes, out, failure.isSome⟩

theorem evaluation_append (depth : Nat) (first second : List Node) (session : Session) :
    session.evaluation depth (first ++ second) =
      (session.evaluation depth first).andThen (evaluation depth second) := by
  have hattempted := session.interpreter.attempted_append depth true "" first second
  simp only [evaluation, Interpreter.evalEach_append, hattempted]
  obtain ⟨out, failure, next⟩ := session.interpreter.evalEach depth true "" first
  cases failure with
  | some failure => rfl
  | none =>
      simp only [Feeding.andThen]
      rw [Interpreter.evalEach_out]
      rfl

variable {session : Session} {line : ByteArray} {nodes : List Node} {error : ReadError}

theorem feed_of_ok (hstays : (!session.isPending && isExit line) = false)
    (hread : readProgram (.ofBytes inputName (session.pending ++ line ++ newline)) = .ok nodes)
    (depth : Nat) :
    session.feed depth line = session.evaluate depth nodes ∧ session.completed line = nodes := by
  constructor
  · rw [newline] at hread
    simp only [feed, hstays, Bool.false_eq_true, if_false, hread]
  · simp only [completed, hstays, Bool.false_eq_true, if_false, hread]

theorem feed_of_error (hstays : (!session.isPending && isExit line) = false)
    (hread : readProgram (.ofBytes inputName (session.pending ++ line ++ newline)) = .error error)
    (depth : Nat) :
    session.feed depth line =
        (if error.incomplete then
          ({ session with pending := session.pending ++ line ++ newline }, .silent true)
        else (session.reset, ⟨false, "", complaint session.tracing (.read error), none⟩)) ∧
      session.completed line = [] := by
  constructor
  · rw [newline] at hread ⊢
    simp only [feed, hstays, Bool.false_eq_true, if_false, hread]
  · simp only [completed, hstays, Bool.false_eq_true, if_false, hread]

/-- What is taken down for a line is what the session evaluates: it has the same effect on the
interpreter, and the same values are written. -/
theorem evalEach_feedLine (session : Session) (depth : Nat) (line : ByteArray) :
    ∃ failure, session.interpreter.evalEach depth true "" (session.feedLine depth line).evaluated =
      ((session.feed depth line).2.out, failure, (session.feed depth line).1.interpreter) := by
  have hevaluated : (session.feedLine depth line).evaluated =
      session.interpreter.attempted depth (session.completed line) := rfl
  rw [hevaluated, Interpreter.evalEach_attempted]
  by_cases hexit : (!session.isPending && isExit line) = true
  · simp only [feed, completed, hexit, if_true]
    exact ⟨none, rfl⟩
  · have hstays := Bool.of_not_eq_true hexit
    cases hread : readProgram (.ofBytes inputName (session.pending ++ line ++ newline)) with
    | error error =>
        obtain ⟨hfeed, hcompleted⟩ := feed_of_error hstays hread depth
        rw [hfeed, hcompleted]
        split <;> exact ⟨none, rfl⟩
    | ok nodes =>
        obtain ⟨hfeed, hcompleted⟩ := feed_of_ok hstays hread depth
        rw [hfeed, hcompleted, evaluate]
        obtain ⟨out, failure, next⟩ := session.interpreter.evalEach depth true "" nodes
        refine ⟨failure, ?_⟩
        cases failure with
        | none => rfl
        | some failure => cases failure <;> rfl

theorem complaint_ne_empty (tracing : Bool) (failure : Failure) :
    complaint tracing failure ≠ "" := by
  intro hempty
  have hlength := congrArg String.length hempty
  simp only [complaint, String.length_append] at hlength
  have hword : "error: ".length = 7 := by decide
  have hnone : "".length = 0 := by decide
  omega

theorem feedLine_of_ok (hexit : isExit line = false)
    (hread : readProgram (.ofBytes inputName (session.pending ++ line ++ newline)) = .ok nodes)
    (depth : Nat) : session.feedLine depth line = session.evaluation depth nodes := by
  obtain ⟨hfeed, hcompleted⟩ := feed_of_ok (by simp [hexit]) hread depth
  rw [feedLine, hcompleted, hfeed, evaluate, evaluation]
  obtain ⟨out, failure, next⟩ := session.interpreter.evalEach depth true "" nodes
  cases failure with
  | none => rfl
  | some failure => cases failure <;> simp [Reply.failed, complaint_ne_empty]

theorem feedLine_of_incomplete (hexit : isExit line = false)
    (hread : readProgram (.ofBytes inputName (session.pending ++ line ++ newline)) = .error error)
    (hincomplete : error.incomplete = true) (depth : Nat) :
    session.feedLine depth line =
      ⟨{ session with pending := session.pending ++ line ++ newline }, [], "", false⟩ := by
  obtain ⟨hfeed, hcompleted⟩ := feed_of_error (by simp [hexit]) hread depth
  rw [feedLine, hcompleted, hfeed, if_pos hincomplete]
  rfl

/-- Feeding the lines of a readable text comes to evaluating its expressions.  What waits at the
start is the beginning of the text. -/
theorem feedLines_eq_evaluation (depth : Nat) {lines : List ByteArray} {session : Session}
    {nodes : List Node} (hexit : ∀ line ∈ lines, isExit line = false)
    (hpending : session.pending = .empty ∨
      ∃ error, readProgram (.ofBytes inputName session.pending) = .error error)
    (hread : readProgram (.ofBytes inputName (session.pending ++ joinLines lines)) = .ok nodes) :
    session.feedLines depth lines = session.evaluation depth nodes := by
  induction lines generalizing session nodes with
  | nil =>
      rw [joinLines, ByteArray.append_empty] at hread
      rcases hpending with hempty | ⟨error, hfails⟩
      · rw [hempty, readProgram_empty] at hread
        cases hread
        obtain ⟨interpreter, tracing, pending, done⟩ := session
        cases hempty
        rfl
      · rw [hfails] at hread
        cases hread
  | cons line lines ih =>
      have hexit' : ∀ line ∈ lines, isExit line = false :=
        fun line hmem => hexit line (List.mem_cons_of_mem _ hmem)
      have hline := hexit line List.mem_cons_self
      rw [joinLines, ← ByteArray.append_assoc, ← ByteArray.append_assoc] at hread
      rw [feedLines]
      rcases read_lines_of_ok hread with
        ⟨first, second, hfirst, hsecond, rfl⟩ | ⟨error, hfails, hincomplete⟩
      · rw [feedLine_of_ok hline hfirst, evaluation_append]
        apply Feeding.andThen_congr
        apply ih hexit' (.inl rfl)
        rwa [show (session.evaluation depth first).session.pending = .empty from rfl,
          ByteArray.empty_append]
      · let waiting : Session := { session with pending := session.pending ++ line ++ newline }
        have hwaiting : waiting.feedLines depth lines = waiting.evaluation depth nodes :=
          ih hexit' (.inr ⟨error, hfails⟩) hread
        rw [feedLine_of_incomplete hline hfails hincomplete, Feeding.andThen_silent, hwaiting]
        rfl

end Session

/-! ### The whole text -/

theorem Program.evalSource_of_ok (interpreter : Interpreter) (tracing : Bool) {source : Source}
    {nodes : List Node} (hread : readProgram source = .ok nodes) (screen : Screen) :
    Program.evalSource interpreter tracing true source screen =
      match interpreter.evalEach Program.depth true "" nodes with
      | (out, none, next) => .ok next { screen with out := screen.out ++ out }
      | (out, some failure, _) => .error ⟨[source.file], failure⟩
          ⟨screen.out ++ out,
            if tracing then screen.err ++ failure.trace?.getD "" else screen.err⟩ := by
  simp only [evalSource, hread]
  obtain ⟨out, failure, next⟩ := interpreter.evalEach Program.depth true "" nodes
  cases failure with
  | none => rfl
  | some failure => cases tracing <;> rfl

theorem Interpreter.attempted_of_none {interpreter next : Interpreter} {depth : Nat}
    {printing : Bool} {out out' : String} {nodes : List Node}
    (hall : interpreter.evalEach depth printing out nodes = (out', none, next)) :
    interpreter.attempted depth nodes = nodes := by
  induction nodes generalizing interpreter out with
  | nil => rfl
  | cons node nodes ih =>
      simp only [evalEach] at hall
      simp only [attempted]
      cases heval : interpreter.eval depth node with
      | mk result next' =>
          rw [heval] at hall
          cases result with
          | ok slot => exact congrArg (List.cons node) (ih hall)
          | error failure => cases hall

theorem Interpreter.prefix_attempted (interpreter : Interpreter) (depth : Nat) (nodes : List Node) :
    interpreter.attempted depth nodes <+: nodes := by
  induction nodes generalizing interpreter with
  | nil => exact List.prefix_refl []
  | cons node nodes ih =>
      simp only [attempted]
      cases interpreter.eval depth node with
      | mk result next =>
          cases result with
          | ok slot => exact (List.prefix_cons_inj node).mpr (ih next)
          | error failure => exact (List.prefix_cons_inj node).mpr List.nil_prefix

/-- A session that is fed a readable text line by line evaluates the expressions of the text, each
once and in order, up to the first that fails, and writes what an evaluation of the whole text
writes.  If none fails, nothing waits at the end and the interpreter is the same.  So it does not
matter how the text is cut into lines.

The expressions are taken down beside the session.  To evaluate those that are taken down for a line
does to the interpreter what the session does with the line, in any session, and writes the same; and
so it is with all of them and the whole text. -/
theorem feedLines_agrees_with_evalSource (interpreter : Interpreter) (tracing tracing' : Bool)
    (file : String) (screen : Screen) {lines : List ByteArray} {nodes : List Node}
    (hexit : ∀ line ∈ lines, Session.isExit line = false)
    (hread : readProgram (.ofBytes file (joinLines lines)) = .ok nodes) :
    let fed := (Session.start interpreter tracing).feedLines Program.depth lines
    fed.evaluated = interpreter.attempted Program.depth nodes ∧
    (∀ (session : Session) (line : ByteArray), ∃ failure,
      session.interpreter.evalEach Program.depth true ""
          (session.feedLine Program.depth line).evaluated =
        ((session.feed Program.depth line).2.out, failure,
          (session.feed Program.depth line).1.interpreter)) ∧
    (∃ failure, fed.failed = failure.isSome ∧
      interpreter.evalEach Program.depth true "" fed.evaluated =
        (fed.out, failure, fed.session.interpreter)) ∧
    (match
        Program.evalSource interpreter tracing' true (.ofBytes file (joinLines lines)) screen with
      | .ok whole screen' =>
        fed.failed = false ∧ fed.evaluated = nodes ∧ screen'.out = screen.out ++ fed.out ∧
          fed.session.interpreter = whole ∧ fed.session.isPending = false
      | .error _ screen' =>
        fed.failed = true ∧ fed.evaluated <+: nodes ∧ screen'.out = screen.out ++ fed.out) ∧
    ∀ lines', joinLines lines' = joinLines lines →
      (∀ line ∈ lines', Session.isExit line = false) →
      (Session.start interpreter tracing).feedLines Program.depth lines' = fed := by
  intro fed
  have hsame (lines' : List ByteArray) (hjoin : joinLines lines' = joinLines lines)
      (hexit' : ∀ line ∈ lines', Session.isExit line = false) :
      (Session.start interpreter tracing).feedLines Program.depth lines' =
        (Session.start interpreter tracing).evaluation Program.depth nodes := by
    apply Session.feedLines_eq_evaluation Program.depth hexit' (.inl rfl)
    rw [hjoin, show (Session.start interpreter tracing).pending = .empty from rfl,
      ByteArray.empty_append]
    exact readProgram_rename hread Session.inputName
  have hfed : fed = (Session.start interpreter tracing).evaluation Program.depth nodes :=
    hsame lines rfl hexit
  have hevaluated : fed.evaluated = interpreter.attempted Program.depth nodes :=
    congrArg Feeding.evaluated hfed
  refine ⟨hevaluated, fun session line => session.evalEach_feedLine Program.depth line, ?_, ?_,
    fun lines' hjoin hexit' => (hsame lines' hjoin hexit').trans hfed.symm⟩
  · rw [hevaluated, Interpreter.evalEach_attempted, hfed]
    exact ⟨_, rfl, rfl⟩
  · rw [Program.evalSource_of_ok interpreter tracing' hread, hfed]
    simp only [Session.evaluation, Session.start]
    cases hall : interpreter.evalEach Program.depth true "" nodes with
    | mk out rest =>
        obtain ⟨failure, next⟩ := rest
        cases failure with
        | none => exact ⟨rfl, Interpreter.attempted_of_none hall, rfl, rfl, rfl⟩
        | some failure => exact ⟨rfl, interpreter.prefix_attempted Program.depth nodes, rfl⟩

/-- A list over two lines with a comment between them and an expression behind it, and the same text
in one piece.  The values are 3 and an atom. -/
theorem feedLines_agrees_with_evalSource_sum :
    let session := Session.start (.initial .standard) false
    let lines := ["(+ 1 ; one".toUTF8, "2) :a".toUTF8]
    let nodes := [Node.call "+" [.number ⟨1, 0⟩, .number ⟨2, 0⟩], .atom "a"]
    let fed := session.feedLines Program.depth lines
    (∀ line ∈ lines, Session.isExit line = false) ∧
    readProgram (.ofBytes "f" (joinLines lines)) = .ok nodes ∧
    fed.evaluated = nodes ∧ fed.out = "3\n:a\n" ∧ fed.failed = false ∧
    session.feedLines Program.depth ["(+ 1 ; one\n2) :a".toUTF8] = fed := by
  intro session lines nodes fed
  have hexit : ∀ line ∈ lines, Session.isExit line = false := by
    intro line hmem
    rcases List.mem_cons.mp hmem with rfl | hmem
    · cbv
    · cases List.mem_singleton.mp hmem
      cbv
  have hread : readProgram (.ofBytes "f" (joinLines lines)) = .ok nodes := by cbv
  obtain ⟨hattempted, -, ⟨failure, hfailed, heach⟩, -, hsame⟩ :=
    feedLines_agrees_with_evalSource (.initial .standard) false false "f" ⟨"", ""⟩ hexit hread
  have hnodes : (Interpreter.initial .standard).attempted Program.depth nodes = nodes := rfl
  have hevaluated : fed.evaluated = nodes := hattempted.trans hnodes
  have hvalues : ((Interpreter.initial .standard).evalEach Program.depth true "" nodes).1 =
      "3\n:a\n" := rfl
  have hnone : ((Interpreter.initial .standard).evalEach Program.depth true "" nodes).2.1 = none :=
    rfl
  rw [hattempted, hnodes] at heach
  rw [heach] at hvalues hnone
  have hjoin : joinLines ["(+ 1 ; one\n2) :a".toUTF8] = joinLines lines := by cbv
  refine ⟨hexit, hread, hevaluated, hvalues, hfailed.trans (congrArg Option.isSome hnone),
    hsame _ hjoin ?_⟩
  intro line hmem
  cases List.mem_singleton.mp hmem
  cbv

end ProtoLisp
