import ProtoLisp.CommandLine.UsageError

/-!
# Invocations

A command line is a list of words.  The first of them that is neither a flag nor the value of one is
the command; all others but the flags are its arguments.  Flags may stand anywhere, up to the word
`--`.
-/

namespace ProtoLisp.CommandLine

/-- What a command line asks for. -/
structure Invocation where
  /-- none if the program is called without a command -/
  command : Option Command
  options : Options
  args : List String
  deriving DecidableEq, Repr

/-! ### The command -/

/-- The word ends the flags. -/
def isDivider (arg : String) : Bool := arg == "--"

/-- The word is a flag that takes the next word as its value, as far as that can be told before the
command is known: every flag does that is not a known switch and brings no value of its own. -/
def takesNext (flags : List Flag) (arg : String) : Bool :=
  !arg.contains '=' &&
    match arg.toList with
    | '-' :: '-' :: name => !((Flag.ofName? flags (String.ofList name)).any Flag.isSwitch)
    | ['-', letter] => letter.utf8Size == 1 && !((Flag.ofLetter? flags letter).any Flag.isSwitch)
    | _ => false

/-- The word is neither empty nor a flag. -/
def isPlain (arg : String) : Bool := arg != "" && !arg.startsWith "-"

/-- The first word that is no flag and no flag's value.  A flag that takes the last word leaves
nothing. -/
def firstWord? (flags : List Flag) : List String → Option String
  | [] => none
  | arg :: rest =>
    if isDivider arg then none
    else if takesNext flags arg then
      match rest with
      | _ :: next :: rest => firstWord? flags (next :: rest)
      | _ => none
    else if isPlain arg then some arg
    else firstWord? flags rest

/-- The words without the first `word` that is no flag's value. -/
def eraseWord (flags : List Flag) (word : String) : List String → List String
  | [] => []
  | arg :: rest =>
    if isDivider arg then arg :: rest
    else if takesNext flags arg then
      match rest with
      | value :: rest => arg :: value :: eraseWord flags word rest
      | [] => [arg]
    else if arg == word then rest
    else arg :: eraseWord flags word rest

/-! ### The flags -/

/-- Sets a flag. -/
def setFlag (options : Options) (flag : Flag) (value : String) : Except UsageError Options :=
  match options.set? flag value with
  | some options => .ok options
  | none => .error (.invalidSwitch flag value)

/-- The letters name no flags, but belong to a run of tests. -/
def isTestFlag (letters : List Char) : Bool := "test.".toList.isPrefixOf letters

/-- Sets the switches of a row of letters.  The last of them may have a value behind `=`. -/
def setLetters (flags : List Flag) (options : Options) : List Char → Except UsageError Options
  | [] => .ok options
  | letter :: letters =>
    if isTestFlag (letter :: letters) then .ok options
    else match Flag.ofLetter? flags letter, letters with
      | some flag, '=' :: c :: value => setFlag options flag (String.ofList (c :: value))
      | some flag, letters => do
        let options ← setFlag options flag "true"
        setLetters flags options letters
      | none, letters =>
        let text := String.ofList (letter :: letters)
        .error (.unknownLetter (text.toUTF8.toList.headD 0) text)

/-- A long flag `name` with the words behind it: the flag, its value, and what is left. -/
def longFlag (flags : List Flag) (arg : String) (name : List Char) (rest : List String) :
    Except UsageError (Flag × String × List String) :=
  match name with
  | [] | '-' :: _ | '=' :: _ => .error (.badSyntax arg)
  | name =>
    let text := String.ofList (name.takeWhile (· != '='))
    match Flag.ofName? flags text, name.dropWhile (· != '='), rest with
    | none, _, _ => .error (.unknownFlag text)
    | some flag, _ :: value, rest => .ok (flag, String.ofList value, rest)
    | some flag, [], rest =>
      if flag.isSwitch then .ok (flag, "true", rest)
      else match rest with
        | value :: rest => .ok (flag, value, rest)
        | [] => .error (.missingValue arg)

/-- A long flag takes no words that are not there. -/
theorem longFlag_rest_length {flags : List Flag} {arg : String} {name : List Char}
    {rest : List String} {result : Flag × String × List String}
    (h : longFlag flags arg name rest = .ok result) : result.2.2.length ≤ rest.length := by
  unfold longFlag at h
  split at h
  · cases h
  · cases h
  · cases h
  · dsimp only at h
    split at h
    · cases h
    · cases h
      exact Nat.le_refl _
    · split at h
      · cases h
        exact Nat.le_refl _
      · split at h
        · cases h
          exact Nat.le_succ _
        · cases h

/-- Sets all flags among the words; `args` are the others so far, the last one first. -/
def setFlags (flags : List Flag) (options : Options) (args : List String) (words : List String) :
    Except UsageError (Options × List String) :=
  match words with
  | [] => .ok (options, args.reverse)
  | arg :: rest =>
    match arg.toList with
    | ['-', '-'] => .ok (options, args.reverse ++ rest)
    | '-' :: '-' :: name =>
      match _h : longFlag flags arg name rest with
      | .error e => .error e
      | .ok (flag, value, rest') =>
        match setFlag options flag value with
        | .error e => .error e
        | .ok options => setFlags flags options args rest'
    | '-' :: letter :: letters =>
      match setLetters flags options (letter :: letters) with
      | .error e => .error e
      | .ok options => setFlags flags options args rest
    | _ => setFlags flags options (arg :: args) rest
termination_by words.length
decreasing_by
  all_goals simp only [List.length_cons]
  · have := longFlag_rest_length _h
    dsimp only at this
    omega
  · omega
  · omega

/-! ### The whole line -/

namespace Invocation

/-- The number of arguments suits the command.  Where help is asked for, it does not matter. -/
def check (invocation : Invocation) : Except UsageError Invocation :=
  if invocation.options.help then .ok invocation
  else match invocation.command, invocation.args with
    | some .run, [] => .error .tooFewArguments
    | some .repl, word :: _ => .error (.unexpectedWord .repl word)
    | _, _ => .ok invocation

/-- Reads the words behind the name of the program. -/
def ofWords (words : List String) : Except UsageError Invocation := do
  let (command, words) ← match firstWord? Flag.shared words with
    | none => .ok (none, words)
    | some word => match Command.ofName? word with
      | some command => .ok (some command, eraseWord Flag.shared word words)
      | none => .error (.unknownCommand word)
  let (options, args) ← setFlags (Flag.available command) {} [] words
  check ⟨command, options, args⟩

end Invocation

end ProtoLisp.CommandLine
