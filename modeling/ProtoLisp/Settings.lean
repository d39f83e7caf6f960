import ProtoLisp.Yaml.Reader
import ProtoLisp.Source
import ProtoLisp.Interpreter
import ProtoLisp.Text.Quoted
import ProtoLisp.Text.Lower
import ProtoLisp.Files

/-!
# Settings

Settings are read from a YAML mapping with five known keys.  A key that is left out, or whose value is
null, keeps its default.  All keys and values that do not fit are reported together, in their order.
-/

namespace ProtoLisp

/-- What a run of the program can be told. -/
structure Settings where
  prompt : String
  /-- greatest number of active calls; zero for any number -/
  maxStackHeight : Int
  /-- fraction digits of a quotient that does not end -/
  divisionPrecision : Int32
  logLevel : String
  /-- files to be evaluated first -/
  preload : List String
  deriving DecidableEq, Repr

namespace Settings

/-- The settings unless told otherwise. -/
def default : Settings := ⟨"> ", 10000, Interpreter.defaultPrecision, "warn", []⟩

/-- Something that does not fit, at a line. -/
inductive Misfit where
  | unknownKey (line : Nat) (key : String)
  | repeatedKey (line : Nat) (key : String) (first : Nat)
  /-- a value tagged `tag`, shown as `shown`, is not of type `type` -/
  | wrongType (line : Nat) (tag shown type : String)
  deriving DecidableEq, Repr

/-- The misfit in words. -/
def Misfit.text : Misfit → String
  | .unknownKey line key =>
    "line " ++ toString line ++ ": field " ++ key ++ " not found in type cmd.Config"
  | .repeatedKey line key first =>
    "line " ++ toString line ++ ": mapping key " ++ Text.quote key ++ " already defined at line " ++
      toString first
  | .wrongType line tag shown type =>
    "line " ++ toString line ++ ": cannot unmarshal " ++ tag ++ shown ++ " into " ++ type

/-- The first seven bytes of a text; a character that is cut through leaves a replacement character
for each of its bytes. -/
def sevenBytes (text : String) : String :=
  let chars := (Source.decodeFrom (text.toUTF8.extract 0 7) 0).1
  let whole := String.ofList chars
  whole ++ String.ofList (List.replicate (7 - whole.utf8ByteSize) '\ufffd')

/-- A value as a report shows it, cut if it is long. -/
def shownValue (text : String) : String :=
  if 10 < text.utf8ByteSize then " `" ++ sevenBytes text ++ "...`" else " `" ++ text ++ "`"

/-- What a scalar stands for. -/
def resolve (quoted : Bool) (text : String) : Yaml.Scalar :=
  if quoted then .string else .ofPlain text

/-- The keys that occur more than once, in the order in which their first occurrences come. -/
def repeatedKeys : List (Yaml.Tree × Yaml.Tree) → List Misfit
  | [] => []
  | (key, _) :: entries =>
    ((entries.filter fun (other, _) => key.sameKey other).map fun (other, _) =>
      .repeatedKey other.line other.keyText key.line) ++ repeatedKeys entries

/-- The misfits of a collection where a value of type `type` is due. -/
def collectionMisfits (type : String) : Yaml.Tree → List Misfit
  | .mapping line entries =>
    let repeated := repeatedKeys entries
    if repeated.isEmpty then [.wrongType line "!!map" "" type] else repeated
  | .sequence line _ => [.wrongType line "!!seq" "" type]
  | .scalar line _ text => [.wrongType line "!!str" (shownValue text) type]

/-- A text; none if the value is null. -/
def readText : Yaml.Tree → Option String × List Misfit
  | .scalar _ quoted text => (if resolve quoted text = .null then none else some text, [])
  | tree => (none, collectionMisfits "string" tree)

/-- The integer that a float below two to the 63rd becomes in 64 bits.  The least integer stands for
all that lie outside, and for that power itself. -/
def wrapFloat (n : Int) : Int :=
  if n < Int64.minValue.toInt ∨ n = Int64.maxValue.toInt + 1 then Int64.minValue.toInt else n

/-- An integer from `low` to `high`; none if the value is null or does not fit. -/
def readInt (type : String) (low high : Int) : Yaml.Tree → Option Int × List Misfit
  | .scalar line quoted text =>
    let scalar := resolve quoted text
    let misfit := [Misfit.wrongType line scalar.tag (shownValue text) type]
    match scalar with
    | .null => (none, [])
    | .int n => if low ≤ n ∧ n ≤ high then (some n, []) else (none, misfit)
    | .float (some n) =>
      let n := wrapFloat n
      if low ≤ n ∧ n ≤ high then (some n, []) else (none, misfit)
    | _ => (none, misfit)
  | tree => (none, collectionMisfits type tree)

/-- A list of texts, without those that are null; none if the value does not fit. -/
def readTexts : Yaml.Tree → Option (List String) × List Misfit
  | .sequence _ items =>
    let read := items.map readText
    (some (read.filterMap (·.1)), read.flatMap (·.2))
  | .scalar line quoted text =>
    let scalar := resolve quoted text
    if scalar = .null then (some [], [])
    else (none, [.wrongType line scalar.tag (shownValue text) "[]string"])
  | tree => (none, collectionMisfits "[]string" tree)

/-- The settings with one key set. -/
def set (settings : Settings) (line : Nat) (key : String) (value : Yaml.Tree) :
    Settings × List Misfit :=
  if key = "prompt" then
    let (read, misfits) := readText value
    ({ settings with prompt := read.getD settings.prompt }, misfits)
  else if key = "max_stack_height" then
    let (read, misfits) := readInt "int" Int64.minValue.toInt Int64.maxValue.toInt value
    ({ settings with maxStackHeight := read.getD settings.maxStackHeight }, misfits)
  else if key = "division_precision" then
    let (read, misfits) := readInt "int32" Int32.minValue.toInt Int32.maxValue.toInt value
    ({ settings with
      divisionPrecision := (read.map Int32.ofInt).getD settings.divisionPrecision }, misfits)
  else if key = "log_level" then
    let (read, misfits) := readText value
    ({ settings with logLevel := read.getD settings.logLevel }, misfits)
  else if key = "preload" then
    let (read, misfits) := readTexts value
    ({ settings with preload := read.getD settings.preload }, misfits)
  else (settings, [.unknownKey line key])

/-- The settings with the entries of a mapping set, and what does not fit among them. -/
def setAll (settings : Settings) : List (Yaml.Tree × Yaml.Tree) → Settings × List Misfit
  | [] => (settings, [])
  | (key, value) :: entries =>
    let (name, misfits) := readText key
    let (settings, misfits') := match name with
      | some name => settings.set key.line name value
      | none => (settings, [])
    let (settings, misfits'') := settings.setAll entries
    (settings, misfits ++ misfits' ++ misfits'')

/-- The settings that a document changes the default to, and what does not fit in it. -/
def ofTree : Yaml.Tree → Settings × List Misfit
  | .mapping _ entries =>
    let repeated := repeatedKeys entries
    if repeated.isEmpty then default.setAll entries else (default, repeated)
  | .scalar line quoted text =>
    let scalar := resolve quoted text
    if scalar = .null then (default, [])
    else (default, [.wrongType line scalar.tag (shownValue text) "cmd.Config"])
  | tree => (default, collectionMisfits "cmd.Config" tree)

/-- The names of the log levels; the empty name is the level `info`. -/
def levelNames : List String := ["debug", "info", "", "warn", "error", "dpanic", "panic", "fatal"]

/-- A log level in any case. -/
def isLevel (name : String) : Bool :=
  levelNames.contains (Text.lower name)

/-- What is wrong with the log level. -/
def checkLevel (settings : Settings) : Except String Unit :=
  if isLevel settings.logLevel then .ok ()
  else .error ("invalid log_level " ++ Text.quote settings.logLevel ++ ": unrecognized level: " ++
    Text.quote settings.logLevel)

/-- What is wrong with the settings, the first of all. -/
def check (settings : Settings) : Except String Unit :=
  if settings.maxStackHeight < 0 then
    .error ("max_stack_height must not be negative: " ++ toString settings.maxStackHeight)
  else if settings.divisionPrecision < 1 then
    .error ("division_precision must be positive: " ++ toString settings.divisionPrecision.toInt)
  else settings.checkLevel

/-- The settings in the text of the file `path`. -/
def ofText (path text : String) : Except String Settings :=
  match Yaml.Document.ofText text with
  | .empty => .ok default
  | .malformed => .error ("config: parse " ++ path ++ ": yaml: malformed document")
  | .tree root =>
    let (settings, misfits) := ofTree root
    if misfits.isEmpty then
      match settings.check with
      | .ok _ => .ok settings
      | .error text => .error ("config: " ++ path ++ ": " ++ text)
    else
      .error ("config: parse " ++ path ++ ": yaml: unmarshal errors:\n  " ++
        "\n  ".intercalate (misfits.map Misfit.text))

/-- The settings in the file at `path`, where `entry` is.  A directory can be opened, but not
read. -/
def load (path : String) (entry : Entry) : Except String Settings :=
  match entry.read path, entry with
  | .ok bytes, _ => ofText path (String.ofList (Source.ofBytes path bytes).chars)
  | .error text, .directory => .error ("config: parse " ++ path ++ ": yaml: input error: " ++ text)
  | .error text, _ => .error ("config: open " ++ path ++ ": " ++ text)

/-- The choices that an interpreter is built with. -/
def choices (settings : Settings) : List Choice :=
  [.reader, .maxStackHeight settings.maxStackHeight, .divisionPrecision settings.divisionPrecision]

end Settings

end ProtoLisp
