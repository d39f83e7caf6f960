import ProtoLisp.CallStack
import ProtoLisp.CommandLine.Flag
import ProtoLisp.CommandLine.Help
import ProtoLisp.CommandLine.Invocation
import ProtoLisp.CommandLine.Suggestion
import ProtoLisp.CommandLine.UsageError
import ProtoLisp.Condition
import ProtoLisp.Cursor
import ProtoLisp.Decimal.Basic
import ProtoLisp.Decimal.Quotient
import ProtoLisp.Decimal.Text
import ProtoLisp.Eval
import ProtoLisp.Eval.Arithmetic
import ProtoLisp.Eval.Forms
import ProtoLisp.Eval.Machine
import ProtoLisp.Eval.Script
import ProtoLisp.Failure
import ProtoLisp.Files
import ProtoLisp.Heap.Basic
import ProtoLisp.Heap.Text
import ProtoLisp.Interpreter
import ProtoLisp.Interpreter.History
import ProtoLisp.Lexer
import ProtoLisp.Location
import ProtoLisp.Main
import ProtoLisp.Node.Basic
import ProtoLisp.Node.Text
import ProtoLisp.Program
import ProtoLisp.Proofs.Discipline
import ProtoLisp.Proofs.DisciplinedEvaluation
import ProtoLisp.Proofs.Restoration
import ProtoLisp.Proofs.HeapOperations
import ProtoLisp.Proofs.HeapReachability
import ProtoLisp.ReadError
import ProtoLisp.Reader
import ProtoLisp.Session.Basic
import ProtoLisp.Session.Lines
import ProtoLisp.Settings
import ProtoLisp.Source
import ProtoLisp.Stream
import ProtoLisp.Text.Blank
import ProtoLisp.Text.Letter
import ProtoLisp.Text.Lower
import ProtoLisp.Text.Printable
import ProtoLisp.Text.Quoted
import ProtoLisp.Text.Range
import ProtoLisp.Token
import ProtoLisp.Value
import ProtoLisp.Yaml.Reader
import ProtoLisp.Yaml.Scalar
import ProtoLisp.Yaml.Tree
import ProtoLisp.Proofs.Encapsulation
import ProtoLisp.Proofs.Decoding
import ProtoLisp.Proofs.LinewiseLexing
import ProtoLisp.Proofs.TokenReading
import ProtoLisp.Proofs.Completability
import ProtoLisp.Proofs.LineFeeding
import ProtoLisp.Proofs.Plans
import ProtoLisp.Proofs.Termination
import ProtoLisp.Proofs.StackLimit
import ProtoLisp.Proofs.Grammar
import ProtoLisp.Proofs.RoundTrip
import ProtoLisp.Proofs.Histories
import ProtoLisp.Proofs.PrototypeChains
import ProtoLisp.Proofs.Course
import ProtoLisp.Proofs.Overflow
import ProtoLisp.Proofs.TypedFailures
import ProtoLisp.Proofs.HeapGrowth
import ProtoLisp.Proofs.Definitions
import ProtoLisp.Proofs.OwnScopes
import ProtoLisp.Proofs.PartOutcomes
import ProtoLisp.Proofs.Traces
import ProtoLisp.Proofs.Acts
import ProtoLisp.Proofs.Containment
import ProtoLisp.Proofs.WellFormedness
import ProtoLisp.Proofs.HeapTwins
import ProtoLisp.Proofs.Detachment
import ProtoLisp.Proofs.LexicalScoping
import ProtoLisp.Proofs.Instances
import ProtoLisp.Proofs.Assignments
import ProtoLisp.Proofs.Presence
import ProtoLisp.Proofs.AttributeLookup
import ProtoLisp.Proofs.FieldSetting
import ProtoLisp.Proofs.DecimalValues
import ProtoLisp.Proofs.ExactArithmetic
import ProtoLisp.Proofs.Quotients
import ProtoLisp.Proofs.QuotientPlaces
import ProtoLisp.Proofs.Concealment
import ProtoLisp.Proofs.ObjectsUnderConstruction
import ProtoLisp.Proofs.Writing
import ProtoLisp.Proofs.Words
import ProtoLisp.Proofs.Tiling
import ProtoLisp.Proofs.Literals
import ProtoLisp.Proofs.TokenSequences
import ProtoLisp.Proofs.Productions
import ProtoLisp.Proofs.Descent
import ProtoLisp.Proofs.SafeReading
import ProtoLisp.Proofs.ScopeForests
import ProtoLisp.Proofs.VisibleBindings
import ProtoLisp.Proofs.EmptyBindings
