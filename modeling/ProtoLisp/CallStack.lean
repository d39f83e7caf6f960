/-!
# The call stack

The stack of active calls serves to bound recursion and to explain failures; it holds no values.  A
trace lists the calls from the innermost to the first.
-/

namespace ProtoLisp

/-- One active call: the function's name, and the name of the object it was sent to, if any. -/
structure Frame where
  name : String
  receiver : String
  deriving DecidableEq, Repr, Inhabited

/-- The call in words. -/
def Frame.text (frame : Frame) : String :=
  if frame.receiver = "" then frame.name else frame.receiver ++ " " ++ frame.name

/-- The active calls, the first one first. -/
structure CallStack where
  frames : Array Frame
  /-- the greatest number of calls; there is no bound unless it is positive -/
  maxHeight : Int
  deriving DecidableEq, Repr, Inhabited

namespace CallStack

/-- A stack without calls. -/
def empty (maxHeight : Int) : CallStack := ⟨#[], maxHeight⟩

/-- The number of active calls. -/
def height (stack : CallStack) : Nat := stack.frames.size

/-- The innermost call. -/
def top? (stack : CallStack) : Option Frame := stack.frames.back?

/-- No further call may become active. -/
def isFull (stack : CallStack) : Bool :=
  decide (0 < stack.maxHeight) && decide (stack.maxHeight ≤ stack.frames.size)

/-- The stack with one more call, whether full or not. -/
def push (stack : CallStack) (frame : Frame) : CallStack :=
  { stack with frames := stack.frames.push frame }

/-- The stack with one more call, unless it is full. -/
def push? (stack : CallStack) (frame : Frame) : Option CallStack :=
  if stack.isFull then none else some (stack.push frame)

/-- The stack without its innermost call. -/
def pop (stack : CallStack) : CallStack :=
  { stack with frames := stack.frames.pop }

/-- The innermost call and the stack without it, unless there is none. -/
def pop? (stack : CallStack) : Option (Frame × CallStack) :=
  stack.top?.map fun frame => (frame, stack.pop)

/-- The first line of a trace. -/
def traceHeader (stack : CallStack) : String :=
  "Stack Trace [" ++ toString stack.height ++ " frames -- entrypoint last]:\n"

/-- The line of a trace for the call at height `height`. -/
def traceLine (height : Nat) (frame : Frame) : String :=
  "  height " ++ toString height ++ ": " ++ frame.text ++ "\n"

/-- The lines of a trace, the innermost call first behind the header. -/
def traceLines (stack : CallStack) : List String :=
  stack.traceHeader ::
    (stack.frames.toList.zipIdx.map fun (frame, height) => traceLine height frame).reverse

/-- The whole trace. -/
def trace (stack : CallStack) : String := String.join stack.traceLines

/-- The part of the trace that reaches a writer that takes `lines` lines and no more, and whether all
of it did. -/
def traceUpTo (stack : CallStack) (lines : Nat) : String × Bool :=
  (String.join (stack.traceLines.take lines), stack.traceLines.length ≤ lines)

@[simp]
theorem pop_push (stack : CallStack) (frame : Frame) : (stack.push frame).pop = stack := by
  simp [pop, push]

@[simp]
theorem pop?_push (stack : CallStack) (frame : Frame) :
    (stack.push frame).pop? = some (frame, stack) := by
  simp [pop?, top?, push, pop]

end CallStack

end ProtoLisp
