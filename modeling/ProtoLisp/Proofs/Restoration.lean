import ProtoLisp.Proofs.DisciplinedEvaluation

/-!
# Scopes and calls are put back

Whatever becomes of an evaluation, the current scope and the active calls are afterwards what they were
before: blocks, objects, calls and methods change them for their own duration only, whether they end
with a value, with a failure or with a crash.  So no call is ever taken from an empty stack.
-/

namespace ProtoLisp

/-- A script itself crashes with `cause`, after some answers to what it asks. -/
inductive Script.Raises (cause : Crash) : Script → Prop where
  | crash : Raises cause (.crash cause)
  | ask {request : Request} {next : Slot → Script} {answer : Slot} :
    Raises cause (next answer) → Raises cause (.ask request next)
  | height {next : Nat → Script} {n : Nat} : Raises cause (next n) → Raises cause (.height next)
  | top {next : Option Frame → Script} {frame : Option Frame} :
    Raises cause (next frame) → Raises cause (.top next)

/-- Some native function of the host itself crashes with `cause`. -/
def Host.Raises (host : Host) (cause : Crash) : Prop :=
  ∃ key args, (host key args).Raises cause

namespace Discipline

/-- The discipline that asks for nothing of the heap, only for certain failures. -/
def ofFailures (Fails : CallStack → Failure → Prop) : Discipline where
  Sound _ := True
  Grows _ _ := True
  Admits _ _ := True
  Enters _ _ := True
  Reads _ := True
  Fails := Fails

theorem lawful_ofFailures {Fails : CallStack → Failure → Prop} {setup : Setup}
    (hcomplaint : ∀ {stack : CallStack} {complaint : Complaint}, complaint.condition.IsOrdinary →
      Fails stack (.eval (.raised stack complaint)))
    (hexhausted : ∀ {stack : CallStack}, stack.isFull = true →
      Fails stack (.eval (.raised stack (.stackExhausted stack.maxHeight))))
    (hcrash : ∀ {stack : CallStack} {cause : Crash}, cause ≠ .emptyStack →
      Fails stack (.crash cause))
    (hdeep : ∀ {stack : CallStack}, Fails stack .tooDeep)
    (hunwound : ∀ {stack : CallStack} {frame : Frame} {failure : Failure}, stack.isFull = false →
      Fails (stack.push frame) failure → Fails stack failure)
    (hhost : ∀ key args m, (ofFailures Fails).Obeys (setup.host key args) m) :
    (ofFailures Fails).Lawful setup where
  grows_refl _ := trivial
  grows_trans _ _ := trivial
  admits_mono _ _ := trivial
  enters_mono _ _ := trivial
  reads_arg _ _ := trivial
  reads_body _ := trivial
  admits_primitive _ := trivial
  admits_closure _ _ _ := trivial
  admits_resolved _ _ _ := trivial
  admits_attribute _ _ _ := trivial
  admits_prototype _ _ _ := trivial
  opens_block _ _ := ⟨trivial, trivial, trivial⟩
  opens_closure _ _ := ⟨trivial, trivial, trivial⟩
  opens_object _ _ := ⟨⟨trivial, trivial, trivial⟩, trivial⟩
  sound_put _ _ _ := ⟨trivial, trivial⟩
  sound_rebind _ _ _ _ := ⟨trivial, trivial⟩
  sound_setField _ _ _ := ⟨trivial, trivial⟩
  sound_linkPrototype _ _ _ _ := ⟨trivial, trivial⟩
  fails_complaint := hcomplaint
  fails_exhausted := hexhausted
  fails_absence _ := hcrash nofun
  fails_absentBinding _ := hcrash nofun
  fails_overflow _ := hcrash nofun
  fails_tooDeep := hdeep
  fails_unwound := hunwound
  obeys_host _ _ _ := hhost _ _ _

/-- The discipline that asks for nothing of the heap, and of a failure only that no call was taken
from an empty stack, unless the host says so itself. -/
def restoration (host : Host) : Discipline where
  Sound _ := True
  Grows _ _ := True
  Admits _ _ := True
  Enters _ _ := True
  Reads _ := True
  Fails _ failure := failure = .crash .emptyStack → host.Raises .emptyStack

theorem obeys_restoration {host : Host} {script : Script} {m : Machine}
    (hscript : script.Raises .emptyStack → host.Raises .emptyStack) :
    (restoration host).Obeys script m := by
  induction script generalizing m with
  | finish result =>
      intro v _
      trivial
  | complain complaint =>
      intro hempty
      cases hempty
  | refuse text =>
      intro hempty
      cases hempty
  | crash cause =>
      intro hempty
      cases hempty
      exact hscript .crash
  | ask request next ih =>
      refine ⟨by cases request <;> simp [Ready, restoration], ?_⟩
      intro answer after _ _
      exact ih answer fun hraises => hscript hraises.ask
  | height next ih => exact ih _ fun hraises => hscript hraises.height
  | top next ih => exact ih _ fun hraises => hscript hraises.top

theorem lawful_restoration (setup : Setup) : (restoration setup.host).Lawful setup := by
  apply lawful_ofFailures
  · intro stack complaint _
    exact nofun
  · intro stack _
    exact nofun
  · intro stack cause hcause hempty
    cases hempty
    exact (hcause rfl).elim
  · intro stack
    exact nofun
  · intro stack frame failure _ hfails
    exact hfails
  · intro key args m
    exact obeys_restoration fun hraises => ⟨key, args, hraises⟩

end Discipline

/-- Whatever becomes of an operation, the interpreter is back in the scope in which it was, and the
same calls are active; no call was taken from an empty stack. -/
theorem Interpreter.operate_restores (interpreter : Interpreter) (depth : Nat)
    (operation : Operation) :
    (interpreter.operate depth operation).2.machine.scope = interpreter.machine.scope ∧
      (interpreter.operate depth operation).2.machine.stack = interpreter.machine.stack ∧
      ((interpreter.operate depth operation).1 = .error (.crash .emptyStack) →
        interpreter.setup.host.Raises .emptyStack) := by
  have hlawful := Discipline.lawful_restoration interpreter.setup
  have hallows : (Discipline.restoration interpreter.setup.host).Allows interpreter.machine
      operation := by
    cases operation <;> simp [Discipline.Allows, Discipline.restoration]
  have hends := Discipline.operate hlawful trivial depth operation hallows
  refine ⟨hends.leaves.scope, hends.leaves.stack, ?_⟩
  intro hempty
  rcases hends.fails _ hempty with hfails | ⟨error, herror⟩ | hplain
  · exact hfails rfl
  · cases herror
  · cases hplain

end ProtoLisp
