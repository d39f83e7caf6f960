import ProtoLisp.Proofs.PartOutcomes
import ProtoLisp.Proofs.Restoration
import ProtoLisp.Proofs.StackLimit

/-!
# Traces of failures

A failure takes note of the active calls when it is raised.  While it makes its way out of the
evaluation these calls end one by one, but the note stays as it is.  So it begins with the calls
that were active before the evaluation, and with those under which the failure was raised; and it
never has more calls than the stack has room for.
-/

namespace ProtoLisp

/-- A script itself complains of the condition, after some answers to what it asks. -/
inductive Script.Complains (condition : Condition) : Script → Prop where
  | complain {complaint : Complaint} (hcondition : complaint.condition = condition) :
    Complains condition (.complain complaint)
  | ask {request : Request} {next : Slot → Script} {answer : Slot} :
    Complains condition (next answer) → Complains condition (.ask request next)
  | height {next : Nat → Script} {n : Nat} :
    Complains condition (next n) → Complains condition (.height next)
  | top {next : Option Frame → Script} {frame : Option Frame} :
    Complains condition (next frame) → Complains condition (.top next)

/-- A native function of the host itself complains of the condition. -/
def Host.Complains (host : Host) (condition : Condition) : Prop :=
  ∃ key args, (host key args).Complains condition

/-- What the note of a failure shows that is met while the calls of `stack` are active. -/
structure EvalError.Traces (host : Host) (stack : CallStack) (error : EvalError) : Prop where
  frames : ∀ copy, error.stack = some copy → stack.frames.toList <+: copy.frames.toList
  empty : error.stack = none → stack.frames = #[]
  bounded : 0 < stack.maxHeight → stack.height ≤ stack.maxHeight →
    ∀ copy, error.stack = some copy → copy.height ≤ stack.maxHeight
  exhausted : 0 < stack.maxHeight → stack.height ≤ stack.maxHeight →
    error.condition = .stackExhausted →
    (∃ copy, error.stack = some copy ∧ copy.height = stack.maxHeight) ∨
      host.Complains .stackExhausted

namespace EvalError

variable {host : Host} {stack : CallStack}

theorem traces_raised {complaint : Complaint}
    (hexhausted : complaint.condition = .stackExhausted →
      stack.maxHeight ≤ stack.height ∨ host.Complains .stackExhausted) :
    (raised stack complaint).Traces host stack := by
  by_cases hheight : stack.height = 0
  · have hnone : (raised stack complaint).stack = none := if_pos hheight
    refine ⟨by simp [hnone], fun _ => Array.eq_empty_of_size_eq_zero hheight, by simp [hnone], ?_⟩
    intro hpositive _ hcondition
    rcases hexhausted hcondition with hfull | hhost
    · omega
    · exact .inr hhost
  · have hsome : (raised stack complaint).stack = some stack := if_neg hheight
    refine ⟨?_, by simp [hsome], ?_, ?_⟩
    · intro copy hcopy
      cases hsome.symm.trans hcopy
      exact List.prefix_rfl
    · intro _ hfits copy hcopy
      cases hsome.symm.trans hcopy
      exact hfits
    · intro _ hfits hcondition
      refine (hexhausted hcondition).imp_left fun hfull => ⟨stack, hsome, ?_⟩
      omega

/-- When a call has ended, the failure is met with one active call less. -/
theorem Traces.unwound {frame : Frame} {error : EvalError} (hroom : stack.isFull = false)
    (htraces : error.Traces host (stack.push frame)) : error.Traces host stack := by
  have hfits := CallStack.isFull_eq_false_iff.mp hroom
  have hheight : (stack.push frame).height = stack.height + 1 := by
    simp [CallStack.height, CallStack.push]
  -- There was room for the call, so the note kept to the limit while the call was active.
  have hpushed : 0 < stack.maxHeight → (stack.push frame).height ≤ (stack.push frame).maxHeight := by
    intro hpositive
    rw [hheight]
    exact hfits.resolve_left (Int.not_le.mpr hpositive)
  refine ⟨?_, ?_, ?_, ?_⟩
  · intro copy hcopy
    have hprefix : stack.frames.toList <+: (stack.push frame).frames.toList := by
      simp [CallStack.push]
    exact hprefix.trans (htraces.frames copy hcopy)
  · intro hnone
    have hempty := htraces.empty hnone
    simp [CallStack.push] at hempty
  · intro hpositive _
    exact htraces.bounded hpositive (hpushed hpositive)
  · intro hpositive _
    exact htraces.exhausted hpositive (hpushed hpositive)

end EvalError

namespace Discipline

/-- The discipline that asks of a failure for a faithful note of the active calls. -/
def tracing (host : Host) : Discipline :=
  ofFailures fun stack failure => ∀ error, failure = .eval error → error.Traces host stack

theorem obeys_tracing {host : Host} {script : Script} {m : Machine}
    (hscript : script.Complains .stackExhausted → host.Complains .stackExhausted) :
    (tracing host).Obeys script m := by
  induction script generalizing m with
  | finish result =>
      intro v _
      trivial
  | complain complaint =>
      intro error herror
      cases herror
      exact EvalError.traces_raised fun hcondition => .inr (hscript (.complain hcondition))
  | refuse text =>
      intro error herror
      cases herror
  | crash cause =>
      intro error herror
      cases herror
  | ask request next ih =>
      refine ⟨by cases request <;> simp [Ready, tracing, ofFailures], ?_⟩
      intro answer after _ _
      exact ih answer fun hcomplains => hscript hcomplains.ask
  | height next ih => exact ih _ fun hcomplains => hscript hcomplains.height
  | top next ih => exact ih _ fun hcomplains => hscript hcomplains.top

theorem lawful_tracing (setup : Setup) : (tracing setup.host).Lawful setup := by
  apply lawful_ofFailures
  · intro stack complaint hordinary error herror
    cases herror
    exact EvalError.traces_raised fun hcondition => (hordinary.1 hcondition).elim
  · intro stack hfull error herror
    cases herror
    refine EvalError.traces_raised fun _ => .inl ?_
    simp only [CallStack.isFull, Bool.and_eq_true, decide_eq_true_eq] at hfull
    exact hfull.2
  · intro stack cause _ error herror
    cases herror
  · intro stack error herror
    cases herror
  · intro stack frame failure hroom hfails error herror
    exact (hfails error herror).unwound hroom
  · intro key args m
    exact obeys_tracing fun hcomplains => ⟨key, args, hcomplains⟩

theorem serves_tracing (setup : Setup) (depth : Nat) :
    (tracing setup.host).Serves (Eval.run setup depth) :=
  serves_run (lawful_tracing setup) depth

end Discipline

/-! ## Active calls -/

def Request.frame? : Request → Option Frame
  | .call (some (.native name _)) _ receiver => some ⟨name, receiver⟩
  | .call (some (.closure name _ _ _)) _ receiver => some ⟨name, receiver⟩
  | _ => none

theorem Run.body_of_inCall {α : Type} {frame : Frame} {body : Run α} {m after : Machine}
    {error : EvalError} (hroom : m.stack.isFull = false)
    (herror : Run.inCall frame body m = .error (.eval error) after) :
    ∃ last, body (m.inCall frame) = .error (.eval error) last := by
  rw [inCall_of_room hroom] at herror
  show ∃ last, body { m with stack := m.stack.push frame } = _
  cases hrun : body { m with stack := m.stack.push frame } with
  | ok a last =>
      rw [hrun, leaveCall] at herror
      split at herror <;> cases herror
  | error failure last =>
      rw [hrun, leaveCall] at herror
      split at herror
      · cases herror
      · cases herror
        exact ⟨last, rfl⟩

/-- A failure of a call is raised while the call is active. -/
theorem Task.traces_of_call {setup : Setup} {task : Task} {frame : Frame} {error : EvalError}
    {after : Machine} (hframe : task.request.frame? = some frame)
    (hroom : task.machine.stack.isFull = false)
    (herror : task.outcome setup = .error (.eval error) after) :
    error.Traces setup.host (task.machine.stack.push frame) := by
  obtain ⟨depth, request, m⟩ := task
  have hlawful := Discipline.lawful_tracing setup
  cases depth with
  | zero => cases herror
  | succ depth =>
      have hserves := Discipline.serves_tracing setup depth
      match request, hframe with
      | .call (some (.native name body)) slots receiver, rfl =>
          obtain ⟨last, hlast⟩ : ∃ last, Eval.native setup (Eval.run setup depth) body slots
              (m.inCall ⟨name, receiver⟩) = .error (.eval error) last :=
            Run.body_of_inCall hroom herror
          have hnative : (Discipline.tracing setup.host).Admits (m.inCall ⟨name, receiver⟩).heap
              (some (.native name body)) := trivial
          have hslots : ∀ slot ∈ slots, (Discipline.tracing setup.host).Admits m.heap slot :=
            fun _ _ => trivial
          have hkeeps := Discipline.keeps_native hlawful hserves hnative hslots
          exact (hkeeps.of_error trivial hlast).2 error rfl
      | .call (some (.closure name params body scope)) slots receiver, rfl =>
          obtain ⟨last, hlast⟩ : ∃ last, Eval.closure (Eval.run setup depth) name params body scope
              slots (m.inCall ⟨name, receiver⟩) = .error (.eval error) last :=
            Run.body_of_inCall hroom herror
          have hclosure : (Discipline.tracing setup.host).Admits (m.inCall ⟨name, receiver⟩).heap
              (some (.closure name params body scope)) := trivial
          have hslots : ∀ slot ∈ slots, (Discipline.tracing setup.host).Admits m.heap slot :=
            fun _ _ => trivial
          have hkeeps := Discipline.keeps_closure hlawful hserves hclosure hslots
          exact (hkeeps.of_error trivial hlast).2 error rfl

/-- However an evaluation fails, the failure notes the calls that were active before, and never more
calls than there is room for; and a failure that is met while a call is active is what the whole
operation fails with, and notes that call and those under it. -/
theorem Interpreter.operate_traces (interpreter : Interpreter) (depth : Nat)
    (operation : Operation) :
    (∀ error, (interpreter.operate depth operation).1 = .error (.eval error) →
        error.Traces interpreter.setup.host interpreter.machine.stack) ∧
      ∀ start caller task frame error after, interpreter.Starts depth operation start →
        Task.Course interpreter.setup start caller → caller.request.frame? = some frame →
        caller.machine.stack.isFull = false → Task.Course interpreter.setup caller task →
        task.outcome interpreter.setup = .error (.eval error) after →
        (interpreter.operate depth operation).1 = .error (.eval error) ∧
          ∃ copy, error.stack = some copy ∧
            caller.machine.stack.frames.toList ++ [frame] <+: copy.frames.toList := by
  have hlawful := Discipline.lawful_tracing interpreter.setup
  have hallows : (Discipline.tracing interpreter.setup.host).Allows interpreter.machine
      operation := by
    cases operation <;> simp [Discipline.Allows, Discipline.tracing, Discipline.ofFailures]
  have hends := Discipline.operate hlawful trivial depth operation hallows
  refine ⟨?_, ?_⟩
  · intro error herror
    rcases hends.fails _ herror with hfails | ⟨other, hother⟩ | hplain
    · exact hfails error rfl
    · cases hother
    · cases hplain
  · intro start caller task frame error after hstarts hcaller hframe hroom htask herror
    -- The failure comes out of the call first, while the frame is there, and then out of the rest.
    obtain ⟨middle, hmiddle⟩ := htask.fails herror
    obtain ⟨last, hlast⟩ := hcaller.fails hmiddle
    refine ⟨hstarts.fails hlast, ?_⟩
    have htraces := Task.traces_of_call hframe hroom hmiddle
    cases hstack : error.stack with
    | none =>
        have hempty := htraces.empty hstack
        simp [CallStack.push] at hempty
    | some copy =>
        have hframes := htraces.frames copy hstack
        simp only [CallStack.push, Array.toList_push] at hframes
        exact ⟨copy, rfl, hframes⟩

/-- An interpreter in which `(def (g) missing)` has been evaluated, with room for two calls. -/
def Interpreter.withFailing : Interpreter where
  setup := ⟨defaultPrecision, Host.standard⟩
  reads := true
  global := 0
  machine :=
    ⟨⟨#[⟨none, [("g", some (.closure "g" [] (.variable "missing") (some 0)))]⟩], #[]⟩, 0, .empty 2⟩

/-- `(def (f) (g))` -/
def Value.callingFailing : Value := .closure "f" [] (.call "g" []) (some 0)

/-- The failure of `g` comes out of a call of `f` with a note of that call. -/
theorem Interpreter.operate_traces_withFailing :
    ∃ error copy, (withFailing.operate 9 (.call (some .callingFailing) [])).1 =
        .error (.eval error) ∧ error.stack = some copy ∧ [⟨"f", ""⟩] <+: copy.frames.toList ∧
      copy.height ≤ (2 : Int) := by
  obtain ⟨hbounded, hactive⟩ :=
    operate_traces withFailing 9 (.call (some .callingFailing) [])
  obtain ⟨herror, copy, hcopy, hframes⟩ := hactive _ _ _ ⟨"f", ""⟩ _ _ .call .refl rfl rfl .refl rfl
  exact ⟨_, copy, herror, hcopy, hframes,
    (hbounded _ herror).bounded (by decide) (by decide) copy hcopy⟩

end ProtoLisp
