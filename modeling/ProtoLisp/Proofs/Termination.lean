import ProtoLisp.Proofs.Plans

/-!
# A bounded stack makes every evaluation end

The language has unrestricted recursion, through functions, methods and functions that are handed
over, and the body of a function may be larger than the expression that calls it.  Still no
evaluation goes on for ever once the stack is bounded: a request asks for smaller expressions only,
unless it has made a call, and a call leaves less room on the stack.

To go deeper than needed makes no difference.  So an evaluation ends if from some depth on it has
the same outcome, other than that it went too deep.
-/

namespace ProtoLisp

/-- The step has come to its end and not only gone too deep. -/
def Concluded {α : Type} (outcome : EStateM.Result Failure Machine α) : Prop :=
  ∀ after, outcome ≠ .error .tooDeep after

/-- From some depth on, the steps have one and the same outcome. -/
def Settles {α : Type} (steps : Nat → Run α) (m : Machine) : Prop :=
  ∃ outcome, Concluded outcome ∧ ∃ depth, ∀ deeper, depth ≤ deeper → steps deeper m = outcome

namespace Settles

variable {α β : Type} {m : Machine}

theorem succ {steps : Nat → Run α} (hsteps : Settles (fun depth => steps (depth + 1)) m) :
    Settles steps m := by
  obtain ⟨outcome, hconcluded, depth, hends⟩ := hsteps
  refine ⟨outcome, hconcluded, depth + 1, fun deeper hdeeper => ?_⟩
  obtain ⟨less, rfl⟩ : ∃ less, deeper = less + 1 := ⟨deeper - 1, by omega⟩
  exact hends less (by omega)

theorem basic {step : Run α} (hbasic : step.Basic) (m : Machine) : Settles (fun _ => step) m := by
  refine ⟨step m, ?_, 0, fun _ _ => rfl⟩
  cases hbasic with
  | complains complaint => exact nofun
  | fails heval hdeep =>
      intro after htooDeep
      cases htooDeep
      exact hdeep rfl
  | works work => exact nofun
  | looks look => exact nofun

theorem bind {first : Nat → Run α} {next : Nat → α → Run β} (hfirst : Settles first m)
    (hnext : ∀ depth a middle, first depth m = .ok a middle →
      Settles (fun depth => next depth a) middle) :
    Settles (fun depth => first depth >>= next depth) m := by
  obtain ⟨outcome, hconcluded, depth, hends⟩ := hfirst
  cases outcome with
  | error failure after =>
      refine ⟨.error failure after, ?_, depth, ?_⟩
      · intro other htooDeep
        cases htooDeep
        exact hconcluded after rfl
      · intro deeper hdeeper
        exact Run.bind_of_error (hends deeper hdeeper) (next deeper)
  | ok a middle =>
      have hmiddle := hends depth (Nat.le_refl depth)
      obtain ⟨outcome, hconcluded', depth', hends'⟩ := hnext depth a middle hmiddle
      -- Both steps have settled at the greater of their depths.
      refine ⟨outcome, hconcluded', max depth depth', fun deeper hdeeper => ?_⟩
      have hrest := hends' deeper (by omega)
      exact (Run.bind_of_ok (hends deeper (by omega)) (next deeper)).trans hrest

theorem inScope {s : ScopeId} {body : Nat → Run α} (hbody : Settles body { m with scope := s }) :
    Settles (fun depth => Run.inScope s (body depth)) m := by
  obtain ⟨outcome, hconcluded, depth, hends⟩ := hbody
  refine ⟨Run.inScope s (fun _ => outcome) m, ?_, depth, fun deeper hdeeper => ?_⟩
  · intro after htooDeep
    cases outcome with
    | ok a middle => cases htooDeep
    | error failure middle =>
        cases htooDeep
        exact hconcluded middle rfl
  · simp only [Run.inScope, hends deeper hdeeper]

theorem inCall {frame : Frame} {body : Nat → Run α}
    (hbody : m.stack.isFull = false → Settles body { m with stack := m.stack.push frame }) :
    Settles (fun depth => Run.inCall frame (body depth)) m := by
  cases hfull : m.stack.isFull with
  | true =>
      exact ⟨Run.complain (.stackExhausted m.stack.maxHeight) m, nofun, 0,
        fun _ _ => Run.inCall_of_full hfull frame _⟩
  | false =>
      obtain ⟨outcome, hconcluded, depth, hends⟩ := hbody hfull
      refine ⟨Run.leaveCall outcome, ?_, depth, fun deeper hdeeper => ?_⟩
      · intro after htooDeep
        cases outcome with
        | ok a middle =>
            simp only [Run.leaveCall] at htooDeep
            split at htooDeep <;> cases htooDeep
        | error failure middle =>
            simp only [Run.leaveCall] at htooDeep
            split at htooDeep
            · cases htooDeep
            · cases htooDeep
              exact hconcluded middle rfl
      · exact (Run.inCall_of_room hfull frame _).trans
          (congrArg Run.leaveCall (hends deeper hdeeper))

end Settles

/-- A plan settles if all that it asks for does. -/
theorem Plan.Composed.settles {setup : Setup} {Asks : CallStack → Request → Prop} {α : Type}
    {plan : Plan α} {stack : CallStack} (hplan : plan.Composed Asks stack)
    (hasks : ∀ m request, Asks m.stack request →
      Settles (fun depth => Eval.run setup depth request) m)
    {m : Machine} (hstack : m.stack = stack) :
    Settles (fun depth => plan (Eval.run setup depth)) m := by
  induction hplan generalizing m with
  | basic hbasic => exact .basic hbasic m
  | ask hrequest => exact hasks m _ (hstack ▸ hrequest)
  | bind hfirst _ ihfirst ihnext =>
      refine .bind (ihfirst hstack) fun depth a middle hmiddle => ihnext a ?_
      have hrestored := hfirst.stack_after (Plan.stack_after_run setup depth) hstack
      rw [Run.after_of_ok hmiddle] at hrestored
      exact hrestored.trans hstack
  | inScope _ ih => exact .inScope (ih hstack)
  | inCall _ ih =>
      refine .inCall fun hroom => ih (hstack ▸ hroom) ?_
      rw [hstack]

/-! ### Room on the stack -/

/-- How many more calls may become active. -/
def CallStack.room (stack : CallStack) : Nat := (stack.maxHeight - stack.frames.size).toNat

theorem CallStack.room_push_lt {stack : CallStack} (hbounded : 0 < stack.maxHeight)
    (hroom : stack.isFull = false) (frame : Frame) : (stack.push frame).room < stack.room := by
  simp only [isFull, hbounded, decide_true, Bool.true_and, decide_eq_false_iff_not] at hroom
  simp only [room, push, Array.size_push]
  omega

/-- With a bound on the stack every request settles: by induction on the room that is left and,
while no call is made, on the size of the expression. -/
theorem settles_run (setup : Setup) (request : Request) {m : Machine}
    (hbounded : 0 < m.stack.maxHeight) :
    Settles (fun depth => Eval.run setup depth request) m := by
  induction hroom : m.stack.room using Nat.strongRecOn generalizing m request with
  | ind room ihroom =>
      induction hweight : request.weight using Nat.strongRecOn generalizing m request with
      | ind weight ihweight =>
          refine .succ ((Plan.composed_step setup request m.stack).settles ?_ rfl)
          rintro above other (⟨hsame, hsmaller⟩ | ⟨hfits, frame, hpushed⟩)
          · rw [← hsame] at hbounded hroom
            exact ihweight _ (hweight ▸ hsmaller) other hbounded hroom rfl
          · have hless := CallStack.room_push_lt hbounded hfits frame
            rw [← hpushed, hroom] at hless
            refine ihroom _ hless other ?_ rfl
            rw [hpushed]
            exact hbounded

/-! ### Operations that end -/

/-- The operation comes to an end with `result` and leaves `after` behind: from some depth on, to go
deeper makes no difference. -/
def Interpreter.Ends (interpreter : Interpreter) (operation : Operation)
    (result : Except Failure Slot) (after : Interpreter) : Prop :=
  result ≠ .error .tooDeep ∧
    ∃ depth, ∀ deeper, depth ≤ deeper → interpreter.operate deeper operation = (result, after)

/-- If the stack is bounded, every operation comes to an end. -/
theorem Interpreter.exists_ends_of_bounded (interpreter : Interpreter)
    (hbounded : 0 < interpreter.machine.stack.maxHeight) (operation : Operation) :
    ∃ result after, interpreter.Ends operation result after := by
  have hplan : (operation.plan interpreter.reads).Composed
      (fun stack _ => stack = interpreter.machine.stack) interpreter.machine.stack :=
    Operation.composed_plan (fun _ => rfl) interpreter.reads operation
  obtain ⟨outcome, hconcluded, depth, hends⟩ := hplan.settles
    (fun m request hstack => settles_run interpreter.setup request (hstack ▸ hbounded)) rfl
  cases outcome with
  | ok slot after =>
      refine ⟨.ok slot, { interpreter with machine := after }, nofun, depth, ?_⟩
      intro deeper hdeeper
      simp only [operate_eq_perform, perform, hends deeper hdeeper]
  | error failure after =>
      refine ⟨.error failure, { interpreter with machine := after }, ?_, depth, ?_⟩
      · intro htooDeep
        cases htooDeep
        exact hconcluded after rfl
      · intro deeper hdeeper
        simp only [operate_eq_perform, perform, hends deeper hdeeper]

/-- An interpreter in which the function `spin` does nothing but call itself. -/
def Interpreter.spinning (limit : Int) : Interpreter where
  setup := ⟨defaultPrecision, Host.standard⟩
  reads := true
  global := 0
  machine :=
    ⟨⟨#[⟨none, [("spin", some (.closure "spin" [] (.call "spin" []) (some 0)))]⟩], #[]⟩, 0,
      .empty limit⟩

/-- Endless recursion ends at the bound of the stack. -/
theorem Interpreter.exists_ends_of_bounded_spinning :
    0 < (spinning 2).machine.stack.maxHeight ∧
      (∃ result after, (spinning 2).Ends (.eval (.call "spin" [])) result after) ∧
      ((spinning 2).operate 10 (.eval (.call "spin" []))).1 =
        .error (.eval ⟨.stackExhausted 2, some ⟨#[⟨"spin", ""⟩, ⟨"spin", ""⟩], 2⟩⟩) :=
  ⟨by decide, exists_ends_of_bounded (spinning 2) (by decide) _, rfl⟩

end ProtoLisp
