import ProtoLisp.Proofs.Plans

/-!
# The limit of the stack only cuts off

A limit of the stack refuses calls, and does nothing else.  An evaluation in which no call is
refused goes the same way under every limit that leaves room for the highest of its calls, and under
none at all.  Its outcome mentions the limit only where a failure takes note of the active calls,
since what is noted there includes the limit.

A refused call fails, and the failure reaches whoever has asked for the evaluation, since scripts pass
failures on.  Native functions that swallow one are no scripts, and are left out here.
-/

namespace ProtoLisp

/-! ### Changing the limit -/

def CallStack.limited (stack : CallStack) (limit : Int) : CallStack :=
  { stack with maxHeight := limit }

def Machine.limited (m : Machine) (limit : Int) : Machine :=
  { m with stack := m.stack.limited limit }

def Interpreter.limited (interpreter : Interpreter) (limit : Int) : Interpreter :=
  { interpreter with machine := interpreter.machine.limited limit }

/-- The failure with the limit `limit` in its note of the active calls. -/
def Failure.limited (limit : Int) : Failure → Failure
  | .eval error => .eval { error with stack := error.stack.map (·.limited limit) }
  | failure => failure

/-- The outcome of a step, had the limit been `limit`. -/
def Run.limited {α : Type} (limit : Int) :
    EStateM.Result Failure Machine α → EStateM.Result Failure Machine α
  | .ok a after => .ok a (after.limited limit)
  | .error failure after => .error (failure.limited limit) (after.limited limit)

/-- A call was refused for want of room on the stack. -/
def Failure.isExhausted : Failure → Bool
  | .eval error => error.condition == .stackExhausted
  | _ => false

/-- There is room for `height` calls under the limit `limit`. -/
def CallStack.Fits (height : Nat) (limit : Int) : Prop := limit ≤ 0 ∨ height ≤ limit

theorem CallStack.fits_zero (limit : Int) : Fits 0 limit := by
  unfold Fits
  omega

theorem CallStack.Fits.mono {height lower : Nat} {limit : Int} (hfits : Fits height limit)
    (hlower : lower ≤ height) : Fits lower limit := by
  unfold Fits at hfits ⊢
  omega

theorem CallStack.Fits.max {height height' : Nat} {limit : Int} (hfits : Fits height limit)
    (hfits' : Fits height' limit) : Fits (Max.max height height') limit := by
  unfold Fits at hfits hfits' ⊢
  omega

theorem CallStack.isFull_eq_false_iff {stack : CallStack} :
    stack.isFull = false ↔ Fits (stack.height + 1) stack.maxHeight := by
  simp only [isFull, Fits, height, Bool.and_eq_false_iff, decide_eq_false_iff_not]
  omega

/-! ### The highest call -/

/-- In the course of the step from the machine `m` no call is refused, and the highest call brings
the stack to `peak` frames; without any call the peak is zero. -/
inductive Run.Peaks : {α : Type} → Run α → Machine → Nat → Prop
  | basic {α : Type} {step : Run α} {m : Machine} (hbasic : step.Basic) : Peaks step m 0
  | tooDeep {α : Type} {m : Machine} : Peaks (Run.tooDeep : Run α) m 0
  | stops {α β : Type} {step : Run α} {next : α → Run β} {m after : Machine} {failure : Failure}
      {peak : Nat} (hstep : Peaks step m peak) (hstops : step m = .error failure after) :
      Peaks (step >>= next) m peak
  | continues {α β : Type} {step : Run α} {next : α → Run β} {m middle : Machine} {a : α}
      {peak peak' : Nat} (hstep : Peaks step m peak) (hcontinues : step m = .ok a middle)
      (hnext : Peaks (next a) middle peak') : Peaks (step >>= next) m (max peak peak')
  | inScope {α : Type} {body : Run α} {m : Machine} {s : ScopeId} {peak : Nat}
      (hbody : Peaks body { m with scope := s } peak) : Peaks (Run.inScope s body) m peak
  | inCall {α : Type} {body : Run α} {m : Machine} {frame : Frame} {peak : Nat}
      (hroom : m.stack.isFull = false)
      (hbody : Peaks body { m with stack := m.stack.push frame } peak) :
      Peaks (Run.inCall frame body) m (max (m.stack.height + 1) peak)

/-! ### The same course under another limit -/

theorem Run.Basic.limited {α : Type} {step : Run α} (hbasic : step.Basic) (m : Machine)
    (limit : Int) : step (m.limited limit) = Run.limited limit (step m) := by
  cases hbasic with
  | complains complaint =>
      have hnoted : (if m.stack.height = 0 then none else some (m.stack.limited limit)) =
          (if m.stack.height = 0 then none else some m.stack).map (·.limited limit) := by
        split <;> rfl
      exact congrArg (fun noted =>
        EStateM.Result.error (Failure.eval ⟨complaint, noted⟩) (m.limited limit)) hnoted
  | @fails failure heval hdeep =>
      cases failure with
      | eval error => exact absurd rfl (heval error)
      | _ => rfl
  | works work => rfl
  | looks look => rfl

theorem Run.leaveCall_limited {α : Type} (limit : Int)
    (outcome : EStateM.Result Failure Machine α) :
    Run.leaveCall (Run.limited limit outcome) = Run.limited limit (Run.leaveCall outcome) := by
  cases outcome with
  | ok a after =>
      rw [Run.leaveCall, apply_ite (Run.limited limit)]
      rfl
  | error failure after =>
      rw [Run.leaveCall, apply_ite (Run.limited limit)]
      rfl

theorem Run.inScope_limited {α : Type} {limit : Int} {s : ScopeId} {body : Run α} {m : Machine}
    (hbody : body (Machine.limited { m with scope := s } limit) =
      Run.limited limit (body { m with scope := s })) :
    Run.inScope s body (m.limited limit) = Run.limited limit (Run.inScope s body m) := by
  have hscoped : body { m.limited limit with scope := s } =
      Run.limited limit (body { m with scope := s }) := hbody
  simp only [Run.inScope, hscoped]
  cases body { m with scope := s } <;> rfl

/-- A step goes the same way under every limit that leaves room for its highest call. -/
theorem Run.Peaks.limited {α : Type} {step : Run α} {m : Machine} {peak : Nat}
    (hpeaks : step.Peaks m peak) {limit : Int} (hfits : CallStack.Fits peak limit) :
    step (m.limited limit) = Run.limited limit (step m) ∧ step.Peaks (m.limited limit) peak := by
  induction hpeaks with
  | basic hbasic => exact ⟨hbasic.limited _ limit, .basic hbasic⟩
  | tooDeep => exact ⟨rfl, .tooDeep⟩
  | stops _ hstops ih =>
      obtain ⟨hsame, hstep⟩ := ih hfits
      rw [hstops] at hsame
      refine ⟨?_, .stops hstep hsame⟩
      rw [Run.bind_of_error hstops, Run.bind_of_error hsame]
      rfl
  | continues _ hcontinues _ ih ihnext =>
      obtain ⟨hsame, hstep⟩ := ih (hfits.mono (Nat.le_max_left _ _))
      obtain ⟨hsame', hnext⟩ := ihnext (hfits.mono (Nat.le_max_right _ _))
      rw [hcontinues] at hsame
      refine ⟨?_, .continues hstep hsame hnext⟩
      rw [Run.bind_of_ok hcontinues, Run.bind_of_ok hsame]
      exact hsame'
  | inScope _ ih =>
      obtain ⟨hsame, hbody⟩ := ih hfits
      exact ⟨Run.inScope_limited hsame, .inScope hbody⟩
  | @inCall _ body m frame peak hroom _ ih =>
      obtain ⟨hsame, hbody⟩ := ih (hfits.mono (Nat.le_max_right _ _))
      have hroom' : (m.limited limit).stack.isFull = false :=
        CallStack.isFull_eq_false_iff.mpr (hfits.mono (Nat.le_max_left _ _))
      refine ⟨?_, .inCall hroom' hbody⟩
      rw [Run.inCall_of_room hroom, Run.inCall_of_room hroom', ← Run.leaveCall_limited]
      exact congrArg Run.leaveCall hsame

/-! ### Evaluations without refused calls -/

/-- The outcome of a step from the machine `m` shows that no call was refused: there is no limit, or
the failure is another one. -/
def Unrefused {α : Type} (m : Machine) (outcome : EStateM.Result Failure Machine α) : Prop :=
  m.stack.maxHeight ≤ 0 ∨
    ∀ failure after, outcome = .error failure after → failure.isExhausted = false

namespace Unrefused

variable {α : Type} {frame : Frame} {step : Run α} {m : Machine}

theorem room (hunrefused : Unrefused m (Run.inCall frame step m)) : m.stack.isFull = false := by
  rcases hunrefused with hunbounded | hfailures
  · exact CallStack.isFull_eq_false_iff.mpr (.inl hunbounded)
  · cases hfull : m.stack.isFull with
    | false => rfl
    | true => cases hfailures _ m (Run.inCall_of_full hfull frame step)

/-- The failures of a body that puts the active calls back are those of its call. -/
theorem body (hunrefused : Unrefused m (Run.inCall frame step m))
    (hroom : m.stack.isFull = false)
    (hrestored : (step.after { m with stack := m.stack.push frame }).stack = m.stack.push frame) :
    Unrefused { m with stack := m.stack.push frame }
      (step { m with stack := m.stack.push frame }) := by
  refine hunrefused.imp_right fun hfailures failure after hrun => ?_
  rw [Run.after_of_error hrun] at hrestored
  have hheight : after.stack.height ≠ 0 := by
    simp [hrestored, CallStack.height, CallStack.push]
  refine hfailures failure { after with stack := after.stack.pop } ?_
  rw [Run.inCall_of_room hroom, hrun, Run.leaveCall, if_neg hheight]

end Unrefused

/-- A plan in which no call is refused has a peak, and there is room for it. -/
theorem Plan.Composed.exists_peak {Asks : CallStack → Request → Prop} {α : Type} {plan : Plan α}
    {stack : CallStack} (hplan : plan.Composed Asks stack) {evaluate : Request → Run Slot}
    (hrestores : ∀ request m, ((evaluate request).after m).stack = m.stack)
    (hevaluate : ∀ request m, Unrefused m (evaluate request m) →
      ∃ peak, CallStack.Fits peak m.stack.maxHeight ∧ (evaluate request).Peaks m peak)
    {m : Machine} (hstack : m.stack = stack) (hunrefused : Unrefused m (plan evaluate m)) :
    ∃ peak, CallStack.Fits peak m.stack.maxHeight ∧ (plan evaluate).Peaks m peak := by
  induction hplan generalizing m with
  | basic hbasic => exact ⟨0, CallStack.fits_zero _, .basic hbasic⟩
  | ask _ => exact hevaluate _ m hunrefused
  | @bind _ _ first next _ hfirst _ ihfirst ihnext =>
      have hjoined : Unrefused m ((first evaluate >>= fun a => next a evaluate) m) := hunrefused
      cases hrun : first evaluate m with
      | error failure after =>
          rw [Run.bind_of_error hrun] at hjoined
          have hunrefused' : Unrefused m (first evaluate m) := by
            rw [hrun]
            refine hjoined.imp_right fun hfailures _ _ herror => ?_
            cases herror
            exact hfailures failure after rfl
          obtain ⟨peak, hfits, hpeaks⟩ := ihfirst hstack hunrefused'
          exact ⟨peak, hfits, .stops hpeaks hrun⟩
      | ok a middle =>
          have hmiddle := hfirst.stack_after hrestores hstack
          rw [Run.after_of_ok hrun] at hmiddle
          rw [Run.bind_of_ok hrun] at hjoined
          have hunrefused' : Unrefused m (first evaluate m) := by
            right
            intro failure after herror
            cases hrun.symm.trans herror
          obtain ⟨peak, hfits, hpeaks⟩ := ihfirst hstack hunrefused'
          obtain ⟨peak', hfits', hpeaks'⟩ := ihnext a (hmiddle.trans hstack)
            (by rwa [Unrefused, hmiddle])
          rw [hmiddle] at hfits'
          exact ⟨max peak peak', hfits.max hfits', .continues hpeaks hrun hpeaks'⟩
  | @inScope _ body _ s _ ih =>
      obtain ⟨peak, hfits, hpeaks⟩ := ih (m := { m with scope := s }) hstack (by
        refine hunrefused.imp_right fun hfailures failure after hrun => ?_
        refine hfailures failure { after with scope := m.scope } ?_
        simp only [Run.inScope, hrun])
      exact ⟨peak, hfits, .inScope hpeaks⟩
  | @inCall _ body _ frame hbody ih =>
      have hroom := Unrefused.room hunrefused
      have hpushed := congrArg (CallStack.push · frame) hstack
      have hrestored := (hbody (hstack ▸ hroom)).stack_after hrestores
        (m := { m with stack := m.stack.push frame }) hpushed
      have hinside := Unrefused.body hunrefused hroom hrestored
      obtain ⟨peak, hfits, hpeaks⟩ := ih (hstack ▸ hroom)
        (m := { m with stack := m.stack.push frame }) hpushed hinside
      exact ⟨_, (CallStack.isFull_eq_false_iff.mp hroom).max hfits, .inCall hroom hpeaks⟩

theorem exists_peak_run (setup : Setup) (depth : Nat) {request : Request} {m : Machine}
    (hunrefused : Unrefused m (Eval.run setup depth request m)) :
    ∃ peak, CallStack.Fits peak m.stack.maxHeight ∧
      (Eval.run setup depth request).Peaks m peak := by
  induction depth generalizing request m with
  | zero => exact ⟨0, CallStack.fits_zero _, .tooDeep⟩
  | succ depth ih =>
      exact (Plan.composed_step setup request m.stack).exists_peak
        (Plan.stack_after_run setup depth) (fun _ _ => ih) rfl hunrefused

/-! ### Operations -/

namespace Interpreter

/-- The operation is carried out without a refused call, and the highest of its calls brings the
stack to `peak` frames. -/
def Peaks (interpreter : Interpreter) (depth : Nat) (operation : Operation) (peak : Nat) : Prop :=
  (operation.plan interpreter.reads (Eval.run interpreter.setup depth)).Peaks interpreter.machine
    peak

/-- The outcome of an operation, had the limit been `limit`. -/
def relimit (limit : Int) (outcome : Except Failure Slot × Interpreter) :
    Except Failure Slot × Interpreter :=
  (outcome.1.mapError (Failure.limited limit), outcome.2.limited limit)

theorem perform_limited {interpreter : Interpreter} {action : Run Slot} {limit : Int}
    (haction : action (interpreter.machine.limited limit) =
      Run.limited limit (action interpreter.machine)) :
    (interpreter.limited limit).perform action = relimit limit (interpreter.perform action) := by
  simp only [perform, limited, haction]
  cases action interpreter.machine <;> rfl

theorem Peaks.operate_limited {interpreter : Interpreter} {depth : Nat} {operation : Operation}
    {peak : Nat} (hpeaks : interpreter.Peaks depth operation peak) {limit : Int}
    (hfits : CallStack.Fits peak limit) :
    (interpreter.limited limit).operate depth operation =
      relimit limit (interpreter.operate depth operation) := by
  simp only [operate_eq_perform]
  exact perform_limited (Run.Peaks.limited hpeaks hfits).1

theorem exists_peak (interpreter : Interpreter) (depth : Nat) (operation : Operation)
    (hunrefused : interpreter.machine.stack.maxHeight ≤ 0 ∨
      ∀ failure, (interpreter.operate depth operation).1 = .error failure →
        failure.isExhausted = false) :
    ∃ peak, CallStack.Fits peak interpreter.machine.stack.maxHeight ∧
      interpreter.Peaks depth operation peak := by
  have hplan : (operation.plan interpreter.reads).Composed (fun _ _ => True)
      interpreter.machine.stack := Operation.composed_plan (fun _ => trivial) _ operation
  refine hplan.exists_peak (Plan.stack_after_run interpreter.setup depth)
    (fun _ _ => exists_peak_run interpreter.setup depth) rfl ?_
  refine hunrefused.imp_right fun hfailures failure after hrun => hfailures failure ?_
  rw [operate_eq_perform, perform, hrun]

/-- The limit of the stack cuts off and does nothing else.  An operation that ends other than by a
refused call ends in the same way, and leaves the same behind, under every limit that is not lower
and without a limit.  Without a limit the calls of every operation reach some peak, and the
operation ends in the same way under every limit that leaves room for the peak. -/
theorem operate_eq_relimit (interpreter : Interpreter) (depth : Nat) (operation : Operation) :
    (∀ limit higher : Int, (higher ≤ 0 ∨ 0 < limit ∧ limit ≤ higher) →
      (∀ failure, ((interpreter.limited limit).operate depth operation).1 = .error failure →
        failure.isExhausted = false) →
      (interpreter.limited higher).operate depth operation =
        relimit higher ((interpreter.limited limit).operate depth operation)) ∧
    (∀ unbounded : Int, unbounded ≤ 0 →
      (∃ peak, (interpreter.limited unbounded).Peaks depth operation peak) ∧
      ∀ peak : Nat, (interpreter.limited unbounded).Peaks depth operation peak →
        ∀ limit : Int, max (peak : Int) 1 ≤ limit →
          (interpreter.limited limit).operate depth operation =
            relimit limit ((interpreter.limited unbounded).operate depth operation)) := by
  constructor
  · intro limit higher hhigher hother
    obtain ⟨peak, hfits, hpeaks⟩ := exists_peak (interpreter.limited limit) depth operation
      (.inr hother)
    refine hpeaks.operate_limited ?_
    have hfits' : CallStack.Fits peak limit := hfits
    unfold CallStack.Fits at hfits' ⊢
    omega
  · intro unbounded hunbounded
    obtain ⟨peak, -, hpeaks⟩ := exists_peak (interpreter.limited unbounded) depth operation
      (.inl hunbounded)
    refine ⟨⟨peak, hpeaks⟩, fun peak hpeaks limit hlimit => ?_⟩
    exact hpeaks.operate_limited (.inr (by omega))

/-- An interpreter in which `outer` calls `inner`, which comes upon an unbound name. -/
def nesting : Interpreter where
  setup := ⟨defaultPrecision, Host.standard⟩
  reads := true
  global := 0
  machine :=
    ⟨⟨#[⟨none, [("outer", some (.closure "outer" [] (.call "inner" []) (some 0))),
      ("inner", some (.closure "inner" [] (.variable "missing") (some 0)))]⟩], #[]⟩, 0, .empty 0⟩

/-- Room for two calls is room enough: under each such limit the unbound name is the failure. -/
theorem operate_eq_relimit_nesting :
    ((nesting.limited 1).operate 10 (.eval (.call "outer" []))).1 =
        .error (.eval ⟨.stackExhausted 1, some ⟨#[⟨"outer", ""⟩], 1⟩⟩) ∧
      (∀ higher : Int, 2 ≤ higher →
        ((nesting.limited higher).operate 10 (.eval (.call "outer" []))).1 =
          .error (.eval ⟨.undefinedVariable "missing",
            some ⟨#[⟨"outer", ""⟩, ⟨"inner", ""⟩], higher⟩⟩)) ∧
      ∃ peak ≤ 2, (nesting.limited 0).Peaks 10 (.eval (.call "outer" [])) peak ∧
        ∀ limit : Int, 2 ≤ limit →
          (nesting.limited limit).operate 10 (.eval (.call "outer" [])) =
            relimit limit ((nesting.limited 0).operate 10 (.eval (.call "outer" []))) := by
  have hlimited := operate_eq_relimit nesting 10 (.eval (.call "outer" []))
  have hother (failure : Failure) (herror : ((nesting.limited 2).operate 10
      (.eval (.call "outer" []))).1 = .error failure) : failure.isExhausted = false := by
    cases herror
    rfl
  refine ⟨rfl, fun higher hhigher => ?_, ?_⟩
  · rw [hlimited.1 2 higher (.inr ⟨by decide, hhigher⟩) hother]
    rfl
  · -- The peak is found under the limit two, where it has to fit.
    obtain ⟨peak, hfits, hpeaks⟩ := exists_peak _ 10 _ (.inr hother)
    have hfits' : CallStack.Fits peak 2 := hfits
    have hpeak : peak ≤ 2 := by
      unfold CallStack.Fits at hfits'
      omega
    have hpeaks' : (nesting.limited 0).Peaks 10 (.eval (.call "outer" [])) peak :=
      (Run.Peaks.limited hpeaks (.inl (Int.le_refl 0))).2
    refine ⟨peak, hpeak, hpeaks', fun limit hlimit => ?_⟩
    exact (hlimited.2 0 (by decide)).2 peak hpeaks' limit (by omega)

end Interpreter

end ProtoLisp
