import ProtoLisp.Proofs.Acts
import ProtoLisp.Proofs.Encapsulation

/-!
# Steps that do not depend on the current scope

A call looks names up in the scope of the closure, and a dispatch in the objects that it is about;
neither makes use of the scope that happens to be current.  So from another scope both have the same
outcome and the same effect, and leave that other scope current.  This is what it takes for a
program to be scoped lexically: who calls a function makes no difference to it.
-/

namespace ProtoLisp

def Machine.moved (m : Machine) (s : ScopeId) : Machine := { m with scope := s }

/-- The outcome, with the machine in the scope `s`. -/
def Run.moved {α : Type} (s : ScopeId) :
    EStateM.Result Failure Machine α → EStateM.Result Failure Machine α
  | .ok a m => .ok a (m.moved s)
  | .error failure m => .error failure (m.moved s)

/-- In whatever scope the step is taken, it does the same, and leaves that scope current. -/
def Run.Detached {α : Type} (step : Run α) : Prop :=
  ∀ m s, step (m.moved s) = moved s (step m)

/-! ## Rules -/

namespace Run

variable {α β : Type}

theorem Idle.detached {step : Run α} (hidle : step.Idle) : step.Detached := by
  obtain ⟨outcome, houtcome⟩ := hidle
  intro m s
  have hstack : (m.moved s).stack = m.stack := rfl
  rw [houtcome, houtcome, hstack]
  cases outcome m.stack <;> rfl

theorem detached_pure (a : α) : Detached (pure a : Run α) := (idle_pure a).detached

theorem detached_complain (complaint : Complaint) : Detached (complain complaint : Run α) :=
  (idle_complain complaint).detached

theorem detached_withHeap (look : Heap → α) : Detached (withHeap look) := fun _ _ => rfl

theorem detached_newScope (parent : Option ScopeId) : Detached (newScope parent) := fun _ _ => rfl

theorem detached_define (s : ScopeId) (name : String) (slot : Slot) :
    Detached (define s name slot) := by
  cases slot with
  | none => exact (idle_failing _).detached
  | some v => exact fun _ _ => rfl

theorem detached_setField (o : ObjectId) (name : String) (slot : Slot) :
    Detached (setField o name slot) := by
  cases slot with
  | none => exact (idle_failing _).detached
  | some v => exact fun _ _ => rfl

theorem detached_setPrototype (o proto : ObjectId) : Detached (setPrototype o proto) := by
  intro m s
  have hheap : (m.moved s).heap = m.heap := rfl
  unfold setPrototype
  rw [hheap]
  by_cases hcyclic : m.heap.isInstance proto o = true
  · rw [if_pos hcyclic, if_pos hcyclic]
    rfl
  · rw [if_neg hcyclic, if_neg hcyclic]
    rfl

theorem detached_present (slot : Slot) : Detached (present slot) := by
  cases slot with
  | none => exact (idle_failing _).detached
  | some v => exact detached_pure v

theorem detached_bind {step : Run α} {next : α → Run β} (hstep : step.Detached)
    (hnext : ∀ a, (next a).Detached) : (step >>= next).Detached := by
  intro m s
  have hmoved := hstep m s
  cases hrun : step m with
  | ok a middle =>
      rw [hrun] at hmoved
      rw [bind_of_ok hrun, bind_of_ok hmoved]
      exact hnext a middle s
  | error failure after =>
      rw [hrun] at hmoved
      rw [bind_of_error hrun, bind_of_error hmoved]
      rfl

theorem detached_complain_showing (shown : Heap → β) (complaint : β → Complaint) :
    Detached (do complain (complaint (← withHeap shown)) : Run α) :=
  detached_bind (detached_withHeap shown) fun _ => detached_complain _

/-- A step in a scope of its own may make use of that scope. -/
theorem detached_inScope (t : ScopeId) (body : Run α) : Detached (inScope t body) := by
  intro m s
  have hinside : ({ m.moved s with scope := t } : Machine) = { m with scope := t } := rfl
  simp only [inScope, hinside]
  cases body { m with scope := t } <;> rfl

theorem detached_inCall (frame : Frame) {body : Run α} (hbody : body.Detached) :
    Detached (inCall frame body) := by
  intro m s
  have hinside : body { m.moved s with stack := m.stack.push frame } =
      moved s (body { m with stack := m.stack.push frame }) :=
    hbody { m with stack := m.stack.push frame } s
  have hstack : (m.moved s).stack = m.stack := rfl
  cases hfull : m.stack.isFull with
  | true =>
      rw [inCall_of_full hfull frame body, inCall_of_full (hstack ▸ hfull) frame body]
      rfl
  | false =>
      rw [inCall_of_room hfull frame body, inCall_of_room (hstack ▸ hfull) frame body, hstack,
        hinside]
      cases body { m with stack := m.stack.push frame } with
      | ok a after =>
          have hafter : (after.moved s).stack = after.stack := rfl
          by_cases hempty : after.stack.height = 0
          · simp only [moved, leaveCall, hafter, if_pos hempty]
          · simp only [moved, leaveCall, hafter, if_neg hempty]
            rfl
      | error failure after =>
          have hafter : (after.moved s).stack = after.stack := rfl
          by_cases hempty : after.stack.height = 0
          · simp only [moved, leaveCall, hafter, if_pos hempty]
          · simp only [moved, leaveCall, hafter, if_neg hempty]
            rfl

end Run

/-! ## Calls -/

/-- The request is for a call or for a dispatch. -/
def Request.Calls : Request → Prop
  | .eval _ => False
  | .call _ _ _ => True
  | .send _ _ _ => True

namespace Eval

open Run

variable {setup : Setup} {evaluate : Request → Run Slot}

theorem detached_numbers (operator : Operator) (index : Nat) (slots : List Slot) :
    Detached (operator.numbers index slots) := by
  induction slots generalizing index with
  | nil => exact detached_pure []
  | cons slot slots ih =>
      refine detached_bind (detached_present slot) fun v => ?_
      cases v with
      | number d => exact detached_bind (ih (index + 1)) fun ds => detached_pure (d :: ds)
      | _ => exact detached_complain_showing _ _

theorem detached_apply (precision : Int32) (operator : Operator) (slots : List Slot) :
    Detached (operator.apply precision slots) := by
  refine detached_bind (detached_numbers operator 0 slots) fun ds => ?_
  have hcalculate := (operator.idle_calculate precision ds).detached
  exact detached_bind hcalculate fun d => detached_pure _

theorem detached_follow {script : Script} (hscript : ¬ script.Evaluates)
    (hevaluate : ∀ request : Request, request.Calls → (evaluate request).Detached) :
    Detached (script.follow evaluate) := by
  induction script with
  | finish result => exact detached_pure result
  | complain complaint => exact detached_complain complaint
  | refuse text => exact (idle_failing _).detached
  | crash cause => exact (idle_failing _).detached
  | ask request next ih =>
      have hcalls : request.Calls := by
        cases request with
        | eval node => exact (hscript .now).elim
        | call function args receiver => trivial
        | send target selector args => trivial
      refine detached_bind (hevaluate request hcalls) fun answer => ?_
      exact ih answer fun hnext => hscript hnext.ask
  | height next ih =>
      refine detached_bind (idle_looking CallStack.height).detached fun n => ?_
      exact ih n fun hnext => hscript hnext.height
  | top next ih =>
      refine detached_bind (idle_looking CallStack.top?).detached fun frame => ?_
      exact ih frame fun hnext => hscript hnext.top

theorem detached_bindParams (s : ScopeId) (params : List String) (slots : List Slot) :
    Detached (bindParams s params slots) := by
  induction params generalizing slots with
  | nil => exact detached_pure ()
  | cons name params ih =>
      cases slots with
      | nil => exact detached_pure ()
      | cons slot slots => exact detached_bind (detached_define s name slot) fun _ => ih slots

theorem detached_closure (name : String) (params : List String) (body : Node)
    (scope : Option ScopeId) (slots : List Slot) :
    Detached (Eval.closure evaluate name params body scope slots) := by
  unfold Eval.closure
  split
  · exact detached_complain _
  · refine detached_bind (detached_newScope scope) fun s => ?_
    -- The body is evaluated in `s`, whatever it asks of its scope.
    exact detached_bind (detached_bindParams s params slots) fun _ => detached_inScope s _

section Host

variable (hhost : ¬ setup.host.Evaluates)
  (hevaluate : ∀ request : Request, request.Calls → (evaluate request).Detached)

include hhost hevaluate

theorem detached_native (body : Native) (slots : List Slot) :
    Detached (native setup evaluate body slots) := by
  cases body with
  | operator operator =>
      exact detached_bind (detached_apply setup.precision operator slots) fun _ => detached_pure _
  | host key =>
      have hscript : ¬ (setup.host key slots).Evaluates := fun hscript => hhost ⟨key, slots, hscript⟩
      exact detached_bind (detached_follow hscript hevaluate) fun _ => detached_pure _

theorem detached_call (function : Slot) (slots : List Slot) (receiver : String) :
    Detached (call setup evaluate function slots receiver) := by
  refine detached_bind (detached_present function) fun v => ?_
  cases v with
  | native name body =>
      exact detached_inCall ⟨name, receiver⟩ (detached_native hhost hevaluate body slots)
  | closure name params body scope =>
      exact detached_inCall ⟨name, receiver⟩ (detached_closure name params body scope slots)
  | _ => exact detached_complain_showing _ _

theorem detached_sendGet (o : ObjectId) (selector : String) (slots : List Slot) :
    Detached (sendGet setup evaluate o selector slots) := by
  refine detached_bind (detached_withHeap _) fun found => ?_
  cases found with
  | none => exact detached_complain_showing _ _
  | some slot =>
      refine detached_bind (detached_present slot) fun v => ?_
      split
      · refine detached_bind (detached_withHeap _) fun receiver => ?_
        exact detached_call hhost hevaluate slot slots receiver
      · split
        · exact detached_complain_showing _ _
        · exact detached_pure slot

end Host

theorem detached_objectArgument (selector : String) (slots : List Slot) :
    Detached (objectArgument selector slots) := by
  unfold objectArgument
  split
  next slot =>
    refine detached_bind (detached_present slot) fun v => ?_
    cases v with
    | object o => exact detached_pure o
    | _ => exact detached_complain_showing _ _
  · exact detached_complain _

theorem detached_sendPrototype (o : ObjectId) (slots : List Slot) :
    Detached (sendPrototype o slots) := by
  unfold sendPrototype
  split
  · exact detached_complain _
  · exact detached_bind (detached_withHeap _) fun proto => detached_pure _

theorem detached_sendSetPrototype (o : ObjectId) (slots : List Slot) :
    Detached (sendSetPrototype o slots) := by
  refine detached_bind (detached_objectArgument _ slots) fun proto => ?_
  refine detached_bind (detached_setPrototype o proto) fun linked => ?_
  cases linked with
  | true => exact detached_pure _
  | false => exact detached_complain_showing _ _

theorem detached_sendInstance (o : ObjectId) (slots : List Slot) :
    Detached (sendInstance o slots) := by
  refine detached_bind (detached_objectArgument _ slots) fun candidate => ?_
  exact detached_bind (detached_withHeap _) fun answer => detached_pure _

theorem detached_sendSet (o : ObjectId) (selector field : String) (slots : List Slot) :
    Detached (sendSet o selector field slots) := by
  unfold sendSet
  split
  next slot => exact detached_bind (detached_setField o field slot) fun _ => detached_pure slot
  · exact detached_complain _

theorem detached_send (hhost : ¬ setup.host.Evaluates)
    (hevaluate : ∀ request : Request, request.Calls → (evaluate request).Detached) (o : ObjectId)
    (selector : String) (slots : List Slot) : Detached (send setup evaluate o selector slots) := by
  unfold send
  split
  · exact detached_sendPrototype o slots
  · split
    · exact detached_sendSetPrototype o slots
    · split
      · exact detached_sendInstance o slots
      · dsimp only
        split
        · exact detached_complain _
        · split
          · exact detached_sendSet o selector _ slots
          · exact detached_sendGet hhost hevaluate o selector slots

/-- Unless a function of the host has expressions evaluated, a call and a dispatch do the same in
every scope. -/
theorem detached_run (hhost : ¬ setup.host.Evaluates) (depth : Nat) (request : Request)
    (hcalls : request.Calls) : Detached (run setup depth request) := by
  induction depth generalizing request with
  | zero => exact (idle_failing _).detached
  | succ depth ih =>
      cases request with
      | eval node => exact hcalls.elim
      | call function args receiver => exact detached_call hhost ih function args receiver
      | send target selector args => exact detached_send hhost ih target selector args

end Eval

end ProtoLisp
