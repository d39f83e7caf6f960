import ProtoLisp.Proofs.Detachment
import ProtoLisp.Proofs.HeapTwins

/-!
# Lexical scoping

What a call or a dispatch does depends on the function, the arguments and the object that it is
about, and on what can be reached from them.  Two interpreters that agree as far as that goes have
the same outcome, and agree afterwards on all that was reached and on all that is new, whatever else
they hold and in whatever scopes they are.  So a call neither sees nor changes a binding of its
caller that it is not given access to.

The proof runs both interpreters side by side, act by act.
-/

namespace ProtoLisp

/-- The machines are in the same scope of twin heaps, with the same active calls. -/
structure Machine.Twins (seen : Set Ref) (m m' : Machine) : Prop where
  heap : m.heap.Twins seen m'.heap
  scope : m'.scope = m.scope
  stack : m'.stack = m.stack

/-- The outcomes are the same and leave twin machines. -/
inductive Run.SameOutcome {α : Type} (seen : Set Ref) :
    EStateM.Result Failure Machine α → EStateM.Result Failure Machine α → Prop where
  | ok {a : α} {m m' : Machine} (htwins : m.Twins seen m') : SameOutcome seen (.ok a m) (.ok a m')
  | error {failure : Failure} {m m' : Machine} (htwins : m.Twins seen m') :
      SameOutcome seen (.error failure m) (.error failure m')

/-- On every twin of the machine `m`, the step has the same outcome as on `m`. -/
def Run.Parallel {α : Type} (seen : Set Ref) (step : Run α) (m : Machine) : Prop :=
  ∀ m', m.Twins seen m' → SameOutcome seen (step m) (step m')

/-! ## Rules -/

namespace Run

variable {α β : Type} {seen : Set Ref} {m : Machine}

theorem Idle.parallel {step : Run α} (hidle : step.Idle) : step.Parallel seen m := by
  obtain ⟨outcome, houtcome⟩ := hidle
  intro m' htwins
  rw [houtcome, houtcome, htwins.stack]
  cases outcome m.stack with
  | ok a => exact .ok htwins
  | error failure => exact .error htwins

theorem parallel_looking {look : Machine → α} (hlook : ∀ m', m.Twins seen m' → look m' = look m) :
    Parallel seen (fun m => .ok (look m) m : Run α) m := by
  intro m' htwins
  simp only [hlook m' htwins]
  exact .ok htwins

theorem parallel_changing {result : Machine → α} {change : Machine → Heap}
    (hresult : ∀ m', m.Twins seen m' → result m' = result m)
    (hchange : ∀ m', m.Twins seen m' → (change m).Twins seen (change m')) :
    Parallel seen (fun m => .ok (result m) { m with heap := change m } : Run α) m := by
  intro m' htwins
  simp only [hresult m' htwins]
  exact .ok ⟨hchange m' htwins, htwins.scope, htwins.stack⟩

theorem parallel_bind {step : Run α} {next : α → Run β} (hstep : step.Parallel seen m)
    (hnext : ∀ a middle, step m = .ok a middle → (next a).Parallel seen middle) :
    (step >>= next).Parallel seen m := by
  intro m' htwins
  have hfirst := hstep m' htwins
  generalize hrun' : step m' = outcome' at hfirst
  cases hrun : step m with
  | ok a middle =>
      rw [hrun] at hfirst
      cases hfirst with
      | ok hmiddle =>
          rw [bind_of_ok hrun, bind_of_ok hrun']
          exact hnext a middle hrun _ hmiddle
  | error failure after =>
      rw [hrun] at hfirst
      cases hfirst with
      | error hafter =>
          rw [bind_of_error hrun, bind_of_error hrun']
          exact .error hafter

theorem parallel_inScope {s : ScopeId} {body : Run α}
    (hbody : body.Parallel seen { m with scope := s }) : (inScope s body).Parallel seen m := by
  intro m' htwins
  have hinside := hbody { m' with scope := s } ⟨htwins.heap, rfl, htwins.stack⟩
  unfold inScope
  cases hrun : body { m with scope := s } with
  | ok a after =>
      rw [hrun] at hinside
      generalize body { m' with scope := s } = outcome' at hinside ⊢
      cases hinside with
      | ok hafter => exact .ok ⟨hafter.heap, htwins.scope, hafter.stack⟩
  | error failure after =>
      rw [hrun] at hinside
      generalize body { m' with scope := s } = outcome' at hinside ⊢
      cases hinside with
      | error hafter => exact .error ⟨hafter.heap, htwins.scope, hafter.stack⟩

theorem SameOutcome.leaveCall {outcome outcome' : EStateM.Result Failure Machine α}
    (hsame : SameOutcome seen outcome outcome') :
    SameOutcome seen (Run.leaveCall outcome) (Run.leaveCall outcome') := by
  cases hsame with
  | @ok a m m' htwins =>
      by_cases hempty : m.stack.height = 0
      · simp only [Run.leaveCall, htwins.stack, if_pos hempty]
        exact .error htwins
      · simp only [Run.leaveCall, htwins.stack, if_neg hempty]
        exact .ok ⟨htwins.heap, htwins.scope, rfl⟩
  | @error failure m m' htwins =>
      by_cases hempty : m.stack.height = 0
      · simp only [Run.leaveCall, htwins.stack, if_pos hempty]
        exact .error htwins
      · simp only [Run.leaveCall, htwins.stack, if_neg hempty]
        exact .error ⟨htwins.heap, htwins.scope, rfl⟩

theorem parallel_inCall {frame : Frame} {body : Run α}
    (hbody : m.stack.isFull = false → body.Parallel seen (m.inCall frame)) :
    (inCall frame body).Parallel seen m := by
  intro m' htwins
  cases hfull : m.stack.isFull with
  | true =>
      have hfull' : m'.stack.isFull = true := htwins.stack ▸ hfull
      rw [inCall_of_full hfull frame body, inCall_of_full hfull' frame body, htwins.stack]
      exact (idle_complain _).parallel m' htwins
  | false =>
      have hfull' : m'.stack.isFull = false := htwins.stack ▸ hfull
      have hinside : (m.inCall frame).Twins seen (m'.inCall frame) :=
        ⟨htwins.heap, htwins.scope, congrArg (·.push frame) htwins.stack⟩
      rw [inCall_of_room hfull frame body, inCall_of_room hfull' frame body]
      exact (hbody hfull _ hinside).leaveCall

/-- A step runs in parallel if its acts do. -/
theorem Traced.parallel {Act : ⦃α : Type⦄ → Run α → Machine → Prop}
    (hacts : ∀ ⦃β : Type⦄ (act : Run β) found, Act act found → act.Parallel seen found)
    {step : Run α} (htraced : Traced Act step m) : step.Parallel seen m := by
  induction htraced with
  | act hact => exact hacts _ _ hact
  | bind _ _ ih ihnext => exact parallel_bind ih ihnext
  | inScope _ ih => exact parallel_inScope ih
  | inCall _ ih => exact parallel_inCall ih

end Run

/-! ## Acts -/

/-- What an evaluation that found the heap `before` and knew of `known` can ever come to see. -/
def Heap.outlook (before : Heap) (known : Set Ref) : Set Ref := known ∪ {r | ¬ before.Holds r}

section Acts

variable {before : Heap} {known : Set Ref} {m m' : Machine}

theorem Heap.Confined.alike (hconfined : before.Confined known m.heap)
    (htwins : m.Twins (before.outlook known) m') :
    m.heap.Alike (before.area known m.heap) m'.heap where
  toTwins := htwins.heap.mono (Set.union_subset_union_right known fun _ hr => hr.2)
  closed := hconfined.closed

/-- Within the discipline, what is looked at is the same on twins. -/
theorem Discipline.Views.parallel {α : Type} {look : Heap → α}
    (hviews : (confinement before known).Views m.heap look)
    (hconfined : before.Confined known m.heap) :
    (Run.withHeap look).Parallel (before.outlook known) m := by
  apply Run.parallel_looking
  intro m' htwins
  have halike := hconfined.alike htwins
  cases hviews with
  | exhibit hv => exact halike.exhibit hv
  | text ho => exact halike.text ho
  | lookup ho => exact halike.attribute? (Slot.refs_object_subset.mp ho) _
  | prototype ho => exact halike.proto? (Slot.refs_object_subset.mp ho)
  | isInstance ho => exact halike.isInstance (Slot.refs_object_subset.mp ho) _
  | objectName ho => exact halike.objectName (Slot.refs_object_subset.mp ho)
  | objectLabel ho => exact halike.objectLabel (Slot.refs_object_subset.mp ho)

theorem Heap.Reading.parallel {α : Type} {look : Heap → ScopeId → α} (hreading : Heap.Reading look)
    (hconfined : before.Confined known m.heap)
    (hscope : .scope m.scope ∈ before.area known m.heap) :
    Run.Parallel (before.outlook known) (fun m => .ok (look m.heap m.scope) m : Run α) m := by
  apply Run.parallel_looking
  intro m' htwins
  have halike := hconfined.alike htwins
  rw [htwins.scope]
  cases hreading with
  | resolve => exact halike.resolve? hscope _
  | bound => exact congrArg Option.isSome (halike.ownBinding? hscope _)
  | here => rfl

theorem Run.parallel_rebind (name : String) (slot : Slot)
    (hconfined : before.Confined known m.heap)
    (hscope : .scope m.scope ∈ before.area known m.heap) :
    (Run.rebind name slot).Parallel (before.outlook known) m := by
  intro m' htwins
  have howner : m'.heap.owner? m'.scope name = m.heap.owner? m.scope name := by
    rw [htwins.scope]
    exact (hconfined.alike htwins).owner? hscope name
  simp only [Run.rebind, howner]
  cases m.heap.owner? m.scope name with
  | none => exact .ok htwins
  | some t => exact .ok ⟨htwins.heap.put t name slot, htwins.scope, htwins.stack⟩

theorem Run.parallel_setPrototype {o proto : ObjectId} (hconfined : before.Confined known m.heap)
    (hproto : .object proto ∈ before.area known m.heap) :
    (Run.setPrototype o proto).Parallel (before.outlook known) m := by
  intro m' htwins
  have hinstance := (hconfined.alike htwins).isInstance hproto o
  unfold Run.setPrototype
  rw [hinstance]
  by_cases hcyclic : m.heap.isInstance proto o = true
  · rw [if_pos hcyclic, if_pos hcyclic]
    exact .ok htwins
  · rw [if_neg hcyclic, if_neg hcyclic]
    exact .ok ⟨htwins.heap.linkPrototype o (some proto), htwins.scope, htwins.stack⟩

theorem Task.Act.parallel {setup : Setup} {task : Task} {α : Type} {act : Run α} {found : Machine}
    (hact : task.Act setup (.confinement before known) act found)
    (hparts : ∀ part, Part setup task part →
      (Eval.run setup part.depth part.request).Parallel (before.outlook known) part.machine) :
    act.Parallel (before.outlook known) found := by
  cases hact with
  | part hpart => exact hparts _ hpart
  | gives => exact (Run.idle_pure _).parallel
  | complains => exact (Run.idle_complain _).parallel
  | refuses => exact (Run.idle_failing _).parallel
  | lacks _ => exact (Run.idle_failing _).parallel
  | raises _ _ => exact (Run.idle_failing _).parallel
  | calculates _ => exact (Operator.idle_calculate _ _ _).parallel
  | counts => exact (Run.idle_looking _).parallel
  | views hsound hviews => exact hviews.parallel hsound
  | reads hsound henters hreading => exact hreading.parallel hsound henters
  | opens =>
      exact Run.parallel_changing (fun _ htwins => htwins.heap.scopes)
        fun _ htwins => htwins.heap.addScope _
  | makes =>
      apply Run.parallel_changing
      · intro m' htwins
        exact Prod.ext htwins.heap.objects htwins.heap.scopes
      · intro m' htwins
        rw [htwins.scope]
        exact htwins.heap.addObject _ _
  | defines _ _ _ =>
      exact Run.parallel_changing (fun _ _ => rfl) fun _ htwins => htwins.heap.put _ _ _
  | rebinds hsound henters => exact Run.parallel_rebind _ _ hsound henters
  | sets hsound ho _ _ _ =>
      apply Run.parallel_changing (fun _ _ => rfl)
      intro m' htwins
      have halike := hsound.alike htwins
      exact halike.setField (Slot.refs_object_subset.mp ho) htwins.heap _ _
  | links hsound _ hproto =>
      exact Run.parallel_setPrototype hsound (Slot.refs_object_subset.mp hproto)

/-- A task that is confined to what is known has the same outcome on every twin of its machine. -/
theorem Task.parallel {setup : Setup} {task : Task}
    (hlawful : (Discipline.confinement before known).Lawful setup)
    (hpermits : (Discipline.confinement before known).Permits task) :
    (Eval.run setup task.depth task.request).Parallel (before.outlook known) task.machine := by
  -- The parts are confined as well, and of smaller rank; all else that a task does is an act.
  induction hrank : task.rank using Nat.strongRecOn generalizing task with
  | ind n ih =>
      obtain ⟨depth, request, m⟩ := task
      cases depth with
      | zero => exact (Run.idle_failing _).parallel
      | succ depth =>
          apply (traced hlawful hpermits).parallel
          intro β act found hact
          apply hact.parallel
          intro part hpart
          exact ih part.rank (hrank ▸ hpart.rank_lt)
            (Discipline.permits_part hlawful hpart hpermits) rfl

end Acts

/-! ## Operations -/

/-- The operation is a call or a dispatch. -/
def Operation.Calls : Operation → Prop
  | .call _ _ => True
  | .send _ _ _ => True
  | _ => False

def Interpreter.moved (interpreter : Interpreter) (s : ScopeId) : Interpreter :=
  { interpreter with machine := interpreter.machine.moved s }

namespace Interpreter

theorem perform_moved {α : Type} (interpreter : Interpreter) {step : Run α}
    (hdetached : step.Detached) (s : ScopeId) :
    (interpreter.moved s).perform step =
      ((interpreter.perform step).1, (interpreter.perform step).2.moved s) := by
  have hmoved : step (interpreter.moved s).machine = Run.moved s (step interpreter.machine) :=
    hdetached interpreter.machine s
  unfold perform
  rw [hmoved]
  cases step interpreter.machine <;> rfl

theorem operate_moved (interpreter : Interpreter) (hhost : ¬ interpreter.setup.host.Evaluates)
    (depth : Nat) {operation : Operation} (hcalls : operation.Calls) (s : ScopeId) :
    (interpreter.moved s).operate depth operation =
      ((interpreter.operate depth operation).1,
        (interpreter.operate depth operation).2.moved s) := by
  cases operation with
  | call function args =>
      exact perform_moved _ (Eval.detached_run hhost depth (.call function args "") trivial) s
  | send target selector args =>
      exact perform_moved _ (Eval.detached_run hhost depth (.send target selector args) trivial) s
  | _ => exact hcalls.elim

theorem perform_same {α : Type} {interpreter other : Interpreter} {step : Run α} {seen : Set Ref}
    (hsame : Run.SameOutcome seen (step interpreter.machine) (step other.machine)) :
    (other.perform step).1 = (interpreter.perform step).1 ∧
      (interpreter.perform step).2.machine.Twins seen (other.perform step).2.machine := by
  unfold perform
  generalize step interpreter.machine = outcome at hsame
  generalize step other.machine = outcome' at hsame
  cases hsame with
  | ok htwins => exact ⟨rfl, htwins⟩
  | error htwins => exact ⟨rfl, htwins⟩

/-- All that the operation can reach, if the host keeps `held` for its functions. -/
def reached (interpreter : Interpreter) (operation : Operation) (held : Set Ref) : Set Ref :=
  interpreter.machine.heap.reach (operation.roots interpreter.machine ∪ held)

section Held

variable {interpreter : Interpreter} {held : Set Ref}

theorem lawful_reached (hhost : interpreter.setup.host.UsesOnly held) (operation : Operation) :
    (Discipline.confinement interpreter.machine.heap (interpreter.reached operation held)).Lawful
      interpreter.setup := by
  apply Discipline.lawful_confinement_of_held hhost
  exact Set.subset_union_right.trans (Heap.subset_reach _ _)

theorem allows_reached (operation : Operation) :
    (Discipline.confinement interpreter.machine.heap (interpreter.reached operation held)).Allows
      interpreter.machine operation := by
  apply Discipline.allows_confinement
  exact Set.subset_union_left.trans (Heap.subset_reach _ _)

theorem operate_confined (hhost : interpreter.setup.host.UsesOnly held) (depth : Nat)
    (operation : Operation) :
    interpreter.machine.heap.Encapsulates (operation.roots interpreter.machine ∪ held)
      (interpreter.operate depth operation).2.machine.heap := by
  have hends := Discipline.operate (lawful_reached hhost operation)
    (Heap.Confined.initial _ _) depth operation (allows_reached operation)
  exact Heap.Confined.encapsulates hends.leaves.sound

theorem operate_parallel (hhost : interpreter.setup.host.UsesOnly held) (depth : Nat)
    {operation : Operation} (hcalls : operation.Calls) {other : Interpreter}
    (hsetup : other.setup = interpreter.setup)
    (htwins : interpreter.machine.Twins
      (interpreter.machine.heap.outlook (interpreter.reached operation held)) other.machine) :
    (other.operate depth operation).1 = (interpreter.operate depth operation).1 ∧
      (interpreter.operate depth operation).2.machine.Twins
        (interpreter.machine.heap.outlook (interpreter.reached operation held))
        (other.operate depth operation).2.machine := by
  have hlawful := lawful_reached hhost operation
  have hallows : (Discipline.confinement interpreter.machine.heap
      (interpreter.reached operation held)).Allows interpreter.machine operation :=
    allows_reached operation
  have hconfined : interpreter.machine.heap.Confined (interpreter.reached operation held)
      interpreter.machine.heap := Heap.Confined.initial _ _
  cases operation with
  | call function args =>
      have hpermits : (Discipline.confinement interpreter.machine.heap
          (interpreter.reached (.call function args) held)).Permits
          ⟨depth, .call function args "", interpreter.machine⟩ := ⟨hconfined, hallows⟩
      simp only [operate, call, hsetup]
      exact perform_same (Task.parallel hlawful hpermits _ htwins)
  | send target selector args =>
      have hpermits : (Discipline.confinement interpreter.machine.heap
          (interpreter.reached (.send target selector args) held)).Permits
          ⟨depth, .send target selector args, interpreter.machine⟩ := ⟨hconfined, hallows⟩
      simp only [operate, send, hsetup]
      exact perform_same (Task.parallel hlawful hpermits _ htwins)
  | _ => exact hcalls.elim

end Held

/-- In whatever scope a call or a dispatch is made, it has the same outcome and does the same to the
heap.  It changes nothing but what can be reached from the function, the arguments and the object, and
from what the host keeps for its functions; and it sees nothing else either: two interpreters that agree
on that have the same outcome, and agree afterwards on that and on all that is new. -/
theorem operate_lexical (interpreter : Interpreter) (hhost : ¬ interpreter.setup.host.Evaluates)
    (depth : Nat) (operation : Operation) (hcalls : operation.Calls) :
    let heap := interpreter.machine.heap
    let outcome := interpreter.operate depth operation
    (∀ s, (interpreter.moved s).operate depth operation = (outcome.1, outcome.2.moved s)) ∧
      ∀ held, interpreter.setup.host.UsesOnly held →
        heap.Encapsulates (operation.roots interpreter.machine ∪ held) outcome.2.machine.heap ∧
          ∀ other : Interpreter, other.setup = interpreter.setup →
            other.machine.stack = interpreter.machine.stack →
            heap.Twins (interpreter.reached operation held) other.machine.heap →
            (other.operate depth operation).1 = outcome.1 ∧
              outcome.2.machine.heap.Twins
                (interpreter.reached operation held ∪ heap.fresh outcome.2.machine.heap)
                (other.operate depth operation).2.machine.heap := by
  intro heap outcome
  refine ⟨interpreter.operate_moved hhost depth hcalls, ?_⟩
  intro held hheld
  refine ⟨operate_confined hheld depth operation, ?_⟩
  intro other hsetup hstack htwins
  -- The other interpreter may as well be in the same scope.
  have hother : ¬ other.setup.host.Evaluates := hsetup ▸ hhost
  have hmoved := other.operate_moved hother depth hcalls interpreter.machine.scope
  have hmachines : interpreter.machine.Twins (heap.outlook (interpreter.reached operation held))
      (other.moved interpreter.machine.scope).machine :=
    ⟨htwins.union_missing, rfl, hstack⟩
  have hsetup' : (other.moved interpreter.machine.scope).setup = interpreter.setup := hsetup
  obtain ⟨hresult, hafter⟩ := operate_parallel hheld depth hcalls hsetup' hmachines
  rw [hmoved] at hresult hafter
  refine ⟨hresult, hafter.heap.mono ?_⟩
  exact Set.union_subset_union_right _ fun _ hr => hr.2

end Interpreter

/-- `(def (f) x)`, evaluated in the global scope -/
def Value.readingX : Value := .closure "f" [] (.variable "x") (some 0)

/-- An interpreter in a block that binds `x` to `n`, while the global `x` is 1. -/
def Interpreter.shadowing (n : Int) : Interpreter where
  setup := ⟨defaultPrecision, Host.standard⟩
  reads := true
  global := 0
  machine :=
    ⟨⟨#[⟨none, [("x", some (.ofInt 1))]⟩, ⟨some 0, [("x", some (.ofInt n))]⟩], #[]⟩, 1, .empty 0⟩

/-- A function that reads the global `x` gives 1, wherever it is called and whatever `x` is there, and
leaves the other `x` alone. -/
theorem Interpreter.operate_lexical_shadowing :
    let operation := Operation.call (some .readingX) []
    ¬ Host.standard.Evaluates ∧ operation.Calls ∧
      ((shadowing 2).operate 3 operation).1 = .ok (some (.ofInt 1)) ∧
      (((shadowing 2).moved 0).operate 3 operation).1 = .ok (some (.ofInt 1)) ∧
      ((shadowing 3).operate 3 operation).1 = .ok (some (.ofInt 1)) ∧
      ((shadowing 2).operate 3 operation).2.machine.heap.scopes[1]? =
        some ⟨some 0, [("x", some (.ofInt 2))]⟩ := by
  intro operation
  have hhost : ¬ (shadowing 2).setup.host.Evaluates :=
    Host.standard_usesOnlyArguments.not_evaluates
  obtain ⟨hmoved, hheld⟩ := operate_lexical (shadowing 2) hhost 3 operation trivial
  obtain ⟨hencapsulates, htwins⟩ := hheld ∅ Host.standard_usesOnlyArguments.usesOnly
  have hvalue : ((shadowing 2).operate 3 operation).1 = .ok (some (.ofInt 1)) := rfl
  -- The global scope is all that can be reached from the function.
  have hreached : (shadowing 2).reached operation ∅ ⊆ {.scope 0} := by
    apply Heap.reach_subset
    · apply Set.union_subset _ (Set.empty_subset _)
      rintro r ⟨slot, hslot, hr⟩
      rw [List.mem_singleton.mp hslot, Slot.mem_refs] at hr
      cases hr
      rfl
    · rintro r target rfl hlink
      cases hlink with
      | parent hparent => simp [Heap.parent?, shadowing] at hparent
      | binding hmem hrefs =>
          simp [Heap.bindings, shadowing] at hmem
          simp [hmem.2, Slot.mem_refs, Value.ref?, Value.ofInt] at hrefs
  have hagree : (shadowing 2).machine.heap.Twins {.scope 0} (shadowing 3).machine.heap := by
    refine ⟨rfl, rfl, ?_, fun _ _ => rfl⟩
    rintro s ⟨⟩
    rfl
  refine ⟨hhost, trivial, hvalue, ?_, ?_, ?_⟩
  · rw [hmoved 0]
    exact hvalue
  · rw [(htwins (shadowing 3) rfl rfl (hagree.mono hreached)).1]
    exact hvalue
  · apply hencapsulates.scope_unchanged 1 (by simp [Heap.Holds, shadowing])
    intro hmem
    simpa using hreached hmem

end ProtoLisp
