import ProtoLisp.Proofs.Course
import ProtoLisp.Proofs.HeapGrowth

/-!
# What becomes of the outcome of a part

A task does its parts in the midst of other steps.  A failure of a part is the failure of the task,
since nothing in an evaluation goes on behind a failure; and whatever a law of the heap preserves
from a part on still holds when the task has ended.

`Run.Relays` says both of a step and of another one that is done in its course.
-/

namespace ProtoLisp

/-! ## Steps that obey every law of the heap -/

/-- The step obeys every law of the heap, from every machine. -/
def Run.Tame {α : Type} (setup : Setup) (step : Run α) : Prop :=
  ∀ ⦃Sound : Heap → Prop⦄ ⦃Grows : Heap → Heap → Prop⦄,
    (Discipline.ofHeap Sound Grows).Lawful setup → Heap.Law Sound Grows → ∀ m,
      ∃ good, (Discipline.ofHeap Sound Grows).Keeps m step good

namespace Run

variable {α β : Type} {setup : Setup}

theorem tame_pure (a : α) : Tame setup (pure a : Run α) :=
  fun _ _ hD _ _ => ⟨fun _ _ => True, Discipline.keeps_pure hD fun _ => trivial⟩

theorem tame_failing (failure : Machine → Failure) :
    Tame setup (fun m => .error (failure m) m : Run α) :=
  fun _ _ hD _ _ => ⟨fun _ _ => True, Discipline.keeps_failing hD trivial⟩

theorem tame_looking (look : Machine → α) : Tame setup (fun m => .ok (look m) m : Run α) :=
  fun _ _ hD _ _ => ⟨fun _ _ => True, fun hsound => ⟨.refl hD hsound, trivial⟩⟩

theorem tame_present (slot : Slot) : Tame setup (present slot) :=
  fun _ _ hD _ _ => ⟨_, Discipline.keeps_present hD trivial⟩

theorem tame_define (s : ScopeId) (name : String) (slot : Slot) :
    Tame setup (define s name slot) :=
  fun _ _ hD _ _ => ⟨_, Discipline.keeps_define hD name trivial trivial⟩

theorem tame_newScope (parent : Option ScopeId) : Tame setup (newScope parent) :=
  fun _ _ _ hlaw _ => ⟨fun _ _ => True, Discipline.keeps_changing fun hsound =>
    ⟨hlaw.addScope parent hsound, trivial⟩⟩

theorem tame_newObject (name : String) : Tame setup (newObject name) :=
  fun _ _ hD _ _ => ⟨_, Discipline.keeps_newObject hD name trivial⟩

theorem tame_rebind (name : String) (slot : Slot) : Tame setup (rebind name slot) :=
  fun _ _ hD _ _ => ⟨_, Discipline.keeps_rebind hD name trivial trivial⟩

theorem tame_setPrototype (o proto : ObjectId) : Tame setup (setPrototype o proto) :=
  fun _ _ hD _ _ => ⟨_, Discipline.keeps_setPrototype hD trivial trivial⟩

theorem tame_bind {step : Run α} {next : α → Run β} (hstep : step.Tame setup)
    (hnext : ∀ a, (next a).Tame setup) : (step >>= next).Tame setup := by
  intro Sound Grows hD hlaw m
  obtain ⟨good, hkeeps⟩ := hstep hD hlaw m
  refine ⟨fun _ _ => True, Discipline.keeps_bind hD hkeeps ?_⟩
  intro a middle _ _ hsound
  obtain ⟨good', hkeeps'⟩ := hnext a hD hlaw middle
  have hkept := hkeeps' hsound
  cases hrun : next a middle with
  | ok b after =>
      rw [hrun] at hkept
      exact ⟨hkept.1, trivial⟩
  | error failure after =>
      rw [hrun] at hkept
      exact hkept

theorem tame_inScope (s : ScopeId) {body : Run α} (hbody : body.Tame setup) :
    (inScope s body).Tame setup := by
  intro Sound Grows hD hlaw m
  obtain ⟨good, hkeeps⟩ := hbody hD hlaw { m with scope := s }
  exact ⟨good, Discipline.keeps_inScope hkeeps⟩

theorem tame_complain_showing (shown : Heap → β) (complaint : β → Complaint) :
    Tame setup (do complain (complaint (← withHeap shown)) : Run α) :=
  tame_bind (tame_looking _) fun _ => tame_failing _

theorem Tame.sound_after {step : Run α} (htame : step.Tame setup) {Sound : Heap → Prop}
    {Grows : Heap → Heap → Prop} (hlaw : Heap.Law Sound Grows) {m : Machine}
    (hsound : Sound m.heap) : Sound (step.after m).heap := by
  obtain ⟨good, hkeeps⟩ := htame (hlaw.lawful setup) hlaw m
  have hkept := hkeeps hsound
  unfold Run.after
  cases hrun : step m with
  | ok a after =>
      rw [hrun] at hkept
      exact hkept.1.sound
  | error failure after =>
      rw [hrun] at hkept
      exact hkept.1.sound

theorem Tame.stack_of_ok {step : Run α} (htame : step.Tame setup) {m after : Machine} {a : α}
    (hok : step m = .ok a after) : after.stack = m.stack := by
  obtain ⟨good, hkeeps⟩ := htame (Heap.law_extends.lawful setup) Heap.law_extends m
  exact (hkeeps.of_ok trivial hok).1.stack

theorem Tame.scope_of_ok {step : Run α} (htame : step.Tame setup) {m after : Machine} {a : α}
    (hok : step m = .ok a after) : after.scope = m.scope := by
  obtain ⟨good, hkeeps⟩ := htame (Heap.law_extends.lawful setup) Heap.law_extends m
  exact (hkeeps.of_ok trivial hok).1.scope

end Run

namespace Eval

open Run

variable {setup : Setup} {depth : Nat}

theorem tame_run (request : Request) : Tame setup (run setup depth request) :=
  fun _ _ _ hlaw m => ⟨_, hlaw.serves setup depth m request (Heap.Law.ready m request)⟩

theorem tame_args (done : List Slot) (nodes : List Node) :
    Tame setup (args (run setup depth) done nodes) :=
  fun _ _ hD hlaw _ => ⟨_, Discipline.keeps_args hD (hlaw.serves setup depth) (fun _ _ => trivial)
    trivial fun _ _ => trivial⟩

theorem tame_sequence (last : Slot) (nodes : List Node) :
    Tame setup (sequence (run setup depth) last nodes) :=
  fun _ _ hD hlaw _ => ⟨_, Discipline.keeps_sequence hD (hlaw.serves setup depth)
    (fun _ _ => trivial) trivial trivial⟩

theorem tame_follow (script : Script) : Tame setup (script.follow (run setup depth)) :=
  fun _ _ hD hlaw m => ⟨_, Discipline.keeps_follow hD (hlaw.serves setup depth)
    (Heap.Law.obeys script m)⟩

theorem tame_bindParams (s : ScopeId) (params : List String) (slots : List Slot) :
    Tame setup (bindParams s params slots) :=
  fun _ _ hD _ _ => ⟨_, Discipline.keeps_bindParams hD params trivial fun _ _ => trivial⟩

theorem tame_call (function : Slot) (slots : List Slot) (receiver : String) :
    Tame setup (call setup (run setup depth) function slots receiver) :=
  show Tame setup (run setup (depth + 1) (.call function slots receiver)) from tame_run _

theorem tame_send (o : ObjectId) (selector : String) (slots : List Slot) :
    Tame setup (send setup (run setup depth) o selector slots) :=
  show Tame setup (run setup (depth + 1) (.send o selector slots)) from tame_run _

theorem tame_clause (o : ObjectId) (node : Node) :
    Tame setup (clause (run setup depth) o node) :=
  fun _ _ hD hlaw _ => ⟨_, Discipline.keeps_clause hD (hlaw.serves setup depth) trivial trivial
    (Discipline.links_of_admits hD trivial)⟩

theorem tame_clauses (o : ObjectId) (nodes : List Node) :
    Tame setup (clauses (run setup depth) o nodes) :=
  fun _ _ hD hlaw _ => ⟨_, Discipline.keeps_clauses hD (hlaw.serves setup depth) (fun _ _ => trivial)
    trivial (Discipline.links_of_admits hD trivial)⟩

end Eval

/-! ## Steps in the course of steps -/

/-- The step, from the machine `m`, fails as the step `inner` from the machine `found` does; and what
a law preserves and holds of the heap when `inner` has ended holds of it in the end. -/
structure Run.Relays {α β : Type} (inner : Run β) (found : Machine) (step : Run α) (m : Machine) :
    Prop where
  fails : ∀ {failure after}, inner found = .error failure after → after.stack = found.stack →
    ∃ last, step m = .error failure last ∧ last.stack = m.stack
  sound : ∀ {Sound : Heap → Prop} {Grows : Heap → Heap → Prop}, Heap.Law Sound Grows →
    Sound (inner.after found).heap → Sound (step.after m).heap

namespace Run.Relays

variable {α β γ : Type} (setup : Setup) {inner : Run γ} {found m : Machine}

theorem refl : Relays inner found inner found :=
  ⟨fun herror hstack => ⟨_, herror, hstack⟩, fun _ hsound => hsound⟩

theorem of_eq {step step' : Run α} {m' : Machine} (hsame : step m = step' m')
    (hstack : m'.stack = m.stack) (hrelays : Relays inner found step' m') :
    Relays inner found step m where
  fails := by
    rw [hsame, ← hstack]
    exact hrelays.fails
  sound := by
    intro Sound Grows hlaw hsound
    have hafter : step.after m = step'.after m' := by simp only [Run.after, hsame]
    rw [hafter]
    exact hrelays.sound hlaw hsound

theorem bind {step : Run α} {next : α → Run β} (hrelays : Relays inner found step m)
    (hnext : ∀ a, (next a).Tame setup) : Relays inner found (step >>= next) m where
  fails := by
    intro failure after herror hstack
    obtain ⟨last, hlast, hrestored⟩ := hrelays.fails herror hstack
    exact ⟨last, bind_of_error hlast next, hrestored⟩
  sound := by
    intro Sound Grows hlaw hsound
    have hmiddle := hrelays.sound hlaw hsound
    cases hrun : step m with
    | ok a middle =>
        have hafter : (step >>= next).after m = (next a).after middle := by
          simp only [Run.after, bind_of_ok hrun]
        rw [after_of_ok hrun] at hmiddle
        rw [hafter]
        exact (hnext a).sound_after hlaw hmiddle
    | error failure after =>
        rw [after_of_error hrun] at hmiddle
        rw [after_of_error (bind_of_error hrun next)]
        exact hmiddle

theorem later {step : Run α} {next : α → Run β} {a : α} {middle : Machine}
    (hstep : step.Tame setup) (hok : step m = .ok a middle)
    (hrelays : Relays inner found (next a) middle) : Relays inner found (step >>= next) m :=
  of_eq (bind_of_ok hok next) (hstep.stack_of_ok hok) hrelays

theorem inScope {s : ScopeId} {body : Run α} (hrelays : Relays inner found body { m with scope := s }) :
    Relays inner found (Run.inScope s body) m where
  fails := by
    intro failure after herror hstack
    obtain ⟨last, hlast, hrestored⟩ := hrelays.fails herror hstack
    refine ⟨{ last with scope := m.scope }, ?_, hrestored⟩
    simp only [Run.inScope, hlast]
  sound := by
    intro Sound Grows hlaw hsound
    have hbody := hrelays.sound hlaw hsound
    rw [heap_after_inScope]
    exact hbody

theorem inCall {frame : Frame} {body : Run α} (hroom : m.stack.isFull = false)
    (hrelays : Relays inner found body (m.inCall frame)) :
    Relays inner found (Run.inCall frame body) m where
  fails := by
    intro failure after herror hstack
    obtain ⟨last, hlast, hrestored⟩ := hrelays.fails herror hstack
    have hheight : last.stack.height ≠ 0 := by
      simp [hrestored, Machine.inCall, CallStack.height, CallStack.push]
    refine ⟨{ last with stack := last.stack.pop }, ?_, ?_⟩
    · rw [inCall_of_room hroom]
      have hbody : body { m with stack := m.stack.push frame } = .error failure last := hlast
      rw [hbody, leaveCall, if_neg hheight]
    · simp [hrestored, Machine.inCall]
  sound := by
    intro Sound Grows hlaw hsound
    have hbody := hrelays.sound hlaw hsound
    rw [heap_after_inCall body hroom]
    exact hbody

end Run.Relays

/-! ## Parts in the course of tasks -/

namespace Eval

open Run

section Lists

variable {setup : Setup} {depth : Nat} {m found : Machine}

theorem relays_args {done slots : List Slot} {front : List Node} (node : Node) (rest : List Node)
    (hfront : args (run setup depth) done front m = .ok slots found) :
    Relays (run setup depth (.eval node)) found
      (args (run setup depth) done (front ++ node :: rest)) m := by
  induction front generalizing done m with
  | nil =>
      cases hfront
      exact Relays.refl.bind setup fun slot => tame_args (slot :: done) rest
  | cons first front ih =>
      cases hrun : run setup depth (.eval first) m with
      | ok slot middle =>
          rw [args, bind_of_ok hrun] at hfront
          exact .later setup (tame_run _) hrun (ih hfront)
      | error failure after =>
          rw [args, bind_of_error hrun] at hfront
          cases hfront

theorem relays_sequence {last slot : Slot} {front : List Node} (node : Node) (rest : List Node)
    (hfront : sequence (run setup depth) last front m = .ok slot found) :
    Relays (run setup depth (.eval node)) found
      (sequence (run setup depth) last (front ++ node :: rest)) m := by
  induction front generalizing last m with
  | nil =>
      cases hfront
      exact Relays.refl.bind setup fun slot => tame_sequence slot rest
  | cons first front ih =>
      cases hrun : run setup depth (.eval first) m with
      | ok slot middle =>
          rw [sequence, bind_of_ok hrun] at hfront
          exact .later setup (tame_run _) hrun (ih hfront)
      | error failure after =>
          rw [sequence, bind_of_error hrun] at hfront
          cases hfront

theorem relays_clauses {α : Type} {inner : Run α} {inside : Machine} {o : ObjectId}
    {front : List Node} {node : Node} (rest : List Node)
    (hfront : clauses (run setup depth) o front m = .ok () found)
    (hclause : Relays inner inside (clause (run setup depth) o node) found) :
    Relays inner inside (clauses (run setup depth) o (front ++ node :: rest)) m := by
  induction front generalizing m with
  | nil =>
      cases hfront
      exact hclause.bind setup fun _ => tame_clauses o rest
  | cons first front ih =>
      cases hrun : clause (run setup depth) o first m with
      | ok _ middle =>
          rw [clauses, bind_of_ok hrun] at hfront
          exact .later setup (tame_clause o first) hrun (ih hfront)
      | error failure after =>
          rw [clauses, bind_of_error hrun] at hfront
          cases hfront

theorem relays_follow {script : Script} {request : Request}
    (hasks : script.Asks (run setup depth) m request found) :
    Relays (run setup depth request) found (script.follow (run setup depth)) m := by
  induction hasks with
  | now => exact Relays.refl.bind setup fun answer => tame_follow _
  | later hok _ ih => exact .later setup (tame_run _) hok ih
  | height _ ih => exact .later setup (tame_looking _) rfl ih
  | top _ ih => exact .later setup (tame_looking _) rfl ih

end Lists

theorem form_of_applies {name : String} (happlies : Applies name) (setup : Setup)
    (evaluate : Request → Run Slot) (nodes : List Node) :
    form setup evaluate name nodes = application setup evaluate name nodes := by
  obtain ⟨hdo, hdef, hset, hobject, hselector⟩ := happlies
  simp [form, hdo, hdef, hset, hobject, hselector]

theorem form_of_isSelector {name : String} (hselector : Node.isSelector name = true)
    (setup : Setup) (evaluate : Request → Run Slot) (nodes : List Node) :
    form setup evaluate name nodes = selection setup evaluate name nodes := by
  have hother : ∀ word, Node.isSelector word = false → name ≠ word := by
    rintro word hword rfl
    rw [hword] at hselector
    cases hselector
  simp [form, hother "do" (by decide), hother "def" (by decide), hother "set!" (by decide),
    hother "object" (by decide), hselector]

theorem send_of_readsAttribute {selector : String} (hreads : ReadsAttribute selector)
    (setup : Setup) (evaluate : Request → Run Slot) (o : ObjectId) (slots : List Slot) :
    send setup evaluate o selector slots = sendGet setup evaluate o selector slots := by
  obtain ⟨hprototype, hsetPrototype, hinstance, hempty, hsign, hsetter⟩ := hreads
  simp [send, hprototype, hsetPrototype, hinstance, hempty, hsign, hsetter]

section Parts

variable {setup : Setup} {depth : Nat} {m found : Machine}

/-- An application that has found its function goes on with the arguments. -/
theorem application_of_function {name : String} {v : Value} (evaluate : Request → Run Slot)
    (nodes : List Node) (hresolve : m.heap.resolve? m.scope name = some (some v))
    (hfunction : v.type = .function) :
    application setup evaluate name nodes m =
      (args evaluate [] nodes >>= fun slots => call setup evaluate (some v) slots "") m := by
  have hlook : Run.resolve? name m = .ok (some (some v)) m := by rw [Run.resolve?, hresolve]
  rw [application, bind_of_ok hlook]
  show (if v.type = .function then _ else _ : Run Slot) m = _
  rw [if_pos hfunction]

/-- A selection that has found its target goes on with the arguments. -/
theorem relays_selection {α : Type} {inner : Run α} {selector : String} {target : Node}
    {nodes : List Node} {o : ObjectId} {middle : Machine}
    (htarget : run setup depth (.eval target) m = .ok (some (.object o)) middle)
    (hrelays : Relays inner found (args (run setup depth) [] nodes >>= fun slots =>
      send setup (run setup depth) o selector slots) middle) :
    Relays inner found (selection setup (run setup depth) selector (target :: nodes)) m :=
  .later setup (tame_run _) htarget hrelays

theorem relays_clause {o : ObjectId} {field : String} {node : Node} (hfield : field ≠ "")
    (hnew : field = "prototype" ∨ m.heap.ownBinding? m.scope field = none) :
    Relays (run setup depth (.eval node)) m
      (clause (run setup depth) o (.call field [node])) m := by
  by_cases hprototype : field = "prototype"
  · subst hprototype
    refine Relays.refl.bind setup fun slot => tame_bind (tame_present slot) fun v => ?_
    cases v with
    | object proto =>
        refine tame_bind (tame_setPrototype o proto) fun linked => ?_
        cases linked with
        | true => exact tame_pure ()
        | false => exact tame_complain_showing _ _
    | _ => exact tame_complain_showing _ _
  · have hclause : clause (run setup depth) o (.call field [node]) =
        fieldClause (run setup depth) field node := by
      simp only [clause]
    have hunbound : isBoundHere field m = .ok false m := by
      rw [isBoundHere, hnew.resolve_left hprototype]
      rfl
    rw [hclause]
    refine .later setup (tame_looking _) hunbound ?_
    refine Relays.refl.bind setup fun slot => ?_
    exact tame_bind (tame_looking _) fun s => tame_define s field slot

end Parts

end Eval

namespace Task

open Run Eval

variable {setup : Setup} {task part : Task}

theorem Part.relays (hpart : Part setup task part) :
    Relays (run setup part.depth part.request) part.machine
      (run setup task.depth task.request) task.machine := by
  -- In each case the steps up to the part have gone well, and those behind it are tame.
  cases hpart with
  | @argument depth name front rest node v done m found happlies hresolve hfunction hdone =>
      show Relays _ _ (form setup (run setup depth) name _) m
      rw [form_of_applies happlies]
      refine .of_eq (application_of_function _ _ hresolve hfunction) rfl ?_
      exact (relays_args node rest hdone).bind setup fun slots => tame_call (some v) slots ""
  | @application depth name nodes v slots m found happlies hresolve hfunction hdone =>
      show Relays _ _ (form setup (run setup depth) name _) m
      rw [form_of_applies happlies]
      refine .of_eq (application_of_function _ _ hresolve hfunction) rfl ?_
      exact .later setup (tame_args [] nodes) hdone .refl
  | @block depth front rest node last m found hdone =>
      refine .later setup (tame_looking _) rfl ?_
      refine .later setup (tame_newScope (some m.scope)) rfl ?_
      exact .inScope (relays_sequence node rest hdone)
  | @definition depth name node m hnew =>
      have hunbound : isBoundHere name m = .ok false m := by
        rw [isBoundHere, hnew]
        rfl
      refine .later setup (tame_looking _) hunbound ?_
      refine Relays.refl.bind setup fun slot => tame_bind (tame_looking _) fun s => ?_
      exact tame_bind (tame_define s name slot) fun _ => tame_pure slot
  | @assignment depth name node m hbound =>
      have hresolve : Run.resolve? name m = .ok (m.heap.resolve? m.scope name) m := rfl
      refine .later setup (tame_looking _) hresolve ?_
      rw [if_neg (by simpa using hbound)]
      refine Relays.refl.bind setup fun slot => ?_
      refine tame_bind (tame_rebind name slot) fun rebound => ?_
      cases rebound with
      | true => exact tame_pure slot
      | false => exact tame_failing _
  | @clause depth name field nodes front rest node m found hparts hdone hfield hnew =>
      show Relays _ _ (construction (run setup depth) nodes) m
      rw [construction_eq, hparts]
      refine .later setup (tame_newObject name) rfl (.inScope ?_)
      refine Relays.bind setup ?_ fun _ => tame_pure _
      exact relays_clauses rest hdone (relays_clause hfield hnew)
  | @target depth selector target nodes m hselector =>
      show Relays _ _ (form setup (run setup depth) selector _) m
      rw [form_of_isSelector hselector]
      refine Relays.refl.bind setup fun slot => tame_bind (tame_present slot) fun v => ?_
      cases v with
      | object o => exact tame_bind (tame_args [] nodes) fun slots => tame_send o selector slots
      | _ => exact tame_complain_showing _ _
  | @operand depth selector target node front rest o done m middle found hselector htarget hdone =>
      show Relays _ _ (form setup (run setup depth) selector _) m
      rw [form_of_isSelector hselector]
      refine relays_selection htarget ?_
      exact (relays_args node rest hdone).bind setup fun slots => tame_send o selector slots
  | @dispatch depth selector target nodes o slots m middle found hselector htarget hdone =>
      show Relays _ _ (form setup (run setup depth) selector _) m
      rw [form_of_isSelector hselector]
      exact relays_selection htarget (.later setup (tame_args [] nodes) hdone .refl)
  | @method depth o selector args v m hreads hattribute hfunction =>
      show Relays _ _ (send setup (run setup depth) o selector args) m
      rw [send_of_readsAttribute hreads]
      have hlook : withHeap (·.attribute? o selector) m = .ok (some (some v)) m := by
        rw [withHeap, hattribute]
      refine .later setup (tame_looking _) hlook ?_
      show Relays _ _ (if v.type = .function then _ else _ : Run Slot) m
      rw [if_pos hfunction]
      exact .later setup (tame_looking _) rfl .refl
  | @body depth name receiver params body scope args m bound hroom harity hbound =>
      refine Relays.inCall hroom ?_
      rw [Eval.closure, if_neg (not_not_intro harity)]
      refine .later setup (tame_newScope scope) rfl ?_
      exact .later setup (tame_bindParams _ params args) hbound (.inScope .refl)
  | @native depth name key receiver args request m found hroom hasks =>
      refine Relays.inCall hroom ?_
      exact (relays_follow hasks).bind setup fun _ => tame_pure _

theorem stack_of_outcome {failure : Failure} {after : Machine}
    (herror : task.outcome setup = .error failure after) : after.stack = task.machine.stack := by
  rw [← Plan.stack_after_run setup task.depth task.request task.machine]
  rw [Run.after_of_error herror]

theorem Part.fails (hpart : Part setup task part) {failure : Failure} {after : Machine}
    (herror : part.outcome setup = .error failure after) :
    ∃ last, task.outcome setup = .error failure last := by
  obtain ⟨last, hlast, -⟩ := hpart.relays.fails herror (stack_of_outcome herror)
  exact ⟨last, hlast⟩

theorem Course.fails (hcourse : Course setup task part) {failure : Failure} {after : Machine}
    (herror : part.outcome setup = .error failure after) :
    ∃ last, task.outcome setup = .error failure last := by
  induction hcourse using Relation.ReflTransGen.head_induction_on with
  | refl => exact ⟨after, herror⟩
  | head hpart _ ih =>
      obtain ⟨last, hlast⟩ := ih
      exact hpart.fails hlast

def after (setup : Setup) (task : Task) : Machine :=
  (run setup task.depth task.request).after task.machine

/-- What a law preserves and holds of the heap when a part has ended still holds in the end. -/
theorem Course.sound {Sound : Heap → Prop} {Grows : Heap → Heap → Prop}
    (hlaw : Heap.Law Sound Grows) (hcourse : Course setup task part)
    (hsound : Sound (part.after setup).heap) : Sound (task.after setup).heap := by
  induction hcourse using Relation.ReflTransGen.head_induction_on with
  | refl => exact hsound
  | head hpart _ ih => exact hpart.relays.sound hlaw ih

end Task

/-! ## Operations -/

/-- An evaluation that an interpreter starts to carry out an operation.  A text that is loaded starts
one for each of its expressions, as long as none fails. -/
inductive Interpreter.Starts (interpreter : Interpreter) (depth : Nat) : Operation → Task → Prop where
  | eval {node : Node} : Starts interpreter depth (.eval node) ⟨depth, .eval node, interpreter.machine⟩
  | evalIn {s : ScopeId} {node : Node} : Starts interpreter depth (.evalIn s node)
      ⟨depth, .eval node, { interpreter.machine with scope := s }⟩
  | call {function : Slot} {args : List Slot} : Starts interpreter depth (.call function args)
      ⟨depth, .call function args "", interpreter.machine⟩
  | send {target : ObjectId} {selector : String} {args : List Slot} :
      Starts interpreter depth (.send target selector args)
        ⟨depth, .send target selector args, interpreter.machine⟩
  | load {source : Source} {front rest : List Node} {node : Node} {last : Slot} {found : Machine}
      (hreads : interpreter.reads = true) (hread : readProgram source = .ok (front ++ node :: rest))
      (hdone : Eval.sequence (Eval.run interpreter.setup depth) (some .null) front
        interpreter.machine = .ok last found) :
      Starts interpreter depth (.load source) ⟨depth, .eval node, found⟩

namespace Interpreter

variable {interpreter : Interpreter} {depth : Nat} {operation : Operation} {start : Task}

theorem Starts.relays (hstarts : interpreter.Starts depth operation start) :
    Run.Relays (Eval.run interpreter.setup start.depth start.request) start.machine
      (operation.plan interpreter.reads (Eval.run interpreter.setup depth))
      interpreter.machine := by
  cases hstarts with
  | evalIn => exact Run.Relays.inScope .refl
  | load hreads hread hdone =>
      simp only [Operation.plan, hreads, hread, if_true]
      exact Eval.relays_sequence _ _ hdone
  | _ => exact .refl

theorem Starts.fails (hstarts : interpreter.Starts depth operation start) {failure : Failure}
    {after : Machine} (herror : start.outcome interpreter.setup = .error failure after) :
    (interpreter.operate depth operation).1 = .error failure := by
  obtain ⟨last, hlast, -⟩ := hstarts.relays.fails herror (Task.stack_of_outcome herror)
  rw [operate_eq_perform, perform, hlast]

theorem machine_operate (interpreter : Interpreter) (depth : Nat) (operation : Operation) :
    (interpreter.operate depth operation).2.machine =
      (operation.plan interpreter.reads (Eval.run interpreter.setup depth)).after
        interpreter.machine := by
  rw [operate_eq_perform, perform, Run.after]
  cases operation.plan interpreter.reads (Eval.run interpreter.setup depth)
    interpreter.machine <;> rfl

theorem Starts.sound {Sound : Heap → Prop} {Grows : Heap → Heap → Prop}
    (hlaw : Heap.Law Sound Grows) (hstarts : interpreter.Starts depth operation start)
    (hsound : Sound (start.after interpreter.setup).heap) :
    Sound (interpreter.operate depth operation).2.machine.heap := by
  rw [machine_operate]
  exact hstarts.relays.sound hlaw hsound

end Interpreter

/-- The task is done in the course of an operation of an interpreter with this history. -/
def Task.Arises (host : Host) (deeds : List Deed) (task : Task) : Prop :=
  ∃ depth operation start, (Interpreter.history host deeds).Starts depth operation start ∧
    Course (Interpreter.history host deeds).setup start task

/-- The evaluations that an operation starts are within a discipline that allows the operation. -/
theorem Discipline.permits_starts {D : Discipline} {interpreter : Interpreter} {depth : Nat}
    {operation : Operation} {start : Task} (hD : D.Lawful interpreter.setup)
    (hsound : D.Sound interpreter.machine.heap) (hallows : D.Allows interpreter.machine operation)
    (hstarts : interpreter.Starts depth operation start) : D.Permits start := by
  cases hstarts with
  | load _ hread hdone =>
      obtain ⟨henters, hreads⟩ := hallows
      have hnodes := hreads _ hread
      have hkeeps := keeps_sequence hD (serves_run hD depth)
        (fun part hmem => hnodes part (List.mem_append_left _ hmem)) henters
        (hD.admits_primitive (v := .null) rfl)
      have hleaves := (hkeeps.of_ok hsound hdone).1
      exact hleaves.permits_eval hD henters (hnodes _ (by simp)) depth
  | _ => exact ⟨hsound, hallows⟩

/-- What a law says of the heap of a new interpreter, every task finds that arises. -/
theorem Heap.Law.arises {Sound : Heap → Prop} {Grows : Heap → Heap → Prop}
    (hlaw : Law Sound Grows) (hinitial : Sound Interpreter.initialHeap) {host : Host}
    {deeds : List Deed} {task : Task} (harises : task.Arises host deeds) :
    Sound task.machine.heap := by
  obtain ⟨depth, operation, start, hstarts, hcourse⟩ := harises
  have hlawful := hlaw.lawful (Interpreter.history host deeds).setup
  have hstart := Discipline.permits_starts hlawful (hlaw.history hinitial host deeds)
    (allows _ operation) hstarts
  exact (Discipline.permits_course hlawful hcourse hstart).1

end ProtoLisp
