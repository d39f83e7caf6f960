import ProtoLisp.Proofs.DisciplinedEvaluation

/-!
# How evaluations are put together

A plan is an evaluation step that is still to be told how requests are met.  Every form of the
language is a plan that is put together from basic steps, requests, changes of the current scope and
calls, and `Plan.Composed` says so for a given stack of active calls.  It also says which requests a
plan may make at which stack: a form asks for its own parts while the calls are as they were, and
for anything only inside a call, that is, with one more frame on the stack.

What is to be shown of all evaluations can then be shown by induction on how plans are put together,
and need not look at the forms of the language again.
-/

namespace ProtoLisp

abbrev Plan (α : Type) := (Request → Run Slot) → Run α

/-- A step that makes no call and no request: it fails, works on the heap in the current scope, or
looks at the active calls. -/
inductive Run.Basic {α : Type} : Run α → Prop
  | complains (complaint : Complaint) : Basic (Run.complain complaint)
  | fails {failure : Failure} (heval : ∀ error, failure ≠ .eval error)
      (hdeep : failure ≠ .tooDeep) : Basic fun m => .error failure m
  | works (work : Heap → ScopeId → α × Heap) :
      Basic fun m => .ok (work m.heap m.scope).1 { m with heap := (work m.heap m.scope).2 }
  | looks (look : Array Frame → α) : Basic fun m => .ok (look m.stack.frames) m

/-- At the stack `stack`, the plan is put together from basic steps and calls, and makes only
requests that `Asks` allows. -/
inductive Plan.Composed (Asks : CallStack → Request → Prop) :
    {α : Type} → Plan α → CallStack → Prop
  | basic {α : Type} {step : Run α} {stack : CallStack} (hbasic : step.Basic) :
      Composed Asks (fun _ => step) stack
  | ask {request : Request} {stack : CallStack} (hasks : Asks stack request) :
      Composed Asks (fun evaluate => evaluate request) stack
  | bind {α β : Type} {first : Plan α} {next : α → Plan β} {stack : CallStack}
      (hfirst : Composed Asks first stack) (hnext : ∀ a, Composed Asks (next a) stack) :
      Composed Asks (fun evaluate => first evaluate >>= fun a => next a evaluate) stack
  | inScope {α : Type} {body : Plan α} {stack : CallStack} {s : ScopeId}
      (hbody : Composed Asks body stack) :
      Composed Asks (fun evaluate => Run.inScope s (body evaluate)) stack
  | inCall {α : Type} {body : Plan α} {stack : CallStack} {frame : Frame}
      (hbody : stack.isFull = false → Composed Asks body (stack.push frame)) :
      Composed Asks (fun evaluate => Run.inCall frame (body evaluate)) stack

namespace Run.Basic

theorem pure {α : Type} (a : α) : Basic (Pure.pure a : Run α) :=
  .works fun heap _ => (a, heap)

theorem crash {α : Type} (cause : Crash) : Basic (Run.crash cause : Run α) :=
  .fails nofun nofun

theorem refuse {α : Type} (text : String) : Basic (Run.refuse text : Run α) :=
  .fails nofun nofun

theorem withHeap {α : Type} (look : Heap → α) : Basic (Run.withHeap look) :=
  .works fun heap _ => (look heap, heap)

theorem currentScope : Basic Run.currentScope :=
  .works fun heap s => (s, heap)

theorem resolve? (name : String) : Basic (Run.resolve? name) :=
  .works fun heap s => (heap.resolve? s name, heap)

theorem isBoundHere (name : String) : Basic (Run.isBoundHere name) :=
  .works fun heap s => ((heap.ownBinding? s name).isSome, heap)

theorem newScope (parent : Option ScopeId) : Basic (Run.newScope parent) :=
  .works fun heap _ => (heap.nextScope, heap.addScope parent)

theorem newObject (name : String) : Basic (Run.newObject name) :=
  .works fun heap s => ((heap.nextObject, heap.nextScope), heap.addObject name (some s))

theorem define (s : ScopeId) (name : String) (slot : Slot) : Basic (Run.define s name slot) := by
  cases slot with
  | some v => exact .works fun heap _ => ((), heap.put s name (some v))
  | none => exact crash .absentBinding

theorem setField (o : ObjectId) (name : String) (slot : Slot) :
    Basic (Run.setField o name slot) := by
  cases slot with
  | some v => exact .works fun heap _ => ((), heap.setField o name (some v))
  | none => exact crash .absentBinding

theorem present (slot : Slot) : Basic (Run.present slot) := by
  cases slot with
  | some v => exact pure v
  | none => exact crash .absence

theorem rebind (name : String) (slot : Slot) : Basic (Run.rebind name slot) := by
  have hworks : Run.rebind name slot = fun m =>
      .ok (m.heap.owner? m.scope name).isSome
        { m with heap := ((m.heap.owner? m.scope name).map
          fun s => m.heap.put s name slot).getD m.heap } := by
    funext m
    unfold Run.rebind
    cases m.heap.owner? m.scope name <;> rfl
  rw [hworks]
  exact .works fun heap s => ((heap.owner? s name).isSome,
    ((heap.owner? s name).map fun s => heap.put s name slot).getD heap)

theorem setPrototype (o proto : ObjectId) : Basic (Run.setPrototype o proto) := by
  have hworks : Run.setPrototype o proto = fun m =>
      .ok (!m.heap.isInstance proto o)
        { m with heap := if m.heap.isInstance proto o then m.heap
          else m.heap.linkPrototype o (some proto) } := by
    funext m
    unfold Run.setPrototype
    cases m.heap.isInstance proto o <;> rfl
  rw [hworks]
  exact .works fun heap _ => (!heap.isInstance proto o,
    if heap.isInstance proto o then heap else heap.linkPrototype o (some proto))

end Run.Basic

namespace Plan

open Run

section Forms

variable {Asks : CallStack → Request → Prop} {stack : CallStack} {α : Type}

theorem composed_pure (a : α) : Composed Asks (fun _ => pure a) stack :=
  .basic (.pure a)

theorem composed_complain (complaint : Complaint) :
    Composed Asks (fun _ => (complain complaint : Run α)) stack :=
  .basic (.complains complaint)

theorem composed_complain_showing {β : Type} (shown : Heap → β) (complaint : β → Complaint) :
    Composed Asks (fun _ => (do complain (complaint (← withHeap shown)) : Run α)) stack :=
  .bind (.basic (.withHeap shown)) fun _ => composed_complain _

theorem composed_ite {condition : Prop} [Decidable condition] {first second : Plan α}
    (hfirst : Composed Asks first stack) (hsecond : Composed Asks second stack) :
    Composed Asks (fun evaluate => if condition then first evaluate else second evaluate)
      stack := by
  by_cases hcondition : condition
  · simpa only [if_pos hcondition] using hfirst
  · simpa only [if_neg hcondition] using hsecond

/-! ### Sequences -/

theorem composed_args {done : List Slot} {nodes : List Node}
    (hnodes : ∀ node ∈ nodes, Asks stack (.eval node)) :
    Composed Asks (fun evaluate => Eval.args evaluate done nodes) stack := by
  induction nodes generalizing done with
  | nil => exact composed_pure _
  | cons node nodes ih =>
      refine .bind (.ask (hnodes node List.mem_cons_self)) fun slot => ?_
      exact ih fun node hnode => hnodes node (List.mem_cons_of_mem _ hnode)

theorem composed_sequence {last : Slot} {nodes : List Node}
    (hnodes : ∀ node ∈ nodes, Asks stack (.eval node)) :
    Composed Asks (fun evaluate => Eval.sequence evaluate last nodes) stack := by
  induction nodes generalizing last with
  | nil => exact composed_pure _
  | cons node nodes ih =>
      refine .bind (.ask (hnodes node List.mem_cons_self)) fun slot => ?_
      exact ih fun node hnode => hnodes node (List.mem_cons_of_mem _ hnode)

/-! ### Arithmetic -/

theorem composed_numbers (operator : Operator) (index : Nat) (slots : List Slot) :
    Composed Asks (fun _ => operator.numbers index slots) stack := by
  induction slots generalizing index with
  | nil => exact composed_pure _
  | cons slot slots ih =>
      refine .bind (.basic (.present slot)) fun v => ?_
      cases v with
      | number d => exact .bind (ih (index + 1)) fun _ => composed_pure _
      | _ => exact composed_complain_showing _ _

theorem composed_multiply (product : Decimal) (ds : List Decimal) :
    Composed Asks (fun _ => Operator.multiply product ds) stack := by
  induction ds generalizing product with
  | nil => exact composed_pure _
  | cons d ds ih =>
      rw [Operator.multiply]
      split
      · exact ih _
      · exact .basic (.crash _)

theorem composed_divide (precision : Int32) (quotient : Decimal) (ds : List Decimal) :
    Composed Asks (fun _ => Operator.divide precision quotient ds) stack := by
  induction ds generalizing quotient with
  | nil => exact composed_pure _
  | cons d ds ih =>
      refine composed_ite (composed_complain _) ?_
      cases quotient.quotient? d precision with
      | some quotient => exact ih quotient
      | none => exact .basic (.crash _)

theorem composed_calculate (precision : Int32) (operator : Operator) (ds : List Decimal) :
    Composed Asks (fun _ => operator.calculate precision ds) stack := by
  unfold Operator.calculate
  split
  · exact composed_pure _
  · exact composed_complain _
  · exact composed_pure _
  · exact composed_pure _
  · exact composed_multiply _ _
  · exact composed_complain _
  · exact composed_divide _ _ _
  · exact composed_divide _ _ _

theorem composed_apply (precision : Int32) (operator : Operator) (slots : List Slot) :
    Composed Asks (fun _ => operator.apply precision slots) stack := by
  refine .bind (composed_numbers operator 0 slots) fun ds => ?_
  exact .bind (composed_calculate precision operator ds) fun d => composed_pure _

/-! ### Calls -/

theorem composed_follow (script : Script) (hasks : ∀ request, Asks stack request) :
    Composed Asks (fun evaluate => script.follow evaluate) stack := by
  induction script with
  | finish result => exact composed_pure result
  | complain complaint => exact composed_complain complaint
  | refuse text => exact .basic (.refuse text)
  | crash cause => exact .basic (.crash cause)
  | ask request next ih => exact .bind (.ask (hasks request)) ih
  | height next ih => exact .bind (.basic (.looks fun frames => frames.size)) ih
  | top next ih => exact .bind (.basic (.looks fun frames => frames.back?)) ih

theorem composed_bindParams (s : ScopeId) (params : List String) (slots : List Slot) :
    Composed Asks (fun _ => Eval.bindParams s params slots) stack := by
  induction params generalizing slots with
  | nil => exact composed_pure ()
  | cons name params ih =>
      cases slots with
      | nil => exact composed_pure ()
      | cons slot slots => exact .bind (.basic (.define s name slot)) fun _ => ih slots

theorem composed_native (setup : Setup) (body : Native) (slots : List Slot)
    (hasks : ∀ request, Asks stack request) :
    Composed Asks (fun evaluate => Eval.native setup evaluate body slots) stack := by
  cases body with
  | operator operator =>
      exact .bind (composed_apply setup.precision operator slots) fun _ => composed_pure _
  | host key =>
      exact .bind (composed_follow (setup.host key slots) hasks) fun _ => composed_pure _

theorem composed_closure (name : String) (params : List String) (body : Node)
    (scope : Option ScopeId) (slots : List Slot) (hasks : ∀ request, Asks stack request) :
    Composed Asks (fun evaluate => Eval.closure evaluate name params body scope slots) stack := by
  refine composed_ite (composed_complain _) ?_
  refine .bind (.basic (.newScope scope)) fun s => ?_
  refine .bind (composed_bindParams s params slots) fun _ => ?_
  exact .inScope (.ask (hasks (.eval body)))

/-- Inside a call that is made at the stack `stack`, anything may be asked for. -/
def AllowsCalls (Asks : CallStack → Request → Prop) (stack : CallStack) : Prop :=
  stack.isFull = false → ∀ frame request, Asks (stack.push frame) request

theorem composed_call (setup : Setup) (function : Slot) (slots : List Slot) (receiver : String)
    (hcalls : AllowsCalls Asks stack) :
    Composed Asks (fun evaluate => Eval.call setup evaluate function slots receiver) stack := by
  refine .bind (.basic (.present function)) fun v => ?_
  cases v with
  | native name body =>
      exact .inCall fun hroom => composed_native setup body slots (hcalls hroom _)
  | closure name params body scope =>
      exact .inCall fun hroom => composed_closure name params body scope slots (hcalls hroom _)
  | _ => exact composed_complain_showing _ _

theorem composed_application (setup : Setup) (name : String) {nodes : List Node}
    (hnodes : ∀ node ∈ nodes, Asks stack (.eval node)) (hcalls : AllowsCalls Asks stack) :
    Composed Asks (fun evaluate => Eval.application setup evaluate name nodes) stack := by
  refine .bind (.basic (.resolve? name)) fun resolved => ?_
  cases resolved with
  | none => exact composed_complain _
  | some slot =>
      refine .bind (.basic (.present slot)) fun v => ?_
      refine composed_ite ?_ (composed_complain_showing _ _)
      exact .bind (composed_args hnodes) fun slots => composed_call setup slot slots "" hcalls

/-! ### Blocks, definitions and assignments -/

theorem composed_block {nodes : List Node} (hnodes : ∀ node ∈ nodes, Asks stack (.eval node)) :
    Composed Asks (fun evaluate => Eval.block evaluate nodes) stack := by
  refine .bind (.basic .currentScope) fun s => ?_
  exact .bind (.basic (.newScope (some s))) fun _ => .inScope (composed_sequence hnodes)

theorem composed_orComplain (result : Except Complaint α) :
    Composed Asks (fun _ => Eval.orComplain result) stack := by
  cases result with
  | ok a => exact composed_pure a
  | error complaint => exact composed_complain complaint

theorem composed_defineName (name : String) {node : Node} (hnode : Asks stack (.eval node)) :
    Composed Asks (fun evaluate => Eval.defineName evaluate name node) stack := by
  refine .bind (.basic (.isBoundHere name)) fun _ => composed_ite (composed_complain _) ?_
  refine .bind (.ask hnode) fun slot => .bind (.basic .currentScope) fun s => ?_
  exact .bind (.basic (.define s name slot)) fun _ => composed_pure slot

theorem composed_defineFunction (name : String) (params : List Node) (body : Node) :
    Composed Asks (fun _ => Eval.defineFunction name params body) stack := by
  refine .bind (.basic (.isBoundHere name)) fun _ => composed_ite (composed_complain _) ?_
  refine .bind (composed_orComplain _) fun names => .bind (.basic .currentScope) fun s => ?_
  exact .bind (.basic (.define s name _)) fun _ => composed_pure _

-- Which case of a form applies does not depend on how requests are met, so the cases can be told
-- apart with any `evaluate`.
theorem composed_definition {nodes : List Node}
    (hnodes : ∀ node ∈ nodes, Asks stack (.eval node)) :
    Composed Asks (fun evaluate => Eval.definition evaluate nodes) stack := by
  fun_cases Eval.definition (fun _ => tooDeep) nodes with
  | case1 name node => exact composed_defineName name (hnodes node (by simp))
  | case2 params body => exact composed_complain _
  | case3 name params body hname =>
      simp only [Eval.definition, if_neg hname]
      exact composed_defineFunction name params body
  | _ =>
      simp only [Eval.definition]
      exact composed_complain _

theorem composed_assignment {nodes : List Node}
    (hnodes : ∀ node ∈ nodes, Asks stack (.eval node)) :
    Composed Asks (fun evaluate => Eval.assignment evaluate nodes) stack := by
  fun_cases Eval.assignment (fun _ => tooDeep) nodes with
  | case1 name node =>
      refine .bind (.basic (.resolve? name)) fun _ => composed_ite (composed_complain _) ?_
      refine .bind (.ask (hnodes node (by simp))) fun slot => ?_
      refine .bind (.basic (.rebind name slot)) fun _ => ?_
      exact composed_ite (composed_pure slot) (composed_complain _)
  | _ =>
      simp only [Eval.assignment]
      exact composed_complain _

/-! ### Objects -/

theorem composed_prototypeClause (o : ObjectId) {node : Node} (hnode : Asks stack (.eval node)) :
    Composed Asks (fun evaluate => Eval.prototypeClause evaluate o node) stack := by
  refine .bind (.ask hnode) fun slot => .bind (.basic (.present slot)) fun v => ?_
  cases v with
  | object proto =>
      refine .bind (.basic (.setPrototype o proto)) fun _ => ?_
      exact composed_ite (composed_pure ()) (composed_complain_showing _ _)
  | _ => exact composed_complain_showing _ _

theorem composed_fieldClause (name : String) {node : Node} (hnode : Asks stack (.eval node)) :
    Composed Asks (fun evaluate => Eval.fieldClause evaluate name node) stack := by
  refine .bind (.basic (.isBoundHere name)) fun _ => composed_ite (composed_complain _) ?_
  refine .bind (.ask hnode) fun slot => .bind (.basic .currentScope) fun s => ?_
  exact .basic (.define s name slot)

theorem composed_methodClause (head body : Node) :
    Composed Asks (fun _ => Eval.methodClause head body) stack := by
  refine .bind (composed_orComplain _) fun (name, params) => ?_
  refine .bind (.basic (.isBoundHere name)) fun _ => composed_ite (composed_complain _) ?_
  refine .bind (composed_orComplain _) fun names => .bind (.basic .currentScope) fun s => ?_
  exact .basic (.define s name _)

theorem composed_clause (o : ObjectId) {node : Node}
    (hparts : ∀ name parts, node = .call name parts → ∀ part ∈ parts, Asks stack (.eval part)) :
    Composed Asks (fun evaluate => Eval.clause evaluate o node) stack := by
  fun_cases Eval.clause (fun _ => tooDeep) o node with
  | case1 head body => exact composed_methodClause head body
  | case3 part => exact composed_prototypeClause o (hparts _ _ rfl part (by simp))
  | case4 name part =>
      simp only [Eval.clause]
      exact composed_fieldClause name (hparts _ _ rfl part (by simp))
  | _ =>
      simp only [Eval.clause]
      exact composed_complain _

theorem composed_clauses (o : ObjectId) {nodes : List Node}
    (hparts : ∀ name parts, .call name parts ∈ nodes → ∀ part ∈ parts, Asks stack (.eval part)) :
    Composed Asks (fun evaluate => Eval.clauses evaluate o nodes) stack := by
  induction nodes with
  | nil => exact composed_pure ()
  | cons node nodes ih =>
      refine .bind (composed_clause o ?_) fun _ => ih ?_
      · rintro name parts rfl
        exact hparts name parts List.mem_cons_self
      · intro name parts hmem
        exact hparts name parts (List.mem_cons_of_mem _ hmem)

theorem composed_construct (name : String) {nodes : List Node}
    (hparts : ∀ name parts, .call name parts ∈ nodes → ∀ part ∈ parts, Asks stack (.eval part)) :
    Composed Asks (fun evaluate => Eval.construct evaluate name nodes) stack := by
  refine .bind (.basic (.newObject name)) fun (o, s) => .inScope ?_
  exact .bind (composed_clauses o hparts) fun _ => composed_pure _

theorem composed_construction {nodes : List Node}
    (hparts : ∀ name parts, .call name parts ∈ nodes → ∀ part ∈ parts, Asks stack (.eval part)) :
    Composed Asks (fun evaluate => Eval.construction evaluate nodes) stack := by
  fun_cases Eval.construction (fun _ => tooDeep) nodes with
  | case1 name nodes =>
      exact composed_construct name fun name parts hmem =>
        hparts name parts (List.mem_cons_of_mem _ hmem)
  | case2 =>
      simp only [Eval.construction]
      exact composed_construct "" hparts

/-! ### Selectors -/

theorem composed_objectArgument (selector : String) (slots : List Slot) :
    Composed Asks (fun _ => Eval.objectArgument selector slots) stack := by
  unfold Eval.objectArgument
  split
  · refine .bind (.basic (.present _)) fun v => ?_
    cases v with
    | object o => exact composed_pure o
    | _ => exact composed_complain_showing _ _
  · exact composed_complain _

theorem composed_sendPrototype (o : ObjectId) (slots : List Slot) :
    Composed Asks (fun _ => Eval.sendPrototype o slots) stack :=
  composed_ite (composed_complain _) (.bind (.basic (.withHeap _)) fun _ => composed_pure _)

theorem composed_sendSetPrototype (o : ObjectId) (slots : List Slot) :
    Composed Asks (fun _ => Eval.sendSetPrototype o slots) stack := by
  refine .bind (composed_objectArgument ".prototype=" slots) fun proto => ?_
  refine .bind (.basic (.setPrototype o proto)) fun _ => ?_
  exact composed_ite (composed_pure _) (composed_complain_showing _ _)

theorem composed_sendInstance (o : ObjectId) (slots : List Slot) :
    Composed Asks (fun _ => Eval.sendInstance o slots) stack := by
  refine .bind (composed_objectArgument ".instance?" slots) fun candidate => ?_
  exact .bind (.basic (.withHeap _)) fun _ => composed_pure _

theorem composed_sendSet (o : ObjectId) (selector field : String) (slots : List Slot) :
    Composed Asks (fun _ => Eval.sendSet o selector field slots) stack := by
  unfold Eval.sendSet
  split
  · exact .bind (.basic (.setField o field _)) fun _ => composed_pure _
  · exact composed_complain _

theorem composed_sendGet (setup : Setup) (o : ObjectId) (selector : String) (slots : List Slot)
    (hcalls : AllowsCalls Asks stack) :
    Composed Asks (fun evaluate => Eval.sendGet setup evaluate o selector slots) stack := by
  refine .bind (.basic (.withHeap _)) fun found => ?_
  cases found with
  | none => exact composed_complain_showing _ _
  | some slot =>
      refine .bind (.basic (.present slot)) fun v => composed_ite ?_ ?_
      · exact .bind (.basic (.withHeap _)) fun receiver =>
          composed_call setup slot slots receiver hcalls
      · exact composed_ite (composed_complain_showing _ _) (composed_pure slot)

theorem composed_send (setup : Setup) (o : ObjectId) (selector : String) (slots : List Slot)
    (hcalls : AllowsCalls Asks stack) :
    Composed Asks (fun evaluate => Eval.send setup evaluate o selector slots) stack := by
  refine composed_ite (composed_sendPrototype o slots) ?_
  refine composed_ite (composed_sendSetPrototype o slots) ?_
  refine composed_ite (composed_sendInstance o slots) ?_
  refine composed_ite (composed_complain _) ?_
  cases Eval.setterField? (Heap.stripDot selector) with
  | some field => exact composed_sendSet o selector field slots
  | none => exact composed_sendGet setup o selector slots hcalls

theorem composed_selection (setup : Setup) (selector : String) {nodes : List Node}
    (hnodes : ∀ node ∈ nodes, Asks stack (.eval node)) (hcalls : AllowsCalls Asks stack) :
    Composed Asks (fun evaluate => Eval.selection setup evaluate selector nodes) stack := by
  cases nodes with
  | nil => exact composed_complain _
  | cons target nodes =>
      refine .bind (.ask (hnodes target List.mem_cons_self)) fun slot => ?_
      refine .bind (.basic (.present slot)) fun v => ?_
      cases v with
      | object o =>
          refine .bind (composed_args fun node hnode => hnodes node (List.mem_cons_of_mem _ hnode))
            fun slots => ?_
          exact composed_send setup o selector slots hcalls
      | _ => exact composed_complain_showing _ _

/-! ### Expressions -/

theorem composed_form (setup : Setup) (name : String) {nodes : List Node}
    (hnodes : ∀ node ∈ nodes, Asks stack (.eval node))
    (hparts : ∀ name parts, .call name parts ∈ nodes → ∀ part ∈ parts, Asks stack (.eval part))
    (hcalls : AllowsCalls Asks stack) :
    Composed Asks (fun evaluate => Eval.form setup evaluate name nodes) stack := by
  refine composed_ite (composed_block hnodes) ?_
  refine composed_ite (composed_definition hnodes) ?_
  refine composed_ite (composed_assignment hnodes) ?_
  refine composed_ite (composed_construction hparts) ?_
  exact composed_ite (composed_selection setup name hnodes hcalls)
    (composed_application setup name hnodes hcalls)

end Forms

end Plan

/-! ## Requests -/

noncomputable def Request.weight : Request → Nat
  | .eval node => sizeOf node
  | .call _ _ _ => 0
  | .send _ _ _ => 0

/-- While the request is met at the stack `stack`, the request `other` may be made at `above`:
it is for a smaller expression at the same stack, or it is made inside a call. -/
def Request.LeadsTo (request : Request) (stack above : CallStack) (other : Request) : Prop :=
  above = stack ∧ other.weight < request.weight ∨
    stack.isFull = false ∧ ∃ frame, above = stack.push frame

theorem Request.weight_lt_of_mem {name : String} {nodes : List Node} {node : Node}
    (hnode : node ∈ nodes) :
    (Request.eval node).weight < (Request.eval (.call name nodes)).weight := by
  have hsize := List.sizeOf_lt_of_mem hnode
  simp only [weight, Node.call.sizeOf_spec]
  omega

namespace Plan

theorem composed_expression (setup : Setup) (node : Node) (stack : CallStack) :
    Composed ((Request.eval node).LeadsTo stack)
      (fun evaluate => Eval.expression setup evaluate node) stack := by
  cases node with
  | number d => exact composed_pure _
  | atom name => exact composed_pure _
  | «variable» name =>
      refine .bind (.basic (.resolve? name)) fun resolved => ?_
      cases resolved with
      | some slot => exact composed_pure slot
      | none => exact composed_complain _
  | call name nodes =>
      refine composed_form setup name ?_ ?_ ?_
      · intro node hnode
        exact .inl ⟨rfl, Request.weight_lt_of_mem hnode⟩
      · intro _ parts hparts part hpart
        refine .inl ⟨rfl, ?_⟩
        exact Nat.lt_trans (Request.weight_lt_of_mem hpart) (Request.weight_lt_of_mem hparts)
      · intro hroom frame request
        exact .inr ⟨hroom, frame, rfl⟩
  | absent => exact composed_complain _
  | extension kind text => exact composed_complain _

theorem composed_step (setup : Setup) (request : Request) (stack : CallStack) :
    Composed (request.LeadsTo stack) (fun evaluate => Eval.step setup evaluate request) stack := by
  have hcalls : AllowsCalls (request.LeadsTo stack) stack :=
    fun hroom frame _ => .inr ⟨hroom, frame, rfl⟩
  cases request with
  | eval node => exact composed_expression setup node stack
  | call function args receiver => exact composed_call setup function args receiver hcalls
  | send target selector args => exact composed_send setup target selector args hcalls

end Plan

/-! ## Calls are put back -/

/-- The machine that a step leaves behind, however it ends. -/
def Run.after {α : Type} (step : Run α) (m : Machine) : Machine :=
  match step m with
  | .ok _ after => after
  | .error _ after => after

theorem Run.after_of_ok {α : Type} {step : Run α} {m after : Machine} {a : α}
    (hok : step m = .ok a after) : step.after m = after := by
  rw [Run.after, hok]

theorem Run.after_of_error {α : Type} {step : Run α} {m after : Machine} {failure : Failure}
    (herror : step m = .error failure after) : step.after m = after := by
  rw [Run.after, herror]

theorem Run.bind_of_ok {α β : Type} {step : Run α} {m middle : Machine} {a : α}
    (hok : step m = .ok a middle) (next : α → Run β) : (step >>= next) m = next a middle := by
  show EStateM.bind step next m = _
  rw [EStateM.bind, hok]

theorem Run.bind_of_error {α β : Type} {step : Run α} {m after : Machine} {failure : Failure}
    (herror : step m = .error failure after) (next : α → Run β) :
    (step >>= next) m = .error failure after := by
  show EStateM.bind step next m = _
  rw [EStateM.bind, herror]

theorem Run.inCall_of_room {α : Type} {m : Machine} (hroom : m.stack.isFull = false)
    (frame : Frame) (body : Run α) :
    Run.inCall frame body m = Run.leaveCall (body { m with stack := m.stack.push frame }) := by
  simp only [Run.inCall, hroom, Bool.false_eq_true, if_false]

theorem Run.inCall_of_full {α : Type} {m : Machine} (hfull : m.stack.isFull = true)
    (frame : Frame) (body : Run α) :
    Run.inCall frame body m = Run.complain (.stackExhausted m.stack.maxHeight) m := by
  simp only [Run.inCall, hfull, if_true]

theorem Run.stack_after_inScope {α : Type} (s : ScopeId) (body : Run α) (m : Machine) :
    ((Run.inScope s body).after m).stack = (body.after { m with scope := s }).stack := by
  simp only [Run.after, Run.inScope]
  cases body { m with scope := s } <;> rfl

/-- A body that puts the active calls back leaves its own frame to be taken away. -/
theorem Run.stack_after_inCall {α : Type} {frame : Frame} {body : Run α} {m : Machine}
    (hbody : m.stack.isFull = false →
      (body.after { m with stack := m.stack.push frame }).stack = m.stack.push frame) :
    ((Run.inCall frame body).after m).stack = m.stack := by
  cases hfull : m.stack.isFull with
  | true => rw [Run.after_of_error (Run.inCall_of_full hfull frame body)]
  | false =>
      have hstack := hbody hfull
      have hheight : (m.stack.push frame).height ≠ 0 := by
        simp [CallStack.height, CallStack.push]
      simp only [Run.after, Run.inCall_of_room hfull] at hstack ⊢
      cases hrun : body { m with stack := m.stack.push frame } with
      | ok a after =>
          simp only [hrun] at hstack
          simp only [Run.leaveCall, hstack, hheight, if_false, CallStack.pop_push]
      | error failure after =>
          simp only [hrun] at hstack
          simp only [Run.leaveCall, hstack, hheight, if_false, CallStack.pop_push]

namespace Plan

/-- A plan puts the active calls back if the requests that it makes do. -/
theorem Composed.stack_after {Asks : CallStack → Request → Prop} {α : Type} {plan : Plan α}
    {stack : CallStack} (hplan : plan.Composed Asks stack) {evaluate : Request → Run Slot}
    (hevaluate : ∀ request m, ((evaluate request).after m).stack = m.stack) {m : Machine}
    (hstack : m.stack = stack) : ((plan evaluate).after m).stack = m.stack := by
  induction hplan generalizing m with
  | basic hbasic => cases hbasic <;> rfl
  | ask _ => exact hevaluate _ m
  | @bind _ _ first next _ _ _ ihfirst ihnext =>
      have hfirst := ihfirst hstack
      cases hrun : first evaluate m with
      | ok a middle =>
          rw [Run.after_of_ok hrun] at hfirst
          rw [← hfirst, ← ihnext a (hfirst.trans hstack)]
          simp only [Run.after, Run.bind_of_ok hrun]
      | error failure after =>
          rw [Run.after_of_error hrun] at hfirst
          rw [Run.after_of_error (Run.bind_of_error hrun _), hfirst]
  | @inScope _ body _ s _ ih =>
      rw [Run.stack_after_inScope]
      exact ih (m := { m with scope := s }) hstack
  | @inCall _ body _ frame _ ih =>
      refine Run.stack_after_inCall fun hroom => ?_
      exact ih (hstack ▸ hroom) (m := { m with stack := m.stack.push frame })
        (congrArg (CallStack.push · frame) hstack)

theorem stack_after_run (setup : Setup) (depth : Nat) (request : Request) (m : Machine) :
    ((Eval.run setup depth request).after m).stack = m.stack := by
  induction depth generalizing request m with
  | zero => rfl
  | succ depth ih => exact (composed_step setup request m.stack).stack_after ih rfl

end Plan

/-! ## Operations -/

/-- What an interpreter does to carry out an operation; `reads` says whether it can load texts. -/
def Operation.plan (reads : Bool) : Operation → Plan Slot
  | .eval node => fun evaluate => evaluate (.eval node)
  | .evalIn s node => fun evaluate => Run.inScope s (evaluate (.eval node))
  | .call function args => fun evaluate => evaluate (.call function args "")
  | .send target selector args => fun evaluate => evaluate (.send target selector args)
  | .load source =>
    if reads then
      match readProgram source with
      | .error error => fun _ m => .error (.read error) m
      | .ok nodes => fun evaluate => Eval.sequence evaluate (some .null) nodes
    else fun _ => Run.refuse "no reader configured"

theorem Interpreter.operate_eq_perform (interpreter : Interpreter) (depth : Nat)
    (operation : Operation) :
    interpreter.operate depth operation =
      interpreter.perform
        (operation.plan interpreter.reads (Eval.run interpreter.setup depth)) := by
  cases operation with
  | load source =>
      show interpreter.load depth source = _
      unfold Interpreter.load
      simp only [Operation.plan]
      split
      · cases readProgram source <;> rfl
      · rfl
  | _ => rfl

theorem Operation.composed_plan {Asks : CallStack → Request → Prop} {stack : CallStack}
    (hasks : ∀ request, Asks stack request) (reads : Bool) (operation : Operation) :
    (operation.plan reads).Composed Asks stack := by
  cases operation with
  | eval node => exact .ask (hasks _)
  | evalIn s node => exact .inScope (.ask (hasks _))
  | call function args => exact .ask (hasks _)
  | send target selector args => exact .ask (hasks _)
  | load source =>
      simp only [Operation.plan]
      split
      · cases readProgram source with
        | error error => exact .basic (.fails nofun nofun)
        | ok nodes => exact Plan.composed_sequence fun node _ => hasks _
      · exact .basic (.refuse _)

end ProtoLisp
