import Mathlib.Logic.Relation
import ProtoLisp.Proofs.Plans

/-!
# The course of an evaluation

A task is a request together with the machine that it is put to.  To do a task, parts of it are done
one after the other: the arguments of a list and then the call, the clauses of an object in turn, the
body of a closure, whatever a native function asks for.  `Task.Part` says which parts those are and
which machine each of them finds; there is no part behind one that fails.

A task that is within a lawful discipline has only such parts.
-/

namespace ProtoLisp

/-- A request that is put to a machine, to be met at most `depth` levels deep. -/
structure Task where
  depth : Nat
  request : Request
  machine : Machine

def Task.outcome (setup : Setup) (task : Task) : EStateM.Result Failure Machine Slot :=
  Eval.run setup task.depth task.request task.machine

/-- The script comes to ask for `request`, of the machine `found`. -/
inductive Script.Asks (evaluate : Request → Run Slot) :
    Script → Machine → Request → Machine → Prop where
  | now {request : Request} {next : Slot → Script} {m : Machine} :
    Asks evaluate (.ask request next) m request m
  | later {request other : Request} {next : Slot → Script} {m middle found : Machine}
    {answer : Slot} : evaluate other m = .ok answer middle →
    Asks evaluate (next answer) middle request found →
    Asks evaluate (.ask other next) m request found
  | height {request : Request} {next : Nat → Script} {m found : Machine} :
    Asks evaluate (next m.stack.height) m request found →
    Asks evaluate (.height next) m request found
  | top {request : Request} {next : Option Frame → Script} {m found : Machine} :
    Asks evaluate (next m.stack.top?) m request found → Asks evaluate (.top next) m request found

namespace Eval

/-- The name of a list that calls a function. -/
def Applies (name : String) : Prop :=
  name ≠ "do" ∧ name ≠ "def" ∧ name ≠ "set!" ∧ name ≠ "object" ∧ Node.isSelector name = false

/-- The display name and the clauses of `(object ...)`. -/
def objectParts : List Node → String × List Node
  | .variable name :: nodes => (name, nodes)
  | nodes => ("", nodes)

theorem construction_eq (evaluate : Request → Run Slot) (nodes : List Node) :
    construction evaluate nodes =
      construct evaluate (objectParts nodes).1 (objectParts nodes).2 := by
  cases nodes with
  | nil => rfl
  | cons node nodes => cases node <;> rfl

/-- The selector reads an attribute. -/
def ReadsAttribute (selector : String) : Prop :=
  selector ≠ ".prototype" ∧ selector ≠ ".prototype=" ∧ selector ≠ ".instance?" ∧
    Heap.stripDot selector ≠ "" ∧ Heap.stripDot selector ≠ "=" ∧
    setterField? (Heap.stripDot selector) = none

end Eval

namespace Machine

/-- The machine in a new block. -/
def inBlock (m : Machine) : Machine :=
  { m with heap := m.heap.addScope (some m.scope), scope := m.heap.nextScope }

/-- The machine in a new object. -/
def inObject (m : Machine) (name : String) : Machine :=
  { m with heap := m.heap.addObject name (some m.scope), scope := m.heap.nextScope }

/-- The machine in a new call. -/
def inCall (m : Machine) (frame : Frame) : Machine := { m with stack := m.stack.push frame }

/-- The machine in a new call of a closure, which has a scope of its own. -/
def inClosure (m : Machine) (frame : Frame) (scope : Option ScopeId) : Machine :=
  { m.inCall frame with heap := m.heap.addScope scope }

end Machine

theorem Run.heap_after_inScope {α : Type} (s : ScopeId) (body : Run α) (m : Machine) :
    ((Run.inScope s body).after m).heap = (body.after { m with scope := s }).heap := by
  simp only [Run.after, Run.inScope]
  cases body { m with scope := s } <;> rfl

theorem Run.heap_after_inCall {α : Type} {m : Machine} {frame : Frame} (body : Run α)
    (hroom : m.stack.isFull = false) :
    ((Run.inCall frame body).after m).heap = (body.after (m.inCall frame)).heap := by
  have hinside : Run.inCall frame body m = Run.leaveCall (body (m.inCall frame)) :=
    Run.inCall_of_room hroom frame body
  simp only [Run.after, hinside]
  cases body (m.inCall frame) with
  | ok a after =>
      by_cases hempty : after.stack.height = 0
      · simp only [Run.leaveCall, if_pos hempty]
      · simp only [Run.leaveCall, if_neg hempty]
  | error failure after =>
      by_cases hempty : after.stack.height = 0
      · simp only [Run.leaveCall, if_pos hempty]
      · simp only [Run.leaveCall, if_neg hempty]

/-- To do the first task, the second is done. -/
inductive Task.Part (setup : Setup) : Task → Task → Prop where
  | argument {depth : Nat} {name : String} {front rest : List Node} {node : Node} {v : Value}
    {done : List Slot} {m found : Machine} (happlies : Eval.Applies name)
    (hresolve : m.heap.resolve? m.scope name = some (some v)) (hfunction : v.type = .function)
    (hdone : Eval.args (Eval.run setup depth) [] front m = .ok done found) :
    Part setup ⟨depth + 1, .eval (.call name (front ++ node :: rest)), m⟩ ⟨depth, .eval node, found⟩
  | application {depth : Nat} {name : String} {nodes : List Node} {v : Value} {slots : List Slot}
    {m found : Machine} (happlies : Eval.Applies name)
    (hresolve : m.heap.resolve? m.scope name = some (some v)) (hfunction : v.type = .function)
    (hdone : Eval.args (Eval.run setup depth) [] nodes m = .ok slots found) :
    Part setup ⟨depth + 1, .eval (.call name nodes), m⟩ ⟨depth + 1, .call (some v) slots "", found⟩
  | block {depth : Nat} {front rest : List Node} {node : Node} {last : Slot} {m found : Machine}
    (hdone : Eval.sequence (Eval.run setup depth) (some .null) front m.inBlock = .ok last found) :
    Part setup ⟨depth + 1, .eval (.call "do" (front ++ node :: rest)), m⟩ ⟨depth, .eval node, found⟩
  | definition {depth : Nat} {name : String} {node : Node} {m : Machine}
    (hnew : m.heap.ownBinding? m.scope name = none) :
    Part setup ⟨depth + 1, .eval (.call "def" [.variable name, node]), m⟩ ⟨depth, .eval node, m⟩
  | assignment {depth : Nat} {name : String} {node : Node} {m : Machine}
    (hbound : m.heap.resolve? m.scope name ≠ none) :
    Part setup ⟨depth + 1, .eval (.call "set!" [.variable name, node]), m⟩ ⟨depth, .eval node, m⟩
  | clause {depth : Nat} {name field : String} {nodes front rest : List Node} {node : Node}
    {m found : Machine} (hparts : Eval.objectParts nodes = (name, front ++ .call field [node] :: rest))
    (hdone : Eval.clauses (Eval.run setup depth) m.heap.nextObject front (m.inObject name) =
      .ok () found)
    (hfield : field ≠ "")
    (hnew : field = "prototype" ∨ found.heap.ownBinding? found.scope field = none) :
    Part setup ⟨depth + 1, .eval (.call "object" nodes), m⟩ ⟨depth, .eval node, found⟩
  | target {depth : Nat} {selector : String} {target : Node} {nodes : List Node} {m : Machine}
    (hselector : Node.isSelector selector = true) :
    Part setup ⟨depth + 1, .eval (.call selector (target :: nodes)), m⟩ ⟨depth, .eval target, m⟩
  | operand {depth : Nat} {selector : String} {target node : Node} {front rest : List Node}
    {o : ObjectId} {done : List Slot} {m middle found : Machine}
    (hselector : Node.isSelector selector = true)
    (htarget : Eval.run setup depth (.eval target) m = .ok (some (.object o)) middle)
    (hdone : Eval.args (Eval.run setup depth) [] front middle = .ok done found) :
    Part setup ⟨depth + 1, .eval (.call selector (target :: (front ++ node :: rest))), m⟩
      ⟨depth, .eval node, found⟩
  | dispatch {depth : Nat} {selector : String} {target : Node} {nodes : List Node} {o : ObjectId}
    {slots : List Slot} {m middle found : Machine} (hselector : Node.isSelector selector = true)
    (htarget : Eval.run setup depth (.eval target) m = .ok (some (.object o)) middle)
    (hdone : Eval.args (Eval.run setup depth) [] nodes middle = .ok slots found) :
    Part setup ⟨depth + 1, .eval (.call selector (target :: nodes)), m⟩
      ⟨depth + 1, .send o selector slots, found⟩
  | method {depth : Nat} {o : ObjectId} {selector : String} {args : List Slot} {v : Value}
    {m : Machine} (hreads : Eval.ReadsAttribute selector)
    (hattribute : m.heap.attribute? o selector = some (some v)) (hfunction : v.type = .function) :
    Part setup ⟨depth + 1, .send o selector args, m⟩
      ⟨depth + 1, .call (some v) args (m.heap.objectName o), m⟩
  | body {depth : Nat} {name receiver : String} {params : List String} {body : Node}
    {scope : Option ScopeId} {args : List Slot} {m bound : Machine}
    (hroom : m.stack.isFull = false) (harity : args.length = params.length)
    (hbound : Eval.bindParams m.heap.nextScope params args (m.inClosure ⟨name, receiver⟩ scope) =
      .ok () bound) :
    Part setup ⟨depth + 1, .call (some (.closure name params body scope)) args receiver, m⟩
      ⟨depth, .eval body, { bound with scope := m.heap.nextScope }⟩
  | native {depth : Nat} {name key receiver : String} {args : List Slot} {request : Request}
    {m found : Machine} (hroom : m.stack.isFull = false)
    (hasks : (setup.host key args).Asks (Eval.run setup depth) (m.inCall ⟨name, receiver⟩) request
      found) :
    Part setup ⟨depth + 1, .call (some (.native name (.host key))) args receiver, m⟩
      ⟨depth, request, found⟩

/-- All that is done in the course of a task, the task itself included. -/
def Task.Course (setup : Setup) : Task → Task → Prop := Relation.ReflTransGen (Task.Part setup)

/-! ## Parts are within the discipline -/

namespace Discipline

variable {D : Discipline} {setup : Setup}

def Permits (D : Discipline) (task : Task) : Prop :=
  D.Sound task.machine.heap ∧ D.Ready task.machine task.request

theorem Leaves.permits_eval (hD : D.Lawful setup) {m found : Machine} (hleaves : D.Leaves m found)
    (henters : D.Enters m.heap m.scope) {node : Node} (hreads : D.Reads node) (depth : Nat) :
    D.Permits ⟨depth, .eval node, found⟩ :=
  ⟨hleaves.sound, hreads, hleaves.enters hD henters⟩

theorem permits_asked {evaluate : Request → Run Slot}
    (hserves : D.Serves evaluate) {script : Script} {m found : Machine} {request : Request}
    (hasks : script.Asks evaluate m request found) (hsound : D.Sound m.heap)
    (hobeys : D.Obeys script m) (depth : Nat) : D.Permits ⟨depth, request, found⟩ := by
  induction hasks with
  | now => exact ⟨hsound, hobeys.1⟩
  | later hok _ ih =>
      have hleaves := (hserves _ _ hobeys.1).of_ok hsound hok
      exact ih hleaves.1.sound (hobeys.2 _ _ hleaves.1 hleaves.2)
  | height _ ih => exact ih hsound hobeys
  | top _ ih => exact ih hsound hobeys

theorem reads_of_mem_objectParts (hD : D.Lawful setup) {name : String} {nodes : List Node}
    (hreads : D.Reads (.call name nodes)) : ∀ node ∈ (Eval.objectParts nodes).2, D.Reads node := by
  intro node hnode
  apply hD.reads_arg hreads
  unfold Eval.objectParts at hnode
  split at hnode
  · exact List.mem_cons_of_mem _ hnode
  · exact hnode

theorem leaves_of_args (hD : D.Lawful setup) {depth : Nat} {nodes : List Node} {slots : List Slot}
    {m found : Machine} (hdone : Eval.args (Eval.run setup depth) [] nodes m = .ok slots found)
    (hsound : D.Sound m.heap) (henters : D.Enters m.heap m.scope)
    (hreads : ∀ node ∈ nodes, D.Reads node) :
    D.Leaves m found ∧ ∀ slot ∈ slots, D.Admits found.heap slot := by
  have hkeeps := keeps_args hD (serves_run hD depth) hreads henters fun slot hslot =>
    (List.not_mem_nil hslot).elim
  exact hkeeps.of_ok hsound hdone

/-- Whatever is done as a part of a task that a lawful discipline permits, it permits as well. -/
theorem permits_part (hD : D.Lawful setup) {task part : Task} (hpart : Task.Part setup task part)
    (hpermits : D.Permits task) : D.Permits part := by
  obtain ⟨hsound, hready⟩ := hpermits
  cases hpart with
  | @argument depth name front rest node v done m found _ _ _ hdone =>
      obtain ⟨hreads, henters⟩ := hready
      have hparts : ∀ part ∈ front ++ node :: rest, D.Reads part :=
        fun part hmem => hD.reads_arg hreads hmem
      have hleaves := (leaves_of_args hD hdone hsound henters
        fun part hmem => hparts part (List.mem_append_left _ hmem)).1
      exact hleaves.permits_eval hD henters (hparts node (by simp)) depth
  | @application depth name nodes v slots m found _ hresolve _ hdone =>
      obtain ⟨hreads, henters⟩ := hready
      have hfunction := hD.admits_resolved hsound henters hresolve
      obtain ⟨hleaves, hslots⟩ := leaves_of_args hD hdone hsound henters
        fun part hmem => hD.reads_arg hreads hmem
      exact ⟨hleaves.sound, hD.admits_mono hleaves.grows hfunction, hslots⟩
  | @block depth front rest node last m found hdone =>
      obtain ⟨hreads, henters⟩ := hready
      have hopens := hD.opens_block hsound henters
      have hparts : ∀ part ∈ front ++ node :: rest, D.Reads part :=
        fun part hmem => hD.reads_arg hreads hmem
      have hnull : D.Admits m.inBlock.heap (some .null) := hD.admits_primitive rfl
      have hkeeps := keeps_sequence hD (serves_run hD depth) (m := m.inBlock)
        (fun part hmem => hparts part (List.mem_append_left _ hmem)) hopens.enters hnull
      have hleaves := (hkeeps.of_ok hopens.sound hdone).1
      exact hleaves.permits_eval hD hopens.enters (hparts node (by simp)) depth
  | definition _ => exact ⟨hsound, hD.reads_arg hready.1 (by simp), hready.2⟩
  | assignment _ => exact ⟨hsound, hD.reads_arg hready.1 (by simp), hready.2⟩
  | @clause depth name field nodes front rest node m found hparts hdone _ _ =>
      obtain ⟨hreads, henters⟩ := hready
      obtain ⟨hopens, hobject⟩ :
          D.Opens m.heap (m.inObject name).heap m.heap.nextScope ∧
            D.Admits (m.inObject name).heap (some (.object m.heap.nextObject)) :=
        hD.opens_object hsound henters
      have hclauses := reads_of_mem_objectParts hD hreads
      rw [hparts] at hclauses
      have hkeeps := keeps_clauses hD (serves_run hD depth) (m := m.inObject name)
        (fun part hmem => hclauses part (List.mem_append_left _ hmem)) hopens.enters
        (links_of_admits hD hobject)
      have hleaves := (hkeeps.of_ok hopens.sound hdone).1
      have hnode : D.Reads node := hD.reads_arg (hclauses (.call field [node]) (by simp)) (by simp)
      exact hleaves.permits_eval hD hopens.enters hnode depth
  | target _ => exact ⟨hsound, hD.reads_arg hready.1 (by simp), hready.2⟩
  | @operand depth selector target node front rest o done m middle found _ htarget hdone =>
      obtain ⟨hreads, henters⟩ := hready
      have hparts : ∀ part ∈ target :: (front ++ node :: rest), D.Reads part :=
        fun part hmem => hD.reads_arg hreads hmem
      have hfirst := ((keeps_eval (serves_run hD depth) (hparts target (by simp)) henters).of_ok
        hsound htarget).1
      have henters' := hfirst.enters hD henters
      have hleaves := (leaves_of_args hD hdone hfirst.sound henters'
        fun part hmem => hparts part (by simp [hmem])).1
      exact hleaves.permits_eval hD henters' (hparts node (by simp)) depth
  | @dispatch depth selector target nodes o slots m middle found _ htarget hdone =>
      obtain ⟨hreads, henters⟩ := hready
      have hparts : ∀ part ∈ target :: nodes, D.Reads part :=
        fun part hmem => hD.reads_arg hreads hmem
      obtain ⟨hfirst, hobject⟩ :=
        (keeps_eval (serves_run hD depth) (hparts target (by simp)) henters).of_ok hsound htarget
      obtain ⟨hleaves, hslots⟩ := leaves_of_args hD hdone hfirst.sound (hfirst.enters hD henters)
        fun part hmem => hparts part (List.mem_cons_of_mem _ hmem)
      exact ⟨hleaves.sound, hD.admits_mono hleaves.grows hobject, hslots⟩
  | method _ hattribute _ =>
      exact ⟨hsound, hD.admits_attribute hsound hready.1 hattribute, hready.2⟩
  | @body depth name receiver params body scope args m bound _ _ hbound =>
      obtain ⟨hclosure, hargs⟩ := hready
      have hopens := hD.opens_closure hsound hclosure
      have hargs' : ∀ arg ∈ args, D.Admits (m.heap.addScope scope) arg :=
        fun arg harg => hD.admits_mono hopens.grows (hargs arg harg)
      have hkeeps := keeps_bindParams hD (m := m.inClosure ⟨name, receiver⟩ scope) params
        hopens.enters hargs'
      have hleaves := (hkeeps.of_ok hopens.sound hbound).1
      exact ⟨hleaves.sound, hD.reads_body hclosure, hD.enters_mono hleaves.grows hopens.enters⟩
  | @native depth name key receiver args request m found _ hasks =>
      obtain ⟨hfunction, hargs⟩ := hready
      exact permits_asked (serves_run hD depth) hasks hsound
        (hD.obeys_host (m := m.inCall ⟨name, receiver⟩) hsound hfunction hargs) depth

theorem permits_course (hD : D.Lawful setup) {task part : Task}
    (hcourse : Task.Course setup task part) (hpermits : D.Permits task) : D.Permits part := by
  induction hcourse with
  | refl => exact hpermits
  | tail _ hpart ih => exact permits_part hD hpart ih

end Discipline

end ProtoLisp
