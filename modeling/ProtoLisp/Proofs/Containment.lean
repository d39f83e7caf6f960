import ProtoLisp.Proofs.Acts
import ProtoLisp.Proofs.Encapsulation
import ProtoLisp.Proofs.OwnScopes
import ProtoLisp.Proofs.PartOutcomes

/-!
# Definitions stay inside

A definition binds a name in the current scope, and blocks and calls have scopes of their own.  So a
block, a call or a dispatch adds no name to a scope that was there before, unless it is the own
scope of an object to which a selector is dispatched in its course that sets a field of that name.

The only other way in is a function of the host that has an expression evaluated in the scope from
which it is called.
-/

namespace ProtoLisp

/-! ## Bound names -/

theorem Bindings.mem_names_put {bindings : Bindings} {name other : String} {slot : Slot}
    (hmem : name ∈ (bindings.put other slot).names) : name ∈ bindings.names ∨ name = other := by
  induction bindings with
  | nil => exact .inr (List.mem_singleton.mp hmem)
  | cons binding bindings ih =>
      obtain ⟨first, old⟩ := binding
      by_cases hfirst : first = other
      · rw [put, if_pos hfirst] at hmem
        exact .inl hmem
      · rw [put, if_neg hfirst] at hmem
        rcases List.mem_cons.mp hmem with heq | hrest
        · exact .inl (List.mem_cons.mpr (.inl heq))
        · exact (ih hrest).imp_left fun hold => List.mem_cons_of_mem _ hold

namespace Heap

def Binds (heap : Heap) (s : ScopeId) (name : String) : Prop := name ∈ (heap.bindings s).names

instance (heap : Heap) (s : ScopeId) (name : String) : Decidable (heap.Binds s name) :=
  inferInstanceAs (Decidable (name ∈ (heap.bindings s).names))

variable {heap : Heap} {s t : ScopeId} {name other : String} {slot : Slot}

theorem binds_put (hbinds : (heap.put s other slot).Binds t name) :
    heap.Binds t name ∨ s = t ∧ name = other := by
  unfold Binds bindings at *
  by_cases hst : s = t
  · rw [put, Array.getElem?_modify, if_pos hst] at hbinds
    cases hscope : heap.scopes[t]? with
    | none =>
        rw [hscope] at hbinds
        cases hbinds
    | some scope =>
        rw [hscope] at hbinds
        exact (Bindings.mem_names_put hbinds).imp_right fun hname => ⟨hst, hname⟩
  · rw [getElem?_scopes_put hst] at hbinds
    exact .inl hbinds

theorem binds_of_isSome (hown : (heap.ownBinding? s name).isSome = true) : heap.Binds s name :=
  Bindings.isSome_get?_iff.mp hown

theorem binds_of_owner? (howner : heap.owner? s name = some t) : heap.Binds t name := by
  have hown : (heap.ownBinding? t name).isSome = true :=
    List.find?_some (p := fun t => (heap.ownBinding? t name).isSome) howner
  exact binds_of_isSome hown

/-- A field that is set keeps the name that it has, or the object itself binds a new one. -/
theorem binds_setField {o : ObjectId} {field : String}
    (hbinds : (heap.setField o field slot).Binds t name) :
    heap.Binds t name ∨ ∃ object, heap.objects[o]? = some object ∧ object.scope = t ∧
      field = name := by
  unfold setField putOwn at hbinds
  cases hobject : heap.objects[o]? with
  | none =>
      rw [hobject] at hbinds
      exact .inl hbinds
  | some object =>
      rw [hobject] at hbinds
      rcases binds_put hbinds with hold | ⟨hscope, hname⟩
      · exact .inl hold
      · unfold fieldName at hname
        by_cases hdotted : (heap.ownAttribute? o ("." ++ field)).isSome = true
        · rw [if_pos hdotted] at hname
          simp only [ownAttribute?, hobject, Option.bind_some] at hdotted
          rw [hscope, ← hname] at hdotted
          exact .inl (binds_of_isSome hdotted)
        · rw [if_neg hdotted] at hname
          exact .inr ⟨object, rfl, hscope, hname.symm⟩

end Heap

/-! ## Where a name comes from -/

namespace Task

variable {setup : Setup} {task part : Task} {s : ScopeId} {name : String}

theorem Course.keepsOwners (hcourse : Course setup task part) :
    task.machine.heap.KeepsOwners part.machine.heap := by
  have hlawful := (Heap.law_keepsOwners.since task.machine.heap).lawful setup
  have hpermits := Discipline.permits_course hlawful hcourse ⟨.refl _, Heap.Law.ready _ _⟩
  exact hpermits.1

/-- The task is a definition in the scope `s`. -/
def DefinesIn (task : Task) (s : ScopeId) : Prop :=
  (∃ nodes, task.request = .eval (.call "def" nodes)) ∧ task.machine.scope = s

/-- The task is the dispatch to `o` of a selector that sets the field `name`. -/
def SetsField (task : Task) (o : ObjectId) (name : String) : Prop :=
  ∃ selector v, task.request = .send o selector [some v] ∧ selector ≠ ".prototype=" ∧
    Eval.setterField? (Heap.stripDot selector) = some name

/-- How the task can come to bind a new name in the scope `s`: by a part, by itself, or because the
scope is new. -/
def Adds (setup : Setup) (task : Task) (s : ScopeId) (name : String) : Prop :=
  (∃ part, Part setup task part ∧ ¬ part.machine.heap.Binds s name ∧
    (part.after setup).heap.Binds s name) ∨
  task.DefinesIn s ∨ task.machine.heap.nextScope ≤ s ∨
  ∃ o object, task.SetsField o name ∧ task.machine.heap.objects[o]? = some object ∧
    object.scope = s

theorem Act.adds {D : Discipline} {α : Type} {act : Run α} {found : Machine}
    (hact : task.Act setup D act found) (hbefore : ¬ found.heap.Binds s name)
    (hafter : (act.after found).heap.Binds s name) : task.Adds setup s name := by
  have hidle : ¬ act.Idle := by
    intro hidle
    rw [hidle.after] at hafter
    exact hbefore hafter
  cases hact with
  | part hpart => exact .inl ⟨_, hpart, hbefore, hafter⟩
  | gives => exact (hidle (Run.idle_pure _)).elim
  | complains => exact (hidle (Run.idle_complain _)).elim
  | refuses => exact (hidle (Run.idle_failing _)).elim
  | lacks _ => exact (hidle (Run.idle_failing _)).elim
  | raises _ _ => exact (hidle (Run.idle_failing _)).elim
  | calculates _ => exact (hidle (Operator.idle_calculate _ _ _)).elim
  | counts => exact (hidle (Run.idle_looking _)).elim
  | views _ _ => exact (hbefore hafter).elim
  | reads _ _ _ => exact (hbefore hafter).elim
  | opens =>
      have hsame : (found.heap.addScope _).Binds s name := hafter
      rw [Heap.Binds, Heap.bindings_addScope] at hsame
      exact (hbefore hsame).elim
  | makes =>
      have hsame : (found.heap.addScope (some found.scope)).Binds s name := hafter
      rw [Heap.Binds, Heap.bindings_addScope] at hsame
      exact (hbefore hsame).elim
  | defines _ _ hplace =>
      obtain ⟨rfl, -⟩ := (Heap.binds_put hafter).resolve_left hbefore
      rcases hplace with ⟨hdef, hscope⟩ | hnew
      · exact .inr (.inl ⟨hdef, hscope.symm⟩)
      · exact .inr (.inr (.inl hnew))
  | @rebinds other slot _ _ _ =>
      unfold Run.after Run.rebind at hafter
      cases howner : found.heap.owner? found.scope other with
      | none =>
          simp only [howner] at hafter
          exact (hbefore hafter).elim
      | some t =>
          simp only [howner] at hafter
          obtain ⟨rfl, rfl⟩ := (Heap.binds_put hafter).resolve_left hbefore
          exact (hbefore (Heap.binds_of_owner? howner)).elim
  | sets _ _ hrequest hselector hfield =>
      obtain ⟨object, hobject, hscope, rfl⟩ := (Heap.binds_setField hafter).resolve_left hbefore
      exact .inr (.inr (.inr ⟨_, object, ⟨_, _, hrequest, hselector, hfield⟩, hobject, hscope⟩))
  | @links o proto _ _ _ _ =>
      unfold Run.after Run.setPrototype at hafter
      by_cases hcyclic : found.heap.isInstance proto o = true
      · simp only [if_pos hcyclic] at hafter
        exact (hbefore hafter).elim
      · simp only [if_neg hcyclic] at hafter
        exact (hbefore hafter).elim

theorem adds_of_after (hbefore : ¬ task.machine.heap.Binds s name)
    (hafter : (task.after setup).heap.Binds s name) : task.Adds setup s name := by
  obtain ⟨depth, request, m⟩ := task
  cases depth with
  | zero => exact (hbefore hafter).elim
  | succ depth =>
      have hpermits : (Discipline.ofHeap (fun _ => True) Heap.KeepsOwners).Permits
          ⟨depth + 1, request, m⟩ := ⟨trivial, Heap.Law.ready m request⟩
      have htraced := traced (Heap.law_keepsOwners.lawful setup) hpermits
      obtain ⟨_, act, found, hact, hbefore', hafter'⟩ :=
        htraced.exists_act_of_after (Q := fun heap => heap.Binds s name) hbefore hafter
      exact hact.adds hbefore' hafter'

/-- A name that is new in an old scope has been defined there, or a field of an object has been set to
which the scope belongs. -/
theorem exists_origin (hs : s < task.machine.heap.scopes.size)
    (hbefore : ¬ task.machine.heap.Binds s name)
    (hafter : (task.after setup).heap.Binds s name) :
    ∃ origin, Course setup task origin ∧ (origin.DefinesIn s ∨
      ∃ o object, origin.SetsField o name ∧ origin.machine.heap.objects[o]? = some object ∧
        object.scope = s) := by
  -- The name is followed down into the part that added it, until a task has added it itself.
  induction hrank : task.rank using Nat.strongRecOn generalizing task with
  | ind n ih =>
      rcases adds_of_after hbefore hafter with ⟨part, hpart, hbefore', hafter'⟩ | hdefines | hnew |
        hsets
      · have hkept := Course.keepsOwners (.single hpart)
        obtain ⟨origin, hcourse, horigin⟩ := ih part.rank (hrank ▸ hpart.rank_lt)
          (Nat.lt_of_lt_of_le hs hkept.size) hbefore' hafter' rfl
        exact ⟨origin, hcourse.head hpart, horigin⟩
      · exact ⟨task, .refl, .inl hdefines⟩
      · exact absurd hs (Nat.not_lt.mpr hnew)
      · exact ⟨task, .refl, .inr hsets⟩

/-! ## In which scope an expression is evaluated -/

def CallsHost (task : Task) : Prop :=
  ∃ name key args receiver, task.request = .call (some (.native name (.host key))) args receiver

/-- An expression that is evaluated as a part is evaluated in the scope of the task, which is no block
then, or in a new scope, or for a function of the host. -/
theorem Part.scope (hpart : Part setup task part) {node : Node} (heval : part.request = .eval node) :
    (∃ word nodes, task.request = .eval (.call word nodes) ∧ word ≠ "do" ∧
      part.machine.scope = task.machine.scope) ∨
    part.machine.scope = task.machine.heap.nextScope ∨ task.CallsHost := by
  have hselects : ∀ word, Node.isSelector word = true → word ≠ "do" := by
    rintro word hselector rfl
    cases hselector
  cases hpart with
  | argument happlies _ _ hdone =>
      exact .inl ⟨_, _, rfl, happlies.1, (Eval.tame_args _ _).scope_of_ok hdone⟩
  | application _ _ _ _ => cases heval
  | block hdone => exact .inr (.inl ((Eval.tame_sequence _ _).scope_of_ok hdone))
  | definition _ => exact .inl ⟨_, _, rfl, by simp, rfl⟩
  | assignment _ => exact .inl ⟨_, _, rfl, by simp, rfl⟩
  | clause _ hdone _ _ => exact .inr (.inl ((Eval.tame_clauses _ _).scope_of_ok hdone))
  | target hselector => exact .inl ⟨_, _, rfl, hselects _ hselector, rfl⟩
  | operand hselector htarget hdone =>
      have htaken := (Eval.tame_run _).scope_of_ok htarget
      have hevaluated := (Eval.tame_args _ _).scope_of_ok hdone
      exact .inl ⟨_, _, rfl, hselects _ hselector, hevaluated.trans htaken⟩
  | dispatch _ _ _ => cases heval
  | method _ _ _ => cases heval
  | body _ _ _ => exact .inr (.inl rfl)
  | native _ _ => exact .inr (.inr ⟨_, _, _, _, rfl⟩)

/-- In the course of the task, a function of the host has an expression evaluated in the scope `s`. -/
def Intrudes (setup : Setup) (task : Task) (s : ScopeId) : Prop :=
  ∃ caller depth node found, Course setup task caller ∧ caller.CallsHost ∧
    Part setup caller ⟨depth, .eval node, found⟩ ∧ found.scope = s

def Sets (setup : Setup) (task : Task) (o : ObjectId) (name : String) : Prop :=
  ∃ setter, Course setup task setter ∧ setter.SetsField o name

end Task

/-- The request is for a block, a call or a dispatch. -/
def Request.Encloses : Request → Prop
  | .eval (.call name _) => name = "do"
  | .eval _ => False
  | .call _ _ _ => True
  | .send _ _ _ => True

namespace Task

variable {setup : Setup} {task part : Task} {s : ScopeId} {name : String}

/-- All that is evaluated inside a block or a call is evaluated in scopes made for it, unless for a
function of the host. -/
theorem Course.scope (hencloses : task.request.Encloses) (hcourse : Course setup task part) :
    part = task ∨ ∀ node, part.request = .eval node →
      task.machine.heap.scopes.size ≤ part.machine.scope ∨
        task.Intrudes setup part.machine.scope := by
  induction hcourse with
  | refl => exact .inl rfl
  | @tail middle part hcourse hpart ih =>
      right
      intro node heval
      have hpart' : Part setup middle ⟨part.depth, .eval node, part.machine⟩ := by
        rw [← heval]
        exact hpart
      rcases hpart.scope heval with ⟨word, nodes, hrequest, hword, hscope⟩ | hnew | hhost
      · rw [hscope]
        rcases ih with rfl | houter
        -- No block has its parts evaluated in the scope around it.
        · rw [hrequest] at hencloses
          exact (hword hencloses).elim
        · exact houter _ hrequest
      · left
        rw [hnew]
        exact (Course.keepsOwners hcourse).size
      · exact .inr ⟨middle, _, node, _, hcourse, hhost, hpart', rfl⟩

theorem intrudes_or_sets (hencloses : task.request.Encloses)
    (hs : s < task.machine.heap.scopes.size) (hbefore : ¬ task.machine.heap.Binds s name)
    (hafter : (task.after setup).heap.Binds s name) :
    task.Intrudes setup s ∨ ∃ o object, task.machine.heap.objects[o]? = some object ∧
      object.scope = s ∧ task.Sets setup o name := by
  obtain ⟨origin, hcourse, ⟨⟨nodes, hdef⟩, hscope⟩ | ⟨o, object, hsets, hobject, hscope⟩⟩ :=
    exists_origin hs hbefore hafter
  · left
    rcases hcourse.scope hencloses with rfl | hinside
    · rw [hdef] at hencloses
      simp [Request.Encloses] at hencloses
    · rcases hinside _ hdef with hnew | hintrudes
      · rw [hscope] at hnew
        exact absurd hs (Nat.not_lt.mpr hnew)
      · rwa [hscope] at hintrudes
  · right
    obtain ⟨old, hold, hsame⟩ := hcourse.keepsOwners.owner o object hobject (hscope ▸ hs)
    exact ⟨o, old, hold, hsame.trans hscope, origin, hcourse, hsets⟩

end Task

/-! ## Hosts that evaluate no expressions -/

theorem Script.Asks.evaluates {evaluate : Request → Run Slot} {script : Script} {m found : Machine}
    {request : Request} (hasks : script.Asks evaluate m request found) {node : Node}
    (heval : request = .eval node) : script.Evaluates := by
  induction hasks with
  | now =>
      subst heval
      exact .now
  | later _ _ ih => exact (ih heval).ask
  | height _ ih => exact (ih heval).height
  | top _ ih => exact (ih heval).top

theorem Task.Intrudes.evaluates {setup : Setup} {task : Task} {s : ScopeId}
    (hintrudes : task.Intrudes setup s) : setup.host.Evaluates := by
  obtain ⟨caller, depth, node, found, -, ⟨name, key, args, receiver, hrequest⟩, hpart, -⟩ :=
    hintrudes
  cases hpart with
  | native _ hasks => exact ⟨_, _, hasks.evaluates rfl⟩
  | body _ _ _ => cases hrequest
  | _ => cases hrequest

/-- Whatever becomes of a block, a call or a dispatch, it adds no name to a scope that was there before
and belongs to no object, and to the own scope of an object only names of fields that a selector sets
which is dispatched to that object; unless a function of the host has an expression evaluated right
there. -/
theorem Task.Arises.contains_definitions {host : Host} {deeds : List Deed} {task : Task}
    (harises : task.Arises host deeds) (hencloses : task.request.Encloses) :
    let setup := (Interpreter.history host deeds).setup
    let before := task.machine.heap
    let after := (task.after setup).heap
    (∀ s, s < before.scopes.size → ¬ before.Owned s → ∀ name, after.Binds s name →
        before.Binds s name ∨ task.Intrudes setup s) ∧
      (∀ (o : ObjectId) (object : Object), before.objects[o]? = some object →
        ∀ name, after.Binds object.scope name →
          before.Binds object.scope name ∨ task.Sets setup o name ∨
            task.Intrudes setup object.scope) ∧
      (¬ host.Evaluates → ∀ s, ¬ task.Intrudes setup s) := by
  intro setup before after
  have hapart : before.Apart := Heap.law_apart.arises Heap.apart_initialHeap harises
  refine ⟨?_, ?_, ?_⟩
  · intro s hs hfree name hafter
    by_cases hbefore : before.Binds s name
    · exact .inl hbefore
    · rcases intrudes_or_sets hencloses hs hbefore hafter with hintrudes | ⟨o, object, hown⟩
      · exact .inr hintrudes
      · exact (hfree ⟨o, object, hown.1, hown.2.1⟩).elim
  · intro o object hobject name hafter
    by_cases hbefore : before.Binds object.scope name
    · exact .inl hbefore
    · right
      have hs := hapart.held o object hobject
      rcases intrudes_or_sets hencloses hs hbefore hafter with
        hintrudes | ⟨owner, other, hother, hshared, hsets⟩
      · exact .inr hintrudes
      · obtain rfl := hapart.distinct owner o other object hother hobject hshared
        exact .inl hsets
  · intro hhost s hintrudes
    have hevaluates := hintrudes.evaluates
    rw [Interpreter.host_history] at hevaluates
    exact hhost hevaluates

/-- `(do (def x 1) (.n= Object 2))`, evaluated by a new interpreter. -/
def Task.newBlock : Task where
  depth := 9
  request := .eval (.call "do" [.call "def" [.variable "x", .number (.ofInt 1)],
    .call ".n=" [.variable "Object", .number (.ofInt 2)]])
  machine := (Interpreter.history Host.standard []).machine

/-- The block defines `x` in a scope of its own, and sets a field of the root object; the global scope
binds neither name. -/
theorem Task.Arises.contains_definitions_newBlock :
    Task.newBlock.Arises Host.standard [] ∧ Task.newBlock.request.Encloses ∧
      (Task.newBlock.after (Interpreter.history Host.standard []).setup).heap.Binds 1 "n" ∧
      ∀ name, (Task.newBlock.after (Interpreter.history Host.standard []).setup).heap.Binds 0 name →
        Task.newBlock.machine.heap.Binds 0 name := by
  have harises : Task.newBlock.Arises Host.standard [] := ⟨9, _, _, .eval, .refl⟩
  have hfree : ¬ Task.newBlock.machine.heap.Owned 0 := by
    rintro ⟨o, object, hobject, hscope⟩
    match o with
    | 0 =>
        cases hobject
        cases hscope
    | o + 1 => cases hobject
  obtain ⟨hblock, -, hhost⟩ := contains_definitions harises rfl
  have hstandard : ¬ Host.standard.Evaluates := Host.standard_usesOnlyArguments.not_evaluates
  refine ⟨harises, rfl, by decide, ?_⟩
  intro name hafter
  exact (hblock 0 (by decide) hfree name hafter).resolve_right (hhost hstandard 0)

end ProtoLisp
