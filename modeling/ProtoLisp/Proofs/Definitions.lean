import ProtoLisp.Proofs.HeapGrowth

/-!
# Definitions

A definition binds a name in a scope that does not bind it yet.  It looks for an earlier binding
before it evaluates its expression, though, and not again afterwards; the expression runs in the same
scope and may bind the name itself.  So a definition replaces a binding if and only if its own
expression has made it: `(def x (+ (def x 1) 1))` binds `x` twice.
-/

namespace ProtoLisp

/-- The forms that bind a new name in the current scope. -/
inductive Definition where
  /-- `(def name node)` -/
  | «variable» (name : String) (node : Node)
  /-- `(def (name param ...) body)` -/
  | function (name : String) (params : List Node) (body : Node)
  /-- `[name node]`, a clause of an object -/
  | field (name : String) (node : Node)
  /-- `[(name param ...) body]`, a clause of an object -/
  | method (name : String) (params : List Node) (body : Node)

namespace Definition

def name : Definition → String
  | .variable name _ => name
  | .function name _ _ => name
  | .field name _ => name
  | .method name _ _ => name

/-- The name is one that the form can bind. -/
def Names : Definition → Prop
  | .variable _ _ => True
  | .function name _ _ => name ≠ ""
  | .field name _ => name ≠ "" ∧ name ≠ "prototype"
  | .method name _ _ => Node.isSelector name = true ∧ name ≠ "."

/-- The form has an expression that is evaluated at once. -/
def evaluates : Definition → Bool
  | .variable _ _ => true
  | .function _ _ _ => false
  | .field _ _ => true
  | .method _ _ _ => false

def redefined : Definition → Complaint
  | .variable name _ => .defRedefined name
  | .function name _ _ => .defRedefined name
  | .field name _ => .fieldRedefined name
  | .method name _ _ => .methodRedefined name

/-- A function of the current scope. -/
def closure (form name : String) (params : List Node) (body : Node) : Run Slot := do
  let names ← Eval.orComplain (Eval.formals form [] params)
  let s ← Run.currentScope
  return some (.closure name names body (some s))

/-- What is to be bound. -/
def value (setup : Setup) (depth : Nat) : Definition → Run Slot
  | .variable _ node => Eval.run setup depth (.eval node)
  | .function name params body => closure "def" name params body
  | .field _ node => Eval.run setup depth (.eval node)
  | .method name params body => closure "object" name params body

/-- The form as a whole; a clause is one of the object `o`. -/
def run (setup : Setup) (depth : Nat) (o : ObjectId) : Definition → Run Unit
  | .variable name node => do
    let _ ← Eval.run setup (depth + 1) (.eval (.call "def" [.variable name, node]))
  | .function name params body => do
    let _ ← Eval.run setup (depth + 1) (.eval (.call "def" [.call name params, body]))
  | .field name node => Eval.clause (Eval.run setup depth) o (.call name [node])
  | .method name params body =>
    Eval.clause (Eval.run setup depth) o (.call "" [.call name params, body])

/-- Looks whether the current scope binds the name, and binds it to the value if it did not. -/
def guarded (name : String) (complaint : Complaint) (value : Run Slot) : Run Unit := do
  if ← Run.isBoundHere name then
    Run.complain complaint
  else
    let slot ← value
    Run.define (← Run.currentScope) name slot

variable {definition : Definition} {setup : Setup} {depth : Nat} {o : ObjectId} {m : Machine}

theorem condition_redefined (definition : Definition) :
    definition.redefined.condition = .redefinedIdentifier := by
  cases definition <;> rfl

theorem run_definition (setup : Setup) (depth : Nat) (nodes : List Node) :
    Eval.run setup (depth + 1) (.eval (.call "def" nodes)) =
      Eval.definition (Eval.run setup depth) nodes := by
  simp [Eval.run, Eval.step, Eval.expression, Eval.form]

section Guarded

variable {name : String} {complaint : Complaint} {value : Run Slot}

theorem guarded_of_bound (hbound : (m.heap.ownBinding? m.scope name).isSome = true) :
    guarded name complaint value m = Run.complain complaint m := by
  simp only [guarded, Run.isBoundHere, bind, EStateM.bind, hbound, if_true]

theorem guarded_of_ok (hnew : m.heap.ownBinding? m.scope name = none) {slot : Slot}
    {middle : Machine} (hvalue : value m = .ok slot middle) :
    guarded name complaint value m = Run.define middle.scope name slot middle := by
  simp only [guarded, Run.isBoundHere, bind, EStateM.bind, hnew, Option.isSome_none,
    Bool.false_eq_true, if_false, hvalue, Run.currentScope]

theorem guarded_of_error (hnew : m.heap.ownBinding? m.scope name = none) {failure : Failure}
    {after : Machine} (hvalue : value m = .error failure after) :
    guarded name complaint value m = .error failure after := by
  simp only [guarded, Run.isBoundHere, bind, EStateM.bind, hnew, Option.isSome_none,
    Bool.false_eq_true, if_false, hvalue]

end Guarded

/-- All four forms look first, and bind in the end without looking again. -/
theorem run_eq (hnames : definition.Names) (setup : Setup) (depth : Nat) (o : ObjectId) :
    definition.run setup depth o =
      guarded definition.name definition.redefined (definition.value setup depth) := by
  cases definition with
  | «variable» name node =>
      simp only [run, run_definition, Eval.definition, Eval.defineName, guarded, bind_assoc]
      congr 1
      funext isBound
      cases isBound with
      | true => rfl
      | false =>
          simp only [Bool.false_eq_true, if_false, bind_pure_comp, map_bind, Functor.map_map, id_map']
          rfl
  | function name params body =>
      simp only [run, run_definition, Eval.definition, if_neg hnames, Eval.defineFunction, guarded,
        bind_assoc, value, closure]
      congr 1
      funext isBound
      cases isBound with
      | true => rfl
      | false =>
          simp only [Bool.false_eq_true, if_false, bind_pure_comp, map_bind, Functor.map_map,
            id_map', pure_bind]
          rfl
  | field name node =>
      obtain ⟨hempty, hprototype⟩ := hnames
      simp only [run, Eval.clause]
      rfl
  | method name params body =>
      have hsignature : Eval.signature (.call name params) = .ok (name, params) := by
        simp [Eval.signature, hnames.1, hnames.2]
      simp only [run, Eval.clause, Eval.methodClause, hsignature, Eval.orComplain, guarded, closure,
        pure_bind, bind_assoc, value]
      congr 1

theorem exists_of_closure {form name : String} {params : List Node} {body : Node} {slot : Slot}
    {middle : Machine} (hclosure : closure form name params body m = .ok slot middle) :
    middle = m ∧ ∃ names, slot = some (.closure name names body (some m.scope)) := by
  unfold closure at hclosure
  cases hformals : Eval.formals form [] params with
  | ok names =>
      rw [hformals] at hclosure
      cases hclosure
      exact ⟨rfl, names, rfl⟩
  | error complaint =>
      rw [hformals] at hclosure
      cases hclosure

theorem eq_of_value (hevaluates : definition.evaluates = false) {slot : Slot} {middle : Machine}
    (hvalue : definition.value setup depth m = .ok slot middle) : middle = m := by
  cases definition with
  | function name params body => exact (exists_of_closure hvalue).1
  | method name params body => exact (exists_of_closure hvalue).1
  | _ => cases hevaluates

/-- A definition of a function or a method makes a closure of the scope in which it stands. -/
theorem exists_closure_of_value (hevaluates : definition.evaluates = false) {slot : Slot}
    {middle : Machine} (hvalue : definition.value setup depth m = .ok slot middle) :
    ∃ params body, slot = some (.closure definition.name params body (some m.scope)) := by
  cases definition with
  | function name params body =>
      obtain ⟨-, names, hslot⟩ := exists_of_closure hvalue
      exact ⟨names, body, hslot⟩
  | method name params body =>
      obtain ⟨-, names, hslot⟩ := exists_of_closure hvalue
      exact ⟨names, body, hslot⟩
  | _ => cases hevaluates

/-- When the value is there, the current scope is the same again. -/
theorem scope_of_value {slot : Slot} {middle : Machine}
    (hvalue : definition.value setup depth m = .ok slot middle) : middle.scope = m.scope := by
  have hevaluated : ∀ node, Eval.run setup depth (.eval node) m = .ok slot middle →
      middle.scope = m.scope := by
    intro node hok
    have hserves := Discipline.serves_run (Heap.law_extends.lawful setup) depth
    have hkeeps := hserves m (.eval node) (Heap.Law.ready _ _)
    exact (hkeeps.of_ok trivial hok).1.scope
  cases definition with
  | «variable» name node => exact hevaluated node hvalue
  | field name node => exact hevaluated node hvalue
  | _ =>
      cases eq_of_value rfl hvalue
      rfl

/-! ## Binding once -/

/-- The scope `s` binds the name of the definition. -/
def IsBound (definition : Definition) (m : Machine) (s : ScopeId) : Prop :=
  (m.heap.ownBinding? s definition.name).isSome = true

/-- The definition keeps to the rule that a name is bound once in a scope: where it succeeds, the scope
does not bind the name at the moment in which the value is stored, so that all bindings are kept; and
where the scope does bind the name, at first or at that moment, it fails for that reason. -/
structure BindsOnce (setup : Setup) (depth : Nat) (o : ObjectId) (m : Machine)
    (definition : Definition) : Prop where
  stores : ∀ after, definition.run setup depth o m = .ok () after →
    ∃ v middle, definition.value setup depth m = .ok (some v) middle ∧
      ¬ definition.IsBound middle m.scope ∧
      after = { middle with heap := middle.heap.put m.scope definition.name (some v) } ∧
      middle.heap.bindings m.scope <+: after.heap.bindings m.scope
  fails : (definition.IsBound m m.scope ∨ ∃ slot middle,
      definition.value setup depth m = .ok slot middle ∧ definition.IsBound middle m.scope) →
    ∃ error after, definition.run setup depth o m = .error (.eval error) after ∧
      error.condition = .redefinedIdentifier

/-- The expression of the definition itself binds its name in the scope that is to receive it. -/
def BindsItself (setup : Setup) (depth : Nat) (m : Machine) (definition : Definition) : Prop :=
  ∃ slot middle, definition.value setup depth m = .ok slot middle ∧
    ¬ definition.IsBound m m.scope ∧ definition.IsBound middle m.scope

theorem exists_of_run_ok (hnames : definition.Names) {after : Machine}
    (hok : definition.run setup depth o m = .ok () after) :
    ¬ definition.IsBound m m.scope ∧ ∃ v middle,
      definition.value setup depth m = .ok (some v) middle ∧
      after = { middle with heap := middle.heap.put m.scope definition.name (some v) } := by
  rw [run_eq hnames] at hok
  by_cases hbound : definition.IsBound m m.scope
  · rw [guarded_of_bound hbound] at hok
    cases hok
  · refine ⟨hbound, ?_⟩
    have hnew : m.heap.ownBinding? m.scope definition.name = none := by simpa [IsBound] using hbound
    cases hvalue : definition.value setup depth m with
    | error failure middle =>
        rw [guarded_of_error hnew hvalue] at hok
        cases hok
    | ok slot middle =>
        rw [guarded_of_ok hnew hvalue, scope_of_value hvalue] at hok
        cases slot with
        | none => cases hok
        | some v =>
            cases hok
            exact ⟨v, middle, rfl, rfl⟩

theorem fails_of_bound (hnames : definition.Names) (hbound : definition.IsBound m m.scope) :
    ∃ error after, definition.run setup depth o m = .error (.eval error) after ∧
      error.condition = .redefinedIdentifier := by
  rw [run_eq hnames, guarded_of_bound hbound]
  exact ⟨_, m, rfl, definition.condition_redefined⟩

/-- A definition whose expression has bound the name goes on and binds it again. -/
theorem not_bindsOnce_of_bindsItself (hnames : definition.Names)
    (hitself : definition.BindsItself setup depth m) : ¬ definition.BindsOnce setup depth o m := by
  intro honce
  obtain ⟨slot, middle, hvalue, hbefore, hbound⟩ := hitself
  have hnew : m.heap.ownBinding? m.scope definition.name = none := by simpa [IsBound] using hbefore
  obtain ⟨error, after, herror, -⟩ := honce.fails (.inr ⟨slot, middle, hvalue, hbound⟩)
  rw [run_eq hnames, guarded_of_ok hnew hvalue] at herror
  cases slot <;> cases herror

theorem bindsOnce_of_not_bindsItself (hnames : definition.Names)
    (hitself : ¬ definition.BindsItself setup depth m) :
    definition.BindsOnce setup depth o m where
  stores := by
    intro after hok
    obtain ⟨hbefore, v, middle, hvalue, rfl⟩ := exists_of_run_ok hnames hok
    have hfree : ¬ definition.IsBound middle m.scope := by
      intro hbound
      exact hitself ⟨some v, middle, hvalue, hbefore, hbound⟩
    have hnew : middle.heap.ownBinding? m.scope definition.name = none := by
      simpa [IsBound] using hfree
    exact ⟨v, middle, hvalue, hfree, rfl, Heap.bindings_prefix_put (some v) hnew⟩
  fails := by
    rintro (hbound | ⟨slot, middle, hvalue, hbound⟩)
    · exact fails_of_bound hnames hbound
    · by_cases hbefore : definition.IsBound m m.scope
      · exact fails_of_bound hnames hbefore
      · exact (hitself ⟨slot, middle, hvalue, hbefore, hbound⟩).elim

/-- A definition binds its name once if and only if its expression does not bind it by itself; those
that have no expression always do. -/
theorem bindsOnce_iff (setup : Setup) (depth : Nat) (o : ObjectId) (m : Machine)
    (definition : Definition) (hnames : definition.Names) :
    (definition.BindsOnce setup depth o m ↔ ¬ definition.BindsItself setup depth m) ∧
      (definition.evaluates = false → definition.BindsOnce setup depth o m) := by
  constructor
  · constructor
    · intro honce hitself
      exact not_bindsOnce_of_bindsItself hnames hitself honce
    · exact bindsOnce_of_not_bindsItself hnames
  · intro hevaluates
    apply bindsOnce_of_not_bindsItself hnames
    rintro ⟨slot, middle, hvalue, hbefore, hbound⟩
    rw [eq_of_value hevaluates hvalue] at hbound
    exact hbefore hbound

/-- `(def x (+ (def x 1) 1))` -/
def twice : Definition :=
  .variable "x" (.call "+" [.call "def" [.variable "x", .number (.ofInt 1)], .number (.ofInt 1)])

def twiceSetup : Setup := (Interpreter.initial Host.standard).setup

def twiceMachine : Machine := (Interpreter.initial Host.standard).machine

/-- In a new interpreter the outer definition replaces the binding that the inner one has made. -/
theorem bindsOnce_iff_twice :
    twice.Names ∧
      ((twice.value twiceSetup 3).after twiceMachine).heap.ownBinding? 0 "x" =
        some (some (.ofInt 1)) ∧
      ((twice.run twiceSetup 3 0).after twiceMachine).heap.ownBinding? 0 "x" =
        some (some (.ofInt 2)) ∧
      ¬ twice.BindsOnce twiceSetup 3 0 twiceMachine := by
  have hbefore : ¬ twice.IsBound twiceMachine twiceMachine.scope := Bool.false_ne_true
  have hbound : twice.IsBound ((twice.value twiceSetup 3).after twiceMachine) 0 := rfl
  have hitself : twice.BindsItself twiceSetup 3 twiceMachine :=
    ⟨some (.ofInt 2), (twice.value twiceSetup 3).after twiceMachine, rfl, hbefore, hbound⟩
  refine ⟨trivial, rfl, rfl, ?_⟩
  intro honce
  exact (bindsOnce_iff twiceSetup 3 0 twiceMachine twice trivial).1.mp honce hitself

end Definition

end ProtoLisp
