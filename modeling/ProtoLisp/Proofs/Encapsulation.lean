import ProtoLisp.Proofs.DisciplinedEvaluation
import ProtoLisp.Proofs.HeapReachability

/-!
# Encapsulation

An evaluation can change only what it can reach: an expression what can be reached from the current
scope, a call what can be reached from the function and its arguments, and a dispatch what can be
reached from the object and the arguments.  So the state in the scope of a closure is private to those
who can reach the closure.
-/

namespace ProtoLisp

namespace Heap

/-- What an evaluation with these roots made of the heap: scopes and objects that cannot be reached
are the same as before, and what is newly bound or linked is reached from the roots or new. -/
structure Encapsulates (before : Heap) (roots : Set Ref) (after : Heap) : Prop where
  scope_unchanged : ∀ s, before.Holds (.scope s) → .scope s ∉ before.reach roots →
    after.scopes[s]? = before.scopes[s]?
  object_unchanged : ∀ o, before.Holds (.object o) → .object o ∉ before.reach roots →
    after.objects[o]? = before.objects[o]?
  bound : ∀ s name slot, (name, slot) ∈ after.bindings s → (name, slot) ∉ before.bindings s →
    Slot.refs slot ⊆ before.reach roots ∪ before.fresh after
  linked : ∀ o p, after.proto? o = some p → before.proto? o ≠ some p →
    .object p ∈ before.reach roots ∪ before.fresh after

theorem holds_of_mem_bindings {heap : Heap} {s : ScopeId} {binding : String × Slot}
    (hmem : binding ∈ heap.bindings s) : heap.Holds (.scope s) := by
  by_contra hout
  have hnone : heap.scopes[s]? = none := Array.getElem?_eq_none (not_lt.mp hout)
  simp [bindings, hnone] at hmem

theorem holds_of_proto? {heap : Heap} {o p : ObjectId} (hproto : heap.proto? o = some p) :
    heap.Holds (.object o) := by
  obtain ⟨object, hobject, -⟩ := Option.bind_eq_some_iff.mp hproto
  exact (Array.getElem?_eq_some_iff.mp hobject).1

/-- What is there now and is outside the area was there before. -/
theorem holds_of_not_mem_area {before after : Heap} {known : Set Ref} {r : Ref}
    (hout : r ∉ before.area known after) (hholds : after.Holds r) :
    before.Holds r ∧ r ∉ known := by
  refine ⟨?_, fun hknown => hout (.inl hknown)⟩
  by_contra hnew
  exact hout (.inr ⟨hholds, hnew⟩)

theorem Confined.encapsulates {before after : Heap} {roots : Set Ref}
    (hconfined : before.Confined (before.reach roots) after) : before.Encapsulates roots after where
  scope_unchanged := hconfined.scope_unchanged
  object_unchanged := hconfined.object_unchanged
  bound := by
    intro s name slot hmem hnew r hr
    by_cases hs : .scope s ∈ before.area (before.reach roots) after
    · exact hconfined.closed hs (.binding hmem hr)
    · obtain ⟨hheld, hunknown⟩ := holds_of_not_mem_area hs (holds_of_mem_bindings hmem)
      have hsame := hconfined.scope_unchanged s hheld hunknown
      rw [bindings, hsame] at hmem
      exact (hnew hmem).elim
  linked := by
    intro o p hproto hnew
    by_cases ho : .object o ∈ before.area (before.reach roots) after
    · exact hconfined.closed ho (.proto hproto)
    · obtain ⟨hheld, hunknown⟩ := holds_of_not_mem_area ho (holds_of_proto? hproto)
      have hsame := hconfined.object_unchanged o hheld hunknown
      rw [proto?, hsame] at hproto
      exact (hnew hproto).elim

end Heap

/-! ## Native functions that use only their arguments -/

/-- The request refers only to members of `known`.  An expression refers to the current scope, which
nobody is given as an argument. -/
def Request.Within (known : Set Ref) : Request → Prop
  | .eval _ => False
  | .call function args _ => Slot.refsOfAll (function :: args) ⊆ known
  | .send target _ args => .object target ∈ known ∧ Slot.refsOfAll args ⊆ known

/-- The script refers only to members of `known` and to what its requests are answered with. -/
def Script.UsesOnly : Script → Set Ref → Prop
  | .finish result, known => Slot.refs result ⊆ known
  | .complain _, _ => True
  | .refuse _, _ => True
  | .crash _, _ => True
  | .ask request next, known =>
    request.Within known ∧ ∀ answer, (next answer).UsesOnly (known ∪ Slot.refs answer)
  | .height next, known => ∀ n, (next n).UsesOnly known
  | .top next, known => ∀ frame, (next frame).UsesOnly known

/-- The native functions of the host refer to nothing but their arguments and what they are
answered. -/
def Host.UsesOnlyArguments (host : Host) : Prop :=
  ∀ key args, (host key args).UsesOnly (Slot.refsOfAll args)

/-- The native functions of the host refer to nothing but their arguments and members of `held`, which
the host keeps for them. -/
def Host.UsesOnly (host : Host) (held : Set Ref) : Prop :=
  ∀ key args, (host key args).UsesOnly (held ∪ Slot.refsOfAll args)

theorem Host.UsesOnlyArguments.usesOnly {host : Host} (hhost : host.UsesOnlyArguments) :
    host.UsesOnly ∅ := by
  intro key args
  rw [Set.empty_union]
  exact hhost key args

/-- The script has an expression evaluated, after some answers to what it asks. -/
inductive Script.Evaluates : Script → Prop where
  | now {node : Node} {next : Slot → Script} : Evaluates (.ask (.eval node) next)
  | ask {request : Request} {next : Slot → Script} {answer : Slot} :
    Evaluates (next answer) → Evaluates (.ask request next)
  | height {next : Nat → Script} {n : Nat} : Evaluates (next n) → Evaluates (.height next)
  | top {next : Option Frame → Script} {frame : Option Frame} :
    Evaluates (next frame) → Evaluates (.top next)

/-- Some native function of the host has expressions evaluated in the scope from which it is called. -/
def Host.Evaluates (host : Host) : Prop := ∃ key args, (host key args).Evaluates

theorem Script.UsesOnly.not_evaluates {script : Script} {known : Set Ref}
    (hscript : script.UsesOnly known) : ¬ script.Evaluates := by
  intro hevaluates
  induction hevaluates generalizing known with
  | now => exact hscript.1
  | ask _ ih => exact ih (hscript.2 _)
  | height _ ih => exact ih (hscript _)
  | top _ ih => exact ih (hscript _)

theorem Host.UsesOnlyArguments.not_evaluates {host : Host} (hhost : host.UsesOnlyArguments) :
    ¬ host.Evaluates := by
  rintro ⟨key, args, hevaluates⟩
  exact (hhost key args).not_evaluates hevaluates

/-! ## The discipline -/

namespace Discipline

/-- The discipline of an evaluation that found the heap `before` and knew of `known` then. -/
def confinement (before : Heap) (known : Set Ref) : Discipline where
  Sound heap := before.Confined known heap
  Grows heap heap' := heap'.Includes heap
  Admits heap slot := Slot.refs slot ⊆ before.area known heap
  Enters heap s := .scope s ∈ before.area known heap
  Reads _ := True
  Fails _ _ := True

section Laws

variable {before heap : Heap} {known : Set Ref}

theorem obeys_confinement {script : Script} {used : Set Ref} {m : Machine}
    (hscript : script.UsesOnly used) (hused : used ⊆ before.area known m.heap) :
    (confinement before known).Obeys script m := by
  induction script generalizing used m with
  | finish result =>
      rintro v rfl
      exact hscript.trans hused
  | complain complaint => trivial
  | refuse text => trivial
  | crash cause => trivial
  | ask request next ih =>
      obtain ⟨hrequest, hnext⟩ := hscript
      constructor
      · cases request with
        | eval node => exact hrequest.elim
        | call function args receiver =>
            have hall := Slot.refsOfAll_subset.mp (hrequest.trans hused)
            exact ⟨hall _ List.mem_cons_self, fun arg harg => hall arg (List.mem_cons_of_mem _ harg)⟩
        | send target selector args =>
            exact ⟨Slot.refs_object_subset.mpr (hused hrequest.1),
              Slot.refsOfAll_subset.mp (hrequest.2.trans hused)⟩
      · intro answer after hleaves hanswer
        exact ih answer (hnext answer)
          (Set.union_subset (hused.trans (Heap.area_mono hleaves.grows)) hanswer)
  | height next ih => exact ih _ (hscript _) hused
  | top next ih => exact ih _ (hscript _) hused

theorem opens_addScope (hconfined : before.Confined known heap) {parent : Option ScopeId}
    (hparent : ∀ p, parent = some p → .scope p ∈ before.area known heap) :
    (confinement before known).Opens heap (heap.addScope parent) heap.nextScope where
  sound := hconfined.addScope hparent
  grows := Heap.includes_addScope parent
  enters := by
    apply Heap.mem_area_nextScope hconfined
    simp [Heap.Holds, Heap.addScope, Heap.nextScope]

theorem opens_addObject (hconfined : before.Confined known heap) {name : String} {s : ScopeId}
    (hs : .scope s ∈ before.area known heap) :
    (confinement before known).Opens heap (heap.addObject name (some s)) heap.nextScope where
  sound := hconfined.addObject hs
  grows := by
    constructor <;> simp [Heap.addObject, Heap.addScope]
  enters := by
    apply Heap.mem_area_nextScope hconfined
    simp [Heap.Holds, Heap.addObject, Heap.addScope, Heap.nextScope]

theorem lawful_confinement_of_held {setup : Setup} {held : Set Ref}
    (hhost : setup.host.UsesOnly held) (hheld : held ⊆ known) :
    (confinement before known).Lawful setup where
  grows_refl := Heap.Includes.refl
  grows_trans := Heap.Includes.trans
  admits_mono hincludes hslot := hslot.trans (Heap.area_mono hincludes)
  enters_mono hincludes hs := Heap.area_mono hincludes hs
  reads_arg _ _ := trivial
  reads_body _ := trivial
  admits_primitive hv := Slot.refs_primitive_subset hv _
  admits_closure hs _ _ := by
    apply Slot.refs_closure_subset.mpr
    rintro t ⟨⟩
    exact hs
  admits_resolved hconfined hs hresolve := hconfined.resolved hs hresolve
  admits_attribute hconfined ho hattribute :=
    hconfined.attribute (Slot.refs_object_subset.mp ho) hattribute
  admits_prototype hconfined ho hproto :=
    Slot.refs_object_subset.mpr (hconfined.closed (Slot.refs_object_subset.mp ho) (.proto hproto))
  opens_block hconfined hs := by
    apply opens_addScope hconfined
    rintro p ⟨⟩
    exact hs
  opens_closure hconfined hclosure :=
    opens_addScope hconfined (Slot.refs_closure_subset.mp hclosure)
  opens_object := by
    intro heap s name hconfined hs
    refine ⟨opens_addObject hconfined hs, Slot.refs_object_subset.mpr (.inr ⟨?_, ?_⟩)⟩
    · simp [Heap.Holds, Heap.addObject, Heap.addScope, Heap.nextObject]
    · exact not_lt.mpr hconfined.includes.objects
  sound_put hconfined hs hv := by
    refine ⟨hconfined.put hs hv, ?_⟩
    constructor <;> simp [Heap.put]
  sound_rebind hconfined hs hslot howner := by
    refine ⟨hconfined.put (hconfined.chain hs _ (Heap.mem_chain_of_owner? howner)) hslot, ?_⟩
    constructor <;> simp [Heap.put]
  sound_setField hconfined ho hv :=
    ⟨hconfined.setField (Slot.refs_object_subset.mp ho) hv, Heap.includes_setField _ _ _⟩
  sound_linkPrototype hconfined ho hproto _ := by
    refine ⟨hconfined.linkPrototype (Slot.refs_object_subset.mp ho)
      (Slot.refs_object_subset.mp hproto), ?_⟩
    constructor <;> simp [Heap.linkPrototype]
  fails_complaint _ := trivial
  fails_exhausted _ := trivial
  fails_absence _ := trivial
  fails_absentBinding _ := trivial
  fails_overflow _ := trivial
  fails_tooDeep := trivial
  fails_unwound _ _ := trivial
  obeys_host _ _ hargs := by
    apply obeys_confinement (hhost _ _)
    apply Set.union_subset
    · exact fun r hr => .inl (hheld hr)
    · exact Slot.refsOfAll_subset.mpr hargs

theorem lawful_confinement {setup : Setup} (hhost : setup.host.UsesOnlyArguments) :
    (confinement before known).Lawful setup :=
  lawful_confinement_of_held hhost.usesOnly (Set.empty_subset known)

end Laws

end Discipline

/-! ## What an operation can reach -/

/-- The scopes and objects that an operation refers to itself. -/
def Operation.roots (m : Machine) : Operation → Set Ref
  | .eval _ => {.scope m.scope}
  | .evalIn s _ => {.scope s}
  | .call function args => Slot.refsOfAll (function :: args)
  | .send target _ args => insert (.object target) (Slot.refsOfAll args)
  | .load _ => {.scope m.scope}

theorem Discipline.allows_confinement {m : Machine} {operation : Operation} {known : Set Ref}
    (hknown : operation.roots m ⊆ known) : (confinement m.heap known).Allows m operation := by
  have hroots : operation.roots m ⊆ m.heap.area known m.heap := fun r hr => .inl (hknown hr)
  cases operation with
  | eval node => exact ⟨trivial, hroots rfl⟩
  | evalIn s node => exact ⟨trivial, hroots rfl⟩
  | call function args =>
      have hall := Slot.refsOfAll_subset.mp hroots
      exact ⟨hall _ List.mem_cons_self, fun arg harg => hall arg (List.mem_cons_of_mem _ harg)⟩
  | send target selector args =>
      obtain ⟨htarget, hargs⟩ := Set.insert_subset_iff.mp hroots
      exact ⟨Slot.refs_object_subset.mpr htarget, Slot.refsOfAll_subset.mp hargs⟩
  | load source => exact ⟨hroots rfl, fun _ _ _ _ => trivial⟩

/-- An operation leaves alone all that cannot be reached from what it refers to, and whatever it binds,
links or returns can be reached from there or is new. -/
theorem Interpreter.operate_encapsulates (interpreter : Interpreter)
    (hhost : interpreter.setup.host.UsesOnlyArguments) (depth : Nat) (operation : Operation) :
    interpreter.machine.heap.Encapsulates (operation.roots interpreter.machine)
        (interpreter.operate depth operation).2.machine.heap ∧
      ∀ slot, (interpreter.operate depth operation).1 = .ok slot →
        Slot.refs slot ⊆ interpreter.machine.heap.reach (operation.roots interpreter.machine) ∪
          interpreter.machine.heap.fresh (interpreter.operate depth operation).2.machine.heap := by
  have hends := Discipline.operate (Discipline.lawful_confinement hhost)
    (Heap.Confined.initial interpreter.machine.heap (operation.roots interpreter.machine)) depth
    operation (Discipline.allows_confinement (Heap.subset_reach _ _))
  exact ⟨Heap.Confined.encapsulates hends.leaves.sound, hends.admits⟩

theorem Host.standard_usesOnlyArguments : Host.standard.UsesOnlyArguments := by
  intro key args
  unfold Host.standard
  split
  · exact fun r hr => by simp [Slot.refs] at hr
  · exact Slot.refs_primitive_subset rfl _
  next arg rest => exact Slot.refsOfAll_subset.mp subset_rfl arg List.mem_cons_self
  · trivial
  · trivial
  · trivial
  next function rest => exact ⟨subset_rfl, fun answer => Set.subset_union_right⟩
  · trivial
  · exact fun n => Slot.refs_primitive_subset rfl _
  · intro frame
    cases frame with
    | none => trivial
    | some frame => exact Slot.refs_primitive_subset rfl _
  · trivial

/-- A counter whose count is the variable `n` of the scope `s`. -/
def Value.counter (s : ScopeId) : Value :=
  .closure "tick" [] (.call "set!" [.variable "n", .call "+" [.variable "n", .number (.ofInt 1)]])
    (some s)

/-- An interpreter with two scopes, 1 and 2, for the counts of two counters. -/
def Interpreter.twoCounters : Interpreter where
  setup := ⟨defaultPrecision, Host.standard⟩
  reads := true
  global := 0
  machine :=
    ⟨⟨#[⟨none, [("+", some (.native "+" (.operator .add)))]⟩, ⟨some 0, [("n", some (.ofInt 0))]⟩,
      ⟨some 0, [("n", some (.ofInt 0))]⟩], #[]⟩, 0, .empty 0⟩

/-- A call of one of two counters counts, and leaves the count of the other one alone. -/
theorem Interpreter.operate_encapsulates_twoCounters :
    Host.standard.UsesOnlyArguments ∧
      (twoCounters.operate 10 (.call (some (.counter 1)) [])).2.machine.heap.bindings 1 =
        [("n", some (.ofInt 1))] ∧
      (twoCounters.operate 10 (.call (some (.counter 1)) [])).2.machine.heap.scopes[2]? =
        some ⟨some 0, [("n", some (.ofInt 0))]⟩ := by
  refine ⟨Host.standard_usesOnlyArguments, rfl, ?_⟩
  have hencapsulates := operate_encapsulates twoCounters Host.standard_usesOnlyArguments 10
    (.call (some (.counter 1)) [])
  apply hencapsulates.1.scope_unchanged 2 (by simp [Heap.Holds, twoCounters])
  -- The scope of the counter called and the scope around it are all that can be reached.
  have hreach : twoCounters.machine.heap.reach
      ((Operation.call (some (.counter 1)) []).roots twoCounters.machine) ⊆
        {.scope 0, .scope 1} := by
    apply Heap.reach_subset
    · apply Slot.refsOfAll_subset.mpr
      simp [Value.counter]
    · rintro r target (rfl | rfl) hlink
      · cases hlink with
        | parent hparent => simp [Heap.parent?, twoCounters] at hparent
        | binding hmem hrefs =>
            simp [Heap.bindings, twoCounters] at hmem
            simp [hmem.2, Slot.mem_refs, Value.ref?] at hrefs
      · cases hlink with
        | parent hparent =>
            simp [Heap.parent?, twoCounters] at hparent
            simp [← hparent]
        | binding hmem hrefs =>
            simp [Heap.bindings, twoCounters] at hmem
            simp [hmem.2, Slot.mem_refs, Value.ref?, Value.ofInt] at hrefs
  intro hmem
  simpa using hreach hmem

end ProtoLisp
