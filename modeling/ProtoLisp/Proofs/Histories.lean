import ProtoLisp.Proofs.DisciplinedEvaluation

/-!
# Histories of interpreters

What every deed preserves holds throughout every history, by induction over the deeds.

A law of the heap is a property together with a way to change, both of which every single change of a
heap obeys: a new scope, a new object, a binding, a link to a prototype.  An operation obeys every
law of the heap however it ends, and what a law says of a heap holds throughout every history.
-/

namespace ProtoLisp

/-! ## Laws of the heap -/

/-- A law of the heap: a single change of a sound heap leaves a sound one, and the change is among
those that `Grows` allows, as are any number of changes in a row.  Prototypes are linked only where no
circle arises. -/
structure Heap.Law (Sound : Heap → Prop) (Grows : Heap → Heap → Prop) : Prop where
  refl : ∀ heap, Grows heap heap
  trans : ∀ {first second third}, Grows first second → Grows second third → Grows first third
  addScope : ∀ {heap} parent, Sound heap →
    Sound (heap.addScope parent) ∧ Grows heap (heap.addScope parent)
  addObject : ∀ {heap} name parent, Sound heap →
    Sound (heap.addObject name parent) ∧ Grows heap (heap.addObject name parent)
  put : ∀ {heap} s name slot, Sound heap →
    Sound (heap.put s name slot) ∧ Grows heap (heap.put s name slot)
  linkPrototype : ∀ {heap} o proto, Sound heap →
    (∀ p, proto = some p → heap.isInstance p o = false) →
    Sound (heap.linkPrototype o proto) ∧ Grows heap (heap.linkPrototype o proto)

/-- The discipline that asks for nothing but a law of the heap. -/
def Discipline.ofHeap (Sound : Heap → Prop) (Grows : Heap → Heap → Prop) : Discipline where
  Sound := Sound
  Grows := Grows
  Admits _ _ := True
  Enters _ _ := True
  Reads _ := True
  Fails _ _ := True

/-- A prototype that is not refused is linked, and no circle arises. -/
theorem Heap.of_setPrototype? {heap linked : Heap} {o : ObjectId} {proto : Option ObjectId}
    (hlinked : heap.setPrototype? o proto = some linked) :
    linked = heap.linkPrototype o proto ∧ ∀ p, proto = some p → heap.isInstance p o = false := by
  unfold setPrototype? at hlinked
  cases proto with
  | none => exact ⟨(Option.some.inj hlinked).symm, nofun⟩
  | some p =>
      by_cases hcyclic : heap.isInstance p o = true
      · simp [hcyclic] at hlinked
      · simp only [if_neg hcyclic, Option.some.injEq] at hlinked
        refine ⟨hlinked.symm, ?_⟩
        rintro q ⟨⟩
        exact Bool.of_not_eq_true hcyclic

namespace Heap.Law

variable {Sound : Heap → Prop} {Grows : Heap → Heap → Prop}

theorem setField (hlaw : Law Sound Grows) {heap : Heap} (o : ObjectId) (name : String)
    (slot : Slot) (hsound : Sound heap) :
    Sound (heap.setField o name slot) ∧ Grows heap (heap.setField o name slot) := by
  unfold Heap.setField putOwn
  split
  next object _ => exact hlaw.put object.scope _ slot hsound
  · exact ⟨hsound, hlaw.refl heap⟩

theorem setPrototype? (hlaw : Law Sound Grows) {heap linked : Heap} {o : ObjectId}
    {proto : Option ObjectId} (hlinked : heap.setPrototype? o proto = some linked)
    (hsound : Sound heap) : Sound linked ∧ Grows heap linked := by
  obtain ⟨rfl, hacyclic⟩ := Heap.of_setPrototype? hlinked
  exact hlaw.linkPrototype o proto hsound hacyclic

theorem obeys (script : Script) (m : Machine) :
    (Discipline.ofHeap Sound Grows).Obeys script m := by
  induction script generalizing m with
  | finish result =>
      intro v _
      trivial
  | complain complaint => trivial
  | refuse text => trivial
  | crash cause => trivial
  | ask request next ih =>
      constructor
      · cases request <;> simp [Discipline.Ready, Discipline.ofHeap]
      · intro answer after _ _
        exact ih answer after
  | height next ih => exact ih _ m
  | top next ih => exact ih _ m

theorem lawful (hlaw : Law Sound Grows) (setup : Setup) :
    (Discipline.ofHeap Sound Grows).Lawful setup where
  grows_refl := hlaw.refl
  grows_trans := hlaw.trans
  admits_mono _ _ := trivial
  enters_mono _ _ := trivial
  reads_arg _ _ := trivial
  reads_body _ := trivial
  admits_primitive _ := trivial
  admits_closure _ _ _ := trivial
  admits_resolved _ _ _ := trivial
  admits_attribute _ _ _ := trivial
  admits_prototype _ _ _ := trivial
  opens_block := by
    intro heap s hsound _
    have hopened := hlaw.addScope (some s) hsound
    exact ⟨hopened.1, hopened.2, trivial⟩
  opens_closure := by
    intro heap _ _ _ scope hsound _
    have hopened := hlaw.addScope scope hsound
    exact ⟨hopened.1, hopened.2, trivial⟩
  opens_object := by
    intro heap s name hsound _
    have hopened := hlaw.addObject name (some s) hsound
    exact ⟨⟨hopened.1, hopened.2, trivial⟩, trivial⟩
  sound_put hsound _ _ := hlaw.put _ _ _ hsound
  sound_rebind hsound _ _ _ := hlaw.put _ _ _ hsound
  sound_setField hsound _ _ := hlaw.setField _ _ _ hsound
  sound_linkPrototype := by
    intro heap o proto hsound _ _ hacyclic
    apply hlaw.linkPrototype o (some proto) hsound
    intro p hp
    cases hp
    exact hacyclic
  fails_complaint _ := trivial
  fails_exhausted _ := trivial
  fails_absence _ := trivial
  fails_absentBinding _ := trivial
  fails_overflow _ := trivial
  fails_tooDeep := trivial
  fails_unwound _ _ := trivial
  obeys_host _ _ _ := obeys _ _

theorem ready (m : Machine) (request : Request) :
    (Discipline.ofHeap Sound Grows).Ready m request := by
  cases request <;> simp [Discipline.Ready, Discipline.ofHeap]

theorem allows (m : Machine) (operation : Operation) :
    (Discipline.ofHeap Sound Grows).Allows m operation := by
  cases operation <;> simp [Discipline.Allows, Discipline.ofHeap]

/-- Every operation obeys every law of the heap, however it ends. -/
theorem operate (hlaw : Law Sound Grows) (interpreter : Interpreter)
    (hsound : Sound interpreter.machine.heap) (depth : Nat) (operation : Operation) :
    Sound (interpreter.operate depth operation).2.machine.heap ∧
      Grows interpreter.machine.heap (interpreter.operate depth operation).2.machine.heap := by
  have hends := Discipline.operate (hlaw.lawful interpreter.setup) hsound depth operation
    (allows interpreter.machine operation)
  exact ⟨hends.leaves.sound, hends.leaves.grows⟩

theorem serves (hlaw : Law Sound Grows) (setup : Setup) (depth : Nat) :
    (Discipline.ofHeap Sound Grows).Serves (Eval.run setup depth) :=
  Discipline.serves_run (hlaw.lawful setup) depth

/-- How a heap has changed since it was `base` is something that holds of it all the time. -/
theorem since (hlaw : Law (fun _ => True) Grows) (base : Heap) :
    Law (Grows base) fun _ _ => True where
  refl _ := trivial
  trans _ _ := trivial
  addScope parent hbase := ⟨hlaw.trans hbase (hlaw.addScope parent trivial).2, trivial⟩
  addObject name parent hbase := ⟨hlaw.trans hbase (hlaw.addObject name parent trivial).2, trivial⟩
  put s name slot hbase := ⟨hlaw.trans hbase (hlaw.put s name slot trivial).2, trivial⟩
  linkPrototype o proto hbase hacyclic :=
    ⟨hlaw.trans hbase (hlaw.linkPrototype o proto trivial hacyclic).2, trivial⟩

end Heap.Law

/-! ## Deeds -/

namespace Interpreter

theorem exists_of_perform_ok {α : Type} {interpreter after : Interpreter} {step : Run α} {a : α}
    (hperform : interpreter.perform step = (.ok a, after)) :
    ∃ m, step interpreter.machine = .ok a m ∧ after = { interpreter with machine := m } := by
  unfold perform at hperform
  split at hperform
  next other m hrun =>
    cases hperform
    exact ⟨m, hrun, rfl⟩
  · cases hperform

theorem exists_of_perform_error {α : Type} {interpreter after : Interpreter} {step : Run α}
    {failure : Failure} (hperform : interpreter.perform step = (.error failure, after)) :
    ∃ m, step interpreter.machine = .error failure m ∧
      after = { interpreter with machine := m } := by
  unfold perform at hperform
  split at hperform
  · cases hperform
  next other m hrun =>
    cases hperform
    exact ⟨m, hrun, rfl⟩

theorem history_induction {host : Host} {P : Interpreter → Prop} {deeds : List Deed}
    (hinitial : P (initial host))
    (hhandle : ∀ interpreter, ∀ deed ∈ deeds, P interpreter → P (interpreter.handle deed)) :
    P (history host deeds) := by
  unfold history
  generalize initial host = interpreter at hinitial
  induction deeds generalizing interpreter with
  | nil => exact hinitial
  | cons deed deeds ih =>
      apply ih
      · intro other later hlater
        exact hhandle other later (List.mem_cons_of_mem _ hlater)
      · exact hhandle interpreter deed List.mem_cons_self hinitial

/-- To build an interpreter is to make all the choices. -/
theorem eq_history_of_build {host : Host} {choices : List Choice} {interpreter : Interpreter}
    (hbuild : build host choices = .ok interpreter) :
    interpreter = history host (choices.map .choose) := by
  unfold build at hbuild
  unfold history
  generalize initial host = start at hbuild ⊢
  induction choices generalizing start with
  | nil =>
      cases hbuild
      rfl
  | cons choice choices ih =>
      rw [List.foldlM_cons] at hbuild
      cases hchosen : start.choose choice with
      | error failure =>
          rw [hchosen] at hbuild
          cases hbuild
      | ok chosen =>
          rw [hchosen] at hbuild
          have hhandled : start.handle (.choose choice) = chosen := by
            simp [handle, hchosen]
          rw [List.map_cons, List.foldl_cons, hhandled]
          exact ih chosen hbuild

theorem eq_of_bind_ok {outcome : Except Failure Unit × Interpreter} {chosen : Interpreter}
    (hchosen : (do outcome.1; return outcome.2 : Except Failure Interpreter) = .ok chosen) :
    chosen = outcome.2 := by
  obtain ⟨result, bound⟩ := outcome
  cases result with
  | error failure => cases hchosen
  | ok _ =>
      cases hchosen
      rfl

/-- A choice leaves the heap alone or binds a global name, to what was chosen for it or to a native
function. -/
theorem heap_of_choose {interpreter chosen : Interpreter} {choice : Choice}
    (hchosen : interpreter.choose choice = .ok chosen) :
    chosen.machine.heap = interpreter.machine.heap ∨
      ∃ name slot, (choice = .global name slot ∨ ∃ body, slot = some (.native name body)) ∧
        chosen = (interpreter.perform (bindGlobal interpreter.global name slot)).2 := by
  cases choice with
  | maxStackHeight n =>
      cases hchosen
      exact .inl rfl
  | divisionPrecision n =>
      simp only [choose] at hchosen
      split at hchosen
      · cases hchosen
      · cases hchosen
        exact .inl rfl
  | reader =>
      cases hchosen
      exact .inl rfl
  | «global» name slot => exact .inr ⟨name, slot, .inl rfl, eq_of_bind_ok hchosen⟩
  | builtin name body =>
      exact .inr ⟨name, some (.native name body), .inr ⟨body, rfl⟩, eq_of_bind_ok hchosen⟩

theorem setup_perform {α : Type} (interpreter : Interpreter) (step : Run α) :
    (interpreter.perform step).2.setup = interpreter.setup := by
  unfold perform
  split <;> rfl

theorem setup_operate (interpreter : Interpreter) (depth : Nat) (operation : Operation) :
    (interpreter.operate depth operation).2.setup = interpreter.setup := by
  cases operation with
  | load source =>
      simp only [operate, load]
      split
      · cases readProgram source with
        | error error => rfl
        | ok nodes => exact setup_perform _ _
      · rfl
  | _ => exact setup_perform _ _

theorem global_perform {α : Type} (interpreter : Interpreter) (step : Run α) :
    (interpreter.perform step).2.global = interpreter.global := by
  unfold perform
  split <;> rfl

theorem host_choose {interpreter chosen : Interpreter} {choice : Choice}
    (hchosen : interpreter.choose choice = .ok chosen) :
    chosen.setup.host = interpreter.setup.host := by
  cases choice with
  | maxStackHeight n =>
      cases hchosen
      rfl
  | divisionPrecision n =>
      simp only [choose] at hchosen
      split at hchosen
      · cases hchosen
      · cases hchosen
        rfl
  | reader =>
      cases hchosen
      rfl
  | «global» name slot =>
      have hbound : chosen = (interpreter.perform (bindGlobal interpreter.global name slot)).2 :=
        eq_of_bind_ok hchosen
      rw [hbound, setup_perform]
  | builtin name body =>
      have hbound : chosen = (interpreter.perform
          (bindGlobal interpreter.global name (some (.native name body)))).2 :=
        eq_of_bind_ok hchosen
      rw [hbound, setup_perform]

/-- An interpreter keeps its host. -/
theorem host_history (host : Host) (deeds : List Deed) : (history host deeds).setup.host = host := by
  apply history_induction (P := fun interpreter => interpreter.setup.host = host) rfl
  intro interpreter deed _ hhost
  cases deed with
  | choose choice =>
      simp only [handle]
      cases hchosen : interpreter.choose choice with
      | error failure => exact hhost
      | ok chosen => exact (host_choose hchosen).trans hhost
  | addBuiltins builtins =>
      simp only [handle, addBuiltins, setup_perform]
      exact hhost
  | operate depth operation =>
      simp only [handle, setup_operate]
      exact hhost
  | makeObject name parent => exact hhost
  | setPrototype o proto =>
      simp only [handle]
      split <;> exact hhost

end Interpreter

/-! ## Laws throughout a history -/

namespace Discipline

variable {D : Discipline} {setup : Setup} {m : Machine} {global : ScopeId}

theorem leaves_perform {α : Type} {interpreter : Interpreter} {step : Run α}
    {good : Heap → α → Prop} (hsound : D.Sound interpreter.machine.heap)
    (hstep : D.Keeps interpreter.machine step good) :
    D.Leaves interpreter.machine (interpreter.perform step).2.machine := by
  have hkept := hstep hsound
  unfold Interpreter.perform
  cases hrun : step interpreter.machine with
  | ok a after =>
      rw [hrun] at hkept
      exact hkept.1
  | error failure after =>
      rw [hrun] at hkept
      exact hkept.1

/-- A host that binds a name fails in its own way, so all failures have to be allowed. -/
theorem keeps_bindGlobal (hD : D.Lawful setup) (hfails : ∀ stack failure, D.Fails stack failure)
    (henters : D.Enters m.heap global) (name : String) {slot : Slot}
    (hslot : ∀ v, slot = some v → D.Admits m.heap (some v)) :
    D.Keeps m (Interpreter.bindGlobal global name slot) fun _ _ => True := by
  apply keeps_bind_withHeap
  split
  · exact keeps_failing hD (hfails _ _)
  · cases slot with
    | none => exact keeps_failing hD (hfails _ _)
    | some v => exact keeps_define hD name henters (hslot v rfl)

theorem keeps_bindBuiltins (hD : D.Lawful setup) (hfails : ∀ stack failure, D.Fails stack failure)
    (hnative : ∀ heap name body, D.Admits heap (some (.native name body)))
    (henters : D.Enters m.heap global) (builtins : List (String × Native)) :
    D.Keeps m (Interpreter.bindBuiltins global builtins) fun _ _ => True := by
  induction builtins generalizing m with
  | nil => exact keeps_pure hD fun _ => trivial
  | cons builtin builtins ih =>
      apply keeps_bind_withHeap
      split
      · exact keeps_failing hD (hfails _ _)
      · apply keeps_bind hD (keeps_define hD builtin.1 henters (hnative _ _ _))
        intro _ bound hleaves _
        exact ih (hD.enters_mono hleaves.grows henters)

end Discipline

namespace Heap.Law

variable {Sound : Heap → Prop} {Grows : Heap → Heap → Prop}

theorem choose (hlaw : Law Sound Grows) {interpreter chosen : Interpreter} {choice : Choice}
    (hchosen : interpreter.choose choice = .ok chosen) (hsound : Sound interpreter.machine.heap) :
    Sound chosen.machine.heap := by
  rcases Interpreter.heap_of_choose hchosen with hheap | ⟨name, slot, -, hbound⟩
  · rw [hheap]
    exact hsound
  · have hkeeps : (Discipline.ofHeap Sound Grows).Keeps interpreter.machine
        (Interpreter.bindGlobal interpreter.global name slot) fun _ _ => True :=
      Discipline.keeps_bindGlobal (hlaw.lawful interpreter.setup) (fun _ _ => trivial) trivial name
        fun _ _ => trivial
    rw [hbound]
    exact (Discipline.leaves_perform hsound hkeeps).sound

theorem handle (hlaw : Law Sound Grows) {interpreter : Interpreter} (deed : Deed)
    (hsound : Sound interpreter.machine.heap) :
    Sound (interpreter.handle deed).machine.heap := by
  cases deed with
  | choose choice =>
      simp only [Interpreter.handle]
      cases hchosen : interpreter.choose choice with
      | error failure => exact hsound
      | ok chosen => exact hlaw.choose hchosen hsound
  | addBuiltins builtins =>
      have hkeeps : (Discipline.ofHeap Sound Grows).Keeps interpreter.machine
          (Interpreter.bindBuiltins interpreter.global
            (if builtins.isEmpty then Interpreter.defaultBuiltins else builtins)) fun _ _ => True :=
        Discipline.keeps_bindBuiltins (hlaw.lawful interpreter.setup) (fun _ _ => trivial)
          (fun _ _ _ => trivial) trivial _
      exact (Discipline.leaves_perform hsound hkeeps).sound
  | operate depth operation => exact (hlaw.operate interpreter hsound depth operation).1
  | makeObject name parent => exact (hlaw.addObject name parent hsound).1
  | setPrototype o proto =>
      simp only [Interpreter.handle]
      cases hlinked : interpreter.machine.heap.setPrototype? o proto with
      | none => exact hsound
      | some linked => exact (hlaw.setPrototype? hlinked hsound).1

theorem later (hlaw : Law Sound Grows) {interpreter : Interpreter}
    (hsound : Sound interpreter.machine.heap) (deeds : List Deed) :
    Sound (deeds.foldl Interpreter.handle interpreter).machine.heap := by
  induction deeds generalizing interpreter with
  | nil => exact hsound
  | cons deed deeds ih => exact ih (hlaw.handle deed hsound)

/-- What a law says of the heap of a new interpreter holds throughout every history. -/
theorem history (hlaw : Law Sound Grows) (hinitial : Sound Interpreter.initialHeap) (host : Host)
    (deeds : List Deed) : Sound (Interpreter.history host deeds).machine.heap :=
  hlaw.later hinitial deeds

end Heap.Law

/-! ## Programs find a sound heap -/

namespace Discipline

variable {D : Discipline} {setup : Setup} {heap : Heap} {s : ScopeId}

/-- The heap is sound, and expressions can be evaluated in the scope `s`. -/
def Settles (D : Discipline) (heap : Heap) (s : ScopeId) : Prop := D.Sound heap ∧ D.Enters heap s

theorem Settles.put (hD : D.Lawful setup) (hsettles : D.Settles heap s) (name : String) {v : Value}
    (hv : D.Admits heap (some v)) : D.Settles (heap.put s name (some v)) s := by
  obtain ⟨hsound, hgrows⟩ := hD.sound_put hsettles.1 hsettles.2 hv
  exact ⟨hsound, hD.enters_mono hgrows hsettles.2⟩

theorem Settles.addObject (hD : D.Lawful setup) (hsettles : D.Settles heap s) (name : String) :
    D.Settles (heap.addObject name (some s)) s ∧
      D.Admits (heap.addObject name (some s)) (some (.object heap.nextObject)) := by
  obtain ⟨hopens, hobject⟩ := hD.opens_object hsettles.1 hsettles.2
  exact ⟨⟨hopens.sound, hD.enters_mono hopens.grows hsettles.2⟩, hobject⟩

theorem Settles.putOperators (hD : D.Lawful setup) (hsettles : D.Settles heap s)
    (hadmits : ∀ (heap : Heap) (operator : Operator),
      D.Admits heap (some (.native operator.name (.operator operator))))
    (operators : List Operator) :
    D.Settles ((operators.map fun operator => (operator.name, Native.operator operator)).foldl
      (fun heap (name, body) => heap.put s name (some (.native name body))) heap) s := by
  induction operators generalizing heap with
  | nil => exact hsettles
  | cons operator operators ih => exact ih (hsettles.put hD _ (hadmits heap operator))

/-- A new interpreter settles, if its empty global scope does. -/
theorem settles_initialHeap (hD : D.Lawful setup)
    (hglobal : D.Settles (Heap.empty.addScope none) 0)
    (hadmits : ∀ (heap : Heap) (operator : Operator),
      D.Admits heap (some (.native operator.name (.operator operator)))) :
    D.Settles Interpreter.initialHeap 0 := by
  have hnull := hglobal.put hD "null" (hD.admits_primitive (v := .null) rfl)
  have hbuiltins := hnull.putOperators hD hadmits Operator.all
  obtain ⟨hobject, hroot⟩ := hbuiltins.addObject hD Interpreter.rootName
  exact hobject.put hD Interpreter.rootName hroot

theorem Settles.operate {interpreter : Interpreter} (hD : D.Lawful interpreter.setup)
    (hsettles : D.Settles interpreter.machine.heap interpreter.machine.scope) (depth : Nat)
    {operation : Operation} (hallows : D.Allows interpreter.machine operation) :
    D.Settles (interpreter.operate depth operation).2.machine.heap
      (interpreter.operate depth operation).2.machine.scope := by
  have hends := Discipline.operate hD hsettles.1 depth operation hallows
  exact ⟨hends.leaves.sound, hends.leaves.enters hD hsettles.2⟩

end Discipline

end ProtoLisp
