import ProtoLisp.Eval

/-!
# Disciplines of evaluation

A discipline says what may happen in the course of an evaluation: what holds of the heap throughout,
how the heap may change, which slots and scopes an evaluation may hold on to, and how it may fail.  It
is lawful if every single operation on the heap obeys it.

`Discipline.Keeps` is the statement that an evaluation step obeys a discipline however it ends, and
that it puts the current scope and the active calls back.  There is one rule for each operation of a
machine, and the rule for two steps in a row needs nothing but the laws.
-/

namespace ProtoLisp

/-- The failure with `complaint` while the calls of `stack` are active. -/
def EvalError.raised (stack : CallStack) (complaint : Complaint) : EvalError :=
  ⟨complaint, if stack.height = 0 then none else some stack⟩

/-- The condition of a complaint about a program that has room on the stack. -/
def Condition.IsOrdinary (condition : Condition) : Prop :=
  condition ≠ .stackExhausted ∧ ∀ code, condition ≠ .unknown code

@[simp]
theorem Condition.isOrdinary_iff {condition : Condition} :
    condition.IsOrdinary ↔ condition ≠ .stackExhausted ∧ ∀ code, condition ≠ .unknown code :=
  Iff.rfl

/-- What may happen in the course of an evaluation.  Of the evaluations themselves nothing is said
here: `Discipline.Lawful` asks for every single operation to be within the discipline, and
`Discipline.Keeps` says that a step is. -/
structure Discipline where
  /-- what holds of the heap all the time -/
  Sound : Heap → Prop
  /-- how the heap may change in the course of time -/
  Grows : Heap → Heap → Prop
  /-- the slots that an evaluation may hold -/
  Admits : Heap → Slot → Prop
  /-- the scopes in which an expression may be evaluated -/
  Enters : Heap → ScopeId → Prop
  /-- the expressions that may be evaluated -/
  Reads : Node → Prop
  /-- the failures that may be met while these calls are active -/
  Fails : CallStack → Failure → Prop

namespace Discipline

/-- All that a request refers to is admitted. -/
def Ready (D : Discipline) (m : Machine) : Request → Prop
  | .eval node => D.Reads node ∧ D.Enters m.heap m.scope
  | .call function args _ => D.Admits m.heap function ∧ ∀ arg ∈ args, D.Admits m.heap arg
  | .send target _ args =>
    D.Admits m.heap (some (.object target)) ∧ ∀ arg ∈ args, D.Admits m.heap arg

/-- What a step that found the machine `before` may leave behind. -/
structure Leaves (D : Discipline) (before after : Machine) : Prop where
  scope : after.scope = before.scope
  stack : after.stack = before.stack
  sound : D.Sound after.heap
  grows : D.Grows before.heap after.heap

/-- A change of the heap after which the scope `s` can be entered. -/
structure Opens (D : Discipline) (before after : Heap) (s : ScopeId) : Prop where
  sound : D.Sound after
  grows : D.Grows before after
  enters : D.Enters after s

/-- A script asks only for what it may, and ends only as it may, whatever the answers are. -/
def Obeys (D : Discipline) : Script → Machine → Prop
  | .finish result, m => ∀ v, result = some v → D.Admits m.heap (some v)
  | .complain complaint, m => D.Fails m.stack (.eval (.raised m.stack complaint))
  | .refuse text, m => D.Fails m.stack (.plain text)
  | .crash cause, m => D.Fails m.stack (.crash cause)
  | .ask request next, m =>
    D.Ready m request ∧ ∀ answer after, D.Leaves m after → D.Admits after.heap answer →
      D.Obeys (next answer) after
  | .height next, m => D.Obeys (next m.stack.height) m
  | .top next, m => D.Obeys (next m.stack.top?) m

/-- Every single operation of an evaluation is within the discipline. -/
structure Lawful (D : Discipline) (setup : Setup) : Prop where
  grows_refl : ∀ heap, D.Grows heap heap
  grows_trans : ∀ {first second third}, D.Grows first second → D.Grows second third →
    D.Grows first third
  admits_mono : ∀ {heap heap' slot}, D.Grows heap heap' → D.Admits heap slot → D.Admits heap' slot
  enters_mono : ∀ {heap heap' s}, D.Grows heap heap' → D.Enters heap s → D.Enters heap' s
  reads_arg : ∀ {name nodes node}, D.Reads (.call name nodes) → node ∈ nodes → D.Reads node
  reads_body : ∀ {heap name params body scope},
    D.Admits heap (some (.closure name params body scope)) → D.Reads body
  -- what an evaluation comes by
  admits_primitive : ∀ {heap v}, v.isPrimitive = true → D.Admits heap (some v)
  admits_closure : ∀ {heap s name params body}, D.Enters heap s → params.Nodup → D.Reads body →
    D.Admits heap (some (.closure name params body (some s)))
  admits_resolved : ∀ {heap s name slot}, D.Sound heap → D.Enters heap s →
    heap.resolve? s name = some slot → D.Admits heap slot
  admits_attribute : ∀ {heap o key slot}, D.Sound heap → D.Admits heap (some (.object o)) →
    heap.attribute? o key = some slot → D.Admits heap slot
  admits_prototype : ∀ {heap o proto}, D.Sound heap → D.Admits heap (some (.object o)) →
    heap.proto? o = some proto → D.Admits heap (some (.object proto))
  -- what it does to the heap
  opens_block : ∀ {heap s}, D.Sound heap → D.Enters heap s →
    D.Opens heap (heap.addScope (some s)) heap.nextScope
  opens_closure : ∀ {heap name params body scope}, D.Sound heap →
    D.Admits heap (some (.closure name params body scope)) →
    D.Opens heap (heap.addScope scope) heap.nextScope
  opens_object : ∀ {heap s name}, D.Sound heap → D.Enters heap s →
    D.Opens heap (heap.addObject name (some s)) heap.nextScope ∧
      D.Admits (heap.addObject name (some s)) (some (.object heap.nextObject))
  sound_put : ∀ {heap s name v}, D.Sound heap → D.Enters heap s → D.Admits heap (some v) →
    D.Sound (heap.put s name (some v)) ∧ D.Grows heap (heap.put s name (some v))
  sound_rebind : ∀ {heap s t name slot}, D.Sound heap → D.Enters heap s → D.Admits heap slot →
    heap.owner? s name = some t →
    D.Sound (heap.put t name slot) ∧ D.Grows heap (heap.put t name slot)
  sound_setField : ∀ {heap o name v}, D.Sound heap → D.Admits heap (some (.object o)) →
    D.Admits heap (some v) →
    D.Sound (heap.setField o name (some v)) ∧ D.Grows heap (heap.setField o name (some v))
  sound_linkPrototype : ∀ {heap o proto}, D.Sound heap → D.Admits heap (some (.object o)) →
    D.Admits heap (some (.object proto)) → heap.isInstance proto o = false →
    D.Sound (heap.linkPrototype o (some proto)) ∧ D.Grows heap (heap.linkPrototype o (some proto))
  -- how it fails
  fails_complaint : ∀ {stack complaint}, complaint.condition.IsOrdinary →
    D.Fails stack (.eval (.raised stack complaint))
  fails_exhausted : ∀ {stack : CallStack}, stack.isFull = true →
    D.Fails stack (.eval (.raised stack (.stackExhausted stack.maxHeight)))
  fails_absence : ∀ {heap stack}, D.Admits heap none → D.Fails stack (.crash .absence)
  fails_absentBinding : ∀ {heap stack}, D.Admits heap none → D.Fails stack (.crash .absentBinding)
  fails_overflow : ∀ {stack exponent}, Decimal.fits exponent = false →
    D.Fails stack (.crash (.exponentOverflow exponent))
  fails_tooDeep : ∀ {stack}, D.Fails stack .tooDeep
  fails_unwound : ∀ {stack : CallStack} {frame failure}, stack.isFull = false →
    D.Fails (stack.push frame) failure → D.Fails stack failure
  obeys_host : ∀ {m : Machine} {name key args}, D.Sound m.heap →
    D.Admits m.heap (some (.native name (.host key))) → (∀ arg ∈ args, D.Admits m.heap arg) →
    D.Obeys (setup.host key args) m

/-- From the sound machine `m`, the step `step` leaves a machine that it may leave: with a result that
satisfies `good`, or with a failure that may be met there. -/
def Keeps (D : Discipline) (m : Machine) (step : Run α) (good : Heap → α → Prop) : Prop :=
  D.Sound m.heap →
    match step m with
    | .ok a after => D.Leaves m after ∧ good after.heap a
    | .error failure after => D.Leaves m after ∧ D.Fails m.stack failure

section Rules

variable {D : Discipline} {setup : Setup} {m : Machine}

theorem Leaves.refl (hD : D.Lawful setup) (hsound : D.Sound m.heap) : D.Leaves m m :=
  ⟨rfl, rfl, hsound, hD.grows_refl _⟩

theorem Leaves.trans (hD : D.Lawful setup) {m₁ m₂ : Machine} (hfirst : D.Leaves m m₁)
    (hsecond : D.Leaves m₁ m₂) : D.Leaves m m₂ where
  scope := hsecond.scope.trans hfirst.scope
  stack := hsecond.stack.trans hfirst.stack
  sound := hsecond.sound
  grows := hD.grows_trans hfirst.grows hsecond.grows

theorem Leaves.enters (hD : D.Lawful setup) {after : Machine} (hleaves : D.Leaves m after)
    (henters : D.Enters m.heap m.scope) : D.Enters after.heap after.scope := by
  rw [hleaves.scope]
  exact hD.enters_mono hleaves.grows henters

theorem Leaves.admits_all (hD : D.Lawful setup) {after : Machine} (hleaves : D.Leaves m after)
    {slots : List Slot} (hslots : ∀ slot ∈ slots, D.Admits m.heap slot) :
    ∀ slot ∈ slots, D.Admits after.heap slot := by
  intro slot hslot
  exact hD.admits_mono hleaves.grows (hslots slot hslot)

/-! ### Results and failures -/

theorem keeps_pure (hD : D.Lawful setup) {a : α} {good : Heap → α → Prop}
    (hgood : D.Sound m.heap → good m.heap a) : D.Keeps m (pure a) good := by
  intro hsound
  exact ⟨Leaves.refl hD hsound, hgood hsound⟩

theorem keeps_bind (hD : D.Lawful setup) {step : Run α} {next : α → Run β}
    {good : Heap → α → Prop} {good' : Heap → β → Prop} (hstep : D.Keeps m step good)
    (hnext : ∀ a after, D.Leaves m after → good after.heap a → D.Keeps after (next a) good') :
    D.Keeps m (step >>= next) good' := by
  intro hsound
  have hfirst := hstep hsound
  show match EStateM.bind step next m with
    | .ok b after => D.Leaves m after ∧ good' after.heap b
    | .error failure after => D.Leaves m after ∧ D.Fails m.stack failure
  unfold EStateM.bind
  cases hrun : step m with
  | error failure after =>
      rw [hrun] at hfirst
      exact hfirst
  | ok a middle =>
      rw [hrun] at hfirst
      obtain ⟨hleaves, hgood⟩ := hfirst
      have hsecond := hnext a middle hleaves hgood hleaves.sound
      simp only
      cases hrest : next a middle with
      | ok b after =>
          rw [hrest] at hsecond
          exact ⟨hleaves.trans hD hsecond.1, hsecond.2⟩
      | error failure after =>
          rw [hrest] at hsecond
          rw [← hleaves.stack]
          exact ⟨hleaves.trans hD hsecond.1, hsecond.2⟩

/-- A step that fails on the spot. -/
theorem keeps_failing (hD : D.Lawful setup) {failure : Machine → Failure}
    {good : Heap → α → Prop} (hfails : D.Fails m.stack (failure m)) :
    D.Keeps m (fun m => .error (failure m) m) good := by
  intro hsound
  exact ⟨Leaves.refl hD hsound, hfails⟩

theorem keeps_complain (hD : D.Lawful setup) {complaint : Complaint} {good : Heap → α → Prop}
    (hcondition : complaint.condition.IsOrdinary) :
    D.Keeps m (Run.complain complaint) good :=
  keeps_failing hD (hD.fails_complaint hcondition)

/-- Within a step, the machine that it found may be taken to be sound. -/
theorem keeps_of_sound {step : Run α} {good : Heap → α → Prop}
    (hstep : D.Sound m.heap → D.Keeps m step good) : D.Keeps m step good :=
  fun hsound => hstep hsound hsound

/-- A step that looks at the machine leaves it alone. -/
theorem keeps_bind_looking {look : Machine → α} {next : α → Run β} {good : Heap → β → Prop}
    (hnext : D.Keeps m (next (look m)) good) :
    D.Keeps m ((fun m => .ok (look m) m : Run α) >>= next) good :=
  hnext

theorem keeps_bind_withHeap {look : Heap → α} {next : α → Run β} {good : Heap → β → Prop}
    (hnext : D.Keeps m (next (look m.heap)) good) : D.Keeps m (Run.withHeap look >>= next) good :=
  hnext

/-- A complaint that shows something of the heap. -/
theorem keeps_complain_showing (hD : D.Lawful setup) (shown : Heap → α)
    {complaint : α → Complaint} {good : Heap → β → Prop}
    (hcondition : ∀ a, (complaint a).condition.IsOrdinary) :
    D.Keeps m (do Run.complain (complaint (← Run.withHeap shown))) good :=
  keeps_bind_withHeap (keeps_complain hD (hcondition _))

theorem keeps_present (hD : D.Lawful setup) {slot : Slot} (hslot : D.Admits m.heap slot) :
    D.Keeps m (Run.present slot) fun heap v => slot = some v ∧ D.Admits heap (some v) := by
  cases slot with
  | some v => exact keeps_pure hD fun _ => ⟨rfl, hslot⟩
  | none => exact keeps_failing hD (hD.fails_absence hslot)

theorem Keeps.of_ok {after : Machine} {step : Run α} {good : Heap → α → Prop} {a : α}
    (hkeeps : D.Keeps m step good) (hsound : D.Sound m.heap) (hok : step m = .ok a after) :
    D.Leaves m after ∧ good after.heap a := by
  have hkept := hkeeps hsound
  rw [hok] at hkept
  exact hkept

theorem Keeps.of_error {after : Machine} {step : Run α} {good : Heap → α → Prop}
    {failure : Failure} (hkeeps : D.Keeps m step good) (hsound : D.Sound m.heap)
    (herror : step m = .error failure after) : D.Leaves m after ∧ D.Fails m.stack failure := by
  have hkept := hkeeps hsound
  rw [herror] at hkept
  exact hkept

/-! ### Changes of the heap -/

/-- A step that changes the heap and nothing else. -/
theorem keeps_changing {f : Machine → α} {change : Machine → Heap} {good : Heap → α → Prop}
    (hchange : D.Sound m.heap →
      (D.Sound (change m) ∧ D.Grows m.heap (change m)) ∧ good (change m) (f m)) :
    D.Keeps m (fun m => .ok (f m) { m with heap := change m }) good := by
  intro hsound
  obtain ⟨⟨hsound', hgrows⟩, hgood⟩ := hchange hsound
  exact ⟨⟨rfl, rfl, hsound', hgrows⟩, hgood⟩

theorem keeps_newBlock (hD : D.Lawful setup) (henters : D.Enters m.heap m.scope) :
    D.Keeps m (Run.newScope (some m.scope)) fun heap s => D.Enters heap s :=
  keeps_changing fun hsound =>
    have hopens := hD.opens_block hsound henters
    ⟨⟨hopens.sound, hopens.grows⟩, hopens.enters⟩

theorem keeps_newClosureScope (hD : D.Lawful setup) {name : String} {params : List String}
    {body : Node} {scope : Option ScopeId}
    (hclosure : D.Admits m.heap (some (.closure name params body scope))) :
    D.Keeps m (Run.newScope scope) fun heap s => D.Enters heap s :=
  keeps_changing fun hsound =>
    have hopens := hD.opens_closure hsound hclosure
    ⟨⟨hopens.sound, hopens.grows⟩, hopens.enters⟩

theorem keeps_newObject (hD : D.Lawful setup) (name : String) (henters : D.Enters m.heap m.scope) :
    D.Keeps m (Run.newObject name) fun heap (o, s) =>
      D.Enters heap s ∧ D.Admits heap (some (.object o)) :=
  keeps_changing fun hsound =>
    have hopens := hD.opens_object hsound henters
    ⟨⟨hopens.1.sound, hopens.1.grows⟩, hopens.1.enters, hopens.2⟩

theorem keeps_define (hD : D.Lawful setup) {s : ScopeId} {slot : Slot} (name : String)
    (henters : D.Enters m.heap s) (hslot : D.Admits m.heap slot) :
    D.Keeps m (Run.define s name slot) fun _ _ => True := by
  cases slot with
  | some v => exact keeps_changing fun hsound => ⟨hD.sound_put hsound henters hslot, trivial⟩
  | none => exact keeps_failing hD (hD.fails_absentBinding hslot)

theorem keeps_setField (hD : D.Lawful setup) {o : ObjectId} {slot : Slot} (name : String)
    (hobject : D.Admits m.heap (some (.object o))) (hslot : D.Admits m.heap slot) :
    D.Keeps m (Run.setField o name slot) fun _ _ => True := by
  cases slot with
  | some v => exact keeps_changing fun hsound => ⟨hD.sound_setField hsound hobject hslot, trivial⟩
  | none => exact keeps_failing hD (hD.fails_absentBinding hslot)

theorem keeps_rebind (hD : D.Lawful setup) {slot : Slot} (name : String)
    (henters : D.Enters m.heap m.scope) (hslot : D.Admits m.heap slot) :
    D.Keeps m (Run.rebind name slot) fun _ _ => True := by
  intro hsound
  unfold Run.rebind
  cases howner : m.heap.owner? m.scope name with
  | none => exact ⟨Leaves.refl hD hsound, trivial⟩
  | some t =>
      obtain ⟨hsound', hgrows⟩ := hD.sound_rebind hsound henters hslot howner
      exact ⟨⟨rfl, rfl, hsound', hgrows⟩, trivial⟩

theorem keeps_setPrototype (hD : D.Lawful setup) {o proto : ObjectId}
    (hobject : D.Admits m.heap (some (.object o)))
    (hproto : D.Admits m.heap (some (.object proto))) :
    D.Keeps m (Run.setPrototype o proto) fun _ _ => True := by
  intro hsound
  unfold Run.setPrototype
  by_cases hcyclic : m.heap.isInstance proto o
  · rw [if_pos hcyclic]
    exact ⟨Leaves.refl hD hsound, trivial⟩
  · rw [if_neg hcyclic]
    obtain ⟨hsound', hgrows⟩ :=
      hD.sound_linkPrototype hsound hobject hproto (Bool.of_not_eq_true hcyclic)
    exact ⟨⟨rfl, rfl, hsound', hgrows⟩, trivial⟩

/-! ### Changes for the duration of a step -/

theorem keeps_inScope {s : ScopeId} {step : Run α} {good : Heap → α → Prop}
    (hstep : D.Keeps { m with scope := s } step good) : D.Keeps m (Run.inScope s step) good := by
  intro hsound
  have hkept := hstep hsound
  unfold Run.inScope
  cases hrun : step { m with scope := s } with
  | ok a after =>
      simp only [hrun] at hkept ⊢
      exact ⟨⟨rfl, hkept.1.stack, hkept.1.sound, hkept.1.grows⟩, hkept.2⟩
  | error failure after =>
      simp only [hrun] at hkept ⊢
      exact ⟨⟨rfl, hkept.1.stack, hkept.1.sound, hkept.1.grows⟩, hkept.2⟩

/-- A machine on which a call has just ended still has the frame of that call. -/
theorem Leaves.height_ne_zero {frame : Frame} {after : Machine}
    (hleaves : D.Leaves { m with stack := m.stack.push frame } after) : after.stack.height ≠ 0 := by
  rw [hleaves.stack]
  simp [CallStack.height, CallStack.push]

theorem Leaves.popped {frame : Frame} {after : Machine}
    (hleaves : D.Leaves { m with stack := m.stack.push frame } after) :
    D.Leaves m { after with stack := after.stack.pop } where
  scope := hleaves.scope
  stack := by
    rw [hleaves.stack]
    exact CallStack.pop_push m.stack frame
  sound := hleaves.sound
  grows := hleaves.grows

theorem keeps_inCall (hD : D.Lawful setup) {frame : Frame} {step : Run α}
    {good : Heap → α → Prop}
    (hstep : D.Keeps { m with stack := m.stack.push frame } step good) :
    D.Keeps m (Run.inCall frame step) good := by
  intro hsound
  have hkept := hstep hsound
  unfold Run.inCall
  by_cases hfull : m.stack.isFull = true
  · rw [if_pos hfull]
    exact ⟨Leaves.refl hD hsound, hD.fails_exhausted hfull⟩
  · rw [if_neg hfull]
    have hroom := Bool.of_not_eq_true hfull
    -- The step has put the active calls back, so its own frame is the one taken away.
    cases hrun : step { m with stack := m.stack.push frame } with
    | ok a after =>
        simp only [hrun] at hkept
        simp only [Run.leaveCall, if_neg hkept.1.height_ne_zero]
        exact ⟨hkept.1.popped, hkept.2⟩
    | error failure after =>
        simp only [hrun] at hkept
        simp only [Run.leaveCall, if_neg hkept.1.height_ne_zero]
        exact ⟨hkept.1.popped, hD.fails_unwound hroom hkept.2⟩

end Rules

end Discipline

end ProtoLisp
