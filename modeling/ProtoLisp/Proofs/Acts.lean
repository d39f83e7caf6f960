import ProtoLisp.Proofs.Course
import ProtoLisp.Proofs.Restoration

/-!
# What a task does itself

Apart from its parts, a task does little itself: it looks something up, makes a scope or an object,
binds or rebinds a name, sets a field, links a prototype, calculates or fails.  `Task.Act` lists all
of these, each with what makes the task do it: a field is only set by a selector that says so, and a
name is only bound in the scope in which an expression is evaluated, or in a scope made for the
task.

`Run.Traced` says that a step is put together from such acts.  So whatever is different after a
task, some act has changed, and a failure is the failure of some act.
-/

namespace ProtoLisp

/-! ## Steps made of acts -/

/-- From the machine `m`, the step is put together from acts, each on the machine that it finds. -/
inductive Run.Traced (Act : ⦃α : Type⦄ → Run α → Machine → Prop) :
    ⦃α : Type⦄ → Run α → Machine → Prop where
  | act {α : Type} {step : Run α} {m : Machine} (hact : Act step m) : Traced Act step m
  | bind {α β : Type} {step : Run α} {next : α → Run β} {m : Machine} (hstep : Traced Act step m)
      (hnext : ∀ a middle, step m = .ok a middle → Traced Act (next a) middle) :
      Traced Act (step >>= next) m
  | inScope {α : Type} {body : Run α} {s : ScopeId} {m : Machine}
      (hbody : Traced Act body { m with scope := s }) : Traced Act (Run.inScope s body) m
  | inCall {α : Type} {body : Run α} {frame : Frame} {m : Machine}
      (hbody : m.stack.isFull = false → Traced Act body (m.inCall frame)) :
      Traced Act (Run.inCall frame body) m

namespace Run

variable {α : Type} {Act : ⦃α : Type⦄ → Run α → Machine → Prop} {step : Run α} {m : Machine}

/-- What holds of the heap after a step and not before, some act has brought about. -/
theorem Traced.exists_act_of_after (htraced : Traced Act step m) {Q : Heap → Prop}
    (hbefore : ¬ Q m.heap) (hafter : Q (step.after m).heap) :
    ∃ (β : Type) (act : Run β) (found : Machine), Act act found ∧ ¬ Q found.heap ∧
      Q (act.after found).heap := by
  induction htraced with
  | @act α step m hact => exact ⟨α, step, m, hact, hbefore, hafter⟩
  | @bind _ _ step next m _ _ ih ihnext =>
      cases hrun : step m with
      | error failure middle =>
          rw [after_of_error (bind_of_error hrun next)] at hafter
          apply ih hbefore
          rw [after_of_error hrun]
          exact hafter
      | ok a middle =>
          have hrest : (step >>= next).after m = (next a).after middle := by
            simp only [Run.after, bind_of_ok hrun]
          rw [hrest] at hafter
          by_cases hmiddle : Q middle.heap
          · apply ih hbefore
            rw [after_of_ok hrun]
            exact hmiddle
          · exact ihnext a middle hrun hmiddle hafter
  | inScope _ ih =>
      rw [heap_after_inScope] at hafter
      exact ih hbefore hafter
  | @inCall _ body frame m _ ih =>
      cases hfull : m.stack.isFull with
      | true =>
          rw [after_of_error (inCall_of_full hfull frame body)] at hafter
          exact absurd hafter hbefore
      | false =>
          rw [heap_after_inCall body hfull] at hafter
          exact ih hfull hbefore hafter

/-- A step that ends with a crash ends with the crash of some act. -/
theorem Traced.exists_act_of_crash (htraced : Traced Act step m) {cause : Crash} {after : Machine}
    (hcause : cause ≠ .emptyStack) (herror : step m = .error (.crash cause) after) :
    ∃ (β : Type) (act : Run β) (found last : Machine), Act act found ∧
      act found = .error (.crash cause) last := by
  induction htraced generalizing after with
  | @act α step m hact => exact ⟨α, step, m, after, hact, herror⟩
  | @bind _ _ step next m _ _ ih ihnext =>
      cases hrun : step m with
      | error failure middle =>
          rw [bind_of_error hrun] at herror
          cases herror
          exact ih hrun
      | ok a middle =>
          rw [bind_of_ok hrun] at herror
          exact ihnext a middle hrun herror
  | @inScope _ body s m _ ih =>
      unfold Run.inScope at herror
      cases hrun : body { m with scope := s } with
      | ok a middle =>
          simp only [hrun] at herror
          cases herror
      | error failure middle =>
          simp only [hrun] at herror
          cases herror
          exact ih hrun
  | @inCall _ body frame m _ ih =>
      cases hfull : m.stack.isFull with
      | true =>
          rw [inCall_of_full hfull] at herror
          cases herror
      | false =>
          have hinside : Run.inCall frame body m = leaveCall (body (m.inCall frame)) :=
            inCall_of_room hfull frame body
          rw [hinside] at herror
          cases hrun : body (m.inCall frame) with
          | ok a middle =>
              simp only [hrun, leaveCall] at herror
              split at herror
              · cases herror
                exact (hcause rfl).elim
              · cases herror
          | error failure middle =>
              simp only [hrun, leaveCall] at herror
              split at herror
              · cases herror
                exact (hcause rfl).elim
              · cases herror
                exact ih hfull hrun

end Run

/-! ## Idle steps -/

/-- The step looks at nothing but the active calls, and changes nothing. -/
def Run.Idle {α : Type} (step : Run α) : Prop :=
  ∃ outcome : CallStack → Except Failure α, ∀ m, step m =
    match outcome m.stack with
    | .ok a => .ok a m
    | .error failure => .error failure m

namespace Run

variable {α : Type}

theorem idle_pure (a : α) : Idle (pure a : Run α) := ⟨fun _ => .ok a, fun _ => rfl⟩

theorem idle_complain (complaint : Complaint) : Idle (complain complaint : Run α) :=
  ⟨fun stack => .error (.eval (.raised stack complaint)), fun _ => rfl⟩

theorem idle_failing (failure : Failure) : Idle (fun m => .error failure m : Run α) :=
  ⟨fun _ => .error failure, fun _ => rfl⟩

theorem idle_looking (look : CallStack → α) : Idle (fun m => .ok (look m.stack) m : Run α) :=
  ⟨fun stack => .ok (look stack), fun _ => rfl⟩

theorem Idle.after {step : Run α} (hidle : step.Idle) (m : Machine) : step.after m = m := by
  obtain ⟨outcome, houtcome⟩ := hidle
  unfold Run.after
  rw [houtcome]
  cases outcome m.stack <;> rfl

end Run

namespace Operator

open Run

theorem idle_multiply (product : Decimal) (ds : List Decimal) : Idle (multiply product ds) := by
  induction ds generalizing product with
  | nil => exact idle_pure product
  | cons d ds ih =>
      rw [multiply]
      cases product.mul? d with
      | none => exact idle_failing _
      | some next => exact ih next

theorem idle_divide (precision : Int32) (quotient : Decimal) (ds : List Decimal) :
    Idle (divide precision quotient ds) := by
  induction ds generalizing quotient with
  | nil => exact idle_pure quotient
  | cons d ds ih =>
      rw [divide]
      by_cases hzero : d.isZero = true
      · rw [if_pos hzero]
        exact idle_complain _
      · rw [if_neg hzero]
        cases quotient.quotient? d precision with
        | none => exact idle_failing _
        | some next => exact ih next

theorem idle_calculate (precision : Int32) (operator : Operator) (ds : List Decimal) :
    Idle (operator.calculate precision ds) := by
  unfold calculate
  split
  · exact idle_pure _
  · exact idle_complain _
  · exact idle_pure _
  · exact idle_pure _
  · exact idle_multiply _ _
  · exact idle_complain _
  · exact idle_divide _ _ _
  · exact idle_divide _ _ _

end Operator

/-! ## Acts -/

/-- What of the heap a task looks at, by way of the values that it holds. -/
inductive Discipline.Views (D : Discipline) (heap : Heap) : {α : Type} → (Heap → α) → Prop where
  | exhibit {v : Value} (hv : D.Admits heap (some v)) : Views D heap (·.exhibit v)
  | text {o : ObjectId} (ho : D.Admits heap (some (.object o))) :
      Views D heap (·.text (some (.object o)))
  | lookup {o : ObjectId} {key : String} (ho : D.Admits heap (some (.object o))) :
      Views D heap (·.attribute? o key)
  | prototype {o : ObjectId} (ho : D.Admits heap (some (.object o))) : Views D heap (·.proto? o)
  | isInstance {o candidate : ObjectId} (ho : D.Admits heap (some (.object o))) :
      Views D heap (·.isInstance o candidate)
  | objectName {o : ObjectId} (ho : D.Admits heap (some (.object o))) :
      Views D heap (·.objectName o)
  | objectLabel {o : ObjectId} (ho : D.Admits heap (some (.object o))) :
      Views D heap (·.objectLabel o)

/-- What a task asks the current scope for. -/
inductive Heap.Reading : {α : Type} → (Heap → ScopeId → α) → Prop where
  | resolve {name : String} : Reading fun heap s => heap.resolve? s name
  | bound {name : String} : Reading fun heap s => (heap.ownBinding? s name).isSome
  | here : Reading fun _ s => s

/-- The task itself does `step`, on the machine `m` that it finds then.  `D` is a discipline that the
task is within. -/
inductive Task.Act (setup : Setup) (D : Discipline) (task : Task) :
    ⦃α : Type⦄ → Run α → Machine → Prop where
  | part {depth : Nat} {request : Request} {m : Machine}
      (hpart : Part setup task ⟨depth, request, m⟩) : Act setup D task (Eval.run setup depth request) m
  | gives {α : Type} {a : α} {m : Machine} : Act setup D task (pure a) m
  | complains {α : Type} {complaint : Complaint} {m : Machine} :
      Act setup D task (Run.complain complaint : Run α) m
  | refuses {α : Type} {text : String} {m : Machine} :
      Act setup D task (Run.refuse text : Run α) m
  | lacks {α : Type} {cause : Crash} {m : Machine}
      (hcause : cause = .absence ∨ cause = .absentBinding) :
      Act setup D task (Run.crash cause : Run α) m
  | raises {α : Type} {cause : Crash} {name key receiver : String} {args : List Slot} {m : Machine}
      (hrequest : task.request = .call (some (.native name (.host key))) args receiver)
      (hraises : (setup.host key args).Raises cause) : Act setup D task (Run.crash cause : Run α) m
  | calculates {name receiver : String} {operator : Operator} {ds : List Decimal} {m : Machine}
      (hrequest : task.request = .call (some (.native name (.operator operator)))
        (ds.map fun d => some (.number d)) receiver) :
      Act setup D task (operator.calculate setup.precision ds) m
  | counts {α : Type} {look : CallStack → α} {m : Machine} :
      Act setup D task (fun m => .ok (look m.stack) m) m
  | views {α : Type} {look : Heap → α} {m : Machine} (hsound : D.Sound m.heap)
      (hviews : D.Views m.heap look) : Act setup D task (Run.withHeap look) m
  | reads {α : Type} {look : Heap → ScopeId → α} {m : Machine} (hsound : D.Sound m.heap)
      (henters : D.Enters m.heap m.scope) (hreading : Heap.Reading look) :
      Act setup D task (fun m => .ok (look m.heap m.scope) m) m
  | opens {parent : Option ScopeId} {m : Machine} : Act setup D task (Run.newScope parent) m
  | makes {name : String} {m : Machine} : Act setup D task (Run.newObject name) m
  | defines {s : ScopeId} {name : String} {v : Value} {m : Machine} (hsound : D.Sound m.heap)
      (henters : D.Enters m.heap s)
      (hplace : (∃ nodes, task.request = .eval (.call "def" nodes)) ∧ s = task.machine.scope ∨
        task.machine.heap.nextScope ≤ s) :
      Act setup D task (Run.define s name (some v)) m
  | rebinds {name : String} {slot : Slot} {m : Machine} (hsound : D.Sound m.heap)
      (henters : D.Enters m.heap m.scope) : Act setup D task (Run.rebind name slot) m
  | sets {o : ObjectId} {selector field : String} {v : Value} (hsound : D.Sound task.machine.heap)
      (ho : D.Admits task.machine.heap (some (.object o)))
      (hrequest : task.request = .send o selector [some v]) (hselector : selector ≠ ".prototype=")
      (hfield : Eval.setterField? (Heap.stripDot selector) = some field) :
      Act setup D task (Run.setField o field (some v)) task.machine
  | links {o proto : ObjectId} {m : Machine} (hsound : D.Sound m.heap)
      (ho : D.Admits m.heap (some (.object o))) (hproto : D.Admits m.heap (some (.object proto))) :
      Act setup D task (Run.setPrototype o proto) m

/-! ## Forms -/

namespace Eval

open Run

variable {setup : Setup} {D : Discipline} {task : Task} {m : Machine}

section Rules

variable {α β : Type}

theorem traced_pure (a : α) : Traced (task.Act setup D) (pure a) m := .act .gives

theorem traced_complain (complaint : Complaint) :
    Traced (task.Act setup D) (complain complaint : Run α) m := .act .complains

theorem traced_looking {look : Machine → α} {next : α → Run β}
    (hlook : task.Act setup D (fun m => .ok (look m) m : Run α) m)
    (hnext : Traced (task.Act setup D) (next (look m)) m) :
    Traced (task.Act setup D) ((fun m => .ok (look m) m : Run α) >>= next) m := by
  refine .bind (.act hlook) ?_
  intro a middle hok
  cases hok
  exact hnext

theorem traced_viewing {look : Heap → α} {next : α → Run β} (hsound : D.Sound m.heap)
    (hviews : D.Views m.heap look) (hnext : Traced (task.Act setup D) (next (look m.heap)) m) :
    Traced (task.Act setup D) (withHeap look >>= next) m :=
  traced_looking (.views hsound hviews) hnext

theorem traced_reading {look : Heap → ScopeId → α} {next : α → Run β} (hsound : D.Sound m.heap)
    (henters : D.Enters m.heap m.scope) (hreading : Heap.Reading look)
    (hnext : Traced (task.Act setup D) (next (look m.heap m.scope)) m) :
    Traced (task.Act setup D) ((fun m => .ok (look m.heap m.scope) m : Run α) >>= next) m :=
  traced_looking (.reads hsound henters hreading) hnext

theorem traced_complain_showing {look : Heap → β} (hsound : D.Sound m.heap)
    (hviews : D.Views m.heap look) (complaint : β → Complaint) :
    Traced (task.Act setup D) (do complain (complaint (← withHeap look)) : Run α) m :=
  traced_viewing hsound hviews (traced_complain _)

theorem traced_present (slot : Slot) : Traced (task.Act setup D) (present slot) m := by
  cases slot with
  | none => exact .act (.lacks (.inl rfl))
  | some v => exact traced_pure v

theorem eq_of_present {slot : Slot} {v : Value} {middle : Machine}
    (hok : present slot m = .ok v middle) : slot = some v ∧ middle = m := by
  cases slot with
  | none => cases hok
  | some w =>
      cases hok
      exact ⟨rfl, rfl⟩

theorem traced_define {s : ScopeId} (name : String) (slot : Slot) (hsound : D.Sound m.heap)
    (henters : D.Enters m.heap s)
    (hplace : (∃ nodes, task.request = .eval (.call "def" nodes)) ∧ s = task.machine.scope ∨
      task.machine.heap.nextScope ≤ s) :
    Traced (task.Act setup D) (define s name slot) m := by
  cases slot with
  | none => exact .act (.lacks (.inr rfl))
  | some v => exact .act (.defines hsound henters hplace)

theorem traced_orComplain (result : Except Complaint α) :
    Traced (task.Act setup D) (orComplain result) m := by
  cases result with
  | ok a => exact traced_pure a
  | error complaint => exact traced_complain complaint

theorem eq_of_orComplain {result : Except Complaint α} {a : α} {middle : Machine}
    (hok : orComplain result m = .ok a middle) : middle = m := by
  cases result with
  | ok b =>
      cases hok
      rfl
  | error complaint => cases hok

end Rules

/-! ### Sequences -/

section Lists

variable {evaluate : Request → Run Slot}

theorem traced_args {done : List Slot} {nodes : List Node}
    (hnodes : ∀ front node rest slots found, nodes = front ++ node :: rest →
      args evaluate done front m = .ok slots found →
      Traced (task.Act setup D) (evaluate (.eval node)) found) :
    Traced (task.Act setup D) (args evaluate done nodes) m := by
  induction nodes generalizing m done with
  | nil => exact traced_pure _
  | cons node nodes ih =>
      refine .bind (hnodes [] node nodes _ m rfl rfl) ?_
      intro slot middle hslot
      apply ih
      intro front other rest slots found hrest hfront
      apply hnodes (node :: front) other rest slots found (congrArg (node :: ·) hrest)
      rw [← hfront]
      exact bind_of_ok hslot _

theorem traced_sequence {last : Slot} {nodes : List Node}
    (hnodes : ∀ front node rest slot found, nodes = front ++ node :: rest →
      sequence evaluate last front m = .ok slot found →
      Traced (task.Act setup D) (evaluate (.eval node)) found) :
    Traced (task.Act setup D) (sequence evaluate last nodes) m := by
  induction nodes generalizing m last with
  | nil => exact traced_pure _
  | cons node nodes ih =>
      refine .bind (hnodes [] node nodes _ m rfl rfl) ?_
      intro slot middle hslot
      apply ih
      intro front other rest slots found hrest hfront
      apply hnodes (node :: front) other rest slots found (congrArg (node :: ·) hrest)
      rw [← hfront]
      exact bind_of_ok hslot _

theorem traced_clauses {o : ObjectId} {nodes : List Node}
    (hnodes : ∀ front node rest found, nodes = front ++ node :: rest →
      clauses evaluate o front m = .ok () found →
      Traced (task.Act setup D) (clause evaluate o node) found) :
    Traced (task.Act setup D) (clauses evaluate o nodes) m := by
  induction nodes generalizing m with
  | nil => exact traced_pure ()
  | cons node nodes ih =>
      refine .bind (hnodes [] node nodes m rfl rfl) ?_
      intro _ middle hclause
      apply ih
      intro front other rest found hrest hfront
      apply hnodes (node :: front) other rest found (congrArg (node :: ·) hrest)
      rw [← hfront]
      exact bind_of_ok hclause _

end Lists

/-! ### Calls -/

theorem traced_numbers (operator : Operator) (index : Nat) {slots : List Slot}
    (hsound : D.Sound m.heap) (hslots : ∀ slot ∈ slots, D.Admits m.heap slot) :
    Traced (task.Act setup D) (operator.numbers index slots) m := by
  induction slots generalizing index with
  | nil => exact traced_pure []
  | cons slot slots ih =>
      refine .bind (traced_present slot) ?_
      intro v middle hpresent
      obtain ⟨rfl, rfl⟩ := eq_of_present hpresent
      have hrest := fun slot hslot => hslots slot (List.mem_cons_of_mem _ hslot)
      cases v with
      | number d => exact .bind (ih (index + 1) hrest) fun ds _ _ => traced_pure (d :: ds)
      | _ =>
          exact traced_complain_showing hsound (.exhibit (hslots _ List.mem_cons_self)) _

theorem eq_of_numbers {operator : Operator} {index : Nat} {slots : List Slot} {ds : List Decimal}
    {after : Machine} (hnumbers : operator.numbers index slots m = .ok ds after) :
    slots = ds.map fun d => some (.number d) := by
  induction slots generalizing index ds with
  | nil =>
      cases hnumbers
      rfl
  | cons slot slots ih =>
      cases slot with
      | none => cases hnumbers
      | some v =>
          cases v with
          | number d =>
              have hcons : operator.numbers index (some (.number d) :: slots) m =
                  (operator.numbers (index + 1) slots >>= fun ds => pure (d :: ds)) m := rfl
              rw [hcons] at hnumbers
              cases hrest : operator.numbers (index + 1) slots m with
              | ok rest found =>
                  rw [bind_of_ok hrest] at hnumbers
                  cases hnumbers
                  rw [List.map_cons, ih hrest]
              | error failure found =>
                  rw [bind_of_error hrest] at hnumbers
                  cases hnumbers
          | _ => cases hnumbers

theorem traced_apply {name receiver : String} {operator : Operator} {slots : List Slot}
    (hrequest : task.request = .call (some (.native name (.operator operator))) slots receiver)
    (hsound : D.Sound m.heap) (hslots : ∀ slot ∈ slots, D.Admits m.heap slot) :
    Traced (task.Act setup D) (operator.apply setup.precision slots) m := by
  refine .bind (traced_numbers operator 0 hsound hslots) ?_
  intro ds middle hnumbers
  have hcall := eq_of_numbers hnumbers
  subst hcall
  exact .bind (.act (.calculates hrequest)) fun d _ _ => traced_pure _

theorem traced_follow {depth : Nat} {script : Script} {name key receiver : String}
    {slots : List Slot}
    (hrequest : task.request = .call (some (.native name (.host key))) slots receiver)
    (hraises : ∀ cause, script.Raises cause → (setup.host key slots).Raises cause)
    (hasks : ∀ request found, script.Asks (run setup depth) m request found →
      Task.Part setup task ⟨depth, request, found⟩) :
    Traced (task.Act setup D) (script.follow (run setup depth)) m := by
  induction script generalizing m with
  | finish result => exact traced_pure result
  | complain complaint => exact traced_complain complaint
  | refuse text => exact .act .refuses
  | crash cause => exact .act (.raises hrequest (hraises cause .crash))
  | ask request next ih =>
      refine .bind (.act (.part (hasks request m .now))) ?_
      intro answer middle hanswer
      apply ih answer (fun cause hnext => hraises cause hnext.ask)
      intro other found hlater
      exact hasks other found (hlater.later hanswer)
  | height next ih =>
      have hcounts : task.Act setup D (fun m => .ok m.stack.height m : Run Nat) m := .counts
      refine traced_looking hcounts ?_
      exact ih _ (fun cause hnext => hraises cause hnext.height) fun other found hlater =>
        hasks other found hlater.height
  | top next ih =>
      have hcounts : task.Act setup D (fun m => .ok m.stack.top? m : Run (Option Frame)) m :=
        .counts
      refine traced_looking hcounts ?_
      exact ih _ (fun cause hnext => hraises cause hnext.top) fun other found hlater =>
        hasks other found hlater.top

theorem traced_bindParams (hD : D.Lawful setup) {s : ScopeId} (params : List String)
    {slots : List Slot} (hsound : D.Sound m.heap) (henters : D.Enters m.heap s)
    (hslots : ∀ slot ∈ slots, D.Admits m.heap slot) (hplace : task.machine.heap.nextScope ≤ s) :
    Traced (task.Act setup D) (bindParams s params slots) m := by
  induction params generalizing m slots with
  | nil => exact traced_pure ()
  | cons name params ih =>
      cases slots with
      | nil => exact traced_pure ()
      | cons slot slots =>
          refine .bind (traced_define name slot hsound henters (.inr hplace)) ?_
          intro _ middle hdefine
          have hleaves := ((Discipline.keeps_define hD name henters
            (hslots slot List.mem_cons_self)).of_ok hsound hdefine).1
          apply ih hleaves.sound (hD.enters_mono hleaves.grows henters)
          exact hleaves.admits_all hD fun slot hslot => hslots slot (List.mem_cons_of_mem _ hslot)

section Parts

variable {depth : Nat}

theorem traced_part {task part : Task} (hpart : Task.Part setup task part) :
    Traced (task.Act setup D) (run setup part.depth part.request) part.machine :=
  .act (.part hpart)

theorem traced_call (hD : D.Lawful setup) {function : Slot} {slots : List Slot} {receiver : String}
    (hsound : D.Sound m.heap) (hfunction : D.Admits m.heap function)
    (hslots : ∀ slot ∈ slots, D.Admits m.heap slot) :
    Traced (Task.Act setup D ⟨depth + 1, .call function slots receiver, m⟩)
      (call setup (run setup depth) function slots receiver) m := by
  refine .bind (traced_present function) ?_
  intro v middle hpresent
  obtain ⟨rfl, rfl⟩ := eq_of_present hpresent
  cases v with
  | native name body =>
      refine .inCall fun hroom => ?_
      cases body with
      | operator operator =>
          exact .bind (traced_apply rfl hsound hslots) fun _ _ _ => traced_pure _
      | host key =>
          refine .bind (traced_follow rfl (fun _ hraises => hraises) ?_) fun _ _ _ => traced_pure _
          intro request found hasks
          exact .native hroom hasks
  | closure name params body scope =>
      refine .inCall fun hroom => ?_
      unfold closure
      split
      · exact traced_complain _
      next harity =>
        refine .bind (.act .opens) ?_
        intro s opened hopened
        cases hopened
        have hopens := hD.opens_closure hsound hfunction
        have hslots' : ∀ slot ∈ slots, D.Admits (middle.heap.addScope scope) slot :=
          fun slot hslot => hD.admits_mono hopens.grows (hslots slot hslot)
        refine .bind (traced_bindParams hD params hopens.sound hopens.enters hslots'
          (Nat.le_refl _)) ?_
        intro _ bound hbound
        exact .inScope (traced_part (.body hroom (Decidable.not_not.mp harity) hbound))
  | _ => exact traced_complain_showing hsound (.exhibit hfunction) _

theorem traced_application {name : String} (nodes : List Node) (happlies : Applies name)
    (hD : D.Lawful setup) (hsound : D.Sound m.heap) (henters : D.Enters m.heap m.scope) :
    Traced (Task.Act setup D ⟨depth + 1, .eval (.call name nodes), m⟩)
      (application setup (run setup depth) name nodes) m := by
  refine traced_reading hsound henters .resolve ?_
  cases hresolve : m.heap.resolve? m.scope name with
  | none => exact traced_complain _
  | some slot =>
      refine .bind (traced_present slot) ?_
      intro v middle hpresent
      obtain ⟨rfl, rfl⟩ := eq_of_present hpresent
      split
      next hfunction =>
        refine .bind (traced_args ?_) ?_
        · rintro front node rest slots found rfl hfront
          exact traced_part (.argument happlies hresolve hfunction hfront)
        · intro slots found hslots
          exact traced_part (.application happlies hresolve hfunction hslots)
      · have hv := hD.admits_resolved hsound henters hresolve
        exact traced_complain_showing hsound (.exhibit hv) _

/-! ### Blocks, definitions and assignments -/

theorem traced_block (nodes : List Node) (hsound : D.Sound m.heap)
    (henters : D.Enters m.heap m.scope) :
    Traced (Task.Act setup D ⟨depth + 1, .eval (.call "do" nodes), m⟩)
      (block (run setup depth) nodes) m := by
  refine traced_reading hsound henters .here ?_
  refine .bind (.act .opens) ?_
  intro s opened hopened
  cases hopened
  refine .inScope (traced_sequence ?_)
  rintro front node rest slot found rfl hfront
  exact traced_part (.block hfront)

theorem leaves_of_eval (hD : D.Lawful setup) {node : Node} {slot : Slot} {after : Machine}
    (hsound : D.Sound m.heap) (henters : D.Enters m.heap m.scope) (hreads : D.Reads node)
    (hok : run setup depth (.eval node) m = .ok slot after) :
    D.Leaves m after ∧ D.Admits after.heap slot :=
  (Discipline.keeps_eval (Discipline.serves_run hD depth) hreads henters).of_ok hsound hok

theorem traced_defineFunction {nodes : List Node} (name : String) (params : List Node)
    (body : Node) (hsound : D.Sound m.heap) (henters : D.Enters m.heap m.scope) :
    Traced (Task.Act setup D ⟨depth + 1, .eval (.call "def" nodes), m⟩)
      (defineFunction name params body) m := by
  refine traced_reading hsound henters .bound ?_
  split
  · exact traced_complain _
  · refine .bind (traced_orComplain _) ?_
    intro names middle hnames
    obtain rfl := eq_of_orComplain hnames
    refine traced_reading hsound henters .here ?_
    exact .bind (traced_define name _ hsound henters (.inl ⟨⟨nodes, rfl⟩, rfl⟩))
      fun _ _ _ => traced_pure _

theorem traced_definition (hD : D.Lawful setup) {nodes : List Node} (hsound : D.Sound m.heap)
    (henters : D.Enters m.heap m.scope) (hreads : ∀ node ∈ nodes, D.Reads node) :
    Traced (Task.Act setup D ⟨depth + 1, .eval (.call "def" nodes), m⟩)
      (definition (run setup depth) nodes) m := by
  unfold definition
  split
  next name node =>
    refine traced_reading hsound henters .bound ?_
    split
    · exact traced_complain _
    next hnew =>
      have hnew' : m.heap.ownBinding? m.scope name = none := by simpa using hnew
      refine .bind (traced_part (.definition hnew')) ?_
      intro slot middle hslot
      have hleaves := (leaves_of_eval hD hsound henters (hreads node (by simp)) hslot).1
      have henters' := hleaves.enters hD henters
      refine traced_reading hleaves.sound henters' .here ?_
      exact .bind (traced_define name slot hleaves.sound henters'
        (.inl ⟨⟨_, rfl⟩, hleaves.scope⟩)) fun _ _ _ => traced_pure _
  · split
    · exact traced_complain _
    · exact traced_defineFunction _ _ _ hsound henters
  · exact traced_complain _
  · exact traced_complain _

theorem traced_assignment (hD : D.Lawful setup) {nodes : List Node} (hsound : D.Sound m.heap)
    (henters : D.Enters m.heap m.scope) (hreads : ∀ node ∈ nodes, D.Reads node) :
    Traced (Task.Act setup D ⟨depth + 1, .eval (.call "set!" nodes), m⟩)
      (assignment (run setup depth) nodes) m := by
  unfold assignment
  split
  next name node =>
    refine traced_reading hsound henters .resolve ?_
    split
    · exact traced_complain _
    next hbound =>
      have hbound' : m.heap.resolve? m.scope name ≠ none := by simpa using hbound
      refine .bind (traced_part (.assignment hbound')) ?_
      intro slot middle hslot
      have hleaves := (leaves_of_eval hD hsound henters (hreads node (by simp)) hslot).1
      refine .bind (.act (.rebinds hleaves.sound (hleaves.enters hD henters))) ?_
      intro rebound _ _
      split
      · exact traced_pure _
      · exact traced_complain _
  · exact traced_complain _
  · exact traced_complain _

/-! ### Objects -/

theorem traced_clause (hD : D.Lawful setup) {o : ObjectId} {node : Node}
    (hsound : D.Sound m.heap) (henters : D.Enters m.heap m.scope)
    (hobject : D.Admits m.heap (some (.object o))) (hreads : D.Reads node)
    (hplace : task.machine.heap.nextScope ≤ m.scope)
    (hpart : ∀ field inner, node = .call field [inner] → field ≠ "" →
      (field = "prototype" ∨ m.heap.ownBinding? m.scope field = none) →
      Task.Part setup task ⟨depth, .eval inner, m⟩) :
    Traced (task.Act setup D) (clause (run setup depth) o node) m := by
  unfold clause
  split
  · refine .bind (traced_orComplain _) ?_
    intro signature middle hsignature
    obtain rfl := eq_of_orComplain hsignature
    refine traced_reading hsound henters .bound ?_
    split
    · exact traced_complain _
    · refine .bind (traced_orComplain _) ?_
      intro names middle hnames
      obtain rfl := eq_of_orComplain hnames
      refine traced_reading hsound henters .here ?_
      exact traced_define _ _ hsound henters (.inr hplace)
  · exact traced_complain _
  next inner =>
    refine .bind (traced_part (hpart "prototype" inner rfl (by simp) (.inl rfl))) ?_
    intro slot evaluated hslot
    obtain ⟨hleaves, hadmits⟩ :=
      leaves_of_eval hD hsound henters (hD.reads_arg hreads (by simp)) hslot
    refine .bind (traced_present slot) ?_
    intro v middle hpresent
    obtain ⟨rfl, rfl⟩ := eq_of_present hpresent
    cases v with
    | object proto =>
        have hobject' := hD.admits_mono hleaves.grows hobject
        refine .bind (.act (.links hleaves.sound hobject' hadmits)) ?_
        intro linked after hlinked
        have hkept := ((Discipline.keeps_setPrototype hD hobject' hadmits).of_ok hleaves.sound
          hlinked).1
        split
        · exact traced_pure ()
        · exact traced_complain_showing hkept.sound
            (.text (hD.admits_mono hkept.grows hadmits)) _
    | _ => exact traced_complain_showing hleaves.sound (.exhibit hadmits) _
  next field inner hfield _ =>
    refine traced_reading hsound henters .bound ?_
    split
    · exact traced_complain _
    next hnew =>
      have hnew' : m.heap.ownBinding? m.scope field = none := by simpa using hnew
      refine .bind (traced_part (hpart field inner rfl hfield (.inr hnew'))) ?_
      intro slot middle hslot
      have hleaves :=
        (leaves_of_eval hD hsound henters (hD.reads_arg hreads (by simp)) hslot).1
      have henters' := hleaves.enters hD henters
      refine traced_reading hleaves.sound henters' .here ?_
      exact traced_define _ slot hleaves.sound henters' (.inr (hleaves.scope.symm ▸ hplace))
  · exact traced_complain _
  · exact traced_complain _

theorem traced_construction (hD : D.Lawful setup) {nodes : List Node} (hsound : D.Sound m.heap)
    (henters : D.Enters m.heap m.scope) (hreads : D.Reads (.call "object" nodes)) :
    Traced (Task.Act setup D ⟨depth + 1, .eval (.call "object" nodes), m⟩)
      (construction (run setup depth) nodes) m := by
  rw [construction_eq]
  refine .bind (.act .makes) ?_
  intro opened filled hopened
  cases hopened
  obtain ⟨hopens, hobject⟩ :
      D.Opens m.heap (m.inObject (objectParts nodes).1).heap m.heap.nextScope ∧
        D.Admits (m.inObject (objectParts nodes).1).heap (some (.object m.heap.nextObject)) :=
    hD.opens_object hsound henters
  have hclauses := Discipline.reads_of_mem_objectParts hD hreads
  refine .inScope (.bind (traced_clauses ?_) fun _ _ _ => traced_pure _)
  intro front node rest found hnodes hfront
  rw [hnodes] at hclauses
  have hkeeps := Discipline.keeps_clauses hD (Discipline.serves_run hD depth)
    (m := m.inObject (objectParts nodes).1)
    (fun part hmem => hclauses part (List.mem_append_left _ hmem)) hopens.enters
    (Discipline.links_of_admits hD hobject)
  have hleaves := (hkeeps.of_ok hopens.sound hfront).1
  have hscope : found.scope = m.heap.nextScope := hleaves.scope
  refine traced_clause hD hleaves.sound (hleaves.enters hD hopens.enters)
    (hD.admits_mono hleaves.grows hobject) (hclauses node (by simp)) (Nat.le_of_eq hscope.symm) ?_
  rintro field inner rfl hfield hnew
  exact .clause (Prod.ext rfl hnodes) hfront hfield hnew

/-! ### Selectors -/

theorem traced_objectArgument (selector : String) {slots : List Slot} (hsound : D.Sound m.heap)
    (hslots : ∀ slot ∈ slots, D.Admits m.heap slot) :
    Traced (task.Act setup D) (objectArgument selector slots) m := by
  unfold objectArgument
  split
  next slot =>
    refine .bind (traced_present slot) ?_
    intro v middle hpresent
    obtain ⟨rfl, rfl⟩ := eq_of_present hpresent
    cases v with
    | object o => exact traced_pure o
    | _ => exact traced_complain_showing hsound (.exhibit (hslots _ (by simp))) _
  · exact traced_complain _

theorem eq_of_objectArgument {selector : String} {slots : List Slot} {o : ObjectId}
    {middle : Machine} (hok : objectArgument selector slots m = .ok o middle) :
    slots = [some (.object o)] ∧ middle = m := by
  match slots with
  | [] => cases hok
  | [none] => cases hok
  | _ :: _ :: _ => cases hok
  | [some v] =>
      cases v with
      | object p =>
          cases hok
          exact ⟨rfl, rfl⟩
      | _ => cases hok

theorem traced_sendSetPrototype (hD : D.Lawful setup) {o : ObjectId} {slots : List Slot}
    (hsound : D.Sound m.heap) (hobject : D.Admits m.heap (some (.object o)))
    (hslots : ∀ slot ∈ slots, D.Admits m.heap slot) :
    Traced (task.Act setup D) (sendSetPrototype o slots) m := by
  refine .bind (traced_objectArgument _ hsound hslots) ?_
  intro proto middle hproto
  obtain ⟨rfl, rfl⟩ := eq_of_objectArgument hproto
  have hadmits := hslots _ (List.mem_singleton.mpr rfl)
  refine .bind (.act (.links hsound hobject hadmits)) ?_
  intro linked after hlinked
  have hkept := ((Discipline.keeps_setPrototype hD hobject hadmits).of_ok hsound hlinked).1
  split
  · exact traced_pure _
  · exact traced_complain_showing hkept.sound (.text (hD.admits_mono hkept.grows hadmits)) _

theorem traced_sendInstance {o : ObjectId} {slots : List Slot} (hsound : D.Sound m.heap)
    (hobject : D.Admits m.heap (some (.object o)))
    (hslots : ∀ slot ∈ slots, D.Admits m.heap slot) :
    Traced (task.Act setup D) (sendInstance o slots) m := by
  refine .bind (traced_objectArgument _ hsound hslots) ?_
  intro candidate middle hcandidate
  obtain ⟨-, rfl⟩ := eq_of_objectArgument hcandidate
  exact traced_viewing hsound (.isInstance hobject) (traced_pure _)

theorem traced_sendSet {o : ObjectId} {selector field : String} {slots : List Slot}
    (hrequest : task.request = .send o selector slots) (hselector : selector ≠ ".prototype=")
    (hfield : setterField? (Heap.stripDot selector) = some field)
    (hsound : D.Sound task.machine.heap) (hobject : D.Admits task.machine.heap (some (.object o))) :
    Traced (task.Act setup D) (sendSet o selector field slots) task.machine := by
  unfold sendSet
  split
  next slot =>
    refine .bind ?_ fun _ _ _ => traced_pure _
    cases slot with
    | none => exact .act (.lacks (.inr rfl))
    | some v => exact .act (.sets hsound hobject hrequest hselector hfield)
  · exact traced_complain _

theorem traced_sendGet (hD : D.Lawful setup) {o : ObjectId} {selector : String}
    {slots : List Slot} (hreads : ReadsAttribute selector) (hsound : D.Sound m.heap)
    (hobject : D.Admits m.heap (some (.object o))) :
    Traced (Task.Act setup D ⟨depth + 1, .send o selector slots, m⟩)
      (sendGet setup (run setup depth) o selector slots) m := by
  refine traced_viewing hsound (.lookup hobject) ?_
  cases hattribute : m.heap.attribute? o selector with
  | none => exact traced_complain_showing hsound (.objectLabel hobject) _
  | some slot =>
      refine .bind (traced_present slot) ?_
      intro v middle hpresent
      obtain ⟨rfl, rfl⟩ := eq_of_present hpresent
      split
      next hfunction =>
        refine traced_viewing hsound (.objectName hobject) ?_
        exact traced_part (.method hreads hattribute hfunction)
      · split
        · have hv := hD.admits_attribute hsound hobject hattribute
          exact traced_complain_showing hsound (.exhibit hv) _
        · exact traced_pure _

theorem traced_send (hD : D.Lawful setup) {o : ObjectId} {selector : String} {slots : List Slot}
    (hsound : D.Sound m.heap) (hobject : D.Admits m.heap (some (.object o)))
    (hslots : ∀ slot ∈ slots, D.Admits m.heap slot) :
    Traced (Task.Act setup D ⟨depth + 1, .send o selector slots, m⟩)
      (send setup (run setup depth) o selector slots) m := by
  unfold send
  split
  · unfold sendPrototype
    split
    · exact traced_complain _
    · exact traced_viewing hsound (.prototype hobject) (traced_pure _)
  · split
    · exact traced_sendSetPrototype hD hsound hobject hslots
    next hselector =>
      split
      · exact traced_sendInstance hsound hobject hslots
      · dsimp only
        split
        · exact traced_complain _
        · split
          next field hfield =>
            have hrequest : Task.request ⟨depth + 1, .send o selector slots, m⟩ =
                .send o selector slots := rfl
            exact traced_sendSet hrequest hselector hfield hsound hobject
          · exact traced_sendGet hD (by simp_all [ReadsAttribute]) hsound hobject

theorem traced_selection (hD : D.Lawful setup) {selector : String} {nodes : List Node}
    (hselector : Node.isSelector selector = true) (hsound : D.Sound m.heap)
    (henters : D.Enters m.heap m.scope) (hreads : ∀ node ∈ nodes, D.Reads node) :
    Traced (Task.Act setup D ⟨depth + 1, .eval (.call selector nodes), m⟩)
      (selection setup (run setup depth) selector nodes) m := by
  cases nodes with
  | nil => exact traced_complain _
  | cons target nodes =>
      refine .bind (traced_part (.target hselector)) ?_
      intro slot evaluated htarget
      obtain ⟨hleaves, hadmits⟩ :=
        leaves_of_eval hD hsound henters (hreads target List.mem_cons_self) htarget
      refine .bind (traced_present slot) ?_
      intro v middle hpresent
      obtain ⟨rfl, rfl⟩ := eq_of_present hpresent
      cases v with
      | object o =>
          refine .bind (traced_args ?_) ?_
          · rintro front node rest slots found rfl hfront
            exact traced_part (.operand hselector htarget hfront)
          · intro slots found hslots
            exact traced_part (.dispatch hselector htarget hslots)
      | _ => exact traced_complain_showing hleaves.sound (.exhibit hadmits) _

/-! ### Expressions -/

theorem traced_form (hD : D.Lawful setup) {name : String} {nodes : List Node}
    (hsound : D.Sound m.heap) (henters : D.Enters m.heap m.scope)
    (hreads : D.Reads (.call name nodes)) :
    Traced (Task.Act setup D ⟨depth + 1, .eval (.call name nodes), m⟩)
      (form setup (run setup depth) name nodes) m := by
  have hparts : ∀ node ∈ nodes, D.Reads node := fun node hnode => hD.reads_arg hreads hnode
  unfold form
  split
  next hname =>
    subst hname
    exact traced_block nodes hsound henters
  · split
    next hname =>
      subst hname
      exact traced_definition hD hsound henters hparts
    · split
      next hname =>
        subst hname
        exact traced_assignment hD hsound henters hparts
      · split
        next hname =>
          subst hname
          exact traced_construction hD hsound henters hreads
        · split
          next hselector => exact traced_selection hD hselector hsound henters hparts
          · exact traced_application nodes (by simp_all [Applies]) hD hsound henters

theorem traced_expression (hD : D.Lawful setup) {node : Node} (hsound : D.Sound m.heap)
    (henters : D.Enters m.heap m.scope) (hreads : D.Reads node) :
    Traced (Task.Act setup D ⟨depth + 1, .eval node, m⟩)
      (expression setup (run setup depth) node) m := by
  cases node with
  | number d => exact traced_pure _
  | atom name => exact traced_pure _
  | «variable» name =>
      refine traced_reading hsound henters .resolve ?_
      split
      · exact traced_pure _
      · exact traced_complain _
  | call name nodes => exact traced_form hD hsound henters hreads
  | absent => exact traced_complain _
  | extension kind text => exact traced_complain _

end Parts

end Eval

/-- A task that a lawful discipline permits, and that is not too deep, is made of its acts. -/
theorem Task.traced {setup : Setup} {D : Discipline} (hD : D.Lawful setup) {depth : Nat}
    {request : Request} {m : Machine} (hpermits : D.Permits ⟨depth + 1, request, m⟩) :
    Run.Traced (Act setup D ⟨depth + 1, request, m⟩) (Eval.run setup (depth + 1) request) m := by
  obtain ⟨hsound, hready⟩ := hpermits
  cases request with
  | eval node => exact Eval.traced_expression hD hsound hready.2 hready.1
  | call function args receiver => exact Eval.traced_call hD hsound hready.1 hready.2
  | send target selector args => exact Eval.traced_send hD hsound hready.1 hready.2

theorem Discipline.permits_restoration {host : Host} (task : Task) :
    (restoration host).Permits task := by
  obtain ⟨depth, request, m⟩ := task
  cases request <;> simp [Permits, Ready, restoration]

namespace Task

variable {setup : Setup}

-- A part is less deep, or it is the dispatch or the call on the same level that comes last.
def rank (task : Task) : Nat :=
  3 * task.depth + match task.request with
    | .eval _ => 2
    | .send _ _ _ => 1
    | .call _ _ _ => 0

theorem Part.rank_lt {task part : Task} (hpart : Part setup task part) : part.rank < task.rank := by
  cases hpart with
  | @native depth name key receiver args request m found _ _ =>
      have hrequest : rank ⟨depth, request, found⟩ ≤ 3 * depth + 2 := by
        cases request <;> simp [rank]
      simp only [rank] at hrequest ⊢
      omega
  | _ =>
      simp only [rank]
      omega

end Task

end ProtoLisp
