import ProtoLisp.Proofs.Acts
import ProtoLisp.Proofs.PartOutcomes
import ProtoLisp.Proofs.TypedFailures

/-!
# Every name is bound to a value

A slot may be empty, and functions of the host may pass such slots around: as arguments of the calls
that they ask for, and as their results.  None of them is ever bound to a name.  A definition and a
setter crash on an empty slot; an assignment stores whatever it is given, but that is always the
result of an evaluation, and evaluations have values.

`Run.Fills` says that a step leaves every name bound to a value and what is known of its result.
-/

namespace ProtoLisp

/-- No name is bound to nothing. -/
def Heap.Filled (heap : Heap) : Prop := ∀ s name slot, (name, slot) ∈ heap.bindings s → slot ≠ none

namespace Heap.Filled

variable {heap : Heap}

theorem addScope (hfilled : heap.Filled) (parent : Option ScopeId) :
    (heap.addScope parent).Filled := by
  intro s name slot hmem
  rw [bindings_addScope] at hmem
  exact hfilled s name slot hmem

theorem put (hfilled : heap.Filled) (s : ScopeId) (name : String) {slot : Slot}
    (hslot : slot ≠ none) : (heap.put s name slot).Filled := by
  intro t other value hmem
  rcases mem_bindings_put hmem with hold | rfl
  · exact hfilled t other value hold
  · exact hslot

theorem setField (hfilled : heap.Filled) (o : ObjectId) (name : String) (v : Value) :
    (heap.setField o name (some v)).Filled := by
  unfold Heap.setField putOwn
  split
  · exact hfilled.put _ _ (Option.some_ne_none v)
  · exact hfilled

theorem setPrototype? (hfilled : heap.Filled) {o : ObjectId} {proto : Option ObjectId}
    {linked : Heap} (hlinked : heap.setPrototype? o proto = some linked) : linked.Filled := by
  obtain ⟨rfl, -⟩ := Heap.of_setPrototype? hlinked
  exact hfilled

theorem resolve? (hfilled : heap.Filled) (s : ScopeId) (name : String) :
    heap.resolve? s name ≠ some none := by
  intro hresolve
  obtain ⟨t, -, hmem⟩ := exists_of_resolve? hresolve
  exact hfilled t name none hmem rfl

theorem ownAttribute? (hfilled : heap.Filled) (o : ObjectId) (name : String) :
    heap.ownAttribute? o name ≠ some none := by
  intro hown
  obtain ⟨object, -, hmem⟩ := exists_of_ownAttribute? hown
  exact hfilled object.scope name none hmem rfl

end Heap.Filled

/-- From a heap that binds every name to a value, the step leaves such a heap; and if it succeeds, its
result satisfies `good`. -/
def Run.Fills {α : Type} (step : Run α) (good : α → Prop) : Prop :=
  ∀ m, m.heap.Filled →
    (step.after m).heap.Filled ∧ ∀ a after, step m = .ok a after → good a

/-! ## Rules -/

namespace Run

variable {α β : Type} {good : α → Prop}

theorem Fills.of_ok {step : Run α} (hstep : step.Fills good) {m after : Machine} {a : α}
    (hfilled : m.heap.Filled) (hok : step m = .ok a after) : after.heap.Filled ∧ good a := by
  obtain ⟨hafter, hgood⟩ := hstep m hfilled
  rw [after_of_ok hok] at hafter
  exact ⟨hafter, hgood a after hok⟩

theorem Fills.any {step : Run α} (hstep : step.Fills good) : step.Fills fun _ => True :=
  fun m hfilled => ⟨(hstep m hfilled).1, fun _ _ _ => trivial⟩

theorem fills_pure {a : α} (ha : good a) : Fills (pure a) good := by
  intro m hfilled
  refine ⟨hfilled, ?_⟩
  rintro b after ⟨⟩
  exact ha

theorem fills_failing (failure : Machine → Failure) :
    Fills (fun m => .error (failure m) m : Run α) good :=
  fun _ hfilled => ⟨hfilled, nofun⟩

theorem fills_looking (look : Machine → α) : Fills (fun m => .ok (look m) m) fun _ => True :=
  fun _ hfilled => ⟨hfilled, fun _ _ _ => trivial⟩

theorem fills_changing {look : Machine → α} {change : Machine → Heap}
    (hchange : ∀ m, m.heap.Filled → (change m).Filled) :
    Fills (fun m => .ok (look m) { m with heap := change m }) fun _ => True :=
  fun m hfilled => ⟨hchange m hfilled, fun _ _ _ => trivial⟩

theorem Idle.fills {step : Run α} (hidle : step.Idle) : step.Fills fun _ => True := by
  intro m hfilled
  refine ⟨?_, fun _ _ _ => trivial⟩
  rw [hidle.after]
  exact hfilled

theorem fills_bind {step : Run α} {next : α → Run β} {good' : β → Prop} (hstep : step.Fills good)
    (hnext : ∀ a, good a → (next a).Fills good') : (step >>= next).Fills good' := by
  intro m hfilled
  cases hrun : step m with
  | ok a middle =>
      obtain ⟨hmiddle, hgood⟩ := hstep.of_ok hfilled hrun
      have hrest := hnext a hgood middle hmiddle
      rw [Run.after, bind_of_ok hrun]
      exact hrest
  | error failure after =>
      have hafter := (hstep m hfilled).1
      rw [after_of_error hrun] at hafter
      rw [after_of_error (bind_of_error hrun next), bind_of_error hrun]
      refine ⟨hafter, ?_⟩
      intro b last hok
      cases hok

theorem fills_inScope (s : ScopeId) {body : Run α} (hbody : body.Fills good) :
    Fills (inScope s body) good := by
  intro m hfilled
  obtain ⟨hafter, hgood⟩ := hbody { m with scope := s } hfilled
  refine ⟨?_, ?_⟩
  · rw [heap_after_inScope]
    exact hafter
  · intro a after hok
    unfold inScope at hok
    cases hrun : body { m with scope := s } with
    | ok b middle =>
        simp only [hrun] at hok
        cases hok
        exact hgood a middle hrun
    | error failure middle =>
        simp only [hrun] at hok
        cases hok

theorem fills_inCall (frame : Frame) {body : Run α} (hbody : body.Fills good) :
    Fills (inCall frame body) good := by
  intro m hfilled
  cases hfull : m.stack.isFull with
  | true =>
      rw [after_of_error (inCall_of_full hfull frame body), inCall_of_full hfull frame body]
      exact ⟨hfilled, nofun⟩
  | false =>
      obtain ⟨hafter, hgood⟩ := hbody (m.inCall frame) hfilled
      refine ⟨?_, ?_⟩
      · rw [heap_after_inCall body hfull]
        exact hafter
      · intro a after hok
        have hinside : leaveCall (body (m.inCall frame)) = .ok a after := by
          rw [← hok]
          exact (inCall_of_room hfull frame body).symm
        cases hrun : body (m.inCall frame) with
        | ok b middle =>
            simp only [hrun, leaveCall] at hinside
            split at hinside
            · cases hinside
            · cases hinside
              exact hgood a middle hrun
        | error failure middle =>
            simp only [hrun, leaveCall] at hinside
            split at hinside <;> cases hinside

theorem fills_complain (complaint : Complaint) : Fills (complain complaint : Run α) good :=
  fills_failing _

theorem fills_complain_showing (shown : Heap → β) (complaint : β → Complaint) :
    Fills (do complain (complaint (← withHeap shown)) : Run α) good :=
  fills_bind (fills_looking _) fun _ _ => fills_complain _

theorem fills_resolve? (name : String) : Fills (resolve? name) (· ≠ some none) := by
  intro m hfilled
  refine ⟨hfilled, ?_⟩
  rintro found after ⟨⟩
  exact hfilled.resolve? m.scope name

theorem fills_newScope (parent : Option ScopeId) : Fills (newScope parent) fun _ => True :=
  fills_changing fun _ hfilled => hfilled.addScope parent

theorem fills_present (slot : Slot) : Fills (present slot) fun v => slot = some v := by
  cases slot with
  | some v => exact fills_pure rfl
  | none => exact fills_failing _

theorem fills_define (s : ScopeId) (name : String) (slot : Slot) :
    Fills (define s name slot) fun _ => slot ≠ none := by
  cases slot with
  | some v =>
      intro m hfilled
      exact ⟨hfilled.put s name (Option.some_ne_none v), fun _ _ _ => Option.some_ne_none v⟩
  | none => exact fills_failing _

theorem fills_setField (o : ObjectId) (name : String) (slot : Slot) :
    Fills (setField o name slot) fun _ => slot ≠ none := by
  cases slot with
  | some v =>
      intro m hfilled
      exact ⟨hfilled.setField o name v, fun _ _ _ => Option.some_ne_none v⟩
  | none => exact fills_failing _

theorem fills_rebind (name : String) {slot : Slot} (hslot : slot ≠ none) :
    Fills (rebind name slot) fun _ => True := by
  intro m hfilled
  refine ⟨?_, fun _ _ _ => trivial⟩
  unfold Run.after rebind
  cases m.heap.owner? m.scope name with
  | none => exact hfilled
  | some s => exact hfilled.put s name hslot

theorem fills_setPrototype (o proto : ObjectId) : Fills (setPrototype o proto) fun _ => True := by
  intro m hfilled
  refine ⟨?_, fun _ _ _ => trivial⟩
  unfold Run.after setPrototype
  by_cases hcyclic : m.heap.isInstance proto o = true
  · simp only [if_pos hcyclic]
    exact hfilled
  · simp only [if_neg hcyclic]
    exact hfilled

end Run

/-! ## Forms -/

namespace Eval

open Run

/-- Requests are met with values. -/
def Fulfils (evaluate : Request → Run Slot) : Prop :=
  ∀ request, (evaluate request).Fills (· ≠ none)

variable {setup : Setup} {evaluate : Request → Run Slot}

theorem fills_numbers (operator : Operator) (index : Nat) (slots : List Slot) :
    Fills (operator.numbers index slots) fun _ => True := by
  induction slots generalizing index with
  | nil => exact fills_pure trivial
  | cons slot slots ih =>
      refine fills_bind (fills_present slot) fun v _ => ?_
      cases v with
      | number d => exact fills_bind (ih (index + 1)) fun _ _ => fills_pure trivial
      | _ => exact fills_complain_showing _ _

theorem fills_apply (precision : Int32) (operator : Operator) (slots : List Slot) :
    Fills (operator.apply precision slots) fun _ => True :=
  fills_bind (fills_numbers operator 0 slots) fun ds _ =>
    fills_bind (operator.idle_calculate precision ds).fills fun _ _ => fills_pure trivial

theorem fills_bindParams (s : ScopeId) (params : List String) (slots : List Slot) :
    Fills (bindParams s params slots) fun _ => True := by
  induction params generalizing slots with
  | nil => exact fills_pure trivial
  | cons name params ih =>
      cases slots with
      | nil => exact fills_pure trivial
      | cons slot slots => exact fills_bind (fills_define s name slot) fun _ _ => ih slots

theorem fills_orComplain {α : Type} (result : Except Complaint α) :
    Fills (orComplain result) fun _ => True := by
  cases result with
  | ok a => exact fills_pure trivial
  | error complaint => exact fills_complain complaint

theorem fills_defineFunction (name : String) (params : List Node) (body : Node) :
    Fills (defineFunction name params body) (· ≠ none) := by
  refine fills_bind (fills_looking _) fun isBound _ => ?_
  cases isBound with
  | true => exact fills_complain _
  | false =>
      refine fills_bind (fills_orComplain _) fun names _ => ?_
      refine fills_bind (fills_looking _) fun s _ => ?_
      exact fills_bind (fills_define s name _) fun _ hpresent => fills_pure hpresent

theorem fills_methodClause (head body : Node) : Fills (methodClause head body) fun _ => True := by
  refine fills_bind (fills_orComplain _) fun ⟨name, params⟩ _ => ?_
  refine fills_bind (fills_looking _) fun isBound _ => ?_
  cases isBound with
  | true => exact fills_complain _
  | false =>
      refine fills_bind (fills_orComplain _) fun names _ => ?_
      refine fills_bind (fills_looking _) fun s _ => ?_
      exact (fills_define s name _).any

theorem fills_objectArgument (selector : String) (slots : List Slot) :
    Fills (objectArgument selector slots) fun _ => True := by
  unfold objectArgument
  split
  next slot =>
    refine fills_bind (fills_present slot) fun v _ => ?_
    cases v with
    | object o => exact fills_pure trivial
    | _ => exact fills_complain_showing _ _
  · exact fills_complain _

theorem fills_sendPrototype (o : ObjectId) (slots : List Slot) :
    Fills (sendPrototype o slots) (· ≠ none) := by
  unfold sendPrototype
  split
  · exact fills_complain _
  · exact fills_bind (fills_looking _) fun _ _ => fills_pure (Option.some_ne_none _)

theorem fills_sendSetPrototype (o : ObjectId) (slots : List Slot) :
    Fills (sendSetPrototype o slots) (· ≠ none) := by
  refine fills_bind (fills_objectArgument _ slots) fun proto _ => ?_
  refine fills_bind (fills_setPrototype o proto) fun linked _ => ?_
  cases linked with
  | true => exact fills_pure (Option.some_ne_none _)
  | false => exact fills_complain_showing _ _

theorem fills_sendInstance (o : ObjectId) (slots : List Slot) :
    Fills (sendInstance o slots) (· ≠ none) := by
  refine fills_bind (fills_objectArgument _ slots) fun candidate _ => ?_
  exact fills_bind (fills_looking _) fun _ _ => fills_pure (Option.some_ne_none _)

theorem fills_sendSet (o : ObjectId) (selector field : String) (slots : List Slot) :
    Fills (sendSet o selector field slots) (· ≠ none) := by
  unfold sendSet
  split
  next slot =>
    exact fills_bind (fills_setField o field slot) fun _ hpresent => fills_pure hpresent
  · exact fills_complain _

section Requests

variable (hevaluate : Fulfils evaluate)

include hevaluate

theorem fills_args (done : List Slot) (nodes : List Node) :
    Fills (args evaluate done nodes) fun _ => True := by
  induction nodes generalizing done with
  | nil => exact fills_pure trivial
  | cons node nodes ih => exact fills_bind (hevaluate _) fun slot _ => ih (slot :: done)

theorem fills_sequence {last : Slot} (hlast : last ≠ none) (nodes : List Node) :
    Fills (sequence evaluate last nodes) (· ≠ none) := by
  induction nodes generalizing last with
  | nil => exact fills_pure hlast
  | cons node nodes ih => exact fills_bind (hevaluate _) fun _ hslot => ih hslot

theorem fills_follow (script : Script) : Fills (script.follow evaluate) fun _ => True := by
  induction script with
  | finish result => exact fills_pure trivial
  | complain complaint => exact fills_complain complaint
  | refuse text => exact fills_failing _
  | crash cause => exact fills_failing _
  | ask request next ih => exact fills_bind (hevaluate request) fun answer _ => ih answer
  | height next ih => exact fills_bind (fills_looking _) fun n _ => ih n
  | top next ih => exact fills_bind (fills_looking _) fun frame _ => ih frame

theorem fills_call (function : Slot) (slots : List Slot) (receiver : String) :
    Fills (call setup evaluate function slots receiver) (· ≠ none) := by
  refine fills_bind (fills_present function) fun v _ => ?_
  cases v with
  | native name body =>
      -- A function of the host may return nothing, which counts as null.
      refine fills_inCall ⟨name, receiver⟩ ?_
      cases body with
      | operator operator =>
          exact fills_bind (fills_apply _ operator slots) fun _ _ =>
            fills_pure (Option.some_ne_none _)
      | host key =>
          exact fills_bind (fills_follow hevaluate _) fun _ _ => fills_pure (Option.some_ne_none _)
  | closure name params body scope =>
      refine fills_inCall ⟨name, receiver⟩ ?_
      unfold closure
      split
      · exact fills_complain _
      · refine fills_bind (fills_newScope scope) fun s _ => ?_
        refine fills_bind (fills_bindParams s params slots) fun _ _ => ?_
        exact fills_inScope s (hevaluate _)
  | _ => exact fills_complain_showing _ _

theorem fills_application (name : String) (nodes : List Node) :
    Fills (application setup evaluate name nodes) (· ≠ none) := by
  refine fills_bind (fills_looking _) fun found _ => ?_
  cases found with
  | none => exact fills_complain _
  | some slot =>
      refine fills_bind (fills_present slot) fun v _ => ?_
      split
      · exact fills_bind (fills_args hevaluate [] nodes) fun slots _ =>
          fills_call hevaluate slot slots ""
      · exact fills_complain_showing _ _

theorem fills_block (nodes : List Node) : Fills (block evaluate nodes) (· ≠ none) := by
  refine fills_bind (fills_looking _) fun s _ => ?_
  refine fills_bind (fills_newScope (some s)) fun t _ => ?_
  exact fills_inScope t (fills_sequence hevaluate (Option.some_ne_none _) nodes)

theorem fills_defineName (name : String) (node : Node) :
    Fills (defineName evaluate name node) (· ≠ none) := by
  refine fills_bind (fills_looking _) fun isBound _ => ?_
  cases isBound with
  | true => exact fills_complain _
  | false =>
      refine fills_bind (hevaluate _) fun slot hslot => ?_
      refine fills_bind (fills_looking _) fun s _ => ?_
      exact fills_bind (fills_define s name slot) fun _ _ => fills_pure hslot

theorem fills_definition (nodes : List Node) : Fills (definition evaluate nodes) (· ≠ none) := by
  unfold definition
  split
  · exact fills_defineName hevaluate _ _
  · split
    · exact fills_complain _
    · exact fills_defineFunction _ _ _
  · exact fills_complain _
  · exact fills_complain _

theorem fills_assignment (nodes : List Node) : Fills (assignment evaluate nodes) (· ≠ none) := by
  unfold assignment
  split
  next name node =>
    refine fills_bind (fills_looking _) fun found _ => ?_
    cases found with
    | none => exact fills_complain _
    | some _ =>
        refine fills_bind (hevaluate _) fun slot hslot => ?_
        refine fills_bind (fills_rebind name hslot) fun rebound _ => ?_
        cases rebound with
        | true => exact fills_pure hslot
        | false => exact fills_complain _
  · exact fills_complain _
  · exact fills_complain _

theorem fills_prototypeClause (o : ObjectId) (node : Node) :
    Fills (prototypeClause evaluate o node) fun _ => True := by
  refine fills_bind (hevaluate _) fun slot _ => ?_
  refine fills_bind (fills_present slot) fun v _ => ?_
  cases v with
  | object proto =>
      refine fills_bind (fills_setPrototype o proto) fun linked _ => ?_
      cases linked with
      | true => exact fills_pure trivial
      | false => exact fills_complain_showing _ _
  | _ => exact fills_complain_showing _ _

theorem fills_fieldClause (name : String) (node : Node) :
    Fills (fieldClause evaluate name node) fun _ => True := by
  refine fills_bind (fills_looking _) fun isBound _ => ?_
  cases isBound with
  | true => exact fills_complain _
  | false =>
      refine fills_bind (hevaluate _) fun slot _ => ?_
      refine fills_bind (fills_looking _) fun s _ => ?_
      exact (fills_define s name slot).any

theorem fills_clauses (o : ObjectId) (nodes : List Node) :
    Fills (clauses evaluate o nodes) fun _ => True := by
  have hclause : ∀ node, Fills (clause evaluate o node) fun _ => True := by
    intro node
    unfold clause
    split
    · exact fills_methodClause _ _
    · exact fills_complain _
    · exact fills_prototypeClause hevaluate o _
    · exact fills_fieldClause hevaluate _ _
    · exact fills_complain _
    · exact fills_complain _
  induction nodes with
  | nil => exact fills_pure trivial
  | cons node nodes ih => exact fills_bind (hclause node) fun _ _ => ih

theorem fills_construction (nodes : List Node) :
    Fills (construction evaluate nodes) (· ≠ none) := by
  rw [construction_eq]
  have hmade : ∀ name, Fills (newObject name) fun _ => True :=
    fun name => fills_changing fun m hfilled => hfilled.addScope (some m.scope)
  refine fills_bind (hmade _) fun ⟨o, s⟩ _ => fills_inScope s ?_
  exact fills_bind (fills_clauses hevaluate o _) fun _ _ => fills_pure (Option.some_ne_none _)

theorem fills_send (o : ObjectId) (selector : String) (slots : List Slot) :
    Fills (send setup evaluate o selector slots) (· ≠ none) := by
  unfold send
  split
  · exact fills_sendPrototype o slots
  · split
    · exact fills_sendSetPrototype o slots
    · split
      · exact fills_sendInstance o slots
      · dsimp only
        split
        · exact fills_complain _
        · split
          · exact fills_sendSet o selector _ slots
          · refine fills_bind (fills_looking _) fun found _ => ?_
            cases found with
            | none => exact fills_complain_showing _ _
            | some slot =>
                refine fills_bind (fills_present slot) fun v hpresent => ?_
                split
                · exact fills_bind (fills_looking _) fun receiver _ =>
                    fills_call hevaluate slot slots receiver
                · split
                  · exact fills_complain_showing _ _
                  · exact fills_pure (hpresent ▸ Option.some_ne_none v)

theorem fills_selection (selector : String) (nodes : List Node) :
    Fills (selection setup evaluate selector nodes) (· ≠ none) := by
  cases nodes with
  | nil => exact fills_complain _
  | cons target nodes =>
      refine fills_bind (hevaluate _) fun slot _ => ?_
      refine fills_bind (fills_present slot) fun v _ => ?_
      cases v with
      | object o =>
          exact fills_bind (fills_args hevaluate [] nodes) fun slots _ =>
            fills_send hevaluate o selector slots
      | _ => exact fills_complain_showing _ _

theorem fills_form (name : String) (nodes : List Node) :
    Fills (form setup evaluate name nodes) (· ≠ none) := by
  unfold form
  split
  · exact fills_block hevaluate nodes
  · split
    · exact fills_definition hevaluate nodes
    · split
      · exact fills_assignment hevaluate nodes
      · split
        · exact fills_construction hevaluate nodes
        · split
          · exact fills_selection hevaluate name nodes
          · exact fills_application hevaluate name nodes

theorem fills_expression (node : Node) : Fills (expression setup evaluate node) (· ≠ none) := by
  cases node with
  | number d => exact fills_pure (Option.some_ne_none _)
  | atom name => exact fills_pure (Option.some_ne_none _)
  | «variable» name =>
      refine fills_bind (fills_resolve? name) fun found hfound => ?_
      cases found with
      | none => exact fills_complain _
      | some slot =>
          apply fills_pure
          rintro rfl
          exact hfound rfl
  | call name nodes => exact fills_form hevaluate name nodes
  | absent => exact fills_complain _
  | extension kind _ => exact fills_complain _

end Requests

/-- An evaluation has a value, and leaves every name bound to one. -/
theorem fulfils_run (setup : Setup) (depth : Nat) : Fulfils (run setup depth) := by
  induction depth with
  | zero => exact fun _ => fills_failing _
  | succ depth ih =>
      intro request
      cases request with
      | eval node => exact fills_expression ih node
      | call function args receiver => exact fills_call ih function args receiver
      | send target selector args => exact fills_send ih target selector args

end Eval

/-! ## Parts of tasks -/

open Run Eval

theorem Script.Asks.filled {evaluate : Request → Run Slot} {script : Script} {m found : Machine}
    {request : Request} (hasks : script.Asks evaluate m request found)
    (hevaluate : Fulfils evaluate) (hfilled : m.heap.Filled) : found.heap.Filled := by
  induction hasks with
  | now => exact hfilled
  | later hok _ ih => exact ih ((hevaluate _).of_ok hfilled hok).1
  | height _ ih => exact ih hfilled
  | top _ ih => exact ih hfilled

namespace Task

variable {setup : Setup} {task part : Task}

theorem Part.filled (hpart : Part setup task part) (hfilled : task.machine.heap.Filled) :
    part.machine.heap.Filled := by
  cases hpart with
  | argument _ _ _ hdone => exact ((fills_args (fulfils_run setup _) [] _).of_ok hfilled hdone).1
  | application _ _ _ hdone => exact ((fills_args (fulfils_run setup _) [] _).of_ok hfilled hdone).1
  | block hdone =>
      exact ((fills_sequence (fulfils_run setup _) (Option.some_ne_none _) _).of_ok
        (hfilled.addScope _) hdone).1
  | definition _ => exact hfilled
  | assignment _ => exact hfilled
  | clause _ hdone _ _ =>
      exact ((fills_clauses (fulfils_run setup _) _ _).of_ok (hfilled.addScope _) hdone).1
  | target _ => exact hfilled
  | operand _ htarget hdone =>
      have hmiddle := ((fulfils_run setup _ _).of_ok hfilled htarget).1
      exact ((fills_args (fulfils_run setup _) [] _).of_ok hmiddle hdone).1
  | dispatch _ htarget hdone =>
      have hmiddle := ((fulfils_run setup _ _).of_ok hfilled htarget).1
      exact ((fills_args (fulfils_run setup _) [] _).of_ok hmiddle hdone).1
  | method _ _ _ => exact hfilled
  | body _ _ hbound => exact ((fills_bindParams _ _ _).of_ok (hfilled.addScope _) hbound).1
  | native _ hasks => exact hasks.filled (fulfils_run setup _) hfilled

theorem Course.filled (hcourse : Course setup task part) (hfilled : task.machine.heap.Filled) :
    part.machine.heap.Filled := by
  induction hcourse with
  | refl => exact hfilled
  | tail _ hpart ih => exact hpart.filled ih

end Task

/-! ## Histories -/

namespace Interpreter

variable {interpreter : Interpreter}

theorem Starts.filled {depth : Nat} {operation : Operation} {start : Task}
    (hstarts : interpreter.Starts depth operation start)
    (hfilled : interpreter.machine.heap.Filled) : start.machine.heap.Filled := by
  cases hstarts with
  | load _ _ hdone =>
      exact ((fills_sequence (fulfils_run interpreter.setup depth) (Option.some_ne_none _) _).of_ok
        hfilled hdone).1
  | _ => exact hfilled

theorem filled_perform {α : Type} {step : Run α} {good : α → Prop} (hstep : step.Fills good)
    (hfilled : interpreter.machine.heap.Filled) :
    (interpreter.perform step).2.machine.heap.Filled := by
  have hafter := (hstep interpreter.machine hfilled).1
  unfold Run.after at hafter
  unfold perform
  cases hrun : step interpreter.machine with
  | ok a after =>
      rw [hrun] at hafter
      exact hafter
  | error failure after =>
      rw [hrun] at hafter
      exact hafter

theorem fills_bindGlobal (global : ScopeId) (name : String) (slot : Slot) :
    Fills (bindGlobal global name slot) fun _ => True := by
  refine fills_bind (fills_looking _) fun found _ => ?_
  split
  · exact fills_failing _
  · exact (fills_define global name slot).any

theorem fills_bindBuiltins (global : ScopeId) (builtins : List (String × Native)) :
    Fills (bindBuiltins global builtins) fun _ => True := by
  induction builtins with
  | nil => exact fills_pure trivial
  | cons builtin builtins ih =>
      refine fills_bind (fills_looking _) fun found _ => ?_
      split
      · exact fills_failing _
      · exact fills_bind (fills_define global builtin.1 _) fun _ _ => ih

theorem fills_plan (setup : Setup) (depth : Nat) (reads : Bool) (operation : Operation) :
    Fills (operation.plan reads (run setup depth)) fun _ => True := by
  have hrun := fulfils_run setup depth
  cases operation with
  | eval node => exact (hrun _).any
  | evalIn s node => exact fills_inScope s (hrun _).any
  | call function args => exact (hrun _).any
  | send target selector args => exact (hrun _).any
  | load source =>
      simp only [Operation.plan]
      split
      · cases readProgram source with
        | error error => exact fills_failing _
        | ok nodes => exact (fills_sequence hrun (Option.some_ne_none Value.null) nodes).any
      · exact fills_failing _

theorem filled_handle (deed : Deed) (hfilled : interpreter.machine.heap.Filled) :
    (interpreter.handle deed).machine.heap.Filled := by
  cases deed with
  | choose choice =>
      simp only [handle]
      cases hchosen : interpreter.choose choice with
      | error failure => exact hfilled
      | ok chosen =>
          rcases heap_of_choose hchosen with hheap | ⟨name, slot, -, hbound⟩
          · exact hheap ▸ hfilled
          · exact hbound ▸ filled_perform (fills_bindGlobal _ name slot) hfilled
  | addBuiltins builtins => exact filled_perform (fills_bindBuiltins _ _) hfilled
  | operate depth operation =>
      simp only [handle, operate_eq_perform]
      exact filled_perform (fills_plan _ depth _ operation) hfilled
  | makeObject name parent => exact hfilled.addScope parent
  | setPrototype o proto =>
      simp only [handle]
      cases hlinked : interpreter.machine.heap.setPrototype? o proto with
      | none => exact hfilled
      | some linked => exact hfilled.setPrototype? hlinked

theorem filled_initialHeap : initialHeap.Filled :=
  (Discipline.whole_of_sound (settled_initialHeap (initial Host.standard).setup).1).bound

end Interpreter

/-- Whatever a host does with an interpreter, every task finds each name bound to a value. -/
theorem Task.Arises.filled {host : Host} {deeds : List Deed} {task : Task}
    (harises : task.Arises host deeds) : task.machine.heap.Filled := by
  obtain ⟨depth, operation, start, hstarts, hcourse⟩ := harises
  have hhistory : (Interpreter.history host deeds).machine.heap.Filled := by
    apply Interpreter.history_induction (P := fun interpreter => interpreter.machine.heap.Filled)
    · exact Interpreter.filled_initialHeap
    · intro interpreter deed _ hfilled
      exact Interpreter.filled_handle deed hfilled
  exact hcourse.filled (hstarts.filled hhistory)

end ProtoLisp
