import ProtoLisp.Interpreter.History
import ProtoLisp.Proofs.Discipline

/-!
# Evaluation obeys every lawful discipline

The forms of the language are followed one by one: each keeps a discipline if the evaluation of its
parts does.  `Discipline.serves_run` ties the knot by induction on the depth, and
`Discipline.operate` carries the result over to all that a host can ask of an interpreter.
-/

namespace ProtoLisp

/-- The parameters of a signature have different names. -/
theorem Eval.nodup_of_formals {form : String} {seen names : List String} {nodes : List Node}
    (hformals : Eval.formals form seen nodes = .ok names) (hseen : seen.Nodup) : names.Nodup := by
  induction nodes generalizing seen with
  | nil =>
      cases hformals
      exact hseen
  | cons node nodes ih =>
      cases node with
      | «variable» name =>
          rw [Eval.formals] at hformals
          split at hformals
          · cases hformals
          next hnew =>
            apply ih hformals
            simp only [List.contains_eq_mem, decide_eq_true_eq] at hnew
            rw [List.nodup_append]
            refine ⟨hseen, by simp, ?_⟩
            intro other hother new hname heq
            rw [List.mem_singleton] at hname
            exact hnew (hname ▸ heq ▸ hother)
      | _ => cases hformals

namespace Discipline

/-- `evaluate` meets every request whose parts are admitted within the discipline. -/
def Serves (D : Discipline) (evaluate : Request → Run Slot) : Prop :=
  ∀ m request, D.Ready m request → D.Keeps m (evaluate request) D.Admits

section Forms

variable {D : Discipline} {setup : Setup} {evaluate : Request → Run Slot} {m : Machine}

/-! ### Sequences -/

theorem keeps_eval (hserves : D.Serves evaluate) {node : Node} (hreads : D.Reads node)
    (henters : D.Enters m.heap m.scope) : D.Keeps m (evaluate (.eval node)) D.Admits :=
  hserves m (.eval node) ⟨hreads, henters⟩

theorem keeps_args (hD : D.Lawful setup) (hserves : D.Serves evaluate) {done : List Slot}
    {nodes : List Node} (hreads : ∀ node ∈ nodes, D.Reads node)
    (henters : D.Enters m.heap m.scope) (hdone : ∀ slot ∈ done, D.Admits m.heap slot) :
    D.Keeps m (Eval.args evaluate done nodes) fun heap slots => ∀ slot ∈ slots, D.Admits heap slot := by
  induction nodes generalizing m done with
  | nil =>
      apply keeps_pure hD
      intro _ slot hslot
      exact hdone slot (List.mem_reverse.mp hslot)
  | cons node nodes ih =>
      apply keeps_bind hD (keeps_eval hserves (hreads node List.mem_cons_self) henters)
      intro slot after hleaves hslot
      apply ih (fun node hnode => hreads node (List.mem_cons_of_mem _ hnode))
        (hleaves.enters hD henters)
      intro other hother
      rcases List.mem_cons.mp hother with rfl | hother
      · exact hslot
      · exact hD.admits_mono hleaves.grows (hdone other hother)

theorem keeps_sequence (hD : D.Lawful setup) (hserves : D.Serves evaluate) {last : Slot}
    {nodes : List Node} (hreads : ∀ node ∈ nodes, D.Reads node)
    (henters : D.Enters m.heap m.scope) (hlast : D.Admits m.heap last) :
    D.Keeps m (Eval.sequence evaluate last nodes) D.Admits := by
  induction nodes generalizing m last with
  | nil => exact keeps_pure hD fun _ => hlast
  | cons node nodes ih =>
      apply keeps_bind hD (keeps_eval hserves (hreads node List.mem_cons_self) henters)
      intro slot after hleaves hslot
      exact ih (fun node hnode => hreads node (List.mem_cons_of_mem _ hnode))
        (hleaves.enters hD henters) hslot

/-! ### Arithmetic -/

theorem keeps_numbers (hD : D.Lawful setup) (operator : Operator) {index : Nat}
    {slots : List Slot} (hslots : ∀ slot ∈ slots, D.Admits m.heap slot) :
    D.Keeps m (operator.numbers index slots) fun _ _ => True := by
  induction slots generalizing m index with
  | nil => exact keeps_pure hD fun _ => trivial
  | cons slot slots ih =>
      apply keeps_bind hD (keeps_present hD (hslots slot List.mem_cons_self))
      rintro v after hleaves -
      have hrest : ∀ slot ∈ slots, D.Admits after.heap slot :=
        hleaves.admits_all hD fun slot hslot => hslots slot (List.mem_cons_of_mem _ hslot)
      cases v with
      | number d => exact keeps_bind hD (ih hrest) fun _ _ _ _ => keeps_pure hD fun _ => trivial
      | _ => exact keeps_complain_showing hD _ fun _ => by simp [Complaint.condition]

theorem keeps_multiply (hD : D.Lawful setup) (product : Decimal) (ds : List Decimal) :
    D.Keeps m (Operator.multiply product ds) fun _ _ => True := by
  induction ds generalizing product with
  | nil => exact keeps_pure hD fun _ => trivial
  | cons d ds ih =>
      rw [Operator.multiply]
      split
      · exact ih _
      next hmul =>
        refine keeps_failing hD (hD.fails_overflow ?_)
        simpa [Decimal.mul?] using hmul

theorem keeps_divide (hD : D.Lawful setup) (precision : Int32) (quotient : Decimal)
    (ds : List Decimal) : D.Keeps m (Operator.divide precision quotient ds) fun _ _ => True := by
  induction ds generalizing quotient with
  | nil => exact keeps_pure hD fun _ => trivial
  | cons d ds ih =>
      rw [Operator.divide]
      split
      · exact keeps_complain hD (by simp [Complaint.condition])
      next hdivisor =>
        simp only [Decimal.quotient?, hdivisor]
        exact ih _

theorem keeps_calculate (hD : D.Lawful setup) (precision : Int32) (operator : Operator)
    (ds : List Decimal) : D.Keeps m (operator.calculate precision ds) fun _ _ => True := by
  unfold Operator.calculate
  split
  · exact keeps_pure hD fun _ => trivial
  · exact keeps_complain hD (by simp [Complaint.condition])
  · exact keeps_pure hD fun _ => trivial
  · exact keeps_pure hD fun _ => trivial
  · exact keeps_multiply hD _ _
  · exact keeps_complain hD (by simp [Complaint.condition])
  · exact keeps_divide hD _ _ _
  · exact keeps_divide hD _ _ _

theorem keeps_apply (hD : D.Lawful setup) (precision : Int32) (operator : Operator)
    {slots : List Slot} (hslots : ∀ slot ∈ slots, D.Admits m.heap slot) :
    D.Keeps m (operator.apply precision slots) D.Admits := by
  apply keeps_bind hD (keeps_numbers hD operator hslots)
  intro ds _ _ _
  apply keeps_bind hD (keeps_calculate hD precision operator ds)
  intro d _ _ _
  exact keeps_pure hD fun _ => hD.admits_primitive rfl

/-! ### Calls -/

theorem keeps_follow (hD : D.Lawful setup) (hserves : D.Serves evaluate) {script : Script}
    (hobeys : D.Obeys script m) :
    D.Keeps m (script.follow evaluate) fun heap result =>
      ∀ v, result = some v → D.Admits heap (some v) := by
  induction script generalizing m with
  | finish result => exact keeps_pure hD fun _ => hobeys
  | complain complaint => exact keeps_failing hD hobeys
  | refuse text => exact keeps_failing hD hobeys
  | crash cause => exact keeps_failing hD hobeys
  | ask request next ih =>
      apply keeps_bind hD (hserves m request hobeys.1)
      intro answer after hleaves hanswer
      exact ih answer (hobeys.2 answer after hleaves hanswer)
  | height next ih => exact keeps_bind_looking (ih _ hobeys)
  | top next ih => exact keeps_bind_looking (ih _ hobeys)

theorem keeps_bindParams (hD : D.Lawful setup) {s : ScopeId} (params : List String)
    {slots : List Slot} (henters : D.Enters m.heap s)
    (hslots : ∀ slot ∈ slots, D.Admits m.heap slot) :
    D.Keeps m (Eval.bindParams s params slots) fun _ _ => True := by
  induction params generalizing m slots with
  | nil => exact keeps_pure hD fun _ => trivial
  | cons name params ih =>
      cases slots with
      | nil => exact keeps_pure hD fun _ => trivial
      | cons slot slots =>
          apply keeps_bind hD (keeps_define hD name henters (hslots slot List.mem_cons_self))
          intro _ after hleaves _
          apply ih (hD.enters_mono hleaves.grows henters)
          exact hleaves.admits_all hD fun slot hslot => hslots slot (List.mem_cons_of_mem _ hslot)

theorem admits_getD_null (hD : D.Lawful setup) {heap : Heap} {result : Slot}
    (hresult : ∀ v, result = some v → D.Admits heap (some v)) :
    D.Admits heap (some (result.getD .null)) := by
  cases result with
  | none => exact hD.admits_primitive rfl
  | some v => exact hresult v rfl

theorem keeps_native (hD : D.Lawful setup) (hserves : D.Serves evaluate) {name : String}
    {body : Native} {slots : List Slot} (hnative : D.Admits m.heap (some (.native name body)))
    (hslots : ∀ slot ∈ slots, D.Admits m.heap slot) :
    D.Keeps m (Eval.native setup evaluate body slots) D.Admits := by
  apply keeps_of_sound
  intro hsound
  cases body with
  | operator operator =>
      apply keeps_bind hD (keeps_apply hD setup.precision operator hslots)
      intro result after _ hresult
      exact keeps_pure hD fun _ => admits_getD_null hD fun v hv => hv ▸ hresult
  | host key =>
      apply keeps_bind hD (keeps_follow hD hserves (hD.obeys_host hsound hnative hslots))
      intro result after _ hresult
      exact keeps_pure hD fun _ => admits_getD_null hD hresult

theorem keeps_closure (hD : D.Lawful setup) (hserves : D.Serves evaluate) {name : String}
    {params : List String} {body : Node} {scope : Option ScopeId} {slots : List Slot}
    (hclosure : D.Admits m.heap (some (.closure name params body scope)))
    (hslots : ∀ slot ∈ slots, D.Admits m.heap slot) :
    D.Keeps m (Eval.closure evaluate name params body scope slots) D.Admits := by
  unfold Eval.closure
  split
  · exact keeps_complain hD (by simp [Complaint.condition])
  · apply keeps_bind hD (keeps_newClosureScope hD hclosure)
    intro s opened hopened henters
    apply keeps_bind hD (keeps_bindParams hD params henters (hopened.admits_all hD hslots))
    intro _ bound hbound _
    apply keeps_inScope
    exact keeps_eval hserves (hD.reads_body hclosure) (hD.enters_mono hbound.grows henters)

theorem keeps_call (hD : D.Lawful setup) (hserves : D.Serves evaluate) {function : Slot}
    {slots : List Slot} (receiver : String) (hfunction : D.Admits m.heap function)
    (hslots : ∀ slot ∈ slots, D.Admits m.heap slot) :
    D.Keeps m (Eval.call setup evaluate function slots receiver) D.Admits := by
  apply keeps_bind hD (keeps_present hD hfunction)
  rintro v after hleaves ⟨-, hv⟩
  have hslots' := hleaves.admits_all hD hslots
  cases v with
  | native name body => exact keeps_inCall hD (keeps_native hD hserves hv hslots')
  | closure name params body scope => exact keeps_inCall hD (keeps_closure hD hserves hv hslots')
  | _ => exact keeps_complain_showing hD _ fun _ => by simp [Complaint.condition]

theorem keeps_application (hD : D.Lawful setup) (hserves : D.Serves evaluate) (name : String)
    {nodes : List Node} (hreads : ∀ node ∈ nodes, D.Reads node)
    (henters : D.Enters m.heap m.scope) :
    D.Keeps m (Eval.application setup evaluate name nodes) D.Admits := by
  apply keeps_of_sound
  intro hsound
  apply keeps_bind_looking
  cases hresolve : m.heap.resolve? m.scope name with
  | none => exact keeps_complain hD (by simp [Complaint.condition])
  | some slot =>
      have hslot := hD.admits_resolved hsound henters hresolve
      apply keeps_bind hD (keeps_present hD hslot)
      rintro v after hleaves -
      have henters' := hleaves.enters hD henters
      split
      · apply keeps_bind hD (keeps_args hD hserves hreads henters' (by simp))
        intro slots evaluated hevaluated hslots
        exact keeps_call hD hserves "" (hD.admits_mono (hleaves.trans hD hevaluated).grows hslot)
          hslots
      · exact keeps_complain_showing hD _ fun _ => by simp [Complaint.condition]

/-! ### Blocks, definitions and assignments -/

theorem keeps_block (hD : D.Lawful setup) (hserves : D.Serves evaluate) {nodes : List Node}
    (hreads : ∀ node ∈ nodes, D.Reads node) (henters : D.Enters m.heap m.scope) :
    D.Keeps m (Eval.block evaluate nodes) D.Admits := by
  apply keeps_bind_looking
  apply keeps_bind hD (keeps_newBlock hD henters)
  intro s opened _ hopened
  apply keeps_inScope
  exact keeps_sequence hD hserves hreads hopened (hD.admits_primitive rfl)

theorem keeps_orComplain (hD : D.Lawful setup) {result : Except Complaint α}
    (hcondition : ∀ complaint, result = .error complaint → complaint.condition.IsOrdinary) :
    D.Keeps m (Eval.orComplain result) fun _ a => result = .ok a := by
  cases result with
  | ok a => exact keeps_pure hD fun _ => rfl
  | error complaint => exact keeps_complain hD (hcondition complaint rfl)

theorem condition_of_formals {form : String} {seen : List String} {nodes : List Node}
    {complaint : Complaint} (hformals : Eval.formals form seen nodes = .error complaint) :
    complaint.condition = .invalidForm := by
  induction nodes generalizing seen with
  | nil => cases hformals
  | cons node nodes ih =>
      cases node with
      | «variable» name =>
          rw [Eval.formals] at hformals
          split at hformals
          · cases hformals
            rfl
          · exact ih hformals
      | _ =>
          cases hformals
          rfl

theorem keeps_defineName (hD : D.Lawful setup) (hserves : D.Serves evaluate) (name : String)
    {node : Node} (hreads : D.Reads node) (henters : D.Enters m.heap m.scope) :
    D.Keeps m (Eval.defineName evaluate name node) D.Admits := by
  apply keeps_bind_looking
  split
  · exact keeps_complain hD (by simp [Complaint.condition])
  · apply keeps_bind hD (keeps_eval hserves hreads henters)
    intro slot evaluated hevaluated hslot
    apply keeps_bind_looking
    apply keeps_bind hD (keeps_define hD name (hevaluated.enters hD henters) hslot)
    intro _ defined hdefined _
    exact keeps_pure hD fun _ => hD.admits_mono hdefined.grows hslot

theorem keeps_defineFunction (hD : D.Lawful setup) (name : String) (params : List Node)
    {body : Node} (hreads : D.Reads body) (henters : D.Enters m.heap m.scope) :
    D.Keeps m (Eval.defineFunction name params body) D.Admits := by
  apply keeps_bind_looking
  split
  · exact keeps_complain hD (by simp [Complaint.condition])
  · apply keeps_bind hD (keeps_orComplain hD fun _ h => by simp [condition_of_formals h])
    intro names after hleaves hnames
    apply keeps_bind_looking
    have henters' := hleaves.enters hD henters
    have hfunction :
        D.Admits after.heap (some (.closure name names body (some after.scope))) :=
      hD.admits_closure henters' (Eval.nodup_of_formals hnames List.nodup_nil) hreads
    apply keeps_bind hD (keeps_define hD name henters' hfunction)
    intro _ defined hdefined _
    exact keeps_pure hD fun _ => hD.admits_mono hdefined.grows hfunction

theorem keeps_definition (hD : D.Lawful setup) (hserves : D.Serves evaluate) {nodes : List Node}
    (hreads : ∀ node ∈ nodes, D.Reads node) (henters : D.Enters m.heap m.scope) :
    D.Keeps m (Eval.definition evaluate nodes) D.Admits := by
  unfold Eval.definition
  split
  · exact keeps_defineName hD hserves _ (hreads _ (by simp)) henters
  · split
    · exact keeps_complain hD (by simp [Complaint.condition])
    · exact keeps_defineFunction hD _ _ (hreads _ (by simp)) henters
  · exact keeps_complain hD (by simp [Complaint.condition])
  · exact keeps_complain hD (by simp [Complaint.condition])

theorem keeps_assignment (hD : D.Lawful setup) (hserves : D.Serves evaluate) {nodes : List Node}
    (hreads : ∀ node ∈ nodes, D.Reads node) (henters : D.Enters m.heap m.scope) :
    D.Keeps m (Eval.assignment evaluate nodes) D.Admits := by
  unfold Eval.assignment
  split
  · apply keeps_bind_looking
    split
    · exact keeps_complain hD (by simp [Complaint.condition])
    · apply keeps_bind hD (keeps_eval hserves (hreads _ (by simp)) henters)
      intro slot evaluated hevaluated hslot
      apply keeps_bind hD (keeps_rebind hD _ (hevaluated.enters hD henters) hslot)
      intro replaced rebound hrebound _
      split
      · exact keeps_pure hD fun _ => hD.admits_mono hrebound.grows hslot
      · exact keeps_complain hD (by simp [Complaint.condition])
  · exact keeps_complain hD (by simp [Complaint.condition])
  · exact keeps_complain hD (by simp [Complaint.condition])

/-! ### Objects -/

/-- What is admitted now or later on can be made the prototype of `o`. -/
def Links (D : Discipline) (m : Machine) (o : ObjectId) : Prop :=
  ∀ after proto, D.Leaves m after → D.Admits after.heap (some (.object proto)) →
    D.Keeps after (Run.setPrototype o proto) fun _ _ => True

theorem links_of_admits (hD : D.Lawful setup) {o : ObjectId}
    (hobject : D.Admits m.heap (some (.object o))) : D.Links m o := by
  intro after proto hleaves hproto
  exact keeps_setPrototype hD (hD.admits_mono hleaves.grows hobject) hproto

theorem Links.later (hD : D.Lawful setup) {o : ObjectId} {after : Machine} (hlinks : D.Links m o)
    (hleaves : D.Leaves m after) : D.Links after o := by
  intro last proto hlast hproto
  exact hlinks last proto (hleaves.trans hD hlast) hproto

theorem keeps_prototypeClause (hD : D.Lawful setup) (hserves : D.Serves evaluate) {o : ObjectId}
    {node : Node} (hreads : D.Reads node) (henters : D.Enters m.heap m.scope)
    (hlinks : D.Links m o) :
    D.Keeps m (Eval.prototypeClause evaluate o node) fun _ _ => True := by
  apply keeps_bind hD (keeps_eval hserves hreads henters)
  intro slot evaluated hevaluated hslot
  apply keeps_bind hD (keeps_present hD hslot)
  rintro v after hleaves ⟨-, hv⟩
  cases v with
  | object proto =>
      apply keeps_bind hD (hlinks after proto (hevaluated.trans hD hleaves) hv)
      intro linked _ _ _
      split
      · exact keeps_pure hD fun _ => trivial
      · exact keeps_complain_showing hD _ fun _ => by simp [Complaint.condition]
  | _ => exact keeps_complain_showing hD _ fun _ => by simp [Complaint.condition]

theorem keeps_fieldClause (hD : D.Lawful setup) (hserves : D.Serves evaluate) (name : String)
    {node : Node} (hreads : D.Reads node) (henters : D.Enters m.heap m.scope) :
    D.Keeps m (Eval.fieldClause evaluate name node) fun _ _ => True := by
  apply keeps_bind_looking
  split
  · exact keeps_complain hD (by simp [Complaint.condition])
  · apply keeps_bind hD (keeps_eval hserves hreads henters)
    intro slot evaluated hevaluated hslot
    apply keeps_bind_looking
    exact keeps_define hD name (hevaluated.enters hD henters) hslot

theorem condition_of_signature {head : Node} {complaint : Complaint}
    (hsignature : Eval.signature head = .error complaint) :
    complaint.condition = .invalidForm := by
  unfold Eval.signature at hsignature
  split at hsignature
  · split at hsignature
    · cases hsignature
    · cases hsignature
      rfl
  · cases hsignature
    rfl

theorem keeps_methodClause (hD : D.Lawful setup) (head : Node) {body : Node}
    (hreads : D.Reads body) (henters : D.Enters m.heap m.scope) :
    D.Keeps m (Eval.methodClause head body) fun _ _ => True := by
  apply keeps_bind hD (keeps_orComplain hD fun _ h => by simp [condition_of_signature h])
  rintro ⟨name, params⟩ read hread -
  apply keeps_bind_looking
  split
  · exact keeps_complain hD (by simp [Complaint.condition])
  · apply keeps_bind hD (keeps_orComplain hD fun _ h => by simp [condition_of_formals h])
    intro names after hleaves hnames
    apply keeps_bind_looking
    have henters' := (hread.trans hD hleaves).enters hD henters
    exact keeps_define hD name henters'
      (hD.admits_closure henters' (Eval.nodup_of_formals hnames List.nodup_nil) hreads)

theorem keeps_clause (hD : D.Lawful setup) (hserves : D.Serves evaluate) {o : ObjectId}
    {node : Node} (hreads : D.Reads node) (henters : D.Enters m.heap m.scope)
    (hlinks : D.Links m o) :
    D.Keeps m (Eval.clause evaluate o node) fun _ _ => True := by
  unfold Eval.clause
  split
  · exact keeps_methodClause hD _ (hD.reads_arg hreads (by simp)) henters
  · exact keeps_complain hD (by simp [Complaint.condition])
  · exact keeps_prototypeClause hD hserves (hD.reads_arg hreads (by simp)) henters hlinks
  · exact keeps_fieldClause hD hserves _ (hD.reads_arg hreads (by simp)) henters
  · exact keeps_complain hD (by simp [Complaint.condition])
  · exact keeps_complain hD (by simp [Complaint.condition])

theorem keeps_clauses (hD : D.Lawful setup) (hserves : D.Serves evaluate) {o : ObjectId}
    {nodes : List Node} (hreads : ∀ node ∈ nodes, D.Reads node)
    (henters : D.Enters m.heap m.scope) (hlinks : D.Links m o) :
    D.Keeps m (Eval.clauses evaluate o nodes) fun _ _ => True := by
  induction nodes generalizing m with
  | nil => exact keeps_pure hD fun _ => trivial
  | cons node nodes ih =>
      apply keeps_bind hD
        (keeps_clause hD hserves (hreads node List.mem_cons_self) henters hlinks)
      intro _ after hleaves _
      exact ih (fun node hnode => hreads node (List.mem_cons_of_mem _ hnode))
        (hleaves.enters hD henters) (hlinks.later hD hleaves)

theorem keeps_construct (hD : D.Lawful setup) (hserves : D.Serves evaluate) (name : String)
    {nodes : List Node} (hreads : ∀ node ∈ nodes, D.Reads node)
    (henters : D.Enters m.heap m.scope) :
    D.Keeps m (Eval.construct evaluate name nodes) D.Admits := by
  apply keeps_bind hD (keeps_newObject hD name henters)
  rintro ⟨o, s⟩ opened _ ⟨hopened, hobject⟩
  apply keeps_inScope
  apply keeps_bind hD
    (keeps_clauses hD hserves (m := { opened with scope := s }) hreads hopened
      (links_of_admits hD hobject))
  intro _ filled hfilled _
  exact keeps_pure hD fun _ => hD.admits_mono hfilled.grows hobject

theorem keeps_construction (hD : D.Lawful setup) (hserves : D.Serves evaluate)
    {nodes : List Node} (hreads : ∀ node ∈ nodes, D.Reads node)
    (henters : D.Enters m.heap m.scope) :
    D.Keeps m (Eval.construction evaluate nodes) D.Admits := by
  unfold Eval.construction
  split
  · exact keeps_construct hD hserves _
      (fun node hnode => hreads node (List.mem_cons_of_mem _ hnode)) henters
  · exact keeps_construct hD hserves _ hreads henters

/-! ### Selectors -/

theorem keeps_objectArgument (hD : D.Lawful setup) (selector : String) {slots : List Slot}
    (hslots : ∀ slot ∈ slots, D.Admits m.heap slot) :
    D.Keeps m (Eval.objectArgument selector slots) fun heap o =>
      D.Admits heap (some (.object o)) := by
  unfold Eval.objectArgument
  split
  next slot =>
    apply keeps_bind hD (keeps_present hD (hslots slot (by simp)))
    rintro v after _ ⟨-, hv⟩
    cases v with
    | object o => exact keeps_pure hD fun _ => hv
    | _ => exact keeps_complain_showing hD _ fun _ => by simp [Complaint.condition]
  · exact keeps_complain hD (by simp [Complaint.condition])

theorem keeps_sendPrototype (hD : D.Lawful setup) {o : ObjectId} (slots : List Slot)
    (hobject : D.Admits m.heap (some (.object o))) :
    D.Keeps m (Eval.sendPrototype o slots) D.Admits := by
  unfold Eval.sendPrototype
  split
  · exact keeps_complain hD (by simp [Complaint.condition])
  · apply keeps_bind_withHeap
    apply keeps_pure hD
    intro hsound
    cases hproto : m.heap.proto? o with
    | none => exact hD.admits_primitive rfl
    | some proto => exact hD.admits_prototype hsound hobject hproto

theorem keeps_sendSetPrototype (hD : D.Lawful setup) {o : ObjectId} {slots : List Slot}
    (hobject : D.Admits m.heap (some (.object o)))
    (hslots : ∀ slot ∈ slots, D.Admits m.heap slot) :
    D.Keeps m (Eval.sendSetPrototype o slots) D.Admits := by
  apply keeps_bind hD (keeps_objectArgument hD ".prototype=" hslots)
  intro proto after hleaves hproto
  apply keeps_bind hD (keeps_setPrototype hD (hD.admits_mono hleaves.grows hobject) hproto)
  intro _ linked hlinked _
  split
  · exact keeps_pure hD fun _ => hD.admits_mono hlinked.grows hproto
  · exact keeps_complain_showing hD _ fun _ => by simp [Complaint.condition]

theorem keeps_sendInstance (hD : D.Lawful setup) (o : ObjectId) {slots : List Slot}
    (hslots : ∀ slot ∈ slots, D.Admits m.heap slot) :
    D.Keeps m (Eval.sendInstance o slots) D.Admits := by
  apply keeps_bind hD (keeps_objectArgument hD ".instance?" hslots)
  intro candidate _ _ _
  apply keeps_bind_withHeap
  exact keeps_pure hD fun _ => hD.admits_primitive rfl

theorem keeps_sendSet (hD : D.Lawful setup) {o : ObjectId} (selector field : String)
    {slots : List Slot} (hobject : D.Admits m.heap (some (.object o)))
    (hslots : ∀ slot ∈ slots, D.Admits m.heap slot) :
    D.Keeps m (Eval.sendSet o selector field slots) D.Admits := by
  unfold Eval.sendSet
  split
  next slot =>
    have hslot := hslots slot (by simp)
    apply keeps_bind hD (keeps_setField hD field hobject hslot)
    intro _ after hleaves _
    exact keeps_pure hD fun _ => hD.admits_mono hleaves.grows hslot
  · exact keeps_complain hD (by simp [Complaint.condition])

theorem keeps_sendGet (hD : D.Lawful setup) (hserves : D.Serves evaluate) {o : ObjectId}
    (selector : String) {slots : List Slot} (hobject : D.Admits m.heap (some (.object o)))
    (hslots : ∀ slot ∈ slots, D.Admits m.heap slot) :
    D.Keeps m (Eval.sendGet setup evaluate o selector slots) D.Admits := by
  apply keeps_of_sound
  intro hsound
  apply keeps_bind_withHeap
  cases hattribute : m.heap.attribute? o selector with
  | none => exact keeps_complain_showing hD _ fun _ => by simp [Complaint.condition]
  | some slot =>
      have hslot := hD.admits_attribute hsound hobject hattribute
      apply keeps_bind hD (keeps_present hD hslot)
      rintro v after hleaves -
      have hslot' := hD.admits_mono hleaves.grows hslot
      split
      · apply keeps_bind_withHeap
        exact keeps_call hD hserves _ hslot' (hleaves.admits_all hD hslots)
      · split
        · exact keeps_complain_showing hD _ fun _ => by simp [Complaint.condition]
        · exact keeps_pure hD fun _ => hslot'

theorem keeps_send (hD : D.Lawful setup) (hserves : D.Serves evaluate) {o : ObjectId}
    (selector : String) {slots : List Slot} (hobject : D.Admits m.heap (some (.object o)))
    (hslots : ∀ slot ∈ slots, D.Admits m.heap slot) :
    D.Keeps m (Eval.send setup evaluate o selector slots) D.Admits := by
  unfold Eval.send
  split
  · exact keeps_sendPrototype hD slots hobject
  · split
    · exact keeps_sendSetPrototype hD hobject hslots
    · split
      · exact keeps_sendInstance hD o hslots
      · dsimp only
        split
        · exact keeps_complain hD (by simp [Complaint.condition])
        · split
          · exact keeps_sendSet hD selector _ hobject hslots
          · exact keeps_sendGet hD hserves selector hobject hslots

theorem keeps_selection (hD : D.Lawful setup) (hserves : D.Serves evaluate) (selector : String)
    {nodes : List Node} (hreads : ∀ node ∈ nodes, D.Reads node)
    (henters : D.Enters m.heap m.scope) :
    D.Keeps m (Eval.selection setup evaluate selector nodes) D.Admits := by
  cases nodes with
  | nil => exact keeps_complain hD (by simp [Complaint.condition])
  | cons target nodes =>
      apply keeps_bind hD (keeps_eval hserves (hreads target List.mem_cons_self) henters)
      intro slot evaluated hevaluated hslot
      apply keeps_bind hD (keeps_present hD hslot)
      rintro v after hleaves ⟨-, hv⟩
      cases v with
      | object o =>
          have henters' := (hevaluated.trans hD hleaves).enters hD henters
          apply keeps_bind hD (keeps_args hD hserves
            (fun node hnode => hreads node (List.mem_cons_of_mem _ hnode)) henters' (by simp))
          intro slots sent hsent hslots
          exact keeps_send hD hserves selector (hD.admits_mono hsent.grows hv) hslots
      | _ => exact keeps_complain_showing hD _ fun _ => by simp [Complaint.condition]

/-! ### Expressions -/

theorem keeps_form (hD : D.Lawful setup) (hserves : D.Serves evaluate) (name : String)
    {nodes : List Node} (hreads : ∀ node ∈ nodes, D.Reads node)
    (henters : D.Enters m.heap m.scope) :
    D.Keeps m (Eval.form setup evaluate name nodes) D.Admits := by
  unfold Eval.form
  split
  · exact keeps_block hD hserves hreads henters
  · split
    · exact keeps_definition hD hserves hreads henters
    · split
      · exact keeps_assignment hD hserves hreads henters
      · split
        · exact keeps_construction hD hserves hreads henters
        · split
          · exact keeps_selection hD hserves name hreads henters
          · exact keeps_application hD hserves name hreads henters

theorem keeps_expression (hD : D.Lawful setup) (hserves : D.Serves evaluate) {node : Node}
    (hreads : D.Reads node) (henters : D.Enters m.heap m.scope) :
    D.Keeps m (Eval.expression setup evaluate node) D.Admits := by
  cases node with
  | number d => exact keeps_pure hD fun _ => hD.admits_primitive rfl
  | atom name => exact keeps_pure hD fun _ => hD.admits_primitive rfl
  | «variable» name =>
      apply keeps_of_sound
      intro hsound
      apply keeps_bind_looking
      cases hresolve : m.heap.resolve? m.scope name with
      | none => exact keeps_complain hD (by simp [Complaint.condition])
      | some slot => exact keeps_pure hD fun _ => hD.admits_resolved hsound henters hresolve
  | call name nodes =>
      exact keeps_form hD hserves name (fun _ hnode => hD.reads_arg hreads hnode) henters
  | absent => exact keeps_complain hD (by simp [Complaint.condition])
  | extension kind text => exact keeps_complain hD (by simp [Complaint.condition])

theorem serves_step (hD : D.Lawful setup) (hserves : D.Serves evaluate) :
    D.Serves (Eval.step setup evaluate) := by
  intro m request hready
  cases request with
  | eval node => exact keeps_expression hD hserves hready.1 hready.2
  | call function args receiver => exact keeps_call hD hserves receiver hready.1 hready.2
  | send target selector args => exact keeps_send hD hserves selector hready.1 hready.2

end Forms

/-- Evaluation obeys every lawful discipline, however deep it goes and however it ends. -/
theorem serves_run {D : Discipline} {setup : Setup} (hD : D.Lawful setup) (depth : Nat) :
    D.Serves (Eval.run setup depth) := by
  induction depth with
  | zero =>
      intro m request _
      exact keeps_failing hD hD.fails_tooDeep
  | succ depth ih => exact serves_step hD ih

end Discipline

/-! ## Operations of an interpreter -/

namespace Discipline

/-- All that an operation refers to is admitted. -/
def Allows (D : Discipline) (m : Machine) : Operation → Prop
  | .eval node => D.Reads node ∧ D.Enters m.heap m.scope
  | .evalIn s node => D.Reads node ∧ D.Enters m.heap s
  | .call function args => D.Admits m.heap function ∧ ∀ arg ∈ args, D.Admits m.heap arg
  | .send target _ args =>
    D.Admits m.heap (some (.object target)) ∧ ∀ arg ∈ args, D.Admits m.heap arg
  | .load source =>
    D.Enters m.heap m.scope ∧ ∀ nodes, readProgram source = .ok nodes → ∀ node ∈ nodes, D.Reads node

/-- What an operation makes of the interpreter.  A text that is not loaded at all fails in a way of
its own. -/
structure Ends (D : Discipline) (before : Machine) (result : Except Failure Slot)
    (after : Machine) : Prop where
  leaves : D.Leaves before after
  admits : ∀ slot, result = .ok slot → D.Admits after.heap slot
  fails : ∀ failure, result = .error failure → D.Fails before.stack failure ∨
    (∃ error, failure = .read error) ∨ failure = .plain "no reader configured"

theorem ends_perform {D : Discipline} {interpreter : Interpreter} {step : Run Slot}
    (hsound : D.Sound interpreter.machine.heap) (hstep : D.Keeps interpreter.machine step D.Admits) :
    D.Ends interpreter.machine (interpreter.perform step).1
      (interpreter.perform step).2.machine := by
  have hkept := hstep hsound
  unfold Interpreter.perform
  cases hrun : step interpreter.machine with
  | ok slot after =>
      rw [hrun] at hkept
      refine ⟨hkept.1, ?_, ?_⟩
      · intro other hother
        cases hother
        exact hkept.2
      · intro failure hfailure
        cases hfailure
  | error failure after =>
      rw [hrun] at hkept
      refine ⟨hkept.1, ?_, ?_⟩
      · intro slot hslot
        cases hslot
      · intro other hother
        cases hother
        exact .inl hkept.2

/-- Every operation of an interpreter obeys every lawful discipline. -/
theorem operate {D : Discipline} {interpreter : Interpreter} (hD : D.Lawful interpreter.setup)
    (hsound : D.Sound interpreter.machine.heap) (depth : Nat) (operation : Operation)
    (hallows : D.Allows interpreter.machine operation) :
    D.Ends interpreter.machine (interpreter.operate depth operation).1
      (interpreter.operate depth operation).2.machine := by
  have hserves := serves_run hD depth
  cases operation with
  | eval node => exact ends_perform hsound (keeps_eval hserves hallows.1 hallows.2)
  | evalIn s node =>
      exact ends_perform hsound (keeps_inScope (keeps_eval hserves hallows.1 hallows.2))
  | call function args => exact ends_perform hsound (hserves _ (.call function args "") hallows)
  | send target selector args =>
      exact ends_perform hsound (hserves _ (.send target selector args) hallows)
  | load source =>
      have hrefused : ∀ failure, (∃ error, failure = .read error) ∨
          failure = .plain "no reader configured" →
          D.Ends interpreter.machine (.error failure) interpreter.machine := by
        intro failure hfailure
        refine ⟨Leaves.refl hD hsound, ?_, ?_⟩
        · intro slot hslot
          cases hslot
        · intro other hother
          cases hother
          exact .inr hfailure
      show D.Ends interpreter.machine (interpreter.load depth source).1
        (interpreter.load depth source).2.machine
      unfold Interpreter.load
      split
      · cases hread : readProgram source with
        | error error => exact hrefused _ (.inl ⟨error, rfl⟩)
        | ok nodes =>
            exact ends_perform hsound (keeps_sequence hD hserves (hallows.2 nodes hread) hallows.1
              (hD.admits_primitive rfl))
      · exact hrefused _ (.inr rfl)

end Discipline

end ProtoLisp
