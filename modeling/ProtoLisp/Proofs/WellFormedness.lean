import ProtoLisp.Proofs.OwnScopes
import ProtoLisp.Proofs.PartOutcomes
import ProtoLisp.Proofs.RoundTrip
import ProtoLisp.Proofs.TypedFailures

/-!
# Well-formed heaps

Programs keep the heap in good order, whatever becomes of them and even if functions of the host
return nothing: every name is bound to a value, every scope is younger than its parent, every object
has a scope to itself, and every closure has a body, a scope and different parameters.  This is what
the walk along the parents of a scope and the call of a closure rely on.
-/

namespace ProtoLisp

/-! ## Complete expressions -/

/-- No expression is missing, and none is of an unknown kind. -/
inductive Node.Complete : Node → Prop
  | number (value : Decimal) : Complete (.number value)
  | atom (name : String) : Complete (.atom name)
  | symbol (name : String) : Complete (.variable name)
  | call {name : String} {args : List Node} (hargs : ∀ arg ∈ args, Complete arg) :
      Complete (.call name args)

theorem Node.Legible.complete {node : Node} (hlegible : node.Legible) : node.Complete := by
  induction hlegible with
  | number value => exact .number value
  | atom _ => exact .atom _
  | symbol _ => exact .symbol _
  | call _ _ ih => exact .call ih
  | group _ _ ih => exact .call ih

theorem Node.complete_of_readProgram {source : Source} {nodes : List Node}
    (hread : readProgram source = .ok nodes) : ∀ node ∈ nodes, node.Complete :=
  fun node hnode => (legible_of_readProgram hread node hnode).complete

/-! ## Values and heaps -/

/-- The heap holds what the value refers to, and a closure can be called. -/
def Value.WellFormed (heap : Heap) : Value → Prop
  | .closure _ params body scope =>
    params.Nodup ∧ body.Complete ∧ ∃ s, scope = some s ∧ s < heap.scopes.size
  | .object o => o < heap.objects.size
  | _ => True

/-- There is a value in the slot, and it is well-formed. -/
def Slot.WellFormed (heap : Heap) (slot : Slot) : Prop := ∃ v, slot = some v ∧ v.WellFormed heap

/-- Nothing is bound but well-formed values, scopes are younger than their parents, no two objects
share their scope, and all prototypes are on the heap. -/
structure Heap.WellFormed (heap : Heap) : Prop where
  bound : ∀ s name slot, (name, slot) ∈ heap.bindings s → Slot.WellFormed heap slot
  younger : ∀ s p, heap.parent? s = some p → p < s
  apart : heap.Apart
  proto : ∀ o p, heap.proto? o = some p → p < heap.objects.size

theorem Value.WellFormed.mono {heap heap' : Heap} {v : Value} (hv : v.WellFormed heap)
    (hincludes : heap'.Includes heap) : v.WellFormed heap' := by
  cases v with
  | closure name params body scope =>
      obtain ⟨hparams, hbody, s, hscope, hs⟩ := hv
      exact ⟨hparams, hbody, s, hscope, Nat.lt_of_lt_of_le hs hincludes.scopes⟩
  | object o => exact Nat.lt_of_lt_of_le hv hincludes.objects
  | _ => trivial

theorem Slot.WellFormed.mono {heap heap' : Heap} {slot : Slot} (hslot : Slot.WellFormed heap slot)
    (hincludes : heap'.Includes heap) : Slot.WellFormed heap' slot := by
  obtain ⟨v, hv, hformed⟩ := hslot
  exact ⟨v, hv, hformed.mono hincludes⟩

namespace Heap.WellFormed

variable {heap : Heap}

theorem addScope (hformed : heap.WellFormed) {parent : Option ScopeId}
    (hparent : ∀ p, parent = some p → p < heap.scopes.size) :
    (heap.addScope parent).WellFormed where
  bound := by
    intro s name slot hmem
    rw [bindings_addScope] at hmem
    exact (hformed.bound s name slot hmem).mono (includes_addScope parent)
  younger := by
    intro s p hp
    rw [parent?_addScope] at hp
    by_cases hnew : s = heap.nextScope
    · rw [if_pos hnew] at hp
      rw [hnew]
      exact hparent p hp
    · rw [if_neg hnew] at hp
      exact hformed.younger s p hp
  apart := (law_apart.addScope parent hformed.apart).1
  proto := hformed.proto

theorem addObject (hformed : heap.WellFormed) (name : String) {s : ScopeId}
    (hs : s < heap.scopes.size) : (heap.addObject name (some s)).WellFormed := by
  have hparent : ∀ p, some s = some p → p < heap.scopes.size := by
    rintro p ⟨⟩
    exact hs
  have hscope := hformed.addScope hparent
  have hincludes : (heap.addObject name (some s)).Includes (heap.addScope (some s)) := by
    constructor <;> simp [Heap.addObject]
  refine ⟨?_, hscope.younger, (law_apart.addObject name (some s) hformed.apart).1, ?_⟩
  · intro t other slot hmem
    exact (hscope.bound t other slot hmem).mono hincludes
  · intro o p hproto
    obtain ⟨object, hobject, hlinked⟩ := Option.bind_eq_some_iff.mp hproto
    rcases getElem?_objects_addObject hobject with ⟨-, rfl⟩ | hold
    · cases hlinked
    · have hp := hformed.proto o p (Option.bind_eq_some_iff.mpr ⟨object, hold, hlinked⟩)
      exact Nat.lt_of_lt_of_le hp hincludes.objects

theorem put (hformed : heap.WellFormed) (s : ScopeId) (name : String) {slot : Slot}
    (hslot : Slot.WellFormed heap slot) : (heap.put s name slot).WellFormed := by
  have hincludes : (heap.put s name slot).Includes heap := by
    constructor <;> simp [Heap.put]
  refine ⟨?_, ?_, (law_apart.put s name slot hformed.apart).1, hformed.proto⟩
  · intro t other value hmem
    rcases mem_bindings_put hmem with hold | rfl
    · exact (hformed.bound t other value hold).mono hincludes
    · exact hslot.mono hincludes
  · intro t p hp
    rw [parent?_put] at hp
    exact hformed.younger t p hp

theorem setField (hformed : heap.WellFormed) (o : ObjectId) (name : String) {slot : Slot}
    (hslot : Slot.WellFormed heap slot) : (heap.setField o name slot).WellFormed := by
  unfold Heap.setField putOwn
  split
  · exact hformed.put _ _ hslot
  · exact hformed

theorem linkPrototype (hformed : heap.WellFormed) (o : ObjectId) {proto : ObjectId}
    (hproto : proto < heap.objects.size) : (heap.linkPrototype o (some proto)).WellFormed := by
  have hincludes : (heap.linkPrototype o (some proto)).Includes heap := by
    constructor <;> simp [Heap.linkPrototype]
  have hapart : (heap.linkPrototype o (some proto)).Apart :=
    hformed.apart.of_objects hincludes.scopes fun _ _ hobject => scope_of_linkPrototype hobject
  refine ⟨?_, hformed.younger, hapart, ?_⟩
  · intro s name slot hmem
    exact (hformed.bound s name slot hmem).mono hincludes
  · intro x p hp
    apply Nat.lt_of_lt_of_le _ hincludes.objects
    rcases proto?_linkPrototype hp with hold | hnew
    · exact hformed.proto x p hold
    · cases hnew
      exact hproto

/-- Since every parent is older, the walk along the parents comes to a scope without one. -/
theorem exists_root (hformed : heap.WellFormed) (s : ScopeId) :
    ∃ root ∈ heap.chain s, heap.parent? root = none := by
  -- The number of the scope is below `count`, and parents have smaller numbers.
  have hwalk : ∀ count s, s < count →
      ∃ root ∈ heap.chainFrom count s, heap.parent? root = none := by
    intro count
    induction count with
    | zero =>
        intro s hs
        exact absurd hs (Nat.not_lt_zero s)
    | succ count ih =>
        intro s hs
        rw [chainFrom]
        cases hparent : heap.parent? s with
        | none => exact ⟨s, List.mem_singleton.mpr rfl, hparent⟩
        | some p =>
            have hp := hformed.younger s p hparent
            obtain ⟨root, hroot, hlast⟩ := ih p (Nat.lt_of_lt_of_le hp (Nat.le_of_lt_succ hs))
            exact ⟨root, List.mem_cons_of_mem s hroot, hlast⟩
  exact hwalk (s + 1) s (Nat.lt_succ_self s)

end Heap.WellFormed

/-! ## Functions of the host that make nothing up -/

/-- The value refers to nothing on the heap. -/
def Value.isSelfContained : Value → Bool
  | .closure _ _ _ _ => false
  | .object _ => false
  | _ => true

/-- The script uses and returns only slots that satisfy `known` or that its requests are answered with;
it may return nothing. -/
def Script.PassesOn : Script → (Slot → Prop) → Prop
  | .finish result, known => result = none ∨ known result
  | .complain _, _ => True
  | .refuse _, _ => True
  | .crash _, _ => True
  | .ask request next, known =>
    (∀ node, request ≠ .eval node) ∧ (∀ slot ∈ request.slots, known slot) ∧
      ∀ answer, (next answer).PassesOn fun slot => known slot ∨ slot = answer
  | .height next, known => ∀ n, (next n).PassesOn known
  | .top next, known => ∀ frame, (next frame).PassesOn known

/-- The native functions of the host use and return only their arguments, what their requests are
answered with, values that refer to nothing, and nothing at all. -/
def Host.PassesOn (host : Host) : Prop :=
  ∀ key args, (host key args).PassesOn fun slot =>
    slot ∈ args ∨ ∃ v, slot = some v ∧ v.isSelfContained = true

theorem Value.wellFormed_of_isSelfContained {heap : Heap} {v : Value}
    (hv : v.isSelfContained = true) : v.WellFormed heap := by
  cases v with
  | closure name params body scope => cases hv
  | object o => cases hv
  | _ => trivial

/-! ## The discipline -/

namespace Discipline

def wellFormed : Discipline where
  Sound := Heap.WellFormed
  Grows heap heap' := heap'.Includes heap
  Admits := Slot.WellFormed
  Enters heap s := s < heap.scopes.size
  Reads := Node.Complete
  Fails _ _ := True

theorem obeys_wellFormed {script : Script} {known : Slot → Prop} {m : Machine}
    (hscript : script.PassesOn known) (hknown : ∀ slot, known slot → Slot.WellFormed m.heap slot) :
    wellFormed.Obeys script m := by
  induction script generalizing known m with
  | finish result =>
      rintro v rfl
      rcases hscript with hnone | hresult
      · cases hnone
      · exact hknown _ hresult
  | complain complaint => trivial
  | refuse text => trivial
  | crash cause => trivial
  | ask request next ih =>
      obtain ⟨hkind, hslots, hnext⟩ := hscript
      constructor
      · cases request with
        | eval node => exact (hkind node rfl).elim
        | call function args receiver =>
            exact List.forall_mem_cons.mp fun slot hslot => hknown slot (hslots slot hslot)
        | send target selector args =>
            exact List.forall_mem_cons.mp fun slot hslot => hknown slot (hslots slot hslot)
      · intro answer after hleaves hanswer
        apply ih answer (hnext answer)
        rintro slot (hold | rfl)
        · exact (hknown slot hold).mono hleaves.grows
        · exact hanswer
  | height next ih => exact ih _ (hscript _) hknown
  | top next ih => exact ih _ (hscript _) hknown

theorem opens_wellFormed {heap : Heap} (hformed : heap.WellFormed) {parent : Option ScopeId}
    (hparent : ∀ p, parent = some p → p < heap.scopes.size) :
    wellFormed.Opens heap (heap.addScope parent) heap.nextScope where
  sound := hformed.addScope hparent
  grows := Heap.includes_addScope parent
  enters := by simp [wellFormed, Heap.addScope, Heap.nextScope]

theorem lawful_wellFormed {setup : Setup} (hhost : setup.host.PassesOn) :
    wellFormed.Lawful setup where
  grows_refl := Heap.Includes.refl
  grows_trans := Heap.Includes.trans
  admits_mono hincludes hslot := hslot.mono hincludes
  enters_mono hincludes hs := Nat.lt_of_lt_of_le hs hincludes.scopes
  reads_arg := by
    intro name nodes node hreads hnode
    cases hreads with
    | call hargs => exact hargs node hnode
  reads_body := by
    rintro heap name params body scope ⟨v, ⟨⟩, hv⟩
    exact hv.2.1
  admits_primitive := by
    intro heap v hv
    refine ⟨v, rfl, Value.wellFormed_of_isSelfContained ?_⟩
    cases v with
    | closure name params body scope => cases hv
    | object o => cases hv
    | _ => rfl
  admits_closure hs hparams hbody := ⟨_, rfl, hparams, hbody, _, rfl, hs⟩
  admits_resolved := by
    intro heap s name slot hformed _ hresolve
    obtain ⟨t, _, hmem⟩ := Heap.exists_of_resolve? hresolve
    exact hformed.bound t name slot hmem
  admits_attribute := by
    intro heap o key slot hformed _ hattribute
    obtain ⟨_, _, _, _, _, hmem⟩ := Heap.exists_of_attribute? hattribute
    exact hformed.bound _ _ slot hmem
  admits_prototype := by
    intro heap o proto hformed _ hproto
    exact ⟨_, rfl, hformed.proto o proto hproto⟩
  opens_block := by
    intro heap s hformed hs
    apply opens_wellFormed hformed
    rintro p ⟨⟩
    exact hs
  opens_closure := by
    rintro heap name params body scope hformed ⟨v, ⟨⟩, -, -, s, rfl, hs⟩
    apply opens_wellFormed hformed
    rintro p ⟨⟩
    exact hs
  opens_object := by
    intro heap s name hformed hs
    refine ⟨⟨hformed.addObject name hs, ?_, ?_⟩, _, rfl, ?_⟩
    · constructor <;> simp [Heap.addObject, Heap.addScope]
    · simp [wellFormed, Heap.addObject, Heap.addScope, Heap.nextScope]
    · simp [Value.WellFormed, Heap.addObject, Heap.addScope, Heap.nextObject]
  sound_put hformed _ hv := by
    refine ⟨hformed.put _ _ hv, ?_⟩
    constructor <;> simp [Heap.put]
  sound_rebind hformed _ hslot _ := by
    refine ⟨hformed.put _ _ hslot, ?_⟩
    constructor <;> simp [Heap.put]
  sound_setField hformed _ hv := ⟨hformed.setField _ _ hv, Heap.includes_setField _ _ _⟩
  sound_linkPrototype := by
    rintro heap o proto hformed _ ⟨v, ⟨⟩, hproto⟩ _
    refine ⟨hformed.linkPrototype o hproto, ?_⟩
    constructor <;> simp [Heap.linkPrototype]
  fails_complaint _ := trivial
  fails_exhausted _ := trivial
  fails_absence _ := trivial
  fails_absentBinding _ := trivial
  fails_overflow _ := trivial
  fails_tooDeep := trivial
  fails_unwound _ _ := trivial
  obeys_host := by
    intro m name key args _ _ hargs
    apply obeys_wellFormed (hhost key args)
    rintro slot (harg | ⟨v, rfl, hv⟩)
    · exact hargs slot harg
    · exact ⟨v, rfl, Value.wellFormed_of_isSelfContained hv⟩

end Discipline

/-! ## Calls of closures -/

theorem Heap.bindings_put_of_new {heap : Heap} {s : ScopeId} {name : String} (slot : Slot)
    (hs : s < heap.scopes.size) (hnew : name ∉ (heap.bindings s).names) :
    (heap.put s name slot).bindings s = heap.bindings s ++ [(name, slot)] := by
  rw [bindings_put_self hs, Bindings.put_of_not_mem hnew]

/-- Parameters with different names that are all new are bound to the arguments one by one. -/
theorem Eval.exists_of_bindParams {s : ScopeId} {params : List String} {args : List Slot}
    {m : Machine} (hs : s < m.heap.scopes.size) (hparams : params.Nodup)
    (hnew : ∀ param ∈ params, param ∉ (m.heap.bindings s).names)
    (harity : args.length = params.length) (hargs : ∀ arg ∈ args, arg ≠ none) :
    ∃ bound, bindParams s params args m = .ok () bound ∧
      bound.heap.bindings s = m.heap.bindings s ++ params.zip args ∧
      bound.heap.parent? s = m.heap.parent? s := by
  induction params generalizing m args with
  | nil => exact ⟨m, rfl, by simp, rfl⟩
  | cons param params ih =>
      cases args with
      | nil => cases harity
      | cons arg args =>
          obtain ⟨v, rfl⟩ := Option.ne_none_iff_exists'.mp (hargs arg List.mem_cons_self)
          obtain ⟨hfirst, hrest⟩ := List.nodup_cons.mp hparams
          let next : Machine := { m with heap := m.heap.put s param (some v) }
          have hput : next.heap.bindings s = m.heap.bindings s ++ [(param, some v)] :=
            Heap.bindings_put_of_new (some v) hs (hnew param List.mem_cons_self)
          -- The parameters that are left are still new, since none of them is `param`.
          have hnew' : ∀ other ∈ params, other ∉ (next.heap.bindings s).names := by
            intro other hother hmem
            rw [hput, Bindings.names, List.map_append, List.mem_append] at hmem
            rcases hmem with hold | hlast
            · exact hnew other (List.mem_cons_of_mem _ hother) hold
            · rw [List.mem_singleton.mp hlast] at hother
              exact hfirst hother
          have hs' : s < next.heap.scopes.size := by simpa [next, Heap.put] using hs
          obtain ⟨bound, hbound, hbindings, hparent⟩ := ih hs' hrest hnew'
            (Nat.succ.inj harity) fun arg harg => hargs arg (List.mem_cons_of_mem _ harg)
          refine ⟨bound, hbound, ?_, ?_⟩
          · rw [hbindings, hput, List.append_assoc]
            rfl
          · rw [hparent]
            exact Heap.parent?_put s s param (some v)

/-- A call of a well-formed closure evaluates its body in a new scope, inside the scope of the
definition, that binds exactly the parameters to the arguments. -/
theorem Task.exists_body {setup : Setup} {name receiver : String} {params : List String}
    {body : Node} {scope : Option ScopeId} {args : List Slot} {m : Machine} (depth : Nat)
    (hformed : (Value.closure name params body scope).WellFormed m.heap)
    (harity : args.length = params.length) (hargs : ∀ arg ∈ args, arg ≠ none)
    (hroom : m.stack.isFull = false) :
    ∃ entered, Part setup ⟨depth + 1, .call (some (.closure name params body scope)) args receiver, m⟩
        ⟨depth, .eval body, entered⟩ ∧
      entered.scope = m.heap.nextScope ∧
      entered.heap.bindings entered.scope = params.zip args ∧
      entered.heap.parent? entered.scope = scope := by
  let opened := m.inClosure ⟨name, receiver⟩ scope
  have hs : m.heap.nextScope < opened.heap.scopes.size := by
    simp [opened, Machine.inClosure, Heap.addScope, Heap.nextScope]
  have hempty : opened.heap.bindings m.heap.nextScope = [] := by
    show (m.heap.addScope scope).bindings m.heap.nextScope = []
    rw [Heap.bindings_addScope]
    simp [Heap.bindings, Heap.nextScope]
  have hparent : opened.heap.parent? m.heap.nextScope = scope := by
    show (m.heap.addScope scope).parent? m.heap.nextScope = scope
    rw [Heap.parent?_addScope, if_pos rfl]
  obtain ⟨bound, hbound, hbindings, hparent'⟩ := Eval.exists_of_bindParams hs hformed.1
    (by simp [hempty, Bindings.names]) harity hargs
  rw [hempty, List.nil_append] at hbindings
  exact ⟨_, .body hroom harity hbound, rfl, hbindings, hparent'.trans hparent⟩

/-! ## Scopes of blocks and calls -/

/-- The task is a block or a call of a closure for which the scope `s` is made. -/
def Task.Opens (task : Task) (s : ScopeId) : Prop :=
  s = task.machine.heap.nextScope ∧ 0 < task.depth ∧
    match task.request with
    | .eval (.call name _) => name = "do"
    | .call (some (.closure _ params _ _)) args _ =>
      args.length = params.length ∧ task.machine.stack.isFull = false
    | _ => False

/-- From the moment when its scope is made, a block or a call obeys every law of the heap. -/
theorem Task.Opens.sound_after {setup : Setup} {task : Task} {s : ScopeId} (hopens : task.Opens s)
    {Sound : Heap → Prop} {Grows : Heap → Heap → Prop} (hlaw : Heap.Law Sound Grows)
    (hsound : ∀ parent, Sound (task.machine.heap.addScope parent)) :
    Sound (task.after setup).heap := by
  obtain ⟨depth, request, m⟩ := task
  obtain ⟨-, hdepth, hkind⟩ := hopens
  cases depth with
  | zero => exact absurd hdepth (Nat.lt_irrefl 0)
  | succ depth =>
      match request, hkind with
      | .eval (.call _ nodes), rfl =>
          have hrelays : Run.Relays (Eval.sequence (Eval.run setup depth) (some .null) nodes)
              m.inBlock (Eval.run setup (depth + 1) (.eval (.call "do" nodes))) m := by
            refine .later setup (Run.tame_looking _) rfl ?_
            refine .later setup (Run.tame_newScope (some m.scope)) rfl ?_
            exact .inScope .refl
          apply hrelays.sound hlaw
          exact (Eval.tame_sequence (some .null) nodes).sound_after hlaw (hsound (some m.scope))
      | .call (some (.closure name params body scope)) args receiver, ⟨harity, hroom⟩ =>
          -- What is left of the call when its scope has been made.
          let inside : Run Slot := do
            Eval.bindParams m.heap.nextScope params args
            Run.inScope m.heap.nextScope (Eval.run setup depth (.eval body))
          have htame : inside.Tame setup := by
            refine Run.tame_bind (Eval.tame_bindParams _ params args) fun _ => ?_
            exact Run.tame_inScope _ (Eval.tame_run (.eval body))
          have hrelays : Run.Relays inside (m.inClosure ⟨name, receiver⟩ scope)
              (Eval.run setup (depth + 1) (.call (some (.closure name params body scope)) args
                receiver)) m := by
            refine Run.Relays.inCall hroom ?_
            rw [Eval.closure, if_neg (not_not_intro harity)]
            exact .later setup (Run.tame_newScope scope) rfl .refl
          exact hrelays.sound hlaw (htame.sound_after hlaw (hsound scope))

/-- A scope that was made for a block or for a call never becomes the own scope of an object. -/
theorem Task.Opens.free {host : Host} {front rest : List Deed} {depth : Nat}
    {operation : Operation} {start task : Task} {s : ScopeId} (hopens : task.Opens s)
    (hstarts : (Interpreter.history host front).Starts depth operation start)
    (hcourse : Course (Interpreter.history host front).setup start task) :
    (Interpreter.history host (front ++ .operate depth operation :: rest)).machine.heap.Free s := by
  have hapart : task.machine.heap.Apart :=
    Heap.law_apart.arises Heap.apart_initialHeap ⟨depth, operation, start, hstarts, hcourse⟩
  have hlaw := Heap.law_free s
  have hopened : ∀ parent, (task.machine.heap.addScope parent).Free s := by
    rw [hopens.1]
    exact hapart.free_addScope
  have htask : (task.after (Interpreter.history host front).setup).heap.Free s :=
    hopens.sound_after hlaw hopened
  have hoperated := hstarts.sound hlaw (hcourse.sound hlaw htask)
  have hhistory : Interpreter.history host (front ++ .operate depth operation :: rest) =
      rest.foldl Interpreter.handle ((Interpreter.history host front).operate depth operation).2 := by
    simp only [Interpreter.history, List.foldl_append, List.foldl_cons, Interpreter.handle]
  rw [hhistory]
  exact hlaw.later hoperated rest

/-! ## Programs -/

/-- The deed sets the interpreter up with values of its own, or evaluates a program. -/
def Deed.IsProper : Deed → Prop
  | .choose (.global _ slot) => ∀ v, slot = some v → v.isSelfContained = true
  | .choose _ => True
  | .addBuiltins _ => True
  | .operate _ (.eval node) => node.Complete
  | .operate _ (.load _) => True
  | _ => False

/-- Programs can be evaluated, and functions of the host can be bound. -/
structure Interpreter.InOrder (host : Host) (interpreter : Interpreter) : Prop where
  host : interpreter.setup.host = host
  heap : interpreter.machine.heap.WellFormed
  scope : interpreter.machine.scope < interpreter.machine.heap.scopes.size
  global : interpreter.global < interpreter.machine.heap.scopes.size

namespace Interpreter

theorem InOrder.leaves {host : Host} {interpreter after : Interpreter}
    (horder : interpreter.InOrder host) (hhost : after.setup.host = interpreter.setup.host)
    (hglobal : after.global = interpreter.global)
    (hleaves : Discipline.wellFormed.Leaves interpreter.machine after.machine) :
    after.InOrder host where
  host := hhost.trans horder.host
  heap := hleaves.sound
  scope := by
    rw [hleaves.scope]
    exact Nat.lt_of_lt_of_le horder.scope hleaves.grows.scopes
  global := by
    rw [hglobal]
    exact Nat.lt_of_lt_of_le horder.global hleaves.grows.scopes

theorem InOrder.perform {α : Type} {host : Host} {interpreter : Interpreter} {step : Run α}
    {good : Heap → α → Prop} (horder : interpreter.InOrder host)
    (hkeeps : Discipline.wellFormed.Keeps interpreter.machine step good) :
    (interpreter.perform step).2.InOrder host := by
  have hhost : (interpreter.perform step).2.setup.host = interpreter.setup.host := by
    rw [setup_perform]
  exact horder.leaves hhost (global_perform _ _) (Discipline.leaves_perform horder.heap hkeeps)

theorem InOrder.choose {host : Host} (hhost : host.PassesOn) {interpreter chosen : Interpreter}
    {choice : Choice} (horder : interpreter.InOrder host)
    (hproper : (Deed.choose choice).IsProper) (hchosen : interpreter.choose choice = .ok chosen) :
    chosen.InOrder host := by
  have hlawful : Discipline.wellFormed.Lawful interpreter.setup :=
    Discipline.lawful_wellFormed (horder.host.symm ▸ hhost)
  cases choice with
  | maxStackHeight n =>
      cases hchosen
      exact ⟨horder.host, horder.heap, horder.scope, horder.global⟩
  | divisionPrecision n =>
      simp only [Interpreter.choose] at hchosen
      split at hchosen
      · cases hchosen
      · cases hchosen
        exact ⟨horder.host, horder.heap, horder.scope, horder.global⟩
  | reader =>
      cases hchosen
      exact ⟨horder.host, horder.heap, horder.scope, horder.global⟩
  | «global» name slot =>
      rw [eq_of_bind_ok hchosen]
      apply horder.perform
        (Discipline.keeps_bindGlobal hlawful (fun _ _ => trivial) horder.global name _)
      intro v hv
      exact ⟨v, rfl, Value.wellFormed_of_isSelfContained (hproper v hv)⟩
  | builtin name body =>
      rw [eq_of_bind_ok hchosen]
      apply horder.perform
        (Discipline.keeps_bindGlobal hlawful (fun _ _ => trivial) horder.global name _)
      rintro v ⟨⟩
      exact ⟨_, rfl, trivial⟩

theorem inOrder_initial {host : Host} (hhost : host.PassesOn) : (initial host).InOrder host := by
  have hempty : Heap.empty.WellFormed := {
    bound := fun s name slot hmem => by simp [Heap.bindings, Heap.empty] at hmem
    younger := fun s p hp => by simp [Heap.parent?, Heap.empty] at hp
    apart := ⟨by simp [Heap.empty], by simp [Heap.empty]⟩
    proto := fun o p hp => by simp [Heap.proto?, Heap.empty] at hp }
  have hlawful : Discipline.wellFormed.Lawful ⟨defaultPrecision, host⟩ :=
    Discipline.lawful_wellFormed hhost
  have hglobal : Discipline.wellFormed.Settles (Heap.empty.addScope none) 0 := by
    refine ⟨hempty.addScope ?_, Nat.zero_lt_one⟩
    intro p hp
    cases hp
  have hsettles := Discipline.settles_initialHeap hlawful hglobal fun _ _ => ⟨_, rfl, trivial⟩
  exact ⟨rfl, hsettles.1, hsettles.2, hsettles.2⟩

theorem inOrder_history {host : Host} (hhost : host.PassesOn) {deeds : List Deed}
    (hdeeds : ∀ deed ∈ deeds, deed.IsProper) : (history host deeds).InOrder host := by
  apply history_induction (inOrder_initial hhost)
  intro interpreter deed hdeed horder
  have hproper := hdeeds deed hdeed
  have hlawful : Discipline.wellFormed.Lawful interpreter.setup :=
    Discipline.lawful_wellFormed (horder.host.symm ▸ hhost)
  cases deed with
  | choose choice =>
      simp only [handle]
      cases hchosen : interpreter.choose choice with
      | error failure => exact horder
      | ok chosen => exact horder.choose hhost hproper hchosen
  | addBuiltins builtins =>
      exact horder.perform (Discipline.keeps_bindBuiltins hlawful (fun _ _ => trivial)
        (fun _ _ _ => ⟨_, rfl, trivial⟩) horder.global _)
  | operate depth operation =>
      have hallows : Discipline.wellFormed.Allows interpreter.machine operation := by
        cases operation with
        | eval node => exact ⟨hproper, horder.scope⟩
        | load source => exact ⟨horder.scope, fun _ hread => Node.complete_of_readProgram hread⟩
        | _ => exact hproper.elim
      have hends := Discipline.operate hlawful horder.heap depth operation hallows
      have hsetup := setup_operate interpreter depth operation
      have hglobal : (interpreter.operate depth operation).2.global = interpreter.global := by
        rw [operate_eq_perform, global_perform]
      exact horder.leaves (congrArg Setup.host hsetup) hglobal hends.leaves
  | _ => exact hproper.elim

end Interpreter

/-- All that the operation is given is well-formed; a text is so in any case, since what is read from
it is complete. -/
def Operation.WellFormed (heap : Heap) : Operation → Prop
  | .eval node => node.Complete
  | .evalIn s node => node.Complete ∧ s < heap.scopes.size
  | .call function args => ∀ slot ∈ function :: args, Slot.WellFormed heap slot
  | .send target _ args => ∀ slot ∈ some (.object target) :: args, Slot.WellFormed heap slot
  | .load _ => True

/-- The task finds the heap in good order, and a closure that is called gets a new scope that binds
exactly its parameters to the arguments. -/
structure Task.WellFormed (setup : Setup) (task : Task) : Prop where
  heap : task.machine.heap.WellFormed
  slots : ∀ slot ∈ task.request.slots, Slot.WellFormed task.machine.heap slot
  body : ∀ depth name params body scope args receiver, task.depth = depth + 1 →
    task.request = .call (some (.closure name params body scope)) args receiver →
    args.length = params.length → task.machine.stack.isFull = false →
    ∃ entered, Part setup task ⟨depth, .eval body, entered⟩ ∧
      entered.scope = task.machine.heap.nextScope ∧
      entered.heap.bindings entered.scope = params.zip args ∧
      entered.heap.parent? entered.scope = scope

theorem Discipline.wellFormed_of_permits {setup : Setup} {task : Task}
    (hpermits : wellFormed.Permits task) : task.WellFormed setup := by
  obtain ⟨depth, request, m⟩ := task
  obtain ⟨hsound, hready⟩ := hpermits
  have hslots : ∀ slot ∈ request.slots, Slot.WellFormed m.heap slot := by
    cases request with
    | eval node => simp [Request.slots]
    | call function args receiver => exact List.forall_mem_cons.mpr hready
    | send target selector args => exact List.forall_mem_cons.mpr hready
  refine ⟨hsound, hslots, ?_⟩
  rintro depth name params body scope args receiver rfl rfl harity hroom
  obtain ⟨⟨v, ⟨⟩, hv⟩, hargs⟩ := List.forall_mem_cons.mp hslots
  refine Task.exists_body depth hv harity ?_ hroom
  rintro arg harg rfl
  obtain ⟨v, ⟨⟩, -⟩ := hargs none harg

/-- Whatever programs do to an interpreter, its heap is well formed, the walk along the parents of a
scope ends, and no scope of a block or of a call belongs to an object; and an operation on well-formed
values keeps all this up throughout its course, and returns a well-formed value if any. -/
theorem Interpreter.history_wellFormed {host : Host} (hhost : host.PassesOn) {deeds : List Deed}
    (hdeeds : ∀ deed ∈ deeds, deed.IsProper) :
    let interpreter := history host deeds
    let heap := interpreter.machine.heap
    (heap.WellFormed ∧ ∀ s, ∃ root ∈ heap.chain s, heap.parent? root = none) ∧
      (∀ front rest depth operation start task s,
        deeds = front ++ .operate depth operation :: rest →
        (history host front).Starts depth operation start →
        Task.Course (history host front).setup start task → task.Opens s → heap.Free s) ∧
      ∀ depth operation, operation.WellFormed heap →
        (interpreter.operate depth operation).2.machine.heap.WellFormed ∧
          (∀ slot, (interpreter.operate depth operation).1 = .ok slot →
            Slot.WellFormed (interpreter.operate depth operation).2.machine.heap slot) ∧
          ∀ start task, interpreter.Starts depth operation start →
            Task.Course interpreter.setup start task → task.WellFormed interpreter.setup := by
  intro interpreter heap
  have horder : interpreter.InOrder host := inOrder_history hhost hdeeds
  have hlawful : Discipline.wellFormed.Lawful interpreter.setup :=
    Discipline.lawful_wellFormed (horder.host.symm ▸ hhost)
  refine ⟨⟨horder.heap, horder.heap.exists_root⟩, ?_, ?_⟩
  · rintro front rest depth operation start task s hsplit hstarts hcourse hopens
    have hfree : heap.Free s := by
      simp only [heap, interpreter, hsplit]
      exact hopens.free hstarts hcourse
    exact hfree
  · intro depth operation hoperation
    have hallows : Discipline.wellFormed.Allows interpreter.machine operation := by
      cases operation with
      | eval node => exact ⟨hoperation, horder.scope⟩
      | evalIn s node => exact hoperation
      | call function args => exact List.forall_mem_cons.mp hoperation
      | send target selector args => exact List.forall_mem_cons.mp hoperation
      | load source => exact ⟨horder.scope, fun _ hread => Node.complete_of_readProgram hread⟩
    have hends := Discipline.operate hlawful horder.heap depth operation hallows
    refine ⟨hends.leaves.sound, hends.admits, ?_⟩
    intro start task hstarts hcourse
    have hpermits := Discipline.permits_starts hlawful horder.heap hallows hstarts
    exact Discipline.wellFormed_of_permits (Discipline.permits_course hlawful hcourse hpermits)

theorem Host.standard_passesOn : Host.standard.PassesOn := by
  intro key args
  unfold Host.standard
  split
  · exact .inl rfl
  · exact .inr (.inr ⟨_, rfl, rfl⟩)
  · exact .inr (.inl List.mem_cons_self)
  · trivial
  · trivial
  · trivial
  · exact ⟨nofun, fun slot hslot => .inl hslot, fun answer => .inr (.inr rfl)⟩
  · trivial
  · exact fun n => .inr (.inr ⟨_, rfl, rfl⟩)
  · intro frame
    cases frame with
    | none => trivial
    | some frame => exact .inr (.inr ⟨_, rfl, rfl⟩)
  · trivial

/-- A function of the host that returns nothing is bound, and `(def x (nothing))` and
`(def (left a b) a)` are evaluated. -/
def Deed.definingNothing : List Deed :=
  [.choose (.builtin "nothing" (.host "nothing")),
    .operate 9 (.eval (.call "def" [.variable "x", .call "nothing" []])),
    .operate 9 (.eval (.call "def" [.call "left" [.variable "a", .variable "b"], .variable "a"]))]

def Value.left : Value := .closure "left" ["a", "b"] (.variable "a") (some 0)

/-- What is bound to the result of the function is null, and a call of `left` with two arguments binds
its two parameters. -/
theorem Interpreter.history_wellFormed_definingNothing :
    let interpreter := history Host.standard Deed.definingNothing
    Host.standard.PassesOn ∧ (∀ deed ∈ Deed.definingNothing, deed.IsProper) ∧
      interpreter.machine.heap.resolve? 0 "x" = some (some .null) ∧
      interpreter.machine.heap.resolve? 0 "left" = some (some .left) ∧
      ∃ entered, Task.Part interpreter.setup
        ⟨9, .call (some .left) [some .null, some (.ofInt 1)] "", interpreter.machine⟩
        ⟨8, .eval (.variable "a"), entered⟩ ∧
        entered.heap.bindings entered.scope = [("a", some .null), ("b", some (.ofInt 1))] := by
  intro interpreter
  have hdeeds : ∀ deed ∈ Deed.definingNothing, deed.IsProper := by
    have hcall : (Node.call "nothing" []).Complete := .call nofun
    have hleft : (Node.call "left" [.variable "a", .variable "b"]).Complete :=
      .call (by simp [Node.Complete.symbol])
    have hfirst : (Node.call "def" [.variable "x", .call "nothing" []]).Complete :=
      .call (by simp [Node.Complete.symbol, hcall])
    have hsecond : (Node.call "def" [.call "left" [.variable "a", .variable "b"],
        .variable "a"]).Complete := .call (by simp [Node.Complete.symbol, hleft])
    simp [Deed.definingNothing, Deed.IsProper, hfirst, hsecond]
  obtain ⟨-, -, hoperations⟩ := history_wellFormed Host.standard_passesOn hdeeds
  have hoperation : (Operation.call (some .left) [some .null, some (.ofInt 1)]).WellFormed
      interpreter.machine.heap := by
    have hleft : Value.left.WellFormed interpreter.machine.heap :=
      ⟨by decide, .symbol "a", 0, rfl, by decide⟩
    have hnull : Slot.WellFormed interpreter.machine.heap (some .null) := ⟨_, rfl, trivial⟩
    have hone : Slot.WellFormed interpreter.machine.heap (some (.ofInt 1)) := ⟨_, rfl, trivial⟩
    exact List.forall_mem_cons.mpr ⟨⟨_, rfl, hleft⟩, by simp [hnull, hone]⟩
  obtain ⟨-, -, htasks⟩ := hoperations 9 _ hoperation
  obtain ⟨entered, hpart, -, hbindings, -⟩ :=
    (htasks _ _ .call .refl).body 8 _ _ _ _ _ _ rfl rfl rfl rfl
  exact ⟨Host.standard_passesOn, hdeeds, rfl, rfl, entered, hpart, hbindings⟩

end ProtoLisp
