import Mathlib.Data.List.Induction
import ProtoLisp.Proofs.PartOutcomes
import ProtoLisp.Proofs.PrototypeChains
import ProtoLisp.Proofs.TypedFailures

/-!
# Concealed objects

A program comes by an object only by way of a binding, of a prototype or of a value that it holds.  So
an object that none of them leads to stays concealed, whatever the program does; that the own scope of
the object is known makes no difference, since a scope does not lead to the object that it belongs to.

Hosts know the objects that were there before an operation, and those that they are handed in its
course.  An honest host names no others.
-/

namespace ProtoLisp

/-! ## Heaps that conceal objects -/

namespace Heap

/-- The object is on the heap, and not among the hidden ones. -/
def Shows (heap : Heap) (hidden : Set ObjectId) (o : ObjectId) : Prop :=
  o < heap.objects.size ∧ o ∉ hidden

/-- The hidden objects are on the heap, and nothing on it refers to one of them. -/
structure Conceals (heap : Heap) (hidden : Set ObjectId) : Prop where
  made : ∀ o ∈ hidden, o < heap.objects.size
  bound : ∀ s name o, (name, some (.object o)) ∈ heap.bindings s → heap.Shows hidden o
  proto : ∀ x p, heap.proto? x = some p → heap.Shows hidden p

variable {heap heap' : Heap} {hidden : Set ObjectId} {o : ObjectId}

theorem Shows.mono (hshows : heap.Shows hidden o) (hincludes : heap'.Includes heap) :
    heap'.Shows hidden o :=
  ⟨lt_of_lt_of_le hshows.1 hincludes.objects, hshows.2⟩

namespace Conceals

theorem addScope (hconceals : heap.Conceals hidden) (parent : Option ScopeId) :
    (heap.addScope parent).Conceals hidden where
  made := hconceals.made
  bound := by
    intro s name o hmem
    rw [bindings_addScope] at hmem
    exact hconceals.bound s name o hmem
  proto := hconceals.proto

/-- A new object may be hidden or not. -/
theorem addObject {fewer : Set ObjectId} (hconceals : heap.Conceals fewer) (name : String)
    (parent : Option ScopeId) (hfewer : ∀ o ∈ hidden, o ∈ fewer ∨ o = heap.nextObject) :
    (heap.addObject name parent).Conceals hidden := by
  have hsize : (heap.addObject name parent).objects.size = heap.objects.size + 1 := by
    simp [Heap.addObject, Heap.addScope]
  have hshows : ∀ o, heap.Shows fewer o → (heap.addObject name parent).Shows hidden o := by
    rintro o ⟨hold, hopen⟩
    refine ⟨hsize ▸ Nat.lt_succ_of_lt hold, ?_⟩
    intro hhidden
    rcases hfewer o hhidden with hfew | rfl
    · exact hopen hfew
    · exact absurd hold (Nat.lt_irrefl _)
  refine ⟨?_, ?_, ?_⟩
  · intro o ho
    rw [hsize]
    rcases hfewer o ho with hfew | rfl
    · exact Nat.lt_succ_of_lt (hconceals.made o hfew)
    · exact Nat.lt_succ_self _
  · intro s other o hmem
    exact hshows o ((hconceals.addScope parent).bound s other o hmem)
  · intro x p hproto
    rw [proto?_addObject] at hproto
    exact hshows p (hconceals.proto x p hproto)

theorem put (hconceals : heap.Conceals hidden) (s : ScopeId) (name : String) {slot : Slot}
    (hslot : ∀ o, slot = some (.object o) → heap.Shows hidden o) :
    (heap.put s name slot).Conceals hidden where
  made := hconceals.made
  bound := by
    intro t other o hmem
    rcases mem_bindings_put hmem with hold | hnew
    · exact hconceals.bound t other o hold
    · exact hslot o hnew.symm
  proto := hconceals.proto

theorem setField (hconceals : heap.Conceals hidden) (x : ObjectId) (name : String) {slot : Slot}
    (hslot : ∀ o, slot = some (.object o) → heap.Shows hidden o) :
    (heap.setField x name slot).Conceals hidden := by
  unfold Heap.setField putOwn
  split
  · exact hconceals.put _ _ hslot
  · exact hconceals

theorem linkPrototype (hconceals : heap.Conceals hidden) (x : ObjectId) {proto : Option ObjectId}
    (hproto : ∀ p, proto = some p → heap.Shows hidden p) :
    (heap.linkPrototype x proto).Conceals hidden := by
  have hincludes : (heap.linkPrototype x proto).Includes heap := by
    constructor <;> simp [Heap.linkPrototype]
  refine ⟨?_, ?_, ?_⟩
  · intro o ho
    exact lt_of_lt_of_le (hconceals.made o ho) hincludes.objects
  · intro s name o hmem
    exact (hconceals.bound s name o hmem).mono hincludes
  · intro y p hlinked
    rcases proto?_linkPrototype hlinked with hold | hnew
    · exact (hconceals.proto y p hold).mono hincludes
    · exact (hproto p hnew).mono hincludes

/-- No way along the prototypes leads to a hidden object. -/
theorem isInstance_eq_false (hconceals : heap.Conceals hidden) {x : ObjectId}
    (hx : heap.Shows hidden x) (ho : o ∈ hidden) : heap.isInstance x o = false := by
  have hlineage : ∀ y ∈ heap.lineage x, heap.Shows hidden y :=
    forall_mem_lineage (fun y p _ hproto => hconceals.proto y p hproto) hx
  rw [isInstance, ← Bool.not_eq_true, List.contains_iff_mem]
  intro hmem
  exact (hlineage o hmem).2 ho

end Conceals

end Heap

/-! ## Hosts that name only what they know -/

/-- The script names only members of `known` and what its requests are answered with. -/
def Script.NamesOnly : Script → Set ObjectId → Prop
  | .finish result, known => ∀ o, result = some (.object o) → o ∈ known
  | .complain _, _ => True
  | .refuse _, _ => True
  | .crash _, _ => True
  | .ask request next, known =>
    (∀ o, some (.object o) ∈ request.slots → o ∈ known) ∧
      ∀ answer, (next answer).NamesOnly (known ∪ {o | answer = some (.object o)})
  | .height next, known => ∀ n, (next n).NamesOnly known
  | .top next, known => ∀ frame, (next frame).NamesOnly known

/-- The native functions of the host name only members of `held`, what they are called with, and what
their requests are answered with. -/
def Host.NamesOnly (host : Host) (held : Set ObjectId) : Prop :=
  ∀ key args, (host key args).NamesOnly (held ∪ {o | some (.object o) ∈ args})

theorem Script.NamesOnly.mono {script : Script} {known known' : Set ObjectId}
    (hscript : script.NamesOnly known) (hsubset : known ⊆ known') : script.NamesOnly known' := by
  induction script generalizing known known' with
  | finish result => exact fun o ho => hsubset (hscript o ho)
  | complain complaint => trivial
  | refuse text => trivial
  | crash cause => trivial
  | ask request next ih =>
      refine ⟨fun o ho => hsubset (hscript.1 o ho), ?_⟩
      intro answer
      exact ih answer (hscript.2 answer) (Set.union_subset_union_left _ hsubset)
  | height next ih => exact fun n => ih n (hscript n) hsubset
  | top next ih => exact fun frame => ih frame (hscript frame) hsubset

theorem Slot.object_mem_refs {slot : Slot} {o : ObjectId} :
    .object o ∈ Slot.refs slot ↔ slot = some (.object o) := by
  constructor
  · rintro ⟨v, rfl, hv⟩
    cases v with
    | object id =>
        cases hv
        rfl
    | closure name params body scope => cases scope <;> cases hv
    | _ => cases hv
  · rintro rfl
    exact ⟨_, rfl, rfl⟩

theorem Script.UsesOnly.namesOnly {script : Script} {known : Set Ref}
    (hscript : script.UsesOnly known) : script.NamesOnly {o | .object o ∈ known} := by
  induction script generalizing known with
  | finish result =>
      rintro o rfl
      exact hscript (Slot.object_mem_refs.mpr rfl)
  | complain complaint => trivial
  | refuse text => trivial
  | crash cause => trivial
  | ask request next ih =>
      obtain ⟨hrequest, hnext⟩ := hscript
      refine ⟨?_, ?_⟩
      · intro o ho
        cases request with
        | eval node => exact hrequest.elim
        | call function args receiver =>
            exact hrequest ⟨_, ho, Slot.object_mem_refs.mpr rfl⟩
        | send target selector args =>
            rcases List.mem_cons.mp ho with htarget | harg
            · cases htarget
              exact hrequest.1
            · exact hrequest.2 ⟨_, harg, Slot.object_mem_refs.mpr rfl⟩
      · intro answer
        apply (ih answer (hnext answer)).mono
        rintro o (hold | hnew)
        · exact .inl hold
        · exact .inr (Slot.object_mem_refs.mp hnew)
  | height next ih => exact fun n => ih n (hscript n)
  | top next ih => exact fun frame => ih frame (hscript frame)

theorem Host.UsesOnlyArguments.namesOnly {host : Host} (hhost : host.UsesOnlyArguments)
    (held : Set ObjectId) : host.NamesOnly held := by
  intro key args
  apply (hhost key args).namesOnly.mono
  rintro o ⟨slot, hslot, ho⟩
  rw [Slot.object_mem_refs] at ho
  subst ho
  exact .inr hslot

/-! ## The discipline -/

namespace Discipline

variable {held hidden : Set ObjectId} {setup : Setup}

/-- The discipline of evaluations from which the members of `hidden` are concealed. -/
def concealing (held hidden : Set ObjectId) : Discipline where
  Sound heap := heap.Conceals hidden ∧ ∀ o ∈ held, heap.Shows hidden o
  Grows heap heap' := heap'.Includes heap
  Admits heap slot := ∀ o, slot = some (.object o) → heap.Shows hidden o
  Enters _ _ := True
  Reads _ := True
  Fails _ _ := True

theorem ready_concealing_iff {m : Machine} {request : Request} :
    (concealing held hidden).Ready m request ↔
      ∀ o, some (.object o) ∈ request.slots → m.heap.Shows hidden o := by
  have hadmits : ∀ slots : List Slot,
      (∀ slot ∈ slots, (concealing held hidden).Admits m.heap slot) ↔
        ∀ o, some (.object o) ∈ slots → m.heap.Shows hidden o := by
    intro slots
    constructor
    · exact fun hslots o ho => hslots _ ho o rfl
    · rintro hslots slot hslot o rfl
      exact hslots o hslot
  cases request with
  | eval node => exact ⟨nofun, fun _ => ⟨trivial, trivial⟩⟩
  | call function args receiver => exact List.forall_mem_cons.symm.trans (hadmits _)
  | send target selector args => exact List.forall_mem_cons.symm.trans (hadmits _)

theorem obeys_concealing {script : Script} {known : Set ObjectId} {m : Machine}
    (hscript : script.NamesOnly known) (hknown : ∀ o ∈ known, m.heap.Shows hidden o) :
    (concealing held hidden).Obeys script m := by
  induction script generalizing known m with
  | finish result =>
      rintro v rfl o ho
      exact hknown o (hscript o ho)
  | complain complaint => trivial
  | refuse text => trivial
  | crash cause => trivial
  | ask request next ih =>
      refine ⟨ready_concealing_iff.mpr fun o ho => hknown o (hscript.1 o ho), ?_⟩
      intro answer after hleaves hanswer
      apply ih answer (hscript.2 answer)
      rintro o (hold | hnew)
      · exact (hknown o hold).mono hleaves.grows
      · exact hanswer o hnew
  | height next ih => exact ih _ (hscript _) hknown
  | top next ih => exact ih _ (hscript _) hknown

theorem sound_concealing {before after : Heap} (hsound : (concealing held hidden).Sound before)
    (hconceals : after.Conceals hidden) (hincludes : after.Includes before) :
    (concealing held hidden).Sound after ∧ after.Includes before :=
  ⟨⟨hconceals, fun o ho => (hsound.2 o ho).mono hincludes⟩, hincludes⟩

theorem sound_link_concealing {heap : Heap} (hsound : (concealing held hidden).Sound heap)
    (o : ObjectId) {proto : ObjectId} (hproto : heap.Shows hidden proto) :
    (concealing held hidden).Sound (heap.linkPrototype o (some proto)) ∧
      (heap.linkPrototype o (some proto)).Includes heap := by
  apply sound_concealing hsound
  · apply hsound.1.linkPrototype
    rintro p ⟨⟩
    exact hproto
  · constructor <;> simp [Heap.linkPrototype]

theorem opens_concealing {heap : Heap} (hsound : (concealing held hidden).Sound heap)
    (parent : Option ScopeId) :
    (concealing held hidden).Opens heap (heap.addScope parent) heap.nextScope := by
  obtain ⟨hsound', hgrows⟩ :=
    sound_concealing hsound (hsound.1.addScope parent) (Heap.includes_addScope parent)
  exact ⟨hsound', hgrows, trivial⟩

theorem lawful_concealing (hhost : setup.host.NamesOnly held) :
    (concealing held hidden).Lawful setup where
  grows_refl := Heap.Includes.refl
  grows_trans := Heap.Includes.trans
  admits_mono hincludes hslot o ho := (hslot o ho).mono hincludes
  enters_mono _ _ := trivial
  reads_arg _ _ := trivial
  reads_body _ := trivial
  admits_primitive := by
    rintro heap v hv o ⟨⟩
    cases hv
  admits_closure _ _ _ := nofun
  admits_resolved := by
    rintro heap s name slot hsound - hresolve o rfl
    obtain ⟨t, _, hmem⟩ := Heap.exists_of_resolve? hresolve
    exact hsound.1.bound t name o hmem
  admits_attribute := by
    rintro heap x key slot hsound - hattribute o rfl
    obtain ⟨_, _, _, _, _, hmem⟩ := Heap.exists_of_attribute? hattribute
    exact hsound.1.bound _ _ o hmem
  admits_prototype := by
    rintro heap x proto hsound - hproto o ⟨⟩
    exact hsound.1.proto x proto hproto
  opens_block hsound _ := opens_concealing hsound _
  opens_closure hsound _ := opens_concealing hsound _
  opens_object := by
    intro heap s name hsound _
    have hincludes : (heap.addObject name (some s)).Includes heap := by
      constructor <;> simp [Heap.addObject, Heap.addScope]
    obtain ⟨hsound', hgrows⟩ := sound_concealing hsound
      (hsound.1.addObject name (some s) fun o ho => .inl ho) hincludes
    refine ⟨⟨hsound', hgrows, trivial⟩, ?_⟩
    rintro o ⟨⟩
    -- Whatever is hidden has been there before.
    refine ⟨by simp [Heap.addObject, Heap.addScope, Heap.nextObject], ?_⟩
    intro hhidden
    exact absurd (hsound.1.made _ hhidden) (Nat.lt_irrefl _)
  sound_put hsound _ hv :=
    sound_concealing hsound (hsound.1.put _ _ hv) (by constructor <;> simp [Heap.put])
  sound_rebind hsound _ hslot _ :=
    sound_concealing hsound (hsound.1.put _ _ hslot) (by constructor <;> simp [Heap.put])
  sound_setField hsound _ hv :=
    sound_concealing hsound (hsound.1.setField _ _ hv) (Heap.includes_setField _ _ _)
  sound_linkPrototype hsound _ hproto _ := sound_link_concealing hsound _ (hproto _ rfl)
  fails_complaint _ := trivial
  fails_exhausted _ := trivial
  fails_absence _ := trivial
  fails_absentBinding _ := trivial
  fails_overflow _ := trivial
  fails_tooDeep := trivial
  fails_unwound _ _ := trivial
  obeys_host := by
    intro m name key args hsound _ hargs
    apply obeys_concealing (hhost key args)
    rintro o (hheld | harg)
    · exact hsound.2 o hheld
    · exact hargs _ harg o rfl

end Discipline

/-! ## Honest hosts -/

/-- If there is an object in the slot, it is on the heap. -/
def Slot.OnHeap (heap : Heap) (slot : Slot) : Prop :=
  ∀ o, slot = some (.object o) → o < heap.objects.size

def Operation.slots : Operation → List Slot
  | .call function args => function :: args
  | .send target _ args => some (.object target) :: args
  | _ => []

/-- The host names only objects that are on the heap as yet, while its functions may come by others in
the course of an operation. -/
def Deed.IsHonest (host : Host) (heap : Heap) : Deed → Prop
  | .choose (.global _ slot) => slot.OnHeap heap
  | .operate _ operation =>
    host.NamesOnly {o | o < heap.objects.size} ∧ ∀ slot ∈ operation.slots, slot.OnHeap heap
  | .setPrototype _ proto => ∀ p, proto = some p → p < heap.objects.size
  | _ => True

/-- Each of the deeds is honest when it is done. -/
def Deed.AllHonest (host : Host) (deeds : List Deed) : Prop :=
  ∀ front deed rest, deeds = front ++ deed :: rest →
    deed.IsHonest host (Interpreter.history host front).machine.heap

theorem Deed.AllHonest.front {host : Host} {deeds : List Deed} {deed : Deed}
    (hhonest : AllHonest host (deeds ++ [deed])) : AllHonest host deeds := by
  intro front other rest hsplit
  exact hhonest front other (rest ++ [deed]) (by simp [hsplit])

/-- The task is done in the course of an operation of an interpreter with this history, which like the
history is honest. -/
def Task.ArisesHonestly (host : Host) (deeds : List Deed) (task : Task) : Prop :=
  ∃ depth operation start, Deed.AllHonest host (deeds ++ [.operate depth operation]) ∧
    (Interpreter.history host deeds).Starts depth operation start ∧
    Course (Interpreter.history host deeds).setup start task

namespace Discipline

/-- What a host binds does not depend on its functions. -/
theorem lawful_concealing_nothing :
    (concealing ∅ ∅).Lawful ⟨Interpreter.defaultPrecision, Host.standard⟩ :=
  lawful_concealing (Host.standard_usesOnlyArguments.namesOnly ∅)

theorem allows_concealing {held : Set ObjectId} {m : Machine} {operation : Operation}
    (hslots : ∀ slot ∈ operation.slots, slot.OnHeap m.heap) :
    (concealing held ∅).Allows m operation := by
  have hadmits : ∀ slot ∈ operation.slots, (concealing held ∅).Admits m.heap slot :=
    fun slot hslot o ho => ⟨hslots slot hslot o ho, Set.notMem_empty o⟩
  cases operation with
  | eval node => exact ⟨trivial, trivial⟩
  | evalIn s node => exact ⟨trivial, trivial⟩
  | call function args => exact List.forall_mem_cons.mp hadmits
  | send target selector args => exact List.forall_mem_cons.mp hadmits
  | load source => exact ⟨trivial, fun _ _ _ _ => trivial⟩

end Discipline

namespace Heap.Conceals

theorem perform {α : Type} {interpreter : Interpreter} {step : Run α} {good : Heap → α → Prop}
    (hconceals : interpreter.machine.heap.Conceals ∅)
    (hkeeps : (Discipline.concealing ∅ ∅).Keeps interpreter.machine step good) :
    (interpreter.perform step).2.machine.heap.Conceals ∅ := by
  have hsound : (Discipline.concealing ∅ ∅).Sound interpreter.machine.heap := ⟨hconceals, nofun⟩
  exact (Discipline.leaves_perform hsound hkeeps).sound.1

theorem choose {interpreter chosen : Interpreter} {choice : Choice}
    (hhonest : ∀ name slot, choice = .global name slot → slot.OnHeap interpreter.machine.heap)
    (hchosen : interpreter.choose choice = .ok chosen)
    (hconceals : interpreter.machine.heap.Conceals ∅) : chosen.machine.heap.Conceals ∅ := by
  rcases Interpreter.heap_of_choose hchosen with hheap | ⟨name, slot, hchoice, hbound⟩
  · rw [hheap]
    exact hconceals
  have hslot : slot.OnHeap interpreter.machine.heap := by
    rcases hchoice with hglobal | ⟨body, rfl⟩
    · exact hhonest name slot hglobal
    · rintro o ⟨⟩
  rw [hbound]
  apply hconceals.perform (Discipline.keeps_bindGlobal Discipline.lawful_concealing_nothing
    (fun _ _ => trivial) trivial name _)
  rintro v rfl o ho
  exact ⟨hslot o ho, Set.notMem_empty o⟩

theorem handle {host : Host} {interpreter : Interpreter} {deed : Deed}
    (hhost : interpreter.setup.host = host)
    (hhonest : deed.IsHonest host interpreter.machine.heap)
    (hconceals : interpreter.machine.heap.Conceals ∅) :
    (interpreter.handle deed).machine.heap.Conceals ∅ := by
  cases deed with
  | choose choice =>
      simp only [Interpreter.handle]
      cases hchosen : interpreter.choose choice with
      | error failure => exact hconceals
      | ok chosen =>
          refine hconceals.choose ?_ hchosen
          rintro name slot rfl
          exact hhonest
  | addBuiltins builtins =>
      apply hconceals.perform (Discipline.keeps_bindBuiltins Discipline.lawful_concealing_nothing
        (fun _ _ => trivial) _ trivial _)
      rintro heap name body o ⟨⟩
  | operate depth operation =>
      obtain ⟨hnames, hslots⟩ := hhonest
      have hends := Discipline.operate (Discipline.lawful_concealing (hhost ▸ hnames))
        ⟨hconceals, fun o ho => ⟨ho, Set.notMem_empty o⟩⟩ depth operation
        (Discipline.allows_concealing hslots)
      exact hends.leaves.sound.1
  | makeObject name parent => exact hconceals.addObject name parent fun _ => .inl
  | setPrototype o proto =>
      simp only [Interpreter.handle]
      cases hlinked : interpreter.machine.heap.setPrototype? o proto with
      | none => exact hconceals
      | some linked =>
          obtain ⟨rfl, -⟩ := of_setPrototype? hlinked
          exact hconceals.linkPrototype o fun p hp => ⟨hhonest p hp, Set.notMem_empty p⟩

theorem initialHeap : Interpreter.initialHeap.Conceals ∅ := by
  have hglobal : (Heap.empty.addScope none).Conceals ∅ := by
    refine ⟨nofun, ?_, ?_⟩
    · intro s name o hmem
      rw [bindings_addScope] at hmem
      simp [bindings, Heap.empty] at hmem
    · intro x p hp
      simp [proto?, Heap.empty, Heap.addScope] at hp
  have hsettles := Discipline.settles_initialHeap Discipline.lawful_concealing_nothing
    ⟨⟨hglobal, nofun⟩, trivial⟩ (fun _ _ => by rintro o ⟨⟩)
  exact hsettles.1.1

theorem history {host : Host} {deeds : List Deed} (hhonest : Deed.AllHonest host deeds) :
    (Interpreter.history host deeds).machine.heap.Conceals ∅ := by
  induction deeds using List.reverseRecOn with
  | nil => exact initialHeap
  | append_singleton deeds deed ih =>
      have hhandled := handle (Interpreter.host_history host deeds) (hhonest deeds deed [] rfl)
        (ih hhonest.front)
      simpa [Interpreter.history, List.foldl_append] using hhandled

end Heap.Conceals

/-- When a task arises honestly, all objects that it can come by are on the heap, and the host knows
those that were there before the operation. -/
theorem Task.ArisesHonestly.exists_permits {host : Host} {deeds : List Deed} {task : Task}
    (harises : task.ArisesHonestly host deeds) :
    ∃ held, (Interpreter.history host deeds).setup.host.NamesOnly held ∧
      (Discipline.concealing held ∅).Permits task := by
  obtain ⟨depth, operation, start, hhonest, hstarts, hcourse⟩ := harises
  obtain ⟨hnames, hslots⟩ := hhonest deeds _ [] rfl
  let interpreter := Interpreter.history host deeds
  let held : Set ObjectId := {o | o < interpreter.machine.heap.objects.size}
  have hhost : interpreter.setup.host.NamesOnly held := by
    rw [Interpreter.host_history]
    exact hnames
  have hlawful : (Discipline.concealing held ∅).Lawful interpreter.setup :=
    Discipline.lawful_concealing hhost
  have hsound : (Discipline.concealing held ∅).Sound interpreter.machine.heap :=
    ⟨.history hhonest.front, fun o ho => ⟨ho, Set.notMem_empty o⟩⟩
  have hstart := Discipline.permits_starts hlawful hsound (Discipline.allows_concealing hslots) hstarts
  exact ⟨held, hhost, Discipline.permits_course hlawful hcourse hstart⟩

end ProtoLisp
