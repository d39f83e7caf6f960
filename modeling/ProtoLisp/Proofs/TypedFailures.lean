import ProtoLisp.Proofs.Encapsulation
import ProtoLisp.Proofs.Histories
import ProtoLisp.Proofs.Overflow

/-!
# How programs fail

A program that is evaluated without functions of a host either has a value, or fails with one of the
listed conditions, or crashes because a product overflows.  No other crash can happen: all that a
program comes by is a value, all that it refers to is on the heap, and it has no way to come by a
function of the host.
-/

namespace ProtoLisp

/-- There is a value in the slot, and it is not a function of the host. -/
def Slot.isDomestic : Slot → Bool
  | none => false
  | some (.native _ (.host _)) => false
  | some _ => true

def Heap.Domestic (heap : Heap) : Prop :=
  ∀ s name slot, (name, slot) ∈ heap.bindings s → Slot.isDomestic slot = true

namespace Heap.Domestic

variable {heap : Heap}

theorem addScope (hdomestic : heap.Domestic) (parent : Option ScopeId) :
    (heap.addScope parent).Domestic := by
  intro s name slot hmem
  rw [bindings_addScope] at hmem
  exact hdomestic s name slot hmem

theorem put (hdomestic : heap.Domestic) (s : ScopeId) (name : String) {slot : Slot}
    (hslot : Slot.isDomestic slot = true) : (heap.put s name slot).Domestic := by
  intro t other value hmem
  rcases mem_bindings_put hmem with hold | rfl
  · exact hdomestic t other value hold
  · exact hslot

theorem setField (hdomestic : heap.Domestic) (o : ObjectId) (name : String) {slot : Slot}
    (hslot : Slot.isDomestic slot = true) : (heap.setField o name slot).Domestic := by
  unfold Heap.setField putOwn
  split
  · exact hdomestic.put _ _ hslot
  · exact hdomestic

end Heap.Domestic

/-! ## The discipline -/

namespace Discipline

/-- The discipline of programs: whatever they come by is a value that the heap holds. -/
def domestic : Discipline where
  Sound heap := heap.Domestic ∧ Heap.empty.Confined ∅ heap
  Grows heap heap' := heap'.Includes heap
  Admits heap slot := Slot.isDomestic slot = true ∧ Slot.refs slot ⊆ Heap.empty.area ∅ heap
  Enters heap s := .scope s ∈ Heap.empty.area ∅ heap
  Reads _ := True
  Fails _ failure := failure = .tooDeep ∨
    (∃ error, failure = .eval error ∧ error.condition ∈ Condition.all) ∨
    ∃ exponent, failure = .crash (.exponentOverflow exponent)

theorem mem_all_of_isOrdinary {condition : Condition} (hordinary : condition.IsOrdinary) :
    condition ∈ Condition.all := by
  cases condition with
  | unknown code => exact (hordinary.2 code rfl).elim
  | _ => decide

theorem lawful_domestic (setup : Setup) : domestic.Lawful setup := by
  -- What the heap holds does not depend on the host.
  have hheld : (confinement .empty ∅).Lawful ⟨setup.precision, Host.standard⟩ :=
    lawful_confinement Host.standard_usesOnlyArguments
  exact {
    grows_refl := hheld.grows_refl
    grows_trans := hheld.grows_trans
    admits_mono := fun hgrows hslot => ⟨hslot.1, hheld.admits_mono hgrows hslot.2⟩
    enters_mono := hheld.enters_mono
    reads_arg := fun _ _ => trivial
    reads_body := fun _ => trivial
    admits_primitive := by
      intro heap v hv
      refine ⟨?_, hheld.admits_primitive hv⟩
      cases v with
      | native name body => cases hv
      | _ => rfl
    admits_closure := fun henters hparams _ => ⟨rfl, hheld.admits_closure henters hparams trivial⟩
    admits_resolved := by
      intro heap s name slot hsound henters hresolve
      obtain ⟨t, _, hmem⟩ := Heap.exists_of_resolve? hresolve
      exact ⟨hsound.1 t name slot hmem, hheld.admits_resolved hsound.2 henters hresolve⟩
    admits_attribute := by
      intro heap o key slot hsound hobject hattribute
      obtain ⟨_, _, _, _, _, hmem⟩ := Heap.exists_of_attribute? hattribute
      exact ⟨hsound.1 _ _ slot hmem, hheld.admits_attribute hsound.2 hobject.2 hattribute⟩
    admits_prototype := fun hsound hobject hproto =>
      ⟨rfl, hheld.admits_prototype hsound.2 hobject.2 hproto⟩
    opens_block := fun hsound henters =>
      have hopens := hheld.opens_block hsound.2 henters
      ⟨⟨hsound.1.addScope _, hopens.sound⟩, hopens.grows, hopens.enters⟩
    opens_closure := fun hsound hclosure =>
      have hopens := hheld.opens_closure hsound.2 hclosure.2
      ⟨⟨hsound.1.addScope _, hopens.sound⟩, hopens.grows, hopens.enters⟩
    opens_object := fun hsound henters =>
      have hopens := hheld.opens_object hsound.2 henters
      ⟨⟨⟨hsound.1.addScope _, hopens.1.sound⟩, hopens.1.grows, hopens.1.enters⟩, rfl, hopens.2⟩
    sound_put := fun hsound henters hv =>
      have hput := hheld.sound_put hsound.2 henters hv.2
      ⟨⟨hsound.1.put _ _ hv.1, hput.1⟩, hput.2⟩
    sound_rebind := fun hsound henters hslot howner =>
      have hput := hheld.sound_rebind hsound.2 henters hslot.2 howner
      ⟨⟨hsound.1.put _ _ hslot.1, hput.1⟩, hput.2⟩
    sound_setField := fun hsound hobject hv =>
      have hset := hheld.sound_setField hsound.2 hobject.2 hv.2
      ⟨⟨hsound.1.setField _ _ hv.1, hset.1⟩, hset.2⟩
    sound_linkPrototype := fun hsound hobject hproto hacyclic =>
      have hlinked := hheld.sound_linkPrototype hsound.2 hobject.2 hproto.2 hacyclic
      ⟨⟨hsound.1, hlinked.1⟩, hlinked.2⟩
    fails_complaint := fun hordinary => .inr (.inl ⟨_, rfl, mem_all_of_isOrdinary hordinary⟩)
    fails_exhausted := by
      intro stack _
      refine .inr (.inl ⟨_, rfl, ?_⟩)
      simp [EvalError.condition, EvalError.raised, Complaint.condition, Condition.all]
    fails_absence := fun hnone => nomatch hnone.1
    fails_absentBinding := fun hnone => nomatch hnone.1
    fails_overflow := fun _ => .inr (.inr ⟨_, rfl⟩)
    fails_tooDeep := .inl rfl
    fails_unwound := fun _ hfails => hfails
    obeys_host := fun _ hnative => nomatch hnative.1 }

end Discipline

/-! ## Programs -/

/-- The deed sets the interpreter up without functions of the host, or evaluates a program. -/
def Deed.isProgram : Deed → Bool
  | .choose (.maxStackHeight _) => true
  | .choose (.divisionPrecision _) => true
  | .choose .reader => true
  | .operate _ (.eval _) => true
  | .operate _ (.load _) => true
  | _ => false

/-- The heap holds all that it refers to, and no name is bound to nothing. -/
structure Heap.Whole (heap : Heap) : Prop where
  held : ∀ r target, heap.Holds r → heap.Link r target → heap.Holds target
  bound : ∀ s name slot, (name, slot) ∈ heap.bindings s → slot ≠ none

/-- The values that a request speaks of. -/
def Request.slots : Request → List Slot
  | .eval _ => []
  | .call function args _ => function :: args
  | .send target _ args => some (.object target) :: args

/-- Nothing is missing that the task may ask for. -/
structure Task.Whole (task : Task) : Prop where
  heap : task.machine.heap.Whole
  scope : ∀ node, task.request = .eval node → task.machine.heap.Holds (.scope task.machine.scope)
  slots : ∀ slot ∈ task.request.slots, slot ≠ none ∧ ∀ r ∈ Slot.refs slot, task.machine.heap.Holds r

namespace Discipline

theorem mem_area_iff {heap : Heap} {r : Ref} : r ∈ Heap.empty.area ∅ heap ↔ heap.Holds r := by
  have hempty : ¬ Heap.empty.Holds r := by
    cases r <;> simp [Heap.Holds, Heap.empty]
  simp [Heap.area, Heap.fresh, hempty]

theorem ne_none_of_isDomestic {slot : Slot} (hdomestic : Slot.isDomestic slot = true) :
    slot ≠ none := by
  rintro rfl
  cases hdomestic

theorem whole_of_sound {heap : Heap} (hsound : domestic.Sound heap) : heap.Whole where
  held _ _ hholds hlink :=
    mem_area_iff.mp (hsound.2.closed (mem_area_iff.mpr hholds) hlink)
  bound s name slot hmem := ne_none_of_isDomestic (hsound.1 s name slot hmem)

theorem whole_of_permits {task : Task} (hpermits : domestic.Permits task) : task.Whole := by
  obtain ⟨depth, request, m⟩ := task
  obtain ⟨hsound, hready⟩ := hpermits
  refine ⟨whole_of_sound hsound, ?_, ?_⟩
  · rintro node rfl
    exact mem_area_iff.mp hready.2
  · have hadmits : ∀ slot ∈ request.slots, domestic.Admits m.heap slot := by
      cases request with
      | eval node => simp [Request.slots]
      | call function args receiver => exact List.forall_mem_cons.mpr hready
      | send target selector args => exact List.forall_mem_cons.mpr hready
    intro slot hslot
    obtain ⟨hdomestic, hheld⟩ := hadmits slot hslot
    exact ⟨ne_none_of_isDomestic hdomestic, fun r hr => mem_area_iff.mp (hheld hr)⟩

theorem not_pretends_of_permits {setup : Setup} {exponent : Int} {task : Task}
    (hpermits : domestic.Permits task) : ¬ task.Pretends setup exponent := by
  rintro ⟨name, key, args, receiver, -, hrequest⟩
  obtain ⟨-, hready⟩ := hpermits
  rw [hrequest] at hready
  exact nomatch hready.1.1

end Discipline

/-- The heap is sound, and programs can be evaluated in the scope `s`. -/
def Heap.Settled (heap : Heap) (s : ScopeId) : Prop :=
  Discipline.domestic.Sound heap ∧ Discipline.domestic.Enters heap s

namespace Interpreter

theorem settled_initialHeap (setup : Setup) : initialHeap.Settled 0 := by
  have hempty : Heap.empty.Domestic := by
    intro s name slot hmem
    simp [Heap.bindings, Heap.empty] at hmem
  have hconfined : Heap.empty.Confined ∅ Heap.empty := by
    refine ⟨.refl _, fun _ _ _ => rfl, fun _ _ _ => rfl, ?_⟩
    rintro r target (hr | ⟨hholds, hnew⟩) _
    · exact hr.elim
    · exact (hnew hholds).elim
  refine Discipline.settles_initialHeap (Discipline.lawful_domestic setup) ⟨⟨?_, ?_⟩, ?_⟩ ?_
  · exact hempty.addScope none
  · apply hconfined.addScope
    intro p hp
    cases hp
  · exact Discipline.mem_area_iff.mpr (by simp [Heap.Holds, Heap.addScope, Heap.empty])
  · intro heap operator
    refine ⟨rfl, ?_⟩
    intro r hr
    cases Slot.mem_refs.mp hr

/-- Whatever programs do to an interpreter, programs can go on. -/
theorem settled_history (host : Host) {deeds : List Deed}
    (hdeeds : ∀ deed ∈ deeds, deed.isProgram = true) :
    (history host deeds).machine.heap.Settled (history host deeds).machine.scope := by
  apply history_induction (P := fun interpreter =>
    interpreter.machine.heap.Settled interpreter.machine.scope)
  · exact settled_initialHeap ⟨defaultPrecision, host⟩
  · intro interpreter deed hdeed hsettled
    have hprogram := hdeeds deed hdeed
    cases deed with
    | choose choice =>
        cases choice with
        | maxStackHeight n => exact hsettled
        | divisionPrecision n =>
            simp only [handle, choose]
            split
            next hchosen =>
              split at hchosen
              · cases hchosen
              · cases hchosen
                exact hsettled
            · exact hsettled
        | reader => exact hsettled
        | _ => cases hprogram
    | operate depth operation =>
        have hlawful := Discipline.lawful_domestic interpreter.setup
        have hallows : Discipline.domestic.Allows interpreter.machine operation := by
          cases operation with
          | eval node => exact ⟨trivial, hsettled.2⟩
          | load source => exact ⟨hsettled.2, fun _ _ _ _ => trivial⟩
          | _ => cases hprogram
        exact Discipline.Settles.operate hlawful hsettled depth hallows
    | _ => cases hprogram

/-- An evaluation after any programs has a value, or fails with one of the listed conditions, or
crashes in the course of a call of `*` with numbers that cannot be multiplied; and nothing that is
asked for in its course is missing. -/
theorem eval_has_value_or_fails (host : Host) (deeds : List Deed)
    (hdeeds : ∀ deed ∈ deeds, deed.isProgram = true) (depth : Nat) (node : Node) :
    let interpreter := history host deeds
    let task : Task := ⟨depth, .eval node, interpreter.machine⟩
    (∀ slot, (interpreter.eval depth node).1 = .ok slot → ∃ v, slot = some v) ∧
      (∀ failure, (interpreter.eval depth node).1 = .error failure → failure ≠ .tooDeep →
        (∃ error, failure = .eval error ∧ error.condition ∈ Condition.all) ∨
          ∃ exponent origin, failure = .crash (.exponentOverflow exponent) ∧
            failure.text = "exponent " ++ toString exponent ++ " overflows an int32!" ∧
            Task.Course interpreter.setup task origin ∧
            origin.Overflows interpreter.setup exponent ∧ origin.Multiplies exponent) ∧
      ∀ part, Task.Course interpreter.setup task part → part.Whole := by
  intro interpreter task
  have hsettled := settled_history host hdeeds
  have hlawful := Discipline.lawful_domestic interpreter.setup
  have hpermits : Discipline.domestic.Permits task := ⟨hsettled.1, trivial, hsettled.2⟩
  have hkeeps : Discipline.domestic.Keeps interpreter.machine
      (Eval.run interpreter.setup depth (.eval node)) Discipline.domestic.Admits :=
    Discipline.keeps_eval (Discipline.serves_run hlawful depth) trivial hsettled.2
  refine ⟨?_, ?_, ?_⟩
  · intro slot hslot
    obtain ⟨after, hok, -⟩ := exists_of_perform_ok (Prod.ext hslot rfl)
    have hadmits := (hkeeps.of_ok hsettled.1 hok).2
    exact Option.ne_none_iff_exists'.mp (Discipline.ne_none_of_isDomestic hadmits.1)
  · intro failure hfailure hdeep
    obtain ⟨after, herror, -⟩ := exists_of_perform_error (Prod.ext hfailure rfl)
    rcases (hkeeps.of_error hsettled.1 herror).2 with hdeep' | hlisted | ⟨exponent, rfl⟩
    · exact (hdeep hdeep').elim
    · exact .inl hlisted
    · have hoverflows : task.Overflows interpreter.setup exponent := ⟨after, herror⟩
      obtain ⟨origin, hcourse, horigin, hmultiplies | hpretends⟩ := hoverflows.origin
      · exact .inr ⟨exponent, origin, rfl, rfl, hcourse, horigin, hmultiplies⟩
      · have hpermits' := Discipline.permits_course hlawful hcourse hpermits
        exact (Discipline.not_pretends_of_permits hpermits' hpretends).elim
  · intro part hcourse
    exact Discipline.whole_of_permits (Discipline.permits_course hlawful hcourse hpermits)

/-- `(def big 1e2147483647)` -/
def definesBig : Deed :=
  .operate 2 (.eval (.call "def" [.variable "big", .number ⟨1, 2147483647⟩]))

/-- `(* big 1e1)` -/
def multipliesBig : Node := .call "*" [.variable "big", .number ⟨1, 1⟩]

theorem eval_has_value_or_fails_big :
    (∀ deed ∈ [definesBig], deed.isProgram = true) ∧
      ((history Host.standard [definesBig]).eval 3 multipliesBig).1 =
        .error (.crash (.exponentOverflow 2147483648)) ∧
      ∃ origin, Task.Course (history Host.standard [definesBig]).setup
        ⟨3, .eval multipliesBig, (history Host.standard [definesBig]).machine⟩ origin ∧
        origin.Multiplies 2147483648 := by
  have hprogram : ∀ deed ∈ [definesBig], deed.isProgram = true := by decide
  have hcrash : ((history Host.standard [definesBig]).eval 3 multipliesBig).1 =
      .error (.crash (.exponentOverflow 2147483648)) := rfl
  refine ⟨hprogram, hcrash, ?_⟩
  have houtcome := eval_has_value_or_fails Host.standard [definesBig] hprogram 3 multipliesBig
  rcases houtcome.2.1 _ hcrash nofun with
    ⟨error, herror, -⟩ | ⟨exponent, origin, hexponent, -, hcourse, -, hmultiplies⟩
  · cases herror
  · cases hexponent
    exact ⟨origin, hcourse, hmultiplies⟩

end Interpreter

end ProtoLisp
