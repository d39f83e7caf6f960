import ProtoLisp.Proofs.FieldSetting
import ProtoLisp.Proofs.VisibleBindings

/-!
# Names bound to nothing

A host that works on scopes and objects directly may hand over nothing where a value is to be bound.  A
definition, a field and a global then crash before anything is stored.  Rebinding a name looks only for
the scope that binds it, and stores in it whatever it is given.  So a name is bound to nothing as long
as the last that has been stored under it has come from a rebinding to nothing, and all names are bound
to values at all times if and only if no name that means something is ever rebound to nothing.
-/

namespace ProtoLisp

/-! ### Bindings of a scope -/

namespace Heap

variable {heap : Heap} {s : ScopeId}

/-- No scope binds a name twice. -/
def NamesOnce (heap : Heap) : Prop := ∀ s, (heap.bindings s).names.Nodup

theorem NamesOnce.put (honce : heap.NamesOnce) (hs : s < heap.nextScope) (name : String)
    (slot : Slot) : (heap.put s name slot).NamesOnce := by
  intro t
  by_cases hst : s = t
  · subst hst
    rw [bindings_put_self hs]
    exact Bindings.nodup_put (honce s) name slot
  · rw [bindings, getElem?_scopes_put hst]
    exact honce t

theorem bindings_put_of_missing (hs : ¬ s < heap.nextScope) (name : String) (slot : Slot)
    (t : ScopeId) : (heap.put s name slot).bindings t = heap.bindings t := by
  by_cases hst : s = t
  · subst hst
    have hnone : heap.scopes[s]? = none := Array.getElem?_eq_none (Nat.le_of_not_lt hs)
    rw [bindings, bindings, put, Array.getElem?_modify, if_pos rfl, hnone]
    rfl
  · rw [bindings, getElem?_scopes_put hst, bindings]

end Heap

theorem Interpreter.bindGlobal_eq (global : ScopeId) (name : String) (slot : Slot) (m : Machine) :
    bindGlobal global name slot m =
      (if (m.heap.ownBinding? global name).isSome then
        Run.refuse ("global already defined: " ++ name)
      else Run.define global name slot) m :=
  Run.bind_of_ok rfl _

/-! ### Calls -/

/-- A call that makes a scope or an object, or binds a name. -/
inductive HeapCall where
  | scope (call : ScopeCall)
  | makeObject (name : String) (parent : Option ScopeId)
  | setField (o : ObjectId) (name : String) (slot : Slot)
  /-- a choice of an interpreter whose global scope is `global` -/
  | bindGlobal (global : ScopeId) (name : String) (slot : Slot)

namespace HeapCall

variable {heap : Heap} {call : HeapCall} {calls : List HeapCall} {s : ScopeId} {name : String}
  {slot : Slot}

/-- What the call does. -/
def run : HeapCall → Run Unit
  | .scope (.new parent) => do
    let _ ← Run.newScope parent
    return ()
  | .scope (.define s name slot) => Run.define s name slot
  | .scope (.rebind s name slot) => do
    let _ ← Run.inScope s (Run.rebind name slot)
    return ()
  | .makeObject name parent => Run.modifyHeap (·.addObject name parent)
  | .setField o name slot => Run.setField o name slot
  | .bindGlobal global name slot => Interpreter.bindGlobal global name slot

/-- What the call makes of the heap, however it ends. -/
def perform (heap : Heap) (call : HeapCall) : Heap := (call.run.after ⟨heap, 0, .empty 0⟩).heap

/-- What the calls, one after the other, make of an empty heap. -/
def performAll (calls : List HeapCall) : Heap :=
  calls.foldl (fun heap call => call.perform heap) .empty

theorem performAll_append_singleton (calls : List HeapCall) (call : HeapCall) :
    performAll (calls ++ [call]) = call.perform (performAll calls) := by
  rw [performAll, List.foldl_append]
  rfl

/-- The heap of a new interpreter is made by such calls. -/
example :
    let builtins := Interpreter.defaultBuiltins.map fun (name, body) =>
      HeapCall.bindGlobal 0 name (some (.native name body))
    performAll ([.scope (.new none), .scope (.define 0 "null" (some .null))] ++ builtins ++
      [.makeObject "Object" (some 0), .scope (.define 0 "Object" (some (.object 0)))]) =
        Interpreter.initialHeap := rfl

theorem run_rebind (s : ScopeId) (name : String) (slot : Slot) (m : Machine) :
    run (.scope (.rebind s name slot)) m =
      .ok () { m with heap := (m.heap.rebind? s name slot).getD m.heap } := by
  have hrebind : Run.inScope s (Run.rebind name slot) m =
      .ok (m.heap.rebind? s name slot).isSome
        { m with heap := (m.heap.rebind? s name slot).getD m.heap } := by
    rw [Run.inScope, Run.rebind_eq]
  exact Run.bind_of_ok hrebind _

/-- Nothing has been stored yet when a call crashes or is refused. -/
theorem unchanged_of_error {m after : Machine} {failure : Failure}
    (herror : call.run m = .error failure after) : after = m := by
  have hdefine {s : ScopeId} {name : String} {slot : Slot}
      (herror : Run.define s name slot m = .error failure after) : after = m := by
    cases slot <;> cases herror
    rfl
  cases call with
  | scope call =>
      cases call with
      | new parent => cases herror
      | define s name slot => exact hdefine herror
      | rebind s name slot =>
          rw [run_rebind] at herror
          cases herror
  | makeObject name parent => cases herror
  | setField o name slot =>
      cases slot <;> cases herror
      rfl
  | bindGlobal s name slot =>
      rw [run, Interpreter.bindGlobal_eq] at herror
      split at herror
      · cases herror
        rfl
      · exact hdefine herror

/-- On scopes alone, the calls are those that are made to scopes. -/
theorem perform_scope (heap : Heap) (call : ScopeCall) :
    (scope call).perform heap = call.perform heap := by
  cases call with
  | new parent => rfl
  | define s name slot => cases slot <;> rfl
  | rebind s name slot => rw [perform, Run.after_of_ok (run_rebind s name slot _), ScopeCall.perform]

/-- A global is defined, unless it is bound already. -/
theorem perform_bindGlobal (heap : Heap) (s : ScopeId) (name : String) (slot : Slot) :
    (bindGlobal s name slot).perform heap =
      if (heap.ownBinding? s name).isSome then heap
      else (scope (.define s name slot)).perform heap := by
  rw [perform, run, Run.after, Interpreter.bindGlobal_eq]
  by_cases hbound : (heap.ownBinding? s name).isSome = true
  · rw [if_pos hbound, if_pos hbound]
    rfl
  · rw [if_neg hbound, if_neg hbound]
    rfl

/-- The call does to the heap what the choice of a global does to that of an interpreter. -/
theorem heap_handle_global (interpreter : Interpreter) (name : String) (slot : Slot) :
    (interpreter.handle (.choose (.global name slot))).machine.heap =
      (bindGlobal interpreter.global name slot).perform interpreter.machine.heap := by
  rw [perform_bindGlobal, Interpreter.handle, Interpreter.choose, Interpreter.perform,
    Interpreter.bindGlobal_eq]
  by_cases hbound : (interpreter.machine.heap.ownBinding? interpreter.global name).isSome = true
  · rw [if_pos hbound, if_pos hbound]
    rfl
  · rw [if_neg hbound, if_neg hbound]
    cases slot <;> rfl

/-! ### What calls store -/

/-- The call stores the slot under the name in the scope `s`. -/
inductive Stores (heap : Heap) : HeapCall → ScopeId → String → Slot → Prop
  | define {s : ScopeId} {name : String} {v : Value} (hs : s < heap.nextScope) :
      Stores heap (.scope (.define s name (some v))) s name (some v)
  | rebind {s t : ScopeId} {name : String} {slot : Slot} (howner : heap.owner? t name = some s) :
      Stores heap (.scope (.rebind t name slot)) s name slot
  | field {o : ObjectId} {object : Object} {name : String} {v : Value}
      (hobject : heap.objects[o]? = some object) (hs : object.scope < heap.nextScope) :
      Stores heap (.setField o name (some v)) object.scope (heap.fieldName o name) (some v)
  | global {s : ScopeId} {name : String} {v : Value} (hs : s < heap.nextScope)
      (hfree : heap.ownBinding? s name = none) :
      Stores heap (.bindGlobal s name (some v)) s name (some v)

/-- Nothing is stored but by rebinding a name that is bound. -/
theorem stores_nothing_iff :
    Stores heap call s name none ↔
      ∃ t, call = .scope (.rebind t name none) ∧ heap.owner? t name = some s := by
  constructor
  · intro hstores
    cases hstores with
    | rebind howner => exact ⟨_, rfl, howner⟩
  · rintro ⟨t, rfl, howner⟩
    exact .rebind howner

theorem Stores.perform_eq (hstores : Stores heap call s name slot) :
    s < heap.nextScope ∧ call.perform heap = heap.put s name slot := by
  cases hstores with
  | define hs => exact ⟨hs, rfl⟩
  | rebind howner =>
      refine ⟨(Heap.binds_of_owner? howner).lt_size, ?_⟩
      rw [perform_scope, ScopeCall.perform, Heap.rebind?, howner]
      rfl
  | field hobject hs => exact ⟨hs, Heap.setField_eq_put hobject _ _⟩
  | global hs hfree =>
      refine ⟨hs, ?_⟩
      rw [perform_bindGlobal, hfree]
      rfl

/-- There is nothing to store, or no scope to store it in, unless a definition is carried out. -/
theorem define_cases (heap : Heap) (s : ScopeId) (name : String) (slot : Slot) :
    (∃ v, slot = some v ∧ s < heap.nextScope) ∨
      ∀ t, ((scope (.define s name slot)).perform heap).bindings t = heap.bindings t := by
  cases slot with
  | none => exact .inr fun _ => rfl
  | some v =>
      by_cases hs : s < heap.nextScope
      · exact .inl ⟨v, rfl, hs⟩
      · exact .inr (Heap.bindings_put_of_missing hs name (some v))

/-- A call that stores nothing anywhere leaves all bindings as they are, also if it crashes. -/
theorem perform_cases (heap : Heap) (call : HeapCall) :
    (∃ s name slot, Stores heap call s name slot) ∨
      ∀ t, (call.perform heap).bindings t = heap.bindings t := by
  cases call with
  | scope call =>
      cases call with
      | new parent => exact .inr (Heap.bindings_addScope parent)
      | define s name slot =>
          rcases define_cases heap s name slot with ⟨v, rfl, hs⟩ | hsame
          · exact .inl ⟨_, _, _, .define hs⟩
          · exact .inr hsame
      | rebind s name slot =>
          cases howner : heap.owner? s name with
          | none =>
              rw [perform_scope, ScopeCall.perform, Heap.rebind?, howner]
              exact .inr fun _ => rfl
          | some owner => exact .inl ⟨_, _, _, .rebind howner⟩
  | makeObject name parent => exact .inr (Heap.bindings_addScope parent)
  | setField o name slot =>
      cases slot with
      | none => exact .inr fun _ => rfl
      | some v =>
          have hset : (setField o name (some v)).perform heap = heap.setField o name (some v) := rfl
          rw [hset]
          cases hobject : heap.objects[o]? with
          | none =>
              rw [Heap.setField, Heap.putOwn, hobject]
              exact .inr fun _ => rfl
          | some object =>
              by_cases hs : object.scope < heap.nextScope
              · exact .inl ⟨_, _, _, .field hobject hs⟩
              · rw [Heap.setField_eq_put hobject]
                exact .inr (Heap.bindings_put_of_missing hs _ _)
  | bindGlobal s name slot =>
      rw [perform_bindGlobal]
      by_cases hbound : (heap.ownBinding? s name).isSome = true
      · rw [if_pos hbound]
        exact .inr fun _ => rfl
      · rw [if_neg hbound]
        rcases define_cases heap s name slot with ⟨v, rfl, hs⟩ | hsame
        · exact .inl ⟨_, _, _, .global hs (by simpa using hbound)⟩
        · exact .inr hsame

theorem ownBinding?_of_stores (hstores : Stores heap call s name slot) :
    (call.perform heap).ownBinding? s name = some slot := by
  obtain ⟨hs, hperform⟩ := hstores.perform_eq
  rw [hperform, Heap.ownBinding?_put hs, if_pos ⟨rfl, rfl⟩]

theorem ownBinding?_of_not_stores (hkeeps : ∀ slot, ¬ Stores heap call s name slot) :
    (call.perform heap).ownBinding? s name = heap.ownBinding? s name := by
  rcases perform_cases heap call with ⟨t, other, slot, hstores⟩ | hsame
  · obtain ⟨ht, hperform⟩ := hstores.perform_eq
    rw [hperform, Heap.ownBinding?_put ht, if_neg]
    rintro ⟨rfl, rfl⟩
    exact hkeeps slot hstores
  · rw [Heap.ownBinding?, hsame]
    rfl

theorem namesOnce_perform (honce : heap.NamesOnce) (call : HeapCall) :
    (call.perform heap).NamesOnce := by
  rcases perform_cases heap call with ⟨s, name, slot, hstores⟩ | hsame
  · obtain ⟨hs, hperform⟩ := hstores.perform_eq
    exact hperform ▸ honce.put hs name slot
  · exact fun t => hsame t ▸ honce t

theorem filled_perform (hfilled : heap.Filled) (hvalue : ∀ s name, ¬ Stores heap call s name none) :
    (call.perform heap).Filled := by
  rcases perform_cases heap call with ⟨s, name, slot, hstores⟩ | hsame
  · rw [hstores.perform_eq.2]
    apply hfilled.put
    rintro rfl
    exact hvalue s name hstores
  · exact fun t => hsame t ▸ hfilled t

/-! ### Histories of calls -/

/-- The last of the calls that has stored anything under the name in the scope `s` has stored nothing:
it has rebound the name, wherever that was, to nothing. -/
inductive LeavesEmpty (s : ScopeId) (name : String) : List HeapCall → Prop
  | rebind {calls : List HeapCall} {t : ScopeId}
      (howner : (performAll calls).owner? t name = some s) :
      LeavesEmpty s name (calls ++ [.scope (.rebind t name none)])
  | later {calls : List HeapCall} {call : HeapCall} (hempty : LeavesEmpty s name calls)
      (hkeeps : ∀ slot, ¬ Stores (performAll calls) call s name slot) :
      LeavesEmpty s name (calls ++ [call])

theorem namesOnce_performAll (calls : List HeapCall) : (performAll calls).NamesOnce := by
  induction calls using List.reverseRecOn with
  | nil => exact fun s => List.nodup_nil
  | append_singleton calls call ih =>
      rw [performAll_append_singleton]
      exact namesOnce_perform ih call

theorem ownBinding?_performAll_iff :
    (performAll calls).ownBinding? s name = some none ↔ LeavesEmpty s name calls := by
  constructor
  · intro hempty
    induction calls using List.reverseRecOn with
    | nil => cases hempty
    | append_singleton calls call ih =>
        rw [performAll_append_singleton] at hempty
        -- Either the last call has stored here itself, or what is found here is older.
        by_cases hstores : ∃ slot, Stores (performAll calls) call s name slot
        · obtain ⟨slot, hstores⟩ := hstores
          rw [ownBinding?_of_stores hstores] at hempty
          cases hempty
          obtain ⟨t, rfl, howner⟩ := stores_nothing_iff.mp hstores
          exact .rebind howner
        · have hkeeps : ∀ slot, ¬ Stores (performAll calls) call s name slot := by simpa using hstores
          rw [ownBinding?_of_not_stores hkeeps] at hempty
          exact .later (ih hempty) hkeeps
  · intro hempty
    induction hempty with
    | rebind howner =>
        rw [performAll_append_singleton]
        exact ownBinding?_of_stores (.rebind howner)
    | later _ hkeeps ih =>
        rw [performAll_append_singleton, ownBinding?_of_not_stores hkeeps]
        exact ih

theorem filled_performAll_iff :
    (performAll calls).Filled ↔ ∀ s name, ¬ LeavesEmpty s name calls := by
  constructor
  · intro hfilled s name hempty
    exact hfilled s name none (Bindings.mem_of_get? (ownBinding?_performAll_iff.mpr hempty)) rfl
  · rintro hnever s name slot hmem rfl
    apply hnever s name
    apply ownBinding?_performAll_iff.mp
    -- No binding is hidden from a lookup by another one of the same name.
    exact (Bindings.mem_iff_get? (namesOnce_performAll calls s)).mp hmem

/-- At all times during the calls, all names are bound to values. -/
def StaysFilled (calls : List HeapCall) : Prop :=
  ∀ earlier, earlier <+: calls → (performAll earlier).Filled

/-- Whenever a name is rebound to nothing, it means nothing where that is tried. -/
def NeverEmpties (calls : List HeapCall) : Prop :=
  ∀ earlier s name, earlier ++ [.scope (.rebind s name none)] <+: calls →
    (performAll earlier).resolve? s name = none

theorem StaysFilled.neverEmpties (hstays : StaysFilled calls) : NeverEmpties calls := by
  intro earlier s name hprefix
  rw [Heap.resolve?_eq_none_iff, Option.eq_none_iff_forall_ne_some]
  intro t howner
  exact filled_performAll_iff.mp (hstays _ hprefix) t name (.rebind howner)

theorem NeverEmpties.staysFilled (hnever : NeverEmpties calls) : StaysFilled calls := by
  intro earlier
  induction earlier using List.reverseRecOn with
  | nil => exact fun _ _ _ _ hmem => nomatch hmem
  | append_singleton earlier call ih =>
      intro hprefix
      rw [performAll_append_singleton]
      apply filled_perform (ih ((List.prefix_append earlier [call]).trans hprefix))
      intro t name hstores
      obtain ⟨s, rfl, howner⟩ := stores_nothing_iff.mp hstores
      have hnone := hnever earlier s name hprefix
      rw [Heap.resolve?_eq_none_iff, howner] at hnone
      cases hnone

theorem resolve?_performAll_iff :
    (performAll calls).resolve? s name = some none ↔
      ∃ t, (performAll calls).owner? s name = some t ∧ LeavesEmpty t name calls := by
  rw [Heap.resolve?_eq_bind_owner?, Option.bind_eq_some_iff]
  simp only [ownBinding?_performAll_iff]

/-- All names are bound to values at all times if and only if no name that means something is rebound
to nothing.  After the calls, a scope binds a name to nothing, and a lookup finds nothing there, if and
only if the last that has been stored under the name in this scope has come from such a rebinding.  A
call that fails instead, as a definition of nothing does, leaves everything as it was. -/
theorem staysFilled_iff (calls : List HeapCall) :
    (StaysFilled calls ↔ NeverEmpties calls) ∧
      ((performAll calls).Filled ↔ ∀ s name, ¬ LeavesEmpty s name calls) ∧
      (∀ s name, (performAll calls).ownBinding? s name = some none ↔ LeavesEmpty s name calls) ∧
      (∀ s name, (performAll calls).resolve? s name = some none ↔
        ∃ t, (performAll calls).owner? s name = some t ∧ LeavesEmpty t name calls) ∧
      ∀ (call : HeapCall) m failure after, call.run m = .error failure after → after = m :=
  ⟨⟨StaysFilled.neverEmpties, NeverEmpties.staysFilled⟩, filled_performAll_iff,
    fun _ _ => ownBinding?_performAll_iff, fun _ _ => resolve?_performAll_iff,
    fun _ _ _ _ => unchanged_of_error⟩

/-- A name is defined in a scope and then rebound to nothing. -/
def emptying : List HeapCall :=
  [.scope (.new none), .scope (.define 0 "x" (some (.ofInt 1))), .scope (.rebind 0 "x" none)]

theorem staysFilled_iff_emptying :
    (performAll emptying).resolve? 0 "x" = some none ∧ LeavesEmpty 0 "x" emptying ∧
      ¬ StaysFilled emptying := by
  obtain ⟨hstays, -, hown, -⟩ := staysFilled_iff emptying
  refine ⟨rfl, (hown 0 "x").mp rfl, ?_⟩
  intro hfilled
  have hprefix : emptying.dropLast ++ [.scope (.rebind 0 "x" none)] <+: emptying := List.prefix_rfl
  have hnone := hstays.mp hfilled emptying.dropLast 0 "x" hprefix
  cases hnone

end HeapCall

end ProtoLisp
