import ProtoLisp.Proofs.HeapOperations
import ProtoLisp.Proofs.Histories
import ProtoLisp.Proofs.Plans

/-!
# The heap only grows

Nothing that has been made goes away: a scope keeps its parent and the names that it binds, in their
order, and an object keeps its name and its own scope.  An operation may bind further names behind
those, give bound names other values and link other prototypes, whether it ends with a value or fails.

So a variable that an assignment has found before it evaluates its expression is still there
afterwards.
-/

namespace ProtoLisp

namespace Bindings

theorem isSome_get?_iff {bindings : Bindings} {name : String} :
    (bindings.get? name).isSome = true ↔ name ∈ bindings.names := by
  induction bindings with
  | nil => simp [get?, names]
  | cons binding bindings ih =>
      obtain ⟨first, slot⟩ := binding
      simp only [get?, names, List.lookup_cons, List.map_cons, List.mem_cons] at ih ⊢
      by_cases hname : name = first
      · simp [hname]
      · have hbeq : (name == first) = false := by simpa using hname
        simp only [hbeq, hname, false_or]
        exact ih

theorem get?_of_not_mem {bindings : Bindings} {name : String} (hnew : name ∉ bindings.names) :
    bindings.get? name = none := by
  rw [← isSome_get?_iff] at hnew
  simpa using hnew

/-- A name that is bound again keeps its place, and a new one comes last. -/
theorem names_prefix_put (bindings : Bindings) (name : String) (slot : Slot) :
    bindings.names <+: (bindings.put name slot).names := by
  induction bindings with
  | nil => exact List.nil_prefix
  | cons binding bindings ih =>
      obtain ⟨first, old⟩ := binding
      rw [put]
      split
      · exact List.prefix_rfl
      · exact (List.prefix_cons_inj first).mpr ih

theorem names_put_of_mem {bindings : Bindings} {name : String} (slot : Slot)
    (hmem : name ∈ bindings.names) : (bindings.put name slot).names = bindings.names := by
  induction bindings with
  | nil => cases hmem
  | cons binding bindings ih =>
      obtain ⟨first, old⟩ := binding
      rw [put]
      by_cases hfirst : first = name
      · rw [if_pos hfirst]
        rfl
      · rw [if_neg hfirst]
        have hrest : name ∈ names bindings := (List.mem_cons.mp hmem).resolve_left (Ne.symm hfirst)
        exact congrArg (first :: ·) (ih hrest)

theorem put_of_get?_eq_none {bindings : Bindings} {name : String} (slot : Slot)
    (hnew : bindings.get? name = none) : bindings.put name slot = bindings ++ [(name, slot)] := by
  induction bindings with
  | nil => rfl
  | cons binding bindings ih =>
      obtain ⟨first, old⟩ := binding
      have hne : ¬ first = name := by
        rintro rfl
        simp [get?] at hnew
      have hbeq : (name == first) = false := by simpa using Ne.symm hne
      rw [get?, List.lookup_cons, hbeq] at hnew
      rw [put, if_neg hne, ih hnew]
      rfl

theorem put_of_not_mem {bindings : Bindings} {name : String} (hnew : name ∉ bindings.names)
    (slot : Slot) : bindings.put name slot = bindings ++ [(name, slot)] :=
  put_of_get?_eq_none slot (get?_of_not_mem hnew)

theorem names_put (bindings : Bindings) (name : String) (slot : Slot) :
    (bindings.put name slot).names =
      if name ∈ bindings.names then bindings.names else bindings.names ++ [name] := by
  by_cases hmem : name ∈ bindings.names
  · rw [if_pos hmem, names_put_of_mem slot hmem]
  · rw [if_neg hmem, put_of_not_mem hmem, names, List.map_append]
    rfl

end Bindings

/-! ## Growth -/

structure Scope.Extends (before after : Scope) : Prop where
  parent : after.parent = before.parent
  names : before.bindings.names <+: after.bindings.names

structure Object.Extends (before after : Object) : Prop where
  name : after.name = before.name
  scope : after.scope = before.scope

namespace Heap

/-- Every scope and every object is still there and has kept what it does not lose. -/
structure Extends (before after : Heap) : Prop where
  scopes : ∀ (s : ScopeId) (scope : Scope), before.scopes[s]? = some scope →
    ∃ later, after.scopes[s]? = some later ∧ scope.Extends later
  objects : ∀ (o : ObjectId) (object : Object), before.objects[o]? = some object →
    ∃ later, after.objects[o]? = some later ∧ object.Extends later

theorem extends_put (heap : Heap) (s : ScopeId) (name : String) (slot : Slot) :
    heap.Extends (heap.put s name slot) where
  scopes := by
    intro t scope hscope
    by_cases hne : s = t
    · refine ⟨{ scope with bindings := scope.bindings.put name slot }, ?_, rfl,
        scope.bindings.names_prefix_put name slot⟩
      unfold put
      rw [Array.getElem?_modify, if_pos hne, hscope]
      rfl
    · exact ⟨scope, (getElem?_scopes_put hne).trans hscope, rfl, List.prefix_rfl⟩
  objects := fun _ object hobject => ⟨object, hobject, rfl, rfl⟩

theorem extends_linkPrototype (heap : Heap) (o : ObjectId) (proto : Option ObjectId) :
    heap.Extends (heap.linkPrototype o proto) where
  scopes := fun _ scope hscope => ⟨scope, hscope, rfl, List.prefix_rfl⟩
  objects := by
    intro x object hobject
    by_cases hne : o = x
    · refine ⟨{ object with proto := proto }, ?_, rfl, rfl⟩
      unfold linkPrototype
      rw [Array.getElem?_modify, if_pos hne, hobject]
      rfl
    · exact ⟨object, (getElem?_objects_linkPrototype hne).trans hobject, rfl, rfl⟩

theorem extends_addScope (heap : Heap) (parent : Option ScopeId) :
    heap.Extends (heap.addScope parent) where
  scopes := by
    intro s scope hscope
    have hs := (Array.getElem?_eq_some_iff.mp hscope).1
    exact ⟨scope, (getElem?_scopes_addScope hs).trans hscope, rfl, List.prefix_rfl⟩
  objects := fun _ object hobject => ⟨object, hobject, rfl, rfl⟩

theorem extends_addObject (heap : Heap) (name : String) (parent : Option ScopeId) :
    heap.Extends (heap.addObject name parent) where
  scopes := (heap.extends_addScope parent).scopes
  objects := by
    intro o object hobject
    have ho := (Array.getElem?_eq_some_iff.mp hobject).1
    refine ⟨object, ?_, rfl, rfl⟩
    exact (Array.getElem?_push_lt ho).trans ((Array.getElem?_eq_getElem ho).symm.trans hobject)

theorem Extends.refl (heap : Heap) : heap.Extends heap where
  scopes := fun _ scope hscope => ⟨scope, hscope, rfl, List.prefix_rfl⟩
  objects := fun _ object hobject => ⟨object, hobject, rfl, rfl⟩

theorem Extends.trans {first second third : Heap} (hfirst : first.Extends second)
    (hsecond : second.Extends third) : first.Extends third where
  scopes := by
    intro s scope hscope
    obtain ⟨middle, hmiddle, hscope'⟩ := hfirst.scopes s scope hscope
    obtain ⟨later, hlater, hmiddle'⟩ := hsecond.scopes s middle hmiddle
    exact ⟨later, hlater, hmiddle'.parent.trans hscope'.parent, hscope'.names.trans hmiddle'.names⟩
  objects := by
    intro o object hobject
    obtain ⟨middle, hmiddle, hobject'⟩ := hfirst.objects o object hobject
    obtain ⟨later, hlater, hmiddle'⟩ := hsecond.objects o middle hmiddle
    exact ⟨later, hlater, hmiddle'.name.trans hobject'.name, hmiddle'.scope.trans hobject'.scope⟩

theorem law_extends : Law (fun _ => True) Extends where
  refl := Extends.refl
  trans := Extends.trans
  addScope parent _ := ⟨trivial, extends_addScope _ parent⟩
  addObject name parent _ := ⟨trivial, extends_addObject _ name parent⟩
  put s name slot _ := ⟨trivial, extends_put _ s name slot⟩
  linkPrototype o proto _ _ := ⟨trivial, extends_linkPrototype _ o proto⟩

/-- A new name comes behind all bindings, which are all kept. -/
theorem bindings_prefix_put {heap : Heap} {s : ScopeId} {name : String} (slot : Slot)
    (hnew : heap.ownBinding? s name = none) :
    heap.bindings s <+: (heap.put s name slot).bindings s := by
  unfold ownBinding? bindings at hnew
  unfold bindings put
  rw [Array.getElem?_modify, if_pos rfl]
  cases hscope : heap.scopes[s]? with
  | none => exact List.prefix_rfl
  | some scope =>
      rw [hscope] at hnew
      have hlast : scope.bindings.put name slot = scope.bindings ++ [(name, slot)] :=
        Bindings.put_of_get?_eq_none slot hnew
      exact ⟨[(name, slot)], hlast.symm⟩

/-! ## Variables stay -/

section Variables

variable {before after : Heap} {s : ScopeId} {name : String}

theorem Extends.parent? (hextends : before.Extends after) {p : ScopeId}
    (hparent : before.parent? s = some p) : after.parent? s = some p := by
  obtain ⟨scope, hscope, hp⟩ := Option.bind_eq_some_iff.mp hparent
  obtain ⟨later, hlater, hkept⟩ := hextends.scopes s scope hscope
  exact Option.bind_eq_some_iff.mpr ⟨later, hlater, hkept.parent.trans hp⟩

theorem Extends.ownBinding? (hextends : before.Extends after)
    (hbound : (before.ownBinding? s name).isSome = true) :
    (after.ownBinding? s name).isSome = true := by
  unfold Heap.ownBinding? bindings at hbound ⊢
  cases hscope : before.scopes[s]? with
  | none =>
      rw [hscope] at hbound
      cases hbound
  | some scope =>
      rw [hscope] at hbound
      obtain ⟨later, hlater, hkept⟩ := hextends.scopes s scope hscope
      rw [hlater]
      exact Bindings.isSome_get?_iff.mpr
        (hkept.names.subset (Bindings.isSome_get?_iff.mp hbound))

theorem mem_chainFrom_self (heap : Heap) (count : Nat) (s : ScopeId) :
    s ∈ heap.chainFrom (count + 1) s := by
  rw [chainFrom]
  split <;> exact List.mem_cons_self

/-- A scope that binds the name is found again: all scopes in front of it have parents, so they are
on the heap and keep them. -/
theorem Extends.exists_mem_chainFrom (hextends : before.Extends after) {count : Nat}
    (hbound : ∃ t ∈ before.chainFrom count s, (before.ownBinding? t name).isSome = true) :
    ∃ t ∈ after.chainFrom count s, (after.ownBinding? t name).isSome = true := by
  induction count generalizing s with
  | zero =>
      obtain ⟨t, ht, _⟩ := hbound
      cases ht
  | succ count ih =>
      obtain ⟨t, ht, hown⟩ := hbound
      by_cases hself : t = s
      · subst hself
        exact ⟨t, mem_chainFrom_self _ _ _, hextends.ownBinding? hown⟩
      · rw [chainFrom] at ht
        split at ht
        next p hparent =>
          have houter := (List.mem_cons.mp ht).resolve_left hself
          obtain ⟨found, hfound, hkept⟩ := ih ⟨t, houter, hown⟩
          refine ⟨found, ?_, hkept⟩
          rw [chainFrom, hextends.parent? hparent]
          exact List.mem_cons_of_mem _ hfound
        · exact (hself (List.mem_singleton.mp ht)).elim

theorem Extends.exists_owner (hextends : before.Extends after)
    (hbound : before.resolve? s name ≠ none) : ∃ t, after.owner? s name = some t := by
  obtain ⟨slot, hslot⟩ := Option.ne_none_iff_exists'.mp hbound
  obtain ⟨t, ht, hown⟩ := List.exists_of_findSome?_eq_some hslot
  have hfound := hextends.exists_mem_chainFrom ⟨t, ht, Option.isSome_iff_exists.mpr ⟨slot, hown⟩⟩
  exact Option.isSome_iff_exists.mp (List.find?_isSome.mpr hfound)

end Variables

end Heap

theorem Eval.assignment_of_ok {evaluate : Request → Run Slot} {m evaluated : Machine}
    {name : String} {node : Node} {slot : Slot} {t : ScopeId}
    (hbound : m.heap.resolve? m.scope name ≠ none)
    (hok : evaluate (.eval node) m = .ok slot evaluated)
    (howner : evaluated.heap.owner? evaluated.scope name = some t) :
    assignment evaluate [.variable name, node] m =
      .ok slot { evaluated with heap := evaluated.heap.put t name slot } := by
  have hresolve : Run.resolve? name m = .ok (m.heap.resolve? m.scope name) m := rfl
  have hrebind : Run.rebind name slot evaluated =
      .ok true { evaluated with heap := evaluated.heap.put t name slot } := by
    rw [Run.rebind, howner]
  have hfound : ¬ (m.heap.resolve? m.scope name).isNone = true := by simpa using hbound
  rw [assignment, Run.bind_of_ok hresolve, if_neg hfound, Run.bind_of_ok hok,
    Run.bind_of_ok hrebind]
  rfl

theorem Eval.run_assignment (setup : Setup) (depth : Nat) (nodes : List Node) :
    run setup (depth + 1) (.eval (.call "set!" nodes)) = assignment (run setup depth) nodes := by
  simp [run, step, expression, form]

/-- However an operation ends, all scopes keep their parents and, in front of what is new, the names
that they bind, and all objects keep their names and their scopes.  So an assignment to a variable
that was found rebinds it as soon as the expression has a value. -/
theorem Interpreter.operate_extends (interpreter : Interpreter) (depth : Nat)
    (operation : Operation) :
    interpreter.machine.heap.Extends (interpreter.operate depth operation).2.machine.heap ∧
      ∀ name node slot evaluated,
        interpreter.machine.heap.resolve? interpreter.machine.scope name ≠ none →
        interpreter.eval depth node = (.ok slot, evaluated) →
        ∃ t, evaluated.machine.heap.owner? evaluated.machine.scope name = some t ∧
          interpreter.eval (depth + 1) (.call "set!" [.variable name, node]) =
            (.ok slot, evaluated.withHeap (evaluated.machine.heap.put t name slot)) := by
  refine ⟨(Heap.law_extends.operate interpreter trivial depth operation).2, ?_⟩
  intro name node slot evaluated hbound heval
  obtain ⟨m, hok, rfl⟩ := exists_of_perform_ok heval
  have hserves := Discipline.serves_run (Heap.law_extends.lawful interpreter.setup) depth
  have hleaves := ((hserves _ (.eval node) (Heap.Law.ready _ _)).of_ok trivial hok).1
  obtain ⟨t, howner⟩ := hleaves.grows.exists_owner hbound
  rw [← hleaves.scope] at howner
  refine ⟨t, howner, ?_⟩
  have hset := Eval.assignment_of_ok hbound hok howner
  rw [eval, perform, Eval.run_assignment, hset]
  rfl

end ProtoLisp
