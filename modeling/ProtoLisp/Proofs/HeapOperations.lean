import ProtoLisp.Heap.Basic

/-!
# Operations on the heap

How each operation changes what can be observed of a heap: the parents and the bindings of its scopes,
and its objects.  Lookups go along the parents of a scope or the prototypes of an object, so what is
passed on from each to the next holds of all that they visit.
-/

namespace ProtoLisp

namespace Bindings

theorem mem_of_get? {bindings : Bindings} {name : String} {slot : Slot}
    (hget : bindings.get? name = some slot) : (name, slot) ∈ bindings := by
  obtain ⟨before, after, rfl, -⟩ := List.lookup_eq_some_iff.mp hget
  simp

theorem mem_put {bindings : Bindings} {name other : String} {slot value : Slot}
    (hmem : (other, value) ∈ bindings.put name slot) :
    (other, value) ∈ bindings ∨ value = slot := by
  induction bindings with
  | nil =>
      rw [put, List.mem_singleton] at hmem
      cases hmem
      exact .inr rfl
  | cons binding bindings ih =>
      obtain ⟨first, old⟩ := binding
      rw [put] at hmem
      split at hmem
      · rcases List.mem_cons.mp hmem with heq | hrest
        · cases heq
          exact .inr rfl
        · exact .inl (List.mem_cons_of_mem _ hrest)
      · rcases List.mem_cons.mp hmem with heq | hrest
        · exact .inl (heq ▸ List.mem_cons_self)
        · exact (ih hrest).imp_left (List.mem_cons_of_mem _)

theorem get?_cons (first other : String) (slot : Slot) (bindings : Bindings) :
    get? ((first, slot) :: bindings) other =
      if other = first then some slot else bindings.get? other := by
  rw [get?, List.lookup_cons]
  by_cases hother : other = first
  · simp [hother]
  · have hbeq : (other == first) = false := by simpa using hother
    rw [hbeq, if_neg hother]
    rfl

theorem get?_put (bindings : Bindings) (name other : String) (slot : Slot) :
    (bindings.put name slot).get? other =
      if other = name then some slot else bindings.get? other := by
  induction bindings with
  | nil => exact get?_cons name other slot []
  | cons binding bindings ih =>
      obtain ⟨first, old⟩ := binding
      rw [put]
      by_cases hfirst : first = name
      · rw [if_pos hfirst, get?_cons, get?_cons, hfirst]
        by_cases hother : other = name <;> simp [hother]
      · rw [if_neg hfirst, get?_cons, get?_cons, ih]
        by_cases hother : other = first <;> simp [hother, hfirst]

end Bindings

namespace Heap

variable {heap : Heap}

/-! ### Scopes -/

@[simp]
theorem bindings_addScope (parent : Option ScopeId) (s : ScopeId) :
    (heap.addScope parent).bindings s = heap.bindings s := by
  unfold bindings addScope
  rw [Array.getElem?_push]
  split
  next hs =>
    subst hs
    simp
  · rfl

theorem parent?_addScope (parent : Option ScopeId) (s : ScopeId) :
    (heap.addScope parent).parent? s = if s = heap.nextScope then parent else heap.parent? s := by
  unfold parent? addScope nextScope
  rw [Array.getElem?_push]
  split <;> rfl

theorem getElem?_scopes_addScope {parent : Option ScopeId} {s : ScopeId}
    (hs : s < heap.scopes.size) : (heap.addScope parent).scopes[s]? = heap.scopes[s]? :=
  Array.getElem?_push_lt hs ▸ (Array.getElem?_eq_getElem hs).symm

theorem getElem?_scopes_put {s t : ScopeId} {name : String} {slot : Slot} (hne : s ≠ t) :
    (heap.put s name slot).scopes[t]? = heap.scopes[t]? := by
  unfold put
  rw [Array.getElem?_modify, if_neg hne]

@[simp]
theorem parent?_put (s t : ScopeId) (name : String) (slot : Slot) :
    (heap.put s name slot).parent? t = heap.parent? t := by
  unfold parent? put
  rw [Array.getElem?_modify]
  split
  · cases heap.scopes[t]? <;> rfl
  · rfl

theorem bindings_put_self {s : ScopeId} (hs : s < heap.scopes.size) (name : String) (slot : Slot) :
    (heap.put s name slot).bindings s = (heap.bindings s).put name slot := by
  unfold bindings put
  rw [Array.getElem?_modify, if_pos rfl, Array.getElem?_eq_getElem hs]
  rfl

theorem mem_bindings_put {s t : ScopeId} {name other : String} {slot value : Slot}
    (hmem : (other, value) ∈ (heap.put s name slot).bindings t) :
    (other, value) ∈ heap.bindings t ∨ value = slot := by
  by_cases hne : s = t
  · subst hne
    unfold bindings put at hmem
    rw [Array.getElem?_modify, if_pos rfl] at hmem
    unfold bindings
    cases hscope : heap.scopes[s]? with
    | none =>
        rw [hscope] at hmem
        exact .inl hmem
    | some scope =>
        rw [hscope] at hmem
        exact Bindings.mem_put hmem
  · left
    unfold bindings at hmem ⊢
    rwa [getElem?_scopes_put hne] at hmem

theorem ownBinding?_put {s : ScopeId} (hs : s < heap.scopes.size) (t : ScopeId)
    (name other : String) (slot : Slot) :
    (heap.put s name slot).ownBinding? t other =
      if t = s ∧ other = name then some slot else heap.ownBinding? t other := by
  unfold ownBinding? bindings
  by_cases hts : t = s
  · subst hts
    rw [put, Array.getElem?_modify, if_pos rfl, Array.getElem?_eq_getElem hs]
    simpa using Bindings.get?_put _ name other slot
  · rw [getElem?_scopes_put (Ne.symm hts), if_neg fun hsame => hts hsame.1]

/-! ### Objects -/

theorem getElem?_objects_linkPrototype {o x : ObjectId} {proto : Option ObjectId} (hne : o ≠ x) :
    (heap.linkPrototype o proto).objects[x]? = heap.objects[x]? := by
  unfold linkPrototype
  rw [Array.getElem?_modify, if_neg hne]

theorem proto?_linkPrototype {o x p : ObjectId} {proto : Option ObjectId}
    (hproto : (heap.linkPrototype o proto).proto? x = some p) :
    heap.proto? x = some p ∨ proto = some p := by
  by_cases hne : o = x
  · right
    unfold proto? linkPrototype at hproto
    rw [Array.getElem?_modify, if_pos hne] at hproto
    cases hobject : heap.objects[x]? with
    | none =>
        rw [hobject] at hproto
        cases hproto
    | some object =>
        rw [hobject] at hproto
        exact hproto
  · left
    unfold proto? at hproto ⊢
    rwa [getElem?_objects_linkPrototype hne] at hproto

theorem scope_of_linkPrototype {o x : ObjectId} {proto : Option ObjectId} {object : Object}
    (hobject : (heap.linkPrototype o proto).objects[x]? = some object) :
    ∃ old, heap.objects[x]? = some old ∧ old.scope = object.scope := by
  by_cases hne : o = x
  · unfold linkPrototype at hobject
    rw [Array.getElem?_modify, if_pos hne] at hobject
    obtain ⟨old, hold, hchanged⟩ := Option.map_eq_some_iff.mp hobject
    exact ⟨old, hold, hchanged ▸ rfl⟩
  · rw [getElem?_objects_linkPrototype hne] at hobject
    exact ⟨object, hobject, rfl⟩

/-- An object of a heap to which one has been added is that one or was there before. -/
theorem getElem?_objects_addObject {name : String} {parent : Option ScopeId} {x : ObjectId}
    {object : Object} (hobject : (heap.addObject name parent).objects[x]? = some object) :
    x = heap.nextObject ∧ object = ⟨name, heap.nextScope, none⟩ ∨
      heap.objects[x]? = some object := by
  unfold addObject at hobject
  rw [Array.getElem?_push] at hobject
  split at hobject
  next hx =>
    cases hobject
    exact .inl ⟨hx, rfl⟩
  · exact .inr hobject

/-! ### Lookups -/

theorem findSome?_congr {α β : Type} {xs : List α} {find find' : α → Option β}
    (hfind : ∀ x ∈ xs, find x = find' x) : xs.findSome? find = xs.findSome? find' := by
  induction xs with
  | nil => rfl
  | cons x xs ih =>
      rw [List.findSome?_cons, List.findSome?_cons, hfind x List.mem_cons_self,
        ih fun y hy => hfind y (List.mem_cons_of_mem x hy)]

/-- What every scope passes on to its parent holds of all scopes that are visible. -/
theorem forall_mem_chain {P : ScopeId → Prop}
    (hparent : ∀ s p, P s → heap.parent? s = some p → P p) {s : ScopeId} (hs : P s) :
    ∀ t ∈ heap.chain s, P t := by
  suffices hfrom : ∀ count s, P s → ∀ t ∈ heap.chainFrom count s, P t from hfrom (s + 1) s hs
  intro count
  induction count with
  | zero =>
      intro s _ t ht
      cases ht
  | succ count ih =>
      intro s hs t ht
      rw [chainFrom] at ht
      split at ht
      next p hp =>
        rcases List.mem_cons.mp ht with rfl | ht
        · exact hs
        · exact ih p (hparent s p hs hp) t ht
      · rw [List.mem_singleton.mp ht]
        exact hs

/-- What every object passes on to its prototype holds of its whole lineage. -/
theorem forall_mem_lineage {P : ObjectId → Prop}
    (hproto : ∀ o p, P o → heap.proto? o = some p → P p) {o : ObjectId} (ho : P o) :
    ∀ x ∈ heap.lineage o, P x := by
  suffices hfrom : ∀ count o, P o → ∀ x ∈ heap.lineageFrom count o, P x from
    hfrom (heap.objects.size + 1) o ho
  intro count
  induction count with
  | zero =>
      intro o _ x hx
      cases hx
  | succ count ih =>
      intro o ho x hx
      rw [lineageFrom] at hx
      split at hx
      next p hp =>
        rcases List.mem_cons.mp hx with rfl | hx
        · exact ho
        · exact ih p (hproto o p ho hp) x hx
      · rw [List.mem_singleton.mp hx]
        exact ho

theorem exists_of_resolve? {s : ScopeId} {name : String} {slot : Slot}
    (hresolve : heap.resolve? s name = some slot) :
    ∃ t ∈ heap.chain s, (name, slot) ∈ heap.bindings t := by
  obtain ⟨t, ht, hown⟩ := List.exists_of_findSome?_eq_some hresolve
  exact ⟨t, ht, Bindings.mem_of_get? hown⟩

theorem mem_chain_of_owner? {s t : ScopeId} {name : String}
    (howner : heap.owner? s name = some t) : t ∈ heap.chain s :=
  List.mem_of_find?_eq_some howner

theorem exists_of_ownAttribute? {o : ObjectId} {name : String} {slot : Slot}
    (hown : heap.ownAttribute? o name = some slot) :
    ∃ object, heap.objects[o]? = some object ∧ (name, slot) ∈ heap.bindings object.scope := by
  obtain ⟨object, hobject, hbinding⟩ := Option.bind_eq_some_iff.mp hown
  exact ⟨object, hobject, Bindings.mem_of_get? hbinding⟩

theorem exists_of_attribute? {o : ObjectId} {key : String} {slot : Slot}
    (hattribute : heap.attribute? o key = some slot) :
    ∃ x ∈ heap.lineage o, ∃ object name, heap.objects[x]? = some object ∧
      (name, slot) ∈ heap.bindings object.scope := by
  obtain ⟨x, hx, hfound⟩ := List.exists_of_findSome?_eq_some hattribute
  rcases Option.or_eq_some_iff.mp hfound with hdotted | ⟨-, hplain⟩
  · obtain ⟨object, hobject, hbinding⟩ := exists_of_ownAttribute? hdotted
    exact ⟨x, hx, object, _, hobject, hbinding⟩
  · obtain ⟨object, hobject, hbinding⟩ := exists_of_ownAttribute? hplain
    exact ⟨x, hx, object, _, hobject, hbinding⟩

end Heap

end ProtoLisp
