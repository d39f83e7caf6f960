import ProtoLisp.Proofs.HeapGrowth

/-!
# Own scopes of objects

The scope in which an object keeps its fields is made together with the object.  So no two objects
share one, and a scope that was made for a block or for a call never becomes the own scope of an
object later on.
-/

namespace ProtoLisp.Heap

/-- The scope `s` is the own scope of an object. -/
def Owned (heap : Heap) (s : ScopeId) : Prop :=
  ∃ (o : ObjectId) (object : Object), heap.objects[o]? = some object ∧ object.scope = s

/-- The scopes of the objects are on the heap, and each object has one of its own. -/
structure Apart (heap : Heap) : Prop where
  held : ∀ (o : ObjectId) (object : Object), heap.objects[o]? = some object →
    object.scope < heap.scopes.size
  distinct : ∀ (o o' : ObjectId) (object object' : Object), heap.objects[o]? = some object →
    heap.objects[o']? = some object' → object.scope = object'.scope → o = o'

/-- The scopes that were there before have no owners but those that they had. -/
structure KeepsOwners (before after : Heap) : Prop where
  size : before.scopes.size ≤ after.scopes.size
  owner : ∀ (o : ObjectId) (object : Object), after.objects[o]? = some object →
    object.scope < before.scopes.size →
    ∃ old, before.objects[o]? = some old ∧ old.scope = object.scope

theorem KeepsOwners.refl (heap : Heap) : heap.KeepsOwners heap :=
  ⟨Nat.le_refl _, fun _ object hobject _ => ⟨object, hobject, rfl⟩⟩

theorem KeepsOwners.trans {first second third : Heap} (hfirst : first.KeepsOwners second)
    (hsecond : second.KeepsOwners third) : first.KeepsOwners third where
  size := Nat.le_trans hfirst.size hsecond.size
  owner := by
    intro o object hobject hold
    obtain ⟨middle, hmiddle, hscope⟩ :=
      hsecond.owner o object hobject (Nat.lt_of_lt_of_le hold hfirst.size)
    obtain ⟨old, hfound, hscope'⟩ := hfirst.owner o middle hmiddle (hscope ▸ hold)
    exact ⟨old, hfound, hscope'.trans hscope⟩

theorem KeepsOwners.owned {before after : Heap} (hkeeps : before.KeepsOwners after) {s : ScopeId}
    (hs : s < before.scopes.size) (howned : after.Owned s) : before.Owned s := by
  obtain ⟨o, object, hobject, hscope⟩ := howned
  obtain ⟨old, hold, hsame⟩ := hkeeps.owner o object hobject (hscope ▸ hs)
  exact ⟨o, old, hold, hsame.trans hscope⟩

/-- A change that gives no object another scope and makes no object. -/
theorem KeepsOwners.of_objects {before after : Heap}
    (hsize : before.scopes.size ≤ after.scopes.size)
    (hobjects : ∀ (o : ObjectId) (object : Object), after.objects[o]? = some object →
      ∃ old, before.objects[o]? = some old ∧ old.scope = object.scope) :
    before.KeepsOwners after :=
  ⟨hsize, fun o object hobject _ => hobjects o object hobject⟩

theorem Apart.of_objects {before after : Heap} (hapart : before.Apart)
    (hsize : before.scopes.size ≤ after.scopes.size)
    (hobjects : ∀ (o : ObjectId) (object : Object), after.objects[o]? = some object →
      ∃ old, before.objects[o]? = some old ∧ old.scope = object.scope) : after.Apart where
  held := by
    intro o object hobject
    obtain ⟨old, hold, hscope⟩ := hobjects o object hobject
    rw [← hscope]
    exact Nat.lt_of_lt_of_le (hapart.held o old hold) hsize
  distinct := by
    intro o o' object object' hobject hobject' hshared
    obtain ⟨old, hold, hscope⟩ := hobjects o object hobject
    obtain ⟨old', hold', hscope'⟩ := hobjects o' object' hobject'
    exact hapart.distinct o o' old old' hold hold' (hscope.trans (hshared.trans hscope'.symm))

theorem KeepsOwners.addObject (heap : Heap) (name : String) (parent : Option ScopeId) :
    heap.KeepsOwners (heap.addObject name parent) where
  size := by simp [Heap.addObject, Heap.addScope]
  owner := by
    intro o object hobject hold
    rcases getElem?_objects_addObject hobject with ⟨-, rfl⟩ | hfound
    · exact absurd hold (Nat.lt_irrefl _)
    · exact ⟨object, hfound, rfl⟩

theorem Apart.addObject {heap : Heap} (hapart : heap.Apart) (name : String)
    (parent : Option ScopeId) : (heap.addObject name parent).Apart where
  held := by
    intro o object hobject
    have hsize : (heap.addObject name parent).scopes.size = heap.scopes.size + 1 := by
      simp [Heap.addObject, Heap.addScope]
    rw [hsize]
    rcases getElem?_objects_addObject hobject with ⟨-, rfl⟩ | hfound
    · exact Nat.lt_succ_self _
    · exact Nat.lt_succ_of_lt (hapart.held o object hfound)
  distinct := by
    intro o o' object object' hobject hobject' hshared
    -- The scope of the new object is new as well, and the old objects have old scopes.
    rcases getElem?_objects_addObject hobject with ⟨ho, rfl⟩ | hfound
    · rcases getElem?_objects_addObject hobject' with ⟨ho', rfl⟩ | hfound'
      · exact ho.trans ho'.symm
      · have hlt := hapart.held o' object' hfound'
        exact absurd (hshared ▸ hlt) (Nat.lt_irrefl _)
    · rcases getElem?_objects_addObject hobject' with ⟨ho', rfl⟩ | hfound'
      · have hlt := hapart.held o object hfound
        exact absurd (hshared ▸ hlt) (Nat.lt_irrefl _)
      · exact hapart.distinct o o' object object' hfound hfound' hshared

theorem law_keepsOwners : Law (fun _ => True) KeepsOwners where
  refl := KeepsOwners.refl
  trans := KeepsOwners.trans
  addScope parent _ :=
    ⟨trivial, .of_objects (by simp [Heap.addScope]) fun _ object hobject => ⟨object, hobject, rfl⟩⟩
  addObject name parent _ := ⟨trivial, .addObject _ name parent⟩
  put s name slot _ :=
    ⟨trivial, .of_objects (by simp [Heap.put]) fun _ object hobject => ⟨object, hobject, rfl⟩⟩
  linkPrototype o proto _ _ :=
    ⟨trivial, .of_objects (Nat.le_refl _) fun _ _ hobject => scope_of_linkPrototype hobject⟩

theorem law_apart : Law Apart fun _ _ => True where
  refl _ := trivial
  trans _ _ := trivial
  addScope parent hapart :=
    ⟨hapart.of_objects (by simp [Heap.addScope]) fun _ object hobject => ⟨object, hobject, rfl⟩,
      trivial⟩
  addObject name parent hapart := ⟨hapart.addObject name parent, trivial⟩
  put s name slot hapart :=
    ⟨hapart.of_objects (by simp [Heap.put]) fun _ object hobject => ⟨object, hobject, rfl⟩,
      trivial⟩
  linkPrototype o proto hapart _ :=
    ⟨hapart.of_objects (Nat.le_refl _) fun _ _ hobject => scope_of_linkPrototype hobject, trivial⟩

def Free (heap : Heap) (s : ScopeId) : Prop := s < heap.scopes.size ∧ ¬ heap.Owned s

theorem KeepsOwners.free {before after : Heap} (hkeeps : before.KeepsOwners after) {s : ScopeId}
    (hfree : before.Free s) : after.Free s := by
  refine ⟨Nat.lt_of_lt_of_le hfree.1 hkeeps.size, ?_⟩
  intro howned
  exact hfree.2 (hkeeps.owned hfree.1 howned)

theorem Apart.free_addScope {heap : Heap} (hapart : heap.Apart) (parent : Option ScopeId) :
    (heap.addScope parent).Free heap.nextScope := by
  refine ⟨by simp [Heap.addScope, Heap.nextScope], ?_⟩
  rintro ⟨o, object, hobject, hscope⟩
  have hheld := hapart.held o object hobject
  rw [hscope] at hheld
  exact absurd hheld (Nat.lt_irrefl _)

theorem law_free (s : ScopeId) : Law (fun heap => heap.Free s) fun _ _ => True where
  refl _ := trivial
  trans _ _ := trivial
  addScope parent hfree := ⟨(law_keepsOwners.addScope parent trivial).2.free hfree, trivial⟩
  addObject name parent hfree :=
    ⟨(law_keepsOwners.addObject name parent trivial).2.free hfree, trivial⟩
  put t name slot hfree := ⟨(law_keepsOwners.put t name slot trivial).2.free hfree, trivial⟩
  linkPrototype o proto hfree hacyclic :=
    ⟨(law_keepsOwners.linkPrototype o proto trivial hacyclic).2.free hfree, trivial⟩

theorem apart_initialHeap : Interpreter.initialHeap.Apart where
  held := by
    intro o object hobject
    match o with
    | 0 =>
        cases hobject
        decide
    | o + 1 => cases hobject
  distinct := by
    intro o o' object object' hobject hobject' _
    match o, o' with
    | 0, 0 => rfl
    | o + 1, _ => cases hobject
    | _, o' + 1 => cases hobject'

end ProtoLisp.Heap
