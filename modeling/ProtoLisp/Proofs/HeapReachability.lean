import Mathlib.Logic.Relation
import Mathlib.Data.Set.Insert
import ProtoLisp.Proofs.HeapOperations

/-!
# Reachability on the heap

References lead from a scope to its parent and to all that its bindings refer to, from a closure to the
scope of its definition, and from an object to its own scope and its prototype.

`Heap.Confined` is what someone keeps up who works on a heap and knows only a part of it: the part
known at first and all that was made since are closed under references, and everything else is as it
was.  Every operation within that area keeps the heap confined, and every lookup stays in it.
-/

namespace ProtoLisp

/-- A scope or an object. -/
inductive Ref where
  | scope (s : ScopeId)
  | object (o : ObjectId)
  deriving DecidableEq

def Value.ref? : Value → Option Ref
  | .closure _ _ _ (some s) => some (.scope s)
  | .object o => some (.object o)
  | _ => none

def Slot.refs (slot : Slot) : Set Ref := {r | ∃ v, slot = some v ∧ v.ref? = some r}

def Slot.refsOfAll (slots : List Slot) : Set Ref := {r | ∃ slot ∈ slots, r ∈ Slot.refs slot}

theorem Slot.mem_refs {v : Value} {r : Ref} : r ∈ Slot.refs (some v) ↔ v.ref? = some r := by
  simp [Slot.refs]

@[simp]
theorem Slot.refs_object_subset {o : ObjectId} {area : Set Ref} :
    Slot.refs (some (.object o)) ⊆ area ↔ .object o ∈ area := by
  simp [Set.subset_def, Slot.mem_refs, Value.ref?]

@[simp]
theorem Slot.refs_closure_subset {name : String} {params : List String} {body : Node}
    {scope : Option ScopeId} {area : Set Ref} :
    Slot.refs (some (.closure name params body scope)) ⊆ area ↔
      ∀ s, scope = some s → .scope s ∈ area := by
  cases scope <;> simp [Set.subset_def, Slot.mem_refs, Value.ref?]

theorem Slot.refs_primitive_subset {v : Value} (hv : v.isPrimitive = true) (area : Set Ref) :
    Slot.refs (some v) ⊆ area := by
  intro r hr
  rw [Slot.mem_refs] at hr
  cases v with
  | closure name params body scope => cases hv
  | object o => cases hv
  | _ => cases hr

theorem Slot.refsOfAll_subset {slots : List Slot} {area : Set Ref} :
    Slot.refsOfAll slots ⊆ area ↔ ∀ slot ∈ slots, Slot.refs slot ⊆ area := by
  constructor
  · intro hall slot hslot r hr
    exact hall ⟨slot, hslot, hr⟩
  · rintro hall r ⟨slot, hslot, hr⟩
    exact hall slot hslot hr

namespace Heap

def Holds (heap : Heap) : Ref → Prop
  | .scope s => s < heap.scopes.size
  | .object o => o < heap.objects.size

/-- A reference that can be followed. -/
inductive Link (heap : Heap) : Ref → Ref → Prop where
  | parent {s p : ScopeId} : heap.parent? s = some p → Link heap (.scope s) (.scope p)
  | binding {s : ScopeId} {name : String} {slot : Slot} {r : Ref} :
    (name, slot) ∈ heap.bindings s → r ∈ Slot.refs slot → Link heap (.scope s) r
  | own {o : ObjectId} {object : Object} :
    heap.objects[o]? = some object → Link heap (.object o) (.scope object.scope)
  | proto {o p : ObjectId} : heap.proto? o = some p → Link heap (.object o) (.object p)

/-- All that can be reached from `roots`. -/
def reach (heap : Heap) (roots : Set Ref) : Set Ref :=
  {r | ∃ root ∈ roots, Relation.ReflTransGen heap.Link root r}

/-- What has been made between `before` and `after`. -/
def fresh (before after : Heap) : Set Ref := {r | after.Holds r ∧ ¬ before.Holds r}

theorem subset_reach (heap : Heap) (roots : Set Ref) : roots ⊆ heap.reach roots :=
  fun root hroot => ⟨root, hroot, .refl⟩

theorem reach_closed {heap : Heap} {roots : Set Ref} {r target : Ref} (hr : r ∈ heap.reach roots)
    (hlink : heap.Link r target) : target ∈ heap.reach roots := by
  obtain ⟨root, hroot, hpath⟩ := hr
  exact ⟨root, hroot, hpath.tail hlink⟩

/-- A closed set that holds the roots holds all that can be reached. -/
theorem reach_subset {heap : Heap} {roots closed : Set Ref} (hroots : roots ⊆ closed)
    (hclosed : ∀ r target, r ∈ closed → heap.Link r target → target ∈ closed) :
    heap.reach roots ⊆ closed := by
  rintro r ⟨root, hroot, hpath⟩
  induction hpath with
  | refl => exact hroots hroot
  | tail _ hlink ih => exact hclosed _ _ ih hlink

/-- Nothing has gone from the heap. -/
structure Includes (after before : Heap) : Prop where
  scopes : before.scopes.size ≤ after.scopes.size
  objects : before.objects.size ≤ after.objects.size

theorem Includes.refl (heap : Heap) : heap.Includes heap := ⟨le_rfl, le_rfl⟩

theorem Includes.trans {first second third : Heap} (hsecond : second.Includes first)
    (hthird : third.Includes second) : third.Includes first :=
  ⟨hsecond.scopes.trans hthird.scopes, hsecond.objects.trans hthird.objects⟩

theorem Includes.holds {before after : Heap} (hincludes : after.Includes before) {r : Ref}
    (hr : before.Holds r) : after.Holds r := by
  cases r with
  | scope s => exact lt_of_lt_of_le hr hincludes.scopes
  | object o => exact lt_of_lt_of_le hr hincludes.objects

/-! ## The area of an evaluation -/

/-- The scopes and objects with which an evaluation may work on `heap`, if it found `before` and knew
of `known` then. -/
def area (before : Heap) (known : Set Ref) (heap : Heap) : Set Ref := known ∪ before.fresh heap

theorem area_mono {before heap heap' : Heap} {known : Set Ref} (hincludes : heap'.Includes heap) :
    before.area known heap ⊆ before.area known heap' :=
  Set.union_subset_union_right known fun _ hr => ⟨hincludes.holds hr.1, hr.2⟩

/-- What an evaluation that found `before` keeps up: its area is closed, the rest is unchanged. -/
structure Confined (before : Heap) (known : Set Ref) (heap : Heap) : Prop where
  includes : heap.Includes before
  scope_unchanged : ∀ s, before.Holds (.scope s) → .scope s ∉ known →
    heap.scopes[s]? = before.scopes[s]?
  object_unchanged : ∀ o, before.Holds (.object o) → .object o ∉ known →
    heap.objects[o]? = before.objects[o]?
  closed : ∀ {r target}, r ∈ before.area known heap → heap.Link r target →
    target ∈ before.area known heap

theorem Confined.initial (heap : Heap) (roots : Set Ref) :
    heap.Confined (heap.reach roots) heap where
  includes := .refl heap
  scope_unchanged _ _ _ := rfl
  object_unchanged _ _ _ := rfl
  closed := by
    rintro r target (hknown | ⟨hholds, hnew⟩) hlink
    · exact .inl (reach_closed hknown hlink)
    · exact (hnew hholds).elim

/-- The area is left alone by what is outside, so only links into the area have to be justified. -/
theorem Confined.change {before heap heap' : Heap} {known : Set Ref}
    (hconfined : before.Confined known heap) (hincludes : heap'.Includes heap)
    (hscope : ∀ s, before.Holds (.scope s) → .scope s ∉ known → heap'.scopes[s]? = heap.scopes[s]?)
    (hobject : ∀ o, before.Holds (.object o) → .object o ∉ known →
      heap'.objects[o]? = heap.objects[o]?)
    (hlink : ∀ {r target}, r ∈ before.area known heap' → heap'.Link r target →
      target ∈ before.area known heap' ∨ r ∈ before.area known heap ∧ heap.Link r target) :
    before.Confined known heap' where
  includes := hconfined.includes.trans hincludes
  scope_unchanged s hs hout := (hscope s hs hout).trans (hconfined.scope_unchanged s hs hout)
  object_unchanged o ho hout := (hobject o ho hout).trans (hconfined.object_unchanged o ho hout)
  closed := by
    intro r target hr htarget
    rcases hlink hr htarget with hnew | ⟨hold, hlinked⟩
    · exact hnew
    · exact area_mono hincludes (hconfined.closed hold hlinked)

/-! ### Changes within the area -/

section Changes

variable {before heap : Heap} {known : Set Ref}

theorem Confined.put (hconfined : before.Confined known heap) {s : ScopeId} {name : String}
    {slot : Slot} (hs : .scope s ∈ before.area known heap)
    (hslot : Slot.refs slot ⊆ before.area known heap) :
    before.Confined known (heap.put s name slot) := by
  have hincludes : (heap.put s name slot).Includes heap := by
    constructor <;> simp [Heap.put]
  have harea : before.area known (heap.put s name slot) ⊆ before.area known heap := by
    apply area_mono
    constructor <;> simp [Heap.put]
  apply hconfined.change hincludes
  · intro t ht hout
    apply getElem?_scopes_put
    rintro rfl
    rcases hs with hknown | hfresh
    · exact hout hknown
    · exact hfresh.2 ht
  · intro o _ _
    rfl
  · intro r target hr hlink
    have hold := harea hr
    cases hlink with
    | parent hparent => exact .inr ⟨hold, .parent (by simpa using hparent)⟩
    | binding hmem hrefs =>
        rcases mem_bindings_put hmem with hmem | rfl
        · exact .inr ⟨hold, .binding hmem hrefs⟩
        · exact .inl (area_mono hincludes (hslot hrefs))
    | own hobject => exact .inr ⟨hold, .own hobject⟩
    | proto hproto => exact .inr ⟨hold, .proto hproto⟩

theorem includes_addScope (parent : Option ScopeId) : (heap.addScope parent).Includes heap := by
  constructor <;> simp [Heap.addScope]

theorem mem_area_nextScope (hconfined : before.Confined known heap) {heap' : Heap}
    (hholds : heap'.Holds (.scope heap.nextScope)) :
    .scope heap.nextScope ∈ before.area known heap' :=
  .inr ⟨hholds, not_lt.mpr hconfined.includes.scopes⟩

theorem Confined.addScope (hconfined : before.Confined known heap) {parent : Option ScopeId}
    (hparent : ∀ p, parent = some p → .scope p ∈ before.area known heap) :
    before.Confined known (heap.addScope parent) := by
  have hincludes : (heap.addScope parent).Includes heap := includes_addScope parent
  -- Apart from the new scope, which is empty, the area is the same.
  have harea : ∀ r ∈ before.area known (heap.addScope parent), r ≠ .scope heap.nextScope →
      r ∈ before.area known heap := by
    rintro (s | o) (hknown | ⟨hholds, hnew⟩) hne
    · exact .inl hknown
    · refine .inr ⟨?_, hnew⟩
      have hlt : s < heap.scopes.size + 1 := by simpa [Holds, Heap.addScope] using hholds
      have hs : s ≠ heap.scopes.size := fun h => hne (h ▸ rfl)
      exact lt_of_le_of_ne (Nat.lt_succ_iff.mp hlt) hs
    · exact .inl hknown
    · exact .inr ⟨hholds, hnew⟩
  apply hconfined.change hincludes
  · intro s hs _
    exact getElem?_scopes_addScope (hconfined.includes.holds hs)
  · intro o _ _
    rfl
  · intro r target hr hlink
    cases hlink with
    | @parent s p hp =>
        rw [parent?_addScope] at hp
        split at hp
        · exact .inl (area_mono hincludes (hparent p hp))
        next hne => exact .inr ⟨harea _ hr (by simpa using hne), .parent hp⟩
    | @binding s name slot target hmem hrefs =>
        rw [bindings_addScope] at hmem
        by_cases hne : s = heap.nextScope
        · subst hne
          simp [bindings, nextScope] at hmem
        · exact .inr ⟨harea _ hr (by simpa using hne), .binding hmem hrefs⟩
    | own hobject => exact .inr ⟨harea _ hr (by simp), .own hobject⟩
    | proto hproto => exact .inr ⟨harea _ hr (by simp), .proto hproto⟩

theorem Confined.linkPrototype (hconfined : before.Confined known heap) {o proto : ObjectId}
    (ho : .object o ∈ before.area known heap) (hproto : .object proto ∈ before.area known heap) :
    before.Confined known (heap.linkPrototype o (some proto)) := by
  have hincludes : (heap.linkPrototype o (some proto)).Includes heap := by
    constructor <;> simp [Heap.linkPrototype]
  have harea : before.area known (heap.linkPrototype o (some proto)) ⊆
      before.area known heap := by
    apply area_mono
    constructor <;> simp [Heap.linkPrototype]
  apply hconfined.change hincludes
  · intro s _ _
    rfl
  · intro x hx hout
    apply getElem?_objects_linkPrototype
    rintro rfl
    rcases ho with hknown | hfresh
    · exact hout hknown
    · exact hfresh.2 hx
  · intro r target hr hlink
    have hold := harea hr
    cases hlink with
    | parent hparent => exact .inr ⟨hold, .parent hparent⟩
    | binding hmem hrefs => exact .inr ⟨hold, .binding hmem hrefs⟩
    | own hobject =>
        obtain ⟨old, hold', hscope⟩ := scope_of_linkPrototype hobject
        exact .inr ⟨hold, hscope ▸ .own hold'⟩
    | proto hlinked =>
        rcases proto?_linkPrototype hlinked with hold' | hnew
        · exact .inr ⟨hold, .proto hold'⟩
        · cases hnew
          exact .inl (area_mono hincludes hproto)

theorem Confined.addObject (hconfined : before.Confined known heap) {name : String} {s : ScopeId}
    (hs : .scope s ∈ before.area known heap) :
    before.Confined known (heap.addObject name (some s)) := by
  -- The scope of the object comes first; then the object, which refers to that scope only.
  have hscope : before.Confined known (heap.addScope (some s)) := by
    apply hconfined.addScope
    intro p hp
    cases hp
    exact hs
  have hincludes : (heap.addObject name (some s)).Includes (heap.addScope (some s)) := by
    constructor <;> simp [Heap.addObject]
  have hown : .scope heap.nextScope ∈ before.area known (heap.addObject name (some s)) := by
    apply mem_area_nextScope hconfined
    simp [Holds, Heap.addObject, Heap.addScope, nextScope]
  have harea : ∀ r ∈ before.area known (heap.addObject name (some s)),
      r ≠ .object heap.nextObject → r ∈ before.area known (heap.addScope (some s)) := by
    rintro (t | o) (hknown | ⟨hholds, hnew⟩) hne
    · exact .inl hknown
    · exact .inr ⟨hholds, hnew⟩
    · exact .inl hknown
    · refine .inr ⟨?_, hnew⟩
      have hlt : o < heap.objects.size + 1 := by
        simpa [Holds, Heap.addObject, Heap.addScope] using hholds
      have ho : o ≠ heap.objects.size := fun h => hne (h ▸ rfl)
      exact lt_of_le_of_ne (Nat.lt_succ_iff.mp hlt) ho
  apply hscope.change hincludes
  · intro t _ _
    rfl
  · intro o ho _
    exact (Array.getElem?_push_lt (hconfined.includes.holds ho)).trans
      (Array.getElem?_eq_getElem (hconfined.includes.holds ho)).symm
  · intro r target hr hlink
    cases hlink with
    | parent hparent => exact .inr ⟨harea _ hr (by simp), .parent hparent⟩
    | binding hmem hrefs => exact .inr ⟨harea _ hr (by simp), .binding hmem hrefs⟩
    | @own o object hobject =>
        rcases getElem?_objects_addObject hobject with ⟨-, rfl⟩ | hold
        · exact .inl hown
        · have hne : o ≠ heap.nextObject := by
            rintro rfl
            simp [nextObject] at hold
          exact .inr ⟨harea _ hr (by simpa using hne), .own hold⟩
    | @proto o p hproto =>
        obtain ⟨object, hobject, hlinked⟩ := Option.bind_eq_some_iff.mp hproto
        rcases getElem?_objects_addObject hobject with ⟨-, rfl⟩ | hold
        · cases hlinked
        · have hne : o ≠ heap.nextObject := by
            rintro rfl
            simp [nextObject] at hold
          exact .inr ⟨harea _ hr (by simpa using hne),
            .proto (Option.bind_eq_some_iff.mpr ⟨object, hold, hlinked⟩)⟩

theorem Confined.setField (hconfined : before.Confined known heap) {o : ObjectId} {name : String}
    {slot : Slot} (ho : .object o ∈ before.area known heap)
    (hslot : Slot.refs slot ⊆ before.area known heap) :
    before.Confined known (heap.setField o name slot) := by
  unfold Heap.setField putOwn
  split
  next object hobject => exact hconfined.put (hconfined.closed ho (.own hobject)) hslot
  · exact hconfined

theorem includes_setField (o : ObjectId) (name : String) (slot : Slot) :
    (heap.setField o name slot).Includes heap := by
  unfold Heap.setField putOwn
  split
  · constructor <;> simp [Heap.put]
  · exact .refl heap

/-! ### Lookups within the area -/

theorem Confined.chain (hconfined : before.Confined known heap) {s : ScopeId}
    (hs : .scope s ∈ before.area known heap) :
    ∀ t ∈ heap.chain s, .scope t ∈ before.area known heap :=
  forall_mem_chain (fun _ _ hs hparent => hconfined.closed hs (.parent hparent)) hs

theorem Confined.resolved (hconfined : before.Confined known heap) {s : ScopeId} {name : String}
    {slot : Slot} (hs : .scope s ∈ before.area known heap)
    (hresolve : heap.resolve? s name = some slot) : Slot.refs slot ⊆ before.area known heap := by
  obtain ⟨t, ht, hmem⟩ := exists_of_resolve? hresolve
  intro r hr
  exact hconfined.closed (hconfined.chain hs t ht) (.binding hmem hr)

theorem Confined.attribute (hconfined : before.Confined known heap) {o : ObjectId} {key : String}
    {slot : Slot} (ho : .object o ∈ before.area known heap)
    (hattribute : heap.attribute? o key = some slot) :
    Slot.refs slot ⊆ before.area known heap := by
  obtain ⟨x, hx, object, name, hobject, hmem⟩ := exists_of_attribute? hattribute
  have hlineage : .object x ∈ before.area known heap :=
    forall_mem_lineage (fun _ _ ho hproto => hconfined.closed ho (.proto hproto)) ho x hx
  intro r hr
  exact hconfined.closed (hconfined.closed hlineage (.own hobject)) (.binding hmem hr)

end Changes

end Heap

end ProtoLisp
