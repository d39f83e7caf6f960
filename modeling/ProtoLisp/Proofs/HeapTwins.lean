import Mathlib.Data.List.Find
import ProtoLisp.Heap.Text
import ProtoLisp.Proofs.HeapReachability

/-!
# Twin heaps

Two heaps are twins as far as `seen` goes if they hold the same scopes and objects there, and
equally many of them altogether.  Whoever makes the same changes to both keeps them twins.  If no
reference leads out of `seen`, whoever looks at the heaps from inside `seen` cannot tell them apart:
names mean the same, attributes are the same, and every value has the same text.
-/

namespace ProtoLisp.Heap

/-- The heaps are of the same size, and the same where `seen` reaches. -/
structure Twins (seen : Set Ref) (heap heap' : Heap) : Prop where
  scopes : heap'.scopes.size = heap.scopes.size
  objects : heap'.objects.size = heap.objects.size
  scope : ∀ s, .scope s ∈ seen → heap'.scopes[s]? = heap.scopes[s]?
  object : ∀ o, .object o ∈ seen → heap'.objects[o]? = heap.objects[o]?

/-! ## The same changes -/

namespace Twins

variable {seen : Set Ref} {heap heap' : Heap}

theorem mono (htwins : heap.Twins seen heap') {part : Set Ref} (hpart : part ⊆ seen) :
    heap.Twins part heap' :=
  ⟨htwins.scopes, htwins.objects, fun s hs => htwins.scope s (hpart hs),
    fun o ho => htwins.object o (hpart ho)⟩

/-- What is in neither heap is the same in both. -/
theorem union_missing (htwins : heap.Twins seen heap') :
    heap.Twins (seen ∪ {r | ¬ heap.Holds r}) heap' where
  scopes := htwins.scopes
  objects := htwins.objects
  scope := by
    rintro s (hs | hmissing)
    · exact htwins.scope s hs
    · have hout : heap.scopes.size ≤ s := not_lt.mp hmissing
      have hout' : heap'.scopes.size ≤ s := htwins.scopes.trans_le hout
      rw [Array.getElem?_eq_none hout, Array.getElem?_eq_none hout']
  object := by
    rintro o (ho | hmissing)
    · exact htwins.object o ho
    · have hout : heap.objects.size ≤ o := not_lt.mp hmissing
      have hout' : heap'.objects.size ≤ o := htwins.objects.trans_le hout
      rw [Array.getElem?_eq_none hout, Array.getElem?_eq_none hout']

theorem addScope (htwins : heap.Twins seen heap') (parent : Option ScopeId) :
    (heap.addScope parent).Twins seen (heap'.addScope parent) where
  scopes := by simp [Heap.addScope, htwins.scopes]
  objects := htwins.objects
  scope := by
    intro s hs
    simp only [Heap.addScope, Array.getElem?_push, htwins.scopes, htwins.scope s hs]
  object := htwins.object

theorem addObject (htwins : heap.Twins seen heap') (name : String) (parent : Option ScopeId) :
    (heap.addObject name parent).Twins seen (heap'.addObject name parent) where
  scopes := (htwins.addScope parent).scopes
  objects := by simp [Heap.addObject, Heap.addScope, htwins.objects]
  scope := (htwins.addScope parent).scope
  object := by
    intro o ho
    simp only [Heap.addObject, Heap.addScope, nextScope, Array.getElem?_push, htwins.scopes,
      htwins.objects, htwins.object o ho]

theorem put (htwins : heap.Twins seen heap') (s : ScopeId) (name : String) (slot : Slot) :
    (heap.put s name slot).Twins seen (heap'.put s name slot) where
  scopes := by simp [Heap.put, htwins.scopes]
  objects := htwins.objects
  scope := by
    intro t ht
    simp only [Heap.put, Array.getElem?_modify, htwins.scope t ht]
  object := htwins.object

theorem linkPrototype (htwins : heap.Twins seen heap') (o : ObjectId) (proto : Option ObjectId) :
    (heap.linkPrototype o proto).Twins seen (heap'.linkPrototype o proto) where
  scopes := htwins.scopes
  objects := by simp [Heap.linkPrototype, htwins.objects]
  scope := htwins.scope
  object := by
    intro x hx
    simp only [Heap.linkPrototype, Array.getElem?_modify, htwins.object x hx]

end Twins

/-! ## Lookups -/

/-- The heaps are twins as far as `area` goes, and no reference leads out of it. -/
structure Alike (area : Set Ref) (heap heap' : Heap) : Prop extends heap.Twins area heap' where
  closed : ∀ {r target}, r ∈ area → heap.Link r target → target ∈ area

namespace Alike

variable {area : Set Ref} {heap heap' : Heap}

section Scopes

variable {s : ScopeId}

theorem parent? (halike : heap.Alike area heap') (hs : .scope s ∈ area) :
    heap'.parent? s = heap.parent? s := by
  simp only [Heap.parent?, halike.scope s hs]

theorem bindings (halike : heap.Alike area heap') (hs : .scope s ∈ area) :
    heap'.bindings s = heap.bindings s := by
  simp only [Heap.bindings, halike.scope s hs]

theorem ownBinding? (halike : heap.Alike area heap') (hs : .scope s ∈ area) (name : String) :
    heap'.ownBinding? s name = heap.ownBinding? s name := by
  simp only [Heap.ownBinding?, halike.bindings hs]

theorem chain (halike : heap.Alike area heap') (hs : .scope s ∈ area) :
    heap'.chain s = heap.chain s := by
  -- Whichever scope the walk has come to, it is in the area.
  have hcount : ∀ count s, .scope s ∈ area → heap'.chainFrom count s = heap.chainFrom count s := by
    intro count
    induction count with
    | zero =>
        intro s _
        rfl
    | succ count ih =>
        intro s hs
        simp only [chainFrom, halike.parent? hs]
        cases hparent : heap.parent? s with
        | none => rfl
        | some p => exact congrArg (s :: ·) (ih p (halike.closed hs (.parent hparent)))
  exact hcount (s + 1) s hs

theorem forall_mem_chain (halike : heap.Alike area heap') (hs : .scope s ∈ area) :
    ∀ t ∈ heap.chain s, .scope t ∈ area :=
  Heap.forall_mem_chain (fun _ _ hs hparent => halike.closed hs (.parent hparent)) hs

theorem resolve? (halike : heap.Alike area heap') (hs : .scope s ∈ area) (name : String) :
    heap'.resolve? s name = heap.resolve? s name := by
  rw [Heap.resolve?, Heap.resolve?, halike.chain hs]
  apply findSome?_congr
  intro t ht
  exact halike.ownBinding? (halike.forall_mem_chain hs t ht) name

theorem owner? (halike : heap.Alike area heap') (hs : .scope s ∈ area) (name : String) :
    heap'.owner? s name = heap.owner? s name := by
  rw [Heap.owner?, Heap.owner?, halike.chain hs]
  apply List.find?_congr
  intro t ht
  rw [halike.ownBinding? (halike.forall_mem_chain hs t ht) name]

end Scopes

section Objects

variable {o : ObjectId}

theorem proto? (halike : heap.Alike area heap') (ho : .object o ∈ area) :
    heap'.proto? o = heap.proto? o := by
  simp only [Heap.proto?, halike.object o ho]

theorem objectName (halike : heap.Alike area heap') (ho : .object o ∈ area) :
    heap'.objectName o = heap.objectName o := by
  simp only [Heap.objectName, halike.object o ho]

theorem ownAttribute? (halike : heap.Alike area heap') (ho : .object o ∈ area) (name : String) :
    heap'.ownAttribute? o name = heap.ownAttribute? o name := by
  rw [Heap.ownAttribute?, Heap.ownAttribute?, halike.object o ho]
  cases hobject : heap.objects[o]? with
  | none => rfl
  | some object => exact halike.ownBinding? (halike.closed ho (.own hobject)) name

theorem lineage (halike : heap.Alike area heap') (ho : .object o ∈ area) :
    heap'.lineage o = heap.lineage o := by
  have hcount : ∀ count o, .object o ∈ area →
      heap'.lineageFrom count o = heap.lineageFrom count o := by
    intro count
    induction count with
    | zero =>
        intro o _
        rfl
    | succ count ih =>
        intro o ho
        simp only [lineageFrom, halike.proto? ho]
        cases hproto : heap.proto? o with
        | none => rfl
        | some p => exact congrArg (o :: ·) (ih p (halike.closed ho (.proto hproto)))
  rw [Heap.lineage, Heap.lineage, halike.objects]
  exact hcount _ o ho

theorem isInstance (halike : heap.Alike area heap') (ho : .object o ∈ area)
    (candidate : ObjectId) : heap'.isInstance o candidate = heap.isInstance o candidate := by
  rw [Heap.isInstance, Heap.isInstance, halike.lineage ho]

theorem attribute? (halike : heap.Alike area heap') (ho : .object o ∈ area) (key : String) :
    heap'.attribute? o key = heap.attribute? o key := by
  rw [Heap.attribute?, Heap.attribute?, halike.lineage ho]
  apply findSome?_congr
  intro p hp
  have harea : .object p ∈ area :=
    forall_mem_lineage (fun _ _ ho hproto => halike.closed ho (.proto hproto)) ho p hp
  rw [halike.ownAttribute? harea, halike.ownAttribute? harea]

theorem fields (halike : heap.Alike area heap') (ho : .object o ∈ area) :
    heap'.fields o = heap.fields o := by
  rw [Heap.fields, Heap.fields, ownBindings, ownBindings, halike.object o ho]
  cases hobject : heap.objects[o]? with
  | none => rfl
  | some object =>
      have hscope : .scope object.scope ∈ area := halike.closed ho (.own hobject)
      simp only [Option.map_some, Option.getD_some, halike.bindings hscope]

theorem refs_of_mem_fields (halike : heap.Alike area heap') (ho : .object o ∈ area)
    {field : String × Slot} (hfield : field ∈ heap.fields o) : Slot.refs field.2 ⊆ area := by
  have hown := (List.mem_filter.mp hfield).1
  rw [ownBindings] at hown
  cases hobject : heap.objects[o]? with
  | none =>
      rw [hobject] at hown
      cases hown
  | some object =>
      rw [hobject] at hown
      intro r hr
      exact halike.closed (halike.closed ho (.own hobject)) (.binding hown hr)

end Objects

/-! ### Texts -/

section Writing

variable {writeObject writeObject' : ObjectId → Pen String}

theorem writeSlot_congr {slot : Slot} (hslot : Slot.refs slot ⊆ area)
    (hwrite : ∀ o, .object o ∈ area → writeObject' o = writeObject o) :
    writeSlot writeObject' slot = writeSlot writeObject slot := by
  cases slot with
  | none => rfl
  | some v =>
      cases v with
      | object o => exact hwrite o (Slot.refs_object_subset.mp hslot)
      | _ => rfl

theorem writeFields_congr {fields : Bindings}
    (hfields : ∀ field ∈ fields, Slot.refs field.2 ⊆ area)
    (hwrite : ∀ o, .object o ∈ area → writeObject' o = writeObject o) :
    writeFields writeObject' fields = writeFields writeObject fields := by
  induction fields with
  | nil => rfl
  | cons field fields ih =>
      obtain ⟨hfield, hfields⟩ := List.forall_mem_cons.mp hfields
      rw [writeFields, writeFields, writeSlot_congr hfield hwrite, ih hfields]

end Writing

theorem writeObject (halike : heap.Alike area heap') (room : Nat) {o : ObjectId}
    (ho : .object o ∈ area) : heap'.writeObject room o = heap.writeObject room o := by
  induction room generalizing o with
  | zero => rfl
  | succ room ih =>
      have hhead : heap'.objectHead o = heap.objectHead o := by
        rw [objectHead, objectHead, halike.objectName ho]
      have hfields :
          writeFields (heap'.writeObject room) (heap.fields o) =
            writeFields (heap.writeObject room) (heap.fields o) :=
        writeFields_congr (fun field hfield => halike.refs_of_mem_fields ho hfield)
          fun p hp => ih hp
      rw [Heap.writeObject, Heap.writeObject, hhead, halike.fields ho, hfields]

theorem text (halike : heap.Alike area heap') {slot : Slot} (hslot : Slot.refs slot ⊆ area) :
    heap'.text slot = heap.text slot := by
  cases slot with
  | none => rfl
  | some v =>
      have hwrite : heap'.write (some v) = heap.write (some v) := by
        rw [Heap.write, Heap.write, halike.objects]
        exact writeSlot_congr hslot fun o ho => halike.writeObject _ ho
      rw [Heap.text, Heap.text, hwrite]

theorem exhibit (halike : heap.Alike area heap') {v : Value} (hv : Slot.refs (some v) ⊆ area) :
    heap'.exhibit v = heap.exhibit v := by
  rw [Heap.exhibit, Heap.exhibit, halike.text hv]

theorem objectLabel (halike : heap.Alike area heap') {o : ObjectId} (ho : .object o ∈ area) :
    heap'.objectLabel o = heap.objectLabel o := by
  rw [Heap.objectLabel, Heap.objectLabel, halike.objectName ho]

/-! ### Fields -/

/-- The same field is set in both heaps. -/
theorem setField (halike : heap.Alike area heap') {o : ObjectId} (ho : .object o ∈ area)
    {seen : Set Ref} (htwins : heap.Twins seen heap') (name : String) (slot : Slot) :
    (heap.setField o name slot).Twins seen (heap'.setField o name slot) := by
  have hname : heap'.fieldName o name = heap.fieldName o name := by
    rw [fieldName, fieldName, halike.ownAttribute? ho]
  rw [Heap.setField, Heap.setField, hname, putOwn, putOwn, halike.object o ho]
  cases heap.objects[o]? with
  | none => exact htwins
  | some object => exact htwins.put object.scope _ slot

end Alike

end ProtoLisp.Heap
