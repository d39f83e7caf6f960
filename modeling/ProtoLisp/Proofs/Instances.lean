import ProtoLisp.Proofs.PartOutcomes
import ProtoLisp.Proofs.PrototypeChains

/-!
# Instances

An object is an instance of every object of its lineage.  Since the prototypes of every object lead
to an end, this is a partial order, and what one object is an instance of forms a chain.

A new prototype moves an object together with all its instances: these keep the part of their
lineage up to the object, and the lineage of the new prototype takes the place of the rest.
-/

namespace ProtoLisp

namespace Heap

variable {heap : Heap} {o p x y z : ObjectId} {path front rest : List ObjectId}

/-! ## Positions in a lineage -/

namespace Lineage

theorem self_mem (hpath : heap.Lineage x path) : x ∈ path := by
  cases hpath <;> exact List.mem_cons_self

theorem head_eq {first : ObjectId} (hpath : heap.Lineage x (first :: rest)) : first = x := by
  cases hpath <;> rfl

/-- Whoever is not the last of a lineage has a prototype, with which it goes on. -/
theorem exists_proto (hpath : heap.Lineage x (x :: (front ++ y :: rest))) :
    ∃ q, heap.proto? x = some q ∧ heap.Lineage q (front ++ y :: rest) := by
  generalize hlater : front ++ y :: rest = later at hpath
  cases hpath with
  | last _ => simp at hlater
  | next hsome hlater => exact ⟨_, hsome, hlater⟩

theorem isInstance_iff (hpath : heap.Lineage x path) :
    heap.isInstance x y = true ↔ y ∈ path := by
  rw [isInstance, hpath.lineage_eq]
  simp

/-- The lineage of an object in the middle is the rest of the whole. -/
theorem from_mem (hpath : heap.Lineage x (front ++ y :: rest)) : heap.Lineage y (y :: rest) := by
  induction front generalizing x with
  | nil =>
      obtain rfl := hpath.head_eq
      exact hpath
  | cons first front ih =>
      obtain rfl := hpath.head_eq
      obtain ⟨q, -, hlater⟩ := hpath.exists_proto
      exact ih hlater

/-- In front of `o`, and `o` itself, are those that are instances of `o` in their turn. -/
theorem mem_front_iff (hpath : heap.Lineage x (front ++ o :: rest)) :
    y ∈ front ++ [o] ↔ heap.isInstance x y = true ∧ heap.isInstance y o = true := by
  have hnodup := hpath.nodup
  rw [hpath.isInstance_iff]
  constructor
  · intro hy
    rw [List.mem_append, List.mem_singleton] at hy
    rcases hy with hy | rfl
    · obtain ⟨before, between, rfl⟩ := List.append_of_mem hy
      have hwhole : heap.Lineage x (before ++ y :: (between ++ o :: rest)) := by simpa using hpath
      exact ⟨by simp, hwhole.from_mem.isInstance_iff.mpr (by simp)⟩
    · exact ⟨by simp, hpath.from_mem.isInstance_iff.mpr List.mem_cons_self⟩
  · rintro ⟨hy, hinstance⟩
    rcases List.mem_append.mp hy with hy | hy
    · exact List.mem_append_left _ hy
    rcases List.mem_cons.mp hy with rfl | hy
    · simp
    -- Behind `o` there is no way back to it.
    · obtain ⟨between, after, rfl⟩ := List.append_of_mem hy
      have hwhole : heap.Lineage x ((front ++ o :: between) ++ y :: after) := by simpa using hpath
      have hback := hwhole.from_mem.isInstance_iff.mp hinstance
      have hnone := (List.nodup_cons.mp (List.nodup_append.mp hnodup).2.1).1
      exact (hnone (List.mem_append_right _ hback)).elim

end Lineage

/-! ## The order -/

namespace Rooted

theorem isInstance_refl (hrooted : heap.Rooted) (x : ObjectId) : heap.isInstance x x = true := by
  obtain ⟨path, hpath⟩ := hrooted x
  exact hpath.isInstance_iff.mpr hpath.self_mem

theorem isInstance_trans (hrooted : heap.Rooted) (hxy : heap.isInstance x y = true)
    (hyz : heap.isInstance y z = true) : heap.isInstance x z = true := by
  obtain ⟨path, hpath⟩ := hrooted x
  obtain ⟨rest, hrest, hsuffix⟩ := hpath.exists_of_mem (hpath.isInstance_iff.mp hxy)
  exact hpath.isInstance_iff.mpr (hsuffix.subset (hrest.isInstance_iff.mp hyz))

theorem isInstance_antisymm (hrooted : heap.Rooted) (hxy : heap.isInstance x y = true)
    (hyx : heap.isInstance y x = true) : x = y := by
  obtain ⟨path, hpath⟩ := hrooted x
  obtain ⟨rest, hrest, hsuffix⟩ := hpath.exists_of_mem (hpath.isInstance_iff.mp hxy)
  obtain ⟨again, hagain, hback⟩ := hrest.exists_of_mem (hrest.isInstance_iff.mp hyx)
  obtain rfl := hpath.unique hagain
  -- Each lineage is the end of the other, so they are the same.
  obtain rfl := hsuffix.eq_of_length_le hback.length_le
  cases rest with
  | nil => cases hpath
  | cons first rest => exact hpath.head_eq.symm.trans hrest.head_eq

theorem isInstance_comparable (hrooted : heap.Rooted) (hxy : heap.isInstance x y = true)
    (hxz : heap.isInstance x z = true) :
    heap.isInstance y z = true ∨ heap.isInstance z y = true := by
  obtain ⟨path, hpath⟩ := hrooted x
  obtain ⟨resty, hy, hsuffixy⟩ := hpath.exists_of_mem (hpath.isInstance_iff.mp hxy)
  obtain ⟨restz, hz, hsuffixz⟩ := hpath.exists_of_mem (hpath.isInstance_iff.mp hxz)
  rcases List.suffix_or_suffix_of_suffix hsuffixy hsuffixz with hinside | hinside
  · exact .inr (hz.isInstance_iff.mpr (hinside.subset hy.self_mem))
  · exact .inl (hy.isInstance_iff.mpr (hinside.subset hz.self_mem))

end Rooted

/-! ## A new prototype -/

theorem proto?_linkPrototype_self (ho : o < heap.objects.size) (proto : Option ObjectId) :
    (heap.linkPrototype o proto).proto? o = proto := by
  unfold proto? linkPrototype
  rw [Array.getElem?_modify, if_pos rfl, Array.getElem?_eq_getElem ho]
  rfl

/-- The lineage of the new prototype takes the place of what was behind `o`. -/
theorem Lineage.linkPrototype_of_mem (hpath : heap.Lineage x (front ++ o :: rest))
    (ho : o < heap.objects.size) (hproto : heap.Lineage p path) (hacyclic : o ∉ path) :
    (heap.linkPrototype o (some p)).Lineage x (front ++ o :: path) := by
  have hlinked : (heap.linkPrototype o (some p)).proto? o = some p :=
    proto?_linkPrototype_self ho (some p)
  have htail : (heap.linkPrototype o (some p)).Lineage o (o :: path) :=
    .next hlinked (hproto.linkPrototype hacyclic (some p))
  induction front generalizing x with
  | nil =>
      obtain rfl := hpath.head_eq
      exact htail
  | cons first front ih =>
      obtain rfl := hpath.head_eq
      obtain ⟨q, hsome, hlater⟩ := hpath.exists_proto
      have hne : o ≠ first := by
        rintro rfl
        exact (List.nodup_cons.mp hpath.nodup).1 (by simp)
      refine .next ?_ (ih hlater)
      unfold proto?
      rw [getElem?_objects_linkPrototype hne]
      exact hsome

theorem Rooted.isInstance_linkPrototype (hrooted : heap.Rooted) (ho : o < heap.objects.size)
    (hacyclic : heap.isInstance p o = false) :
    (heap.linkPrototype o (some p)).isInstance x y = true ↔
      heap.isInstance x o = false ∧ heap.isInstance x y = true ∨
      heap.isInstance x o = true ∧ (heap.isInstance x y = true ∧ heap.isInstance y o = true ∨
        heap.isInstance p y = true) := by
  obtain ⟨path, hpath⟩ := hrooted x
  obtain ⟨above, habove⟩ := hrooted p
  have hfree := habove.not_mem_of_isInstance hacyclic
  cases hinstance : heap.isInstance x o with
  | false =>
      have hkept := hpath.linkPrototype (hpath.not_mem_of_isInstance hinstance) (some p)
      simp [hkept.isInstance_iff, hpath.isInstance_iff]
  | true =>
      obtain ⟨front, rest, rfl⟩ := List.append_of_mem (hpath.isInstance_iff.mp hinstance)
      have hmoved := hpath.linkPrototype_of_mem ho habove hfree
      rw [hmoved.isInstance_iff, ← hpath.mem_front_iff, habove.isInstance_iff]
      simp [or_assoc]

end Heap

/-- At every moment of every history, to be an instance is a partial order in which the objects above
one object are comparable.  An object gets a new prototype unless that is an instance of it, in which
case nothing changes; with the object, all its instances become instances of what is above the new
prototype, and of nothing else that is not between them and the object. -/
theorem Task.Arises.instances_ordered {host : Host} {deeds : List Deed} {task : Task}
    (harises : task.Arises host deeds) :
    let m := task.machine
    let heap := m.heap
    (∀ x, heap.isInstance x x = true) ∧
      (∀ x y z, heap.isInstance x y = true → heap.isInstance y z = true →
        heap.isInstance x z = true) ∧
      (∀ x y, heap.isInstance x y = true → heap.isInstance y x = true → x = y) ∧
      (∀ x y z, heap.isInstance x y = true → heap.isInstance x z = true →
        heap.isInstance y z = true ∨ heap.isInstance z y = true) ∧
      ∀ o p, o < heap.objects.size →
        (heap.isInstance p o = true →
          heap.setPrototype? o (some p) = none ∧ Run.setPrototype o p m = .ok false m) ∧
        (heap.isInstance p o = false → ∃ linked, heap.setPrototype? o (some p) = some linked ∧
          Run.setPrototype o p m = .ok true { m with heap := linked } ∧
          ∀ x y, linked.isInstance x y = true ↔
            heap.isInstance x o = false ∧ heap.isInstance x y = true ∨
            heap.isInstance x o = true ∧ (heap.isInstance x y = true ∧
              heap.isInstance y o = true ∨ heap.isInstance p y = true)) := by
  intro m heap
  have hrooted : heap.Rooted := Heap.law_rooted.arises Heap.rooted_initialHeap harises
  refine ⟨hrooted.isInstance_refl, fun _ _ _ => hrooted.isInstance_trans,
    fun _ _ => hrooted.isInstance_antisymm, fun _ _ _ => hrooted.isInstance_comparable, ?_⟩
  intro o p ho
  constructor
  · intro hcyclic
    exact ⟨if_pos hcyclic, if_pos hcyclic⟩
  · intro hacyclic
    have hnot : ¬ heap.isInstance p o = true := by simp [hacyclic]
    exact ⟨heap.linkPrototype o (some p), if_neg hnot, if_neg hnot,
      fun x y => hrooted.isInstance_linkPrototype ho hacyclic⟩

/-- A host makes the objects 1, 2 and 3, and object 1 the prototype of object 2. -/
def Deed.linkingTwo : List Deed :=
  [.makeObject "a" none, .makeObject "b" none, .makeObject "c" none, .setPrototype 2 (some 1)]

/-- When object 1 gets object 3 as its prototype, object 2 becomes an instance of that, too; object 2
itself cannot become the prototype of object 1. -/
theorem Task.Arises.instances_ordered_linkingTwo :
    let heap := (Interpreter.history Host.standard Deed.linkingTwo).machine.heap
    Task.Arises Host.standard Deed.linkingTwo
        ⟨0, .eval .absent, (Interpreter.history Host.standard Deed.linkingTwo).machine⟩ ∧
      heap.isInstance 2 3 = false ∧ heap.setPrototype? 1 (some 2) = none ∧
      ∃ linked, heap.setPrototype? 1 (some 3) = some linked ∧ linked.isInstance 2 3 = true := by
  intro heap
  have harises : Task.Arises Host.standard Deed.linkingTwo
      ⟨0, .eval .absent, (Interpreter.history Host.standard Deed.linkingTwo).machine⟩ :=
    ⟨0, .eval .absent, _, .eval, .refl⟩
  have hsize : 1 < heap.objects.size := by decide
  obtain ⟨hrefl, -, -, -, hset⟩ := instances_ordered harises
  obtain ⟨linked, hlinked, -, hmoved⟩ := (hset 1 3 hsize).2 rfl
  refine ⟨harises, rfl, ((hset 1 2 hsize).1 rfl).1, linked, hlinked, ?_⟩
  exact (hmoved 2 3).mpr (.inr ⟨rfl, .inr (hrefl 3)⟩)

end ProtoLisp
