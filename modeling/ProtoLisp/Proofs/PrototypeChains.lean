import Mathlib.Data.List.Nodup
import Mathlib.Data.List.Perm.Subperm
import Mathlib.Logic.Relation
import ProtoLisp.Proofs.Course
import ProtoLisp.Proofs.HeapOperations
import ProtoLisp.Proofs.Histories

/-!
# Prototypes lead to an end

Prototypes are linked by selectors, by clauses of objects and by hosts, again and again and in any
order.  Each of them refuses a link that would close a circle, and that is enough: whatever has been
done with an interpreter, from every object the prototypes lead to one that has none.

So a loop along the prototypes comes to an end, and the number of objects bounds the rounds that it
takes.  `Heap.Walk` is such a loop without any bound on its rounds.
-/

namespace ProtoLisp

namespace Heap

/-- From `o` the prototypes lead through the objects of `path`, the last of which has none. -/
inductive Lineage (heap : Heap) : ObjectId → List ObjectId → Prop where
  | last {o : ObjectId} : heap.proto? o = none → Lineage heap o [o]
  | next {o p : ObjectId} {path : List ObjectId} :
    heap.proto? o = some p → Lineage heap p path → Lineage heap o (o :: path)

/-- The prototype of `o` is `p`. -/
def Delegates (heap : Heap) (o p : ObjectId) : Prop := heap.proto? o = some p

/-- From every object the prototypes lead to an end. -/
def Rooted (heap : Heap) : Prop := ∀ o, ∃ path, heap.Lineage o path

/-- A loop along the prototypes: it ends with the first answer of `visit`, or without one when there is
no further prototype. -/
inductive Walk {α : Type} (heap : Heap) (visit : ObjectId → Option α) :
    Option ObjectId → Option α → Prop where
  | done : Walk heap visit none none
  | answered {o : ObjectId} {a : α} : visit o = some a → Walk heap visit (some o) (some a)
  | passed {o : ObjectId} {answer : Option α} :
    visit o = none → Walk heap visit (heap.proto? o) answer → Walk heap visit (some o) answer

/-- What a walk that looks for an attribute does at each object. -/
def look (heap : Heap) (key : String) (o : ObjectId) : Option Slot :=
  (heap.ownAttribute? o key).or (heap.ownAttribute? o (stripDot key))

/-- What a walk that looks for an object does at each object. -/
def meet (candidate o : ObjectId) : Option Unit := if o = candidate then some () else none

/-! ### One lineage -/

namespace Lineage

variable {heap : Heap} {o : ObjectId} {path : List ObjectId}

theorem unique (hpath : heap.Lineage o path) {other : List ObjectId}
    (hother : heap.Lineage o other) : path = other := by
  induction hpath generalizing other with
  | last hnone =>
      cases hother with
      | last _ => rfl
      | next hsome _ =>
          rw [hnone] at hsome
          cases hsome
  | next hsome _ ih =>
      cases hother with
      | last hnone =>
          rw [hnone] at hsome
          cases hsome
      | next hsome' hrest =>
          rw [hsome] at hsome'
          cases hsome'
          rw [ih hrest]

theorem exists_of_mem (hpath : heap.Lineage o path) {x : ObjectId} (hx : x ∈ path) :
    ∃ rest, heap.Lineage x rest ∧ rest <:+ path := by
  induction hpath with
  | last hnone =>
      rw [List.mem_singleton] at hx
      subst hx
      exact ⟨_, .last hnone, List.suffix_refl _⟩
  | next hsome hrest ih =>
      rcases List.mem_cons.mp hx with rfl | hx
      · exact ⟨_, .next hsome hrest, List.suffix_refl _⟩
      · obtain ⟨rest, hlineage, hsuffix⟩ := ih hx
        exact ⟨rest, hlineage, hsuffix.trans (List.suffix_cons _ _)⟩

/-- An object does not come back in its own lineage: the rest of it would be as long as the whole. -/
theorem nodup (hpath : heap.Lineage o path) : path.Nodup := by
  induction hpath with
  | last _ => exact List.nodup_singleton _
  | @next o p path hsome hrest ih =>
      rw [List.nodup_cons]
      refine ⟨?_, ih⟩
      intro hagain
      obtain ⟨rest, hlineage, hsuffix⟩ := hrest.exists_of_mem hagain
      have hsame : o :: path = rest := (Lineage.next hsome hrest).unique hlineage
      have hlength := hsuffix.length_le
      rw [← hsame, List.length_cons] at hlength
      omega

/-- Whoever has a prototype is on the heap, so only the last of a lineage may be missing from it. -/
theorem lt_of_mem_dropLast (hpath : heap.Lineage o path) :
    ∀ x ∈ path.dropLast, x < heap.objects.size := by
  induction hpath with
  | last _ => simp
  | @next o p path hsome hrest ih =>
      have hheld : o < heap.objects.size := by
        obtain ⟨object, hobject, -⟩ := Option.bind_eq_some_iff.mp hsome
        exact (Array.getElem?_eq_some_iff.mp hobject).1
      have hne : path ≠ [] := by
        cases hrest <;> simp
      rw [List.dropLast_cons_of_ne_nil hne]
      intro x hx
      rcases List.mem_cons.mp hx with rfl | hx
      · exact hheld
      · exact ih x hx

theorem length_le (hpath : heap.Lineage o path) : path.length ≤ heap.objects.size + 1 := by
  have hnodup : path.dropLast.Nodup := hpath.nodup.sublist (List.dropLast_sublist path)
  have hsubset : path.dropLast ⊆ List.range heap.objects.size := by
    intro x hx
    exact List.mem_range.mpr (hpath.lt_of_mem_dropLast x hx)
  have hlength := (List.subperm_of_subset hnodup hsubset).length_le
  rw [List.length_dropLast, List.length_range] at hlength
  omega

theorem lineageFrom_eq (hpath : heap.Lineage o path) {count : Nat} (hcount : path.length ≤ count) :
    heap.lineageFrom count o = path := by
  induction hpath generalizing count with
  | last hnone =>
      obtain ⟨rounds, rfl⟩ : ∃ rounds, count = rounds + 1 := ⟨count - 1, by simp at hcount; omega⟩
      rw [lineageFrom, hnone]
  | next hsome _ ih =>
      rw [List.length_cons] at hcount
      obtain ⟨rounds, rfl⟩ : ∃ rounds, count = rounds + 1 := ⟨count - 1, by omega⟩
      rw [lineageFrom, hsome]
      simp only [ih (Nat.le_of_succ_le_succ hcount)]

theorem lineage_eq (hpath : heap.Lineage o path) : heap.lineage o = path :=
  hpath.lineageFrom_eq hpath.length_le

theorem walk (hpath : heap.Lineage o path) {α : Type} (visit : ObjectId → Option α) :
    heap.Walk visit (some o) (path.findSome? visit) := by
  induction hpath with
  | @last o hnone =>
      rw [List.findSome?_cons]
      cases hvisit : visit o with
      | some a => exact .answered hvisit
      | none =>
          apply Walk.passed hvisit
          rw [hnone]
          exact .done
  | @next o p path hsome _ ih =>
      rw [List.findSome?_cons]
      cases hvisit : visit o with
      | some a => exact .answered hvisit
      | none =>
          apply Walk.passed hvisit
          rw [hsome]
          exact ih

theorem exists_last (hpath : heap.Lineage o path) :
    ∃ last, Relation.ReflTransGen heap.Delegates o last ∧ heap.proto? last = none := by
  induction hpath with
  | @last o hnone => exact ⟨o, .refl, hnone⟩
  | next hsome _ ih =>
      obtain ⟨last, hreached, hnone⟩ := ih
      exact ⟨last, hreached.head hsome, hnone⟩

theorem mem_of_delegates (hpath : heap.Lineage o path) {x : ObjectId}
    (hreached : Relation.ReflTransGen heap.Delegates o x) : x ∈ path := by
  induction hreached with
  | refl => cases hpath <;> exact List.mem_cons_self
  | @tail y z _ hdelegates ih =>
      obtain ⟨rest, hrest, hsuffix⟩ := hpath.exists_of_mem ih
      cases hrest with
      | last hnone =>
          rw [Delegates, hnone] at hdelegates
          cases hdelegates
      | next hsome htail =>
          rw [Delegates, hsome] at hdelegates
          cases hdelegates
          apply hsuffix.subset
          apply List.mem_cons_of_mem
          cases htail <;> exact List.mem_cons_self

theorem isInstance_eq (hpath : heap.Lineage o path) (candidate : ObjectId) :
    heap.isInstance o candidate = (path.findSome? (meet candidate)).isSome := by
  rw [isInstance, hpath.lineage_eq, Bool.eq_iff_iff]
  simp [meet]

theorem not_mem_of_isInstance (hpath : heap.Lineage o path) {x : ObjectId}
    (hinstance : heap.isInstance o x = false) : x ∉ path := by
  rw [isInstance, hpath.lineage_eq] at hinstance
  simpa using hinstance

theorem linkPrototype (hpath : heap.Lineage o path) {x : ObjectId} (hx : x ∉ path)
    (proto : Option ObjectId) : (heap.linkPrototype x proto).Lineage o path := by
  have hsame : ∀ y, x ≠ y → (heap.linkPrototype x proto).proto? y = heap.proto? y := by
    intro y hne
    unfold proto?
    rw [getElem?_objects_linkPrototype hne]
  induction hpath with
  | last hnone =>
      rw [List.mem_singleton] at hx
      exact .last ((hsame _ hx).trans hnone)
  | next hsome _ ih =>
      rw [List.mem_cons, not_or] at hx
      exact .next ((hsame _ hx.1).trans hsome) (ih hx.2)

end Lineage

/-! ### All lineages -/

theorem Lineage.congr {heap heap' : Heap} {o : ObjectId} {path : List ObjectId}
    (hpath : heap.Lineage o path) (hsame : ∀ o, heap'.proto? o = heap.proto? o) :
    heap'.Lineage o path := by
  induction hpath with
  | last hnone => exact .last ((hsame _).trans hnone)
  | next hsome _ ih => exact .next ((hsame _).trans hsome) ih

theorem Rooted.congr {heap heap' : Heap} (hrooted : heap.Rooted)
    (hsame : ∀ o, heap'.proto? o = heap.proto? o) : heap'.Rooted := by
  intro o
  obtain ⟨path, hpath⟩ := hrooted o
  exact ⟨path, hpath.congr hsame⟩

theorem proto?_addObject {heap : Heap} (name : String) (parent : Option ScopeId) (o : ObjectId) :
    (heap.addObject name parent).proto? o = heap.proto? o := by
  unfold proto? addObject
  rw [Array.getElem?_push]
  split
  next hnew =>
    have hnone : heap.objects[o]? = none := Array.getElem?_eq_none (Nat.le_of_eq hnew.symm)
    rw [hnone]
    rfl
  · rfl

/-- Every lineage takes up the new link at most once, and from the new prototype on there is no way
back. -/
theorem Rooted.linkPrototype {heap : Heap} (hrooted : heap.Rooted) {o : ObjectId}
    {proto : Option ObjectId} (hacyclic : ∀ p, proto = some p → heap.isInstance p o = false) :
    (heap.linkPrototype o proto).Rooted := by
  have hproto : ∀ p, proto = some p → ∃ path, (heap.linkPrototype o proto).Lineage p path := by
    intro p hp
    obtain ⟨path, hpath⟩ := hrooted p
    exact ⟨path, hpath.linkPrototype (hpath.not_mem_of_isInstance (hacyclic p hp)) proto⟩
  intro x
  obtain ⟨path, hpath⟩ := hrooted x
  induction hpath with
  | @last x hnone =>
      cases hlinked : (heap.linkPrototype o proto).proto? x with
      | none => exact ⟨_, .last hlinked⟩
      | some p =>
          rcases proto?_linkPrototype hlinked with hold | hnew
          · rw [hnone] at hold
            cases hold
          · obtain ⟨rest, hrest⟩ := hproto p hnew
            exact ⟨_, .next hlinked hrest⟩
  | @next x q path hsome _ ih =>
      cases hlinked : (heap.linkPrototype o proto).proto? x with
      | none => exact ⟨_, .last hlinked⟩
      | some p =>
          rcases proto?_linkPrototype hlinked with hold | hnew
          · rw [hsome] at hold
            cases hold
            obtain ⟨rest, hrest⟩ := ih
            exact ⟨_, .next hlinked hrest⟩
          · obtain ⟨rest, hrest⟩ := hproto p hnew
            exact ⟨_, .next hlinked hrest⟩

theorem law_rooted : Law Rooted fun _ _ => True where
  refl _ := trivial
  trans _ _ := trivial
  addScope _ hrooted := ⟨hrooted.congr fun _ => rfl, trivial⟩
  addObject name parent hrooted := ⟨hrooted.congr (proto?_addObject name parent), trivial⟩
  put _ _ _ hrooted := ⟨hrooted.congr fun _ => rfl, trivial⟩
  linkPrototype _ _ hrooted hacyclic := ⟨hrooted.linkPrototype hacyclic, trivial⟩

theorem rooted_initialHeap : Interpreter.initialHeap.Rooted := by
  have hroot : ∀ o, Interpreter.initialHeap.proto? o = none := by
    intro o
    match o with
    | 0 => rfl
    | o + 1 => rfl
  intro o
  exact ⟨[o], .last (hroot o)⟩

/-! ### What follows for the loops -/

theorem Rooted.not_cyclic {heap : Heap} (hrooted : heap.Rooted) (o : ObjectId) :
    ¬ Relation.TransGen heap.Delegates o o := by
  intro hcycle
  obtain ⟨p, hdelegates, hback⟩ := Relation.TransGen.head'_iff.mp hcycle
  obtain ⟨path, hpath⟩ := hrooted p
  have hnodup := (Lineage.next hdelegates hpath).nodup
  rw [List.nodup_cons] at hnodup
  exact hnodup.1 (hpath.mem_of_delegates hback)

theorem Rooted.lineage {heap : Heap} (hrooted : heap.Rooted) (o : ObjectId) :
    heap.Lineage o (heap.lineage o) := by
  obtain ⟨path, hpath⟩ := hrooted o
  rw [hpath.lineage_eq]
  exact hpath

theorem Rooted.walk_attribute {heap : Heap} (hrooted : heap.Rooted) (o : ObjectId) (key : String) :
    heap.Walk (heap.look key) (some o) (heap.attribute? o key) := by
  obtain ⟨path, hpath⟩ := hrooted o
  have hattribute : heap.attribute? o key = path.findSome? (heap.look key) := by
    rw [attribute?, hpath.lineage_eq]
    rfl
  rw [hattribute]
  exact hpath.walk _

theorem Rooted.walk_isInstance {heap : Heap} (hrooted : heap.Rooted) (o candidate : ObjectId) :
    ∃ met, heap.Walk (meet candidate) (some o) met ∧ heap.isInstance o candidate = met.isSome := by
  obtain ⟨path, hpath⟩ := hrooted o
  exact ⟨_, hpath.walk _, hpath.isInstance_eq candidate⟩

theorem Rooted.walk_setPrototype {heap : Heap} (hrooted : heap.Rooted) (o : ObjectId)
    (proto : Option ObjectId) :
    ∃ met, heap.Walk (meet o) proto met ∧
      heap.setPrototype? o proto = if met.isSome then none else some (heap.linkPrototype o proto) := by
  cases proto with
  | none => exact ⟨none, .done, rfl⟩
  | some p =>
      obtain ⟨met, hwalk, hinstance⟩ := hrooted.walk_isInstance p o
      refine ⟨met, hwalk, ?_⟩
      rw [setPrototype?, hinstance]

end Heap

/-! ## Interpreters -/

/-- Whatever a host does with an interpreter, and at every moment of an evaluation, the prototypes of
every object lead to an object that has none, so that there is no circle; and each loop along the
prototypes comes to its end with the answer that the heap gives. -/
theorem Interpreter.prototypes_end (host : Host) (deeds : List Deed) (depth : Nat)
    (request : Request) (part : Task)
    (hcourse : Task.Course (history host deeds).setup
      ⟨depth, request, (history host deeds).machine⟩ part) :
    let heap := part.machine.heap
    (∀ o, ∃ last, Relation.ReflTransGen heap.Delegates o last ∧ heap.proto? last = none) ∧
      (∀ o, ¬ Relation.TransGen heap.Delegates o o) ∧
      (∀ o key, heap.Walk (heap.look key) (some o) (heap.attribute? o key)) ∧
      (∀ o candidate, ∃ met, heap.Walk (Heap.meet candidate) (some o) met ∧
        heap.isInstance o candidate = met.isSome) ∧
      ∀ o proto, ∃ met, heap.Walk (Heap.meet o) proto met ∧
        heap.setPrototype? o proto =
          if met.isSome then none else some (heap.linkPrototype o proto) := by
  intro heap
  have hlaw := Heap.law_rooted
  have hbefore := hlaw.history Heap.rooted_initialHeap host deeds
  have hpermits := Discipline.permits_course (hlaw.lawful _) hcourse
    ⟨hbefore, Heap.Law.ready _ request⟩
  have hrooted : heap.Rooted := hpermits.1
  refine ⟨?_, hrooted.not_cyclic, hrooted.walk_attribute, hrooted.walk_isInstance,
    hrooted.walk_setPrototype⟩
  intro o
  obtain ⟨path, hpath⟩ := hrooted o
  exact hpath.exists_last

/-- Object 2 is made with object 1 as its prototype; then the reverse link is tried, with the selector
and by the host. -/
def Interpreter.circleTried : List Deed :=
  [.operate 3 (.eval (.call "def" [.variable "a", .call "object" [.variable "a"]])),
    .operate 3 (.eval (.call "object" [.variable "b", .call "prototype" [.variable "a"]])),
    .operate 3 (.send 1 ".prototype=" [some (.object 2)]), .setPrototype 1 (some 2)]

theorem Interpreter.prototypes_end_circleTried :
    (history Host.standard circleTried).machine.heap.proto? 2 = some 1 ∧
      (history Host.standard circleTried).machine.heap.proto? 1 = none ∧
      ¬ Relation.TransGen (history Host.standard circleTried).machine.heap.Delegates 1 1 := by
  have hends := prototypes_end Host.standard circleTried 1 (.send 1 ".prototype" []) _ .refl
  exact ⟨rfl, rfl, hends.2.1 1⟩

end ProtoLisp
