import ProtoLisp.Proofs.Containment

/-!
# Assignments

An assignment looks for its variable before it evaluates its expression, and again when it stores the
value.  In between, the expression may have bound the name in a scope that is nearer.  So the binding
that an assignment overwrites is the one that it has found at first if and only if its expression has
bound the name in no nearer scope: in a block, `(set! x (+ (def x 5) 1))` leaves the outer `x` alone.

Whichever binding it is, it keeps its place, and no other binding is touched.
-/

namespace ProtoLisp

namespace Heap

variable {heap before after : Heap} {s t u : ScopeId} {name : String} {slot : Slot}
  {front rest : List ScopeId} {count : Nat}

/-! ## The nearest binding -/

/-- Of the scopes visible from `s`, the scope `t` is the nearest to bind the name; those of `front`
are nearer. -/
structure Finds (heap : Heap) (s : ScopeId) (name : String) (t : ScopeId)
    (front : List ScopeId) : Prop where
  visible : ∃ rest, heap.chain s = front ++ t :: rest
  binds : heap.Binds t name
  nearest : ∀ u ∈ front, ¬ heap.Binds u name

theorem binds_iff : heap.Binds s name ↔ (heap.ownBinding? s name).isSome = true :=
  Bindings.isSome_get?_iff.symm

theorem Finds.not_mem (hfinds : heap.Finds s name t front) : t ∉ front :=
  fun hmem => hfinds.nearest t hmem hfinds.binds

theorem finds_of_owner? (howner : heap.owner? s name = some t) :
    ∃ front, heap.Finds s name t front := by
  obtain ⟨hbinds, front, rest, hchain, hnearest⟩ := List.find?_eq_some_iff_append.mp howner
  refine ⟨front, ⟨rest, hchain⟩, binds_of_isSome hbinds, ?_⟩
  intro u hu hbound
  have hfree := hnearest u hu
  rw [binds_iff.mp hbound] at hfree
  cases hfree

theorem Finds.owner? (hfinds : heap.Finds s name t front) : heap.owner? s name = some t := by
  obtain ⟨rest, hchain⟩ := hfinds.visible
  refine List.find?_eq_some_iff_append.mpr ⟨binds_iff.mp hfinds.binds, front, rest, hchain, ?_⟩
  intro u hu
  have hfree := hfinds.nearest u hu
  rw [binds_iff] at hfree
  simpa using hfree

theorem exists_finds_of_resolve? (hresolve : heap.resolve? s name ≠ none) :
    ∃ t front, heap.Finds s name t front := by
  obtain ⟨t, howner⟩ := (Extends.refl heap).exists_owner hresolve
  exact ⟨t, finds_of_owner? howner⟩

theorem Finds.resolve?_ne_none (hfinds : heap.Finds s name t front) :
    heap.resolve? s name ≠ none := by
  obtain ⟨rest, hchain⟩ := hfinds.visible
  obtain ⟨slot, hslot⟩ := Option.isSome_iff_exists.mp (binds_iff.mp hfinds.binds)
  intro hnone
  have hmem : t ∈ heap.chain s := by simp [hchain]
  have hfree := List.findSome?_eq_none_iff.mp hnone t hmem
  rw [hslot] at hfree
  cases hfree

/-- What a name means is what its nearest scope binds it to. -/
theorem resolve?_eq_bind_owner? (heap : Heap) (s : ScopeId) (name : String) :
    heap.resolve? s name = (heap.owner? s name).bind fun t => heap.ownBinding? t name := by
  unfold resolve? owner?
  induction heap.chain s with
  | nil => rfl
  | cons t outer ih =>
      rw [List.findSome?_cons, List.find?_cons]
      cases hown : heap.ownBinding? t name with
      | none => exact ih
      | some slot => exact hown.symm

theorem resolve?_eq_none_iff : heap.resolve? s name = none ↔ heap.owner? s name = none := by
  constructor
  · intro hresolve
    cases howner : heap.owner? s name with
    | none => rfl
    | some t =>
        obtain ⟨front, hfinds⟩ := finds_of_owner? howner
        exact absurd hresolve hfinds.resolve?_ne_none
  · intro howner
    rw [resolve?_eq_bind_owner?, howner]
    rfl

/-! ## How far a lookup stays the same -/

/-- A scope that is followed by another is on the heap. -/
theorem exists_parent_of_chainFrom (hchain : heap.chainFrom count s = front ++ t :: rest) :
    ∀ u ∈ front, ∃ p, heap.parent? u = some p := by
  induction front generalizing s count with
  | nil => exact nofun
  | cons first front ih =>
      cases count with
      | zero => cases hchain
      | succ count =>
          rw [chainFrom] at hchain
          cases hparent : heap.parent? s with
          | none => simp [hparent] at hchain
          | some p =>
              simp only [hparent, List.cons_append, List.cons.injEq] at hchain
              obtain ⟨rfl, hlater⟩ := hchain
              intro u hu
              rcases List.mem_cons.mp hu with rfl | hu
              · exact ⟨p, hparent⟩
              · exact ih hlater u hu

theorem Extends.chainFrom (hextends : before.Extends after)
    (hchain : before.chainFrom count s = front ++ t :: rest) :
    ∃ rest', after.chainFrom count s = front ++ t :: rest' := by
  induction front generalizing s count with
  | nil =>
      cases count with
      | zero => cases hchain
      | succ count =>
          have hself : t = s := by
            rw [Heap.chainFrom] at hchain
            split at hchain <;> cases hchain <;> rfl
          rw [hself, Heap.chainFrom]
          split
          · exact ⟨_, rfl⟩
          · exact ⟨[], rfl⟩
  | cons first front ih =>
      cases count with
      | zero => cases hchain
      | succ count =>
          rw [Heap.chainFrom] at hchain
          cases hparent : before.parent? s with
          | none => simp [hparent] at hchain
          | some p =>
              simp only [hparent, List.cons_append, List.cons.injEq] at hchain
              obtain ⟨rfl, hlater⟩ := hchain
              obtain ⟨rest', hrest'⟩ := ih hlater
              refine ⟨rest', ?_⟩
              rw [Heap.chainFrom, hextends.parent? hparent]
              simp [hrest']

/-- A heap that has grown finds the name in the same scope, or in one in front of it that has come to
bind the name. -/
theorem Finds.extends (hfinds : before.Finds s name t front) (hextends : before.Extends after) :
    ∃ last nearer, after.Finds s name last nearer ∧
      (last = t ∧ (∀ u ∈ front, ¬ after.Binds u name) ∨ last ∈ front) := by
  obtain ⟨rest, hchain⟩ := hfinds.visible
  obtain ⟨rest', hchain'⟩ := hextends.chainFrom hchain
  by_cases hfree : ∀ u ∈ front, ¬ after.Binds u name
  · have hbinds : after.Binds t name :=
      binds_iff.mpr (hextends.ownBinding? (binds_iff.mp hfinds.binds))
    exact ⟨t, front, ⟨⟨rest', hchain'⟩, hbinds, hfree⟩, .inl ⟨rfl, hfree⟩⟩
  · obtain ⟨u, hu, hbound⟩ : ∃ u ∈ front, after.Binds u name := by simpa using hfree
    have hsome : (front.find? fun u => (after.ownBinding? u name).isSome).isSome = true :=
      List.find?_isSome.mpr ⟨u, hu, binds_iff.mp hbound⟩
    obtain ⟨last, hlast⟩ := Option.isSome_iff_exists.mp hsome
    have howner : after.owner? s name = some last := by
      rw [Heap.owner?, chain, hchain', List.find?_append, hlast, Option.some_or]
    obtain ⟨nearer, hnearer⟩ := finds_of_owner? howner
    exact ⟨last, nearer, hnearer, .inr (List.mem_of_find?_eq_some hlast)⟩

/-! ## One binding is overwritten -/

/-- Of all that a heap holds, the binding of the name in the scope `s` gets another value, and nothing
else changes. -/
structure Overwrites (before : Heap) (s : ScopeId) (name : String) (slot : Slot)
    (after : Heap) : Prop where
  bound : before.Binds s name
  value : after.ownBinding? s name = some slot
  others : ∀ t other, t ≠ s ∨ other ≠ name →
    after.ownBinding? t other = before.ownBinding? t other
  names : ∀ t, (after.bindings t).names = (before.bindings t).names
  parents : ∀ t, after.parent? t = before.parent? t
  objects : after.objects = before.objects

theorem Binds.lt_size (hbinds : heap.Binds s name) : s < heap.scopes.size := by
  by_contra hout
  have hnone : heap.scopes[s]? = none := Array.getElem?_eq_none (Nat.le_of_not_lt hout)
  simp [Binds, bindings, hnone, Bindings.names] at hbinds

theorem Binds.overwrites_put (hbinds : heap.Binds s name) (slot : Slot) :
    heap.Overwrites s name slot (heap.put s name slot) where
  bound := hbinds
  value := by rw [ownBinding?_put hbinds.lt_size, if_pos ⟨rfl, rfl⟩]
  others := by
    intro t other hother
    rw [ownBinding?_put hbinds.lt_size, if_neg]
    rintro ⟨rfl, rfl⟩
    simp at hother
  names := by
    intro t
    by_cases hst : s = t
    · subst hst
      unfold Binds bindings at hbinds
      unfold bindings
      rw [put, Array.getElem?_modify, if_pos rfl]
      cases hscope : heap.scopes[s]? with
      | none => rfl
      | some scope =>
          rw [hscope] at hbinds
          exact Bindings.names_put_of_mem slot hbinds
    · rw [bindings, getElem?_scopes_put hst, bindings]
  parents := fun t => parent?_put s t name slot
  objects := rfl

end Heap

/-! ## Assignments -/

/-- `(set! name node)` -/
structure Assignment where
  name : String
  node : Node

namespace Assignment

variable {setup : Setup} {depth : Nat} {assignment : Assignment} {m middle after : Machine}
  {slot : Slot}

def value (setup : Setup) (depth : Nat) (assignment : Assignment) : Run Slot :=
  Eval.run setup depth (.eval assignment.node)

def run (setup : Setup) (depth : Nat) (assignment : Assignment) : Run Slot :=
  Eval.run setup (depth + 1) (.eval (.call "set!" [.variable assignment.name, assignment.node]))

theorem leaves_of_value (hvalue : assignment.value setup depth m = .ok slot middle) :
    (Discipline.ofHeap (fun _ => True) Heap.Extends).Leaves m middle := by
  have hserves := Heap.law_extends.serves setup depth
  exact ((hserves m (.eval assignment.node) (Heap.Law.ready _ _)).of_ok trivial hvalue).1

theorem run_eq (setup : Setup) (depth : Nat) (assignment : Assignment) :
    assignment.run setup depth =
      Eval.assignment (Eval.run setup depth) [.variable assignment.name, assignment.node] :=
  Eval.run_assignment setup depth _

/-- As soon as there is a value, it is stored in the scope in which the name is found then. -/
theorem run_of_value (hresolve : m.heap.resolve? m.scope assignment.name ≠ none)
    (hvalue : assignment.value setup depth m = .ok slot middle) {last : ScopeId}
    (howner : middle.heap.owner? m.scope assignment.name = some last) :
    assignment.run setup depth m =
      .ok slot { middle with heap := middle.heap.put last assignment.name slot } := by
  rw [run_eq]
  rw [← (leaves_of_value hvalue).scope] at howner
  exact Eval.assignment_of_ok hresolve hvalue howner

/-- An assignment succeeds only to a variable, and with the value of its expression. -/
theorem exists_value_of_run (hok : assignment.run setup depth m = .ok slot after) :
    m.heap.resolve? m.scope assignment.name ≠ none ∧
      ∃ other middle, assignment.value setup depth m = .ok other middle := by
  have hlook : Run.resolve? assignment.name m =
      .ok (m.heap.resolve? m.scope assignment.name) m := rfl
  rw [run_eq, Eval.assignment, Run.bind_of_ok hlook] at hok
  by_cases hnone : (m.heap.resolve? m.scope assignment.name).isNone = true
  · rw [if_pos hnone] at hok
    cases hok
  · refine ⟨by simpa using hnone, ?_⟩
    rw [if_neg hnone] at hok
    cases hvalue : Eval.run setup depth (.eval assignment.node) m with
    | ok other middle => exact ⟨other, middle, hvalue⟩
    | error failure failed =>
        rw [Run.bind_of_error hvalue] at hok
        cases hok

/-- A name that the expression has bound in a nearer scope has been defined there in its course, or it
is a field that has been set of an object to which the scope belongs. -/
theorem exists_origin (hvalue : assignment.value setup depth m = .ok slot middle)
    {first last : ScopeId} {front : List ScopeId}
    (hfinds : m.heap.Finds m.scope assignment.name first front) (hlast : last ∈ front)
    (hbinds : middle.heap.Binds last assignment.name) :
    ∃ origin, Task.Course setup ⟨depth, .eval assignment.node, m⟩ origin ∧
      (origin.DefinesIn last ∨ ∃ o object, origin.SetsField o assignment.name ∧
        origin.machine.heap.objects[o]? = some object ∧ object.scope = last) := by
  obtain ⟨rest, hchain⟩ := hfinds.visible
  obtain ⟨p, hparent⟩ := Heap.exists_parent_of_chainFrom hchain last hlast
  obtain ⟨scope, hscope, -⟩ := Option.bind_eq_some_iff.mp hparent
  have hheld : last < m.heap.scopes.size := (Array.getElem?_eq_some_iff.mp hscope).1
  have hafter : Task.after setup ⟨depth, .eval assignment.node, m⟩ = middle :=
    Run.after_of_ok hvalue
  apply Task.exists_origin hheld (hfinds.nearest last hlast)
  rw [hafter]
  exact hbinds

/-- An assignment to a variable succeeds as soon as its expression has a value, and overwrites one
binding of the name with it.  This is the binding found at first if and only if the expression has
bound the name in no nearer scope; otherwise it is one that the expression has made, with a
definition in that scope or by setting a field of the object to which the scope belongs. -/
theorem overwrites_iff (setup : Setup) (depth : Nat) (assignment : Assignment) (m : Machine) :
    (∀ first front slot middle, m.heap.Finds m.scope assignment.name first front →
        assignment.value setup depth m = .ok slot middle →
        ∃ after, assignment.run setup depth m = .ok slot after) ∧
      ∀ slot after, assignment.run setup depth m = .ok slot after →
        ∃ first front middle last, m.heap.Finds m.scope assignment.name first front ∧
          assignment.value setup depth m = .ok slot middle ∧
          middle.heap.Overwrites last assignment.name slot after.heap ∧
          after = { m with heap := after.heap } ∧
          (last = first ↔ ∀ s ∈ front, ¬ middle.heap.Binds s assignment.name) ∧
          (last ≠ first → last ∈ front ∧
            ∃ origin, Task.Course setup ⟨depth, .eval assignment.node, m⟩ origin ∧
              (origin.DefinesIn last ∨ ∃ o object, origin.SetsField o assignment.name ∧
                origin.machine.heap.objects[o]? = some object ∧ object.scope = last)) := by
  constructor
  · intro first front slot middle hfinds hvalue
    obtain ⟨last, nearer, hlast, -⟩ := hfinds.extends (leaves_of_value hvalue).grows
    exact ⟨_, run_of_value hfinds.resolve?_ne_none hvalue hlast.owner?⟩
  · intro slot after hok
    obtain ⟨hresolve, other, middle, hvalue⟩ := exists_value_of_run hok
    obtain ⟨first, front, hfinds⟩ := Heap.exists_finds_of_resolve? hresolve
    have hleaves := leaves_of_value hvalue
    obtain ⟨last, nearer, hlast, hplace⟩ := hfinds.extends hleaves.grows
    rw [run_of_value hresolve hvalue hlast.owner?] at hok
    cases hok
    refine ⟨first, front, middle, last, hfinds, hvalue, hlast.binds.overwrites_put slot, ?_, ?_, ?_⟩
    · rw [← hleaves.scope, ← hleaves.stack]
    · rcases hplace with ⟨rfl, hfree⟩ | hmem
      · exact ⟨fun _ => hfree, fun _ => rfl⟩
      · constructor
        · rintro rfl
          exact (hfinds.not_mem hmem).elim
        · intro hfree
          exact (hfree last hmem hlast.binds).elim
    · intro hne
      rcases hplace with ⟨rfl, -⟩ | hmem
      · exact (hne rfl).elim
      · exact ⟨hmem, exists_origin hvalue hfinds hmem hlast.binds⟩

/-- `(set! x (+ (def x 5) 1))` -/
def hidden : Assignment where
  name := "x"
  node := .call "+" [.call "def" [.variable "x", .number (.ofInt 5)], .number (.ofInt 1)]

/-- `(def x 1)` -/
def definesOuter : Deed :=
  .operate 2 (.eval (.call "def" [.variable "x", .number (.ofInt 1)]))

def outer : Interpreter := Interpreter.history Host.standard [definesOuter]

/-- In a block inside the scope of `x`, the assignment overwrites the `x` that its own expression has
defined in the block, and leaves the outer one as it was. -/
theorem overwrites_iff_hidden :
    let m := outer.machine.inBlock
    let after := (hidden.run outer.setup 3).after m
    Task.Arises Host.standard [definesOuter]
        ⟨4, .eval (.call "set!" [.variable "x", hidden.node]), m⟩ ∧
      m.heap.Finds m.scope "x" 0 [2] ∧
      hidden.run outer.setup 3 m = .ok (some (.ofInt 6)) after ∧
      after.heap.ownBinding? 0 "x" = some (some (.ofInt 1)) ∧
      ∃ middle last, hidden.value outer.setup 3 m = .ok (some (.ofInt 6)) middle ∧
        middle.heap.Overwrites last "x" (some (.ofInt 6)) after.heap ∧ last ≠ 0 := by
  intro m after
  have harises : Task.Arises Host.standard [definesOuter]
      ⟨4, .eval (.call "set!" [.variable "x", hidden.node]), m⟩ := by
    refine ⟨5, .eval (.call "do" [.call "set!" [.variable "x", hidden.node]]), _, .eval, ?_⟩
    exact .single (@Task.Part.block _ 4 [] [] _ (some .null) _ _ rfl)
  have hfinds : m.heap.Finds m.scope "x" 0 [2] := ⟨⟨[], rfl⟩, by decide, by decide⟩
  have hok : hidden.run outer.setup 3 m = .ok (some (.ofInt 6)) after := rfl
  have houter : after.heap.ownBinding? 0 "x" = some (some (.ofInt 1)) := rfl
  obtain ⟨first, front, middle, last, -, hvalue, hoverwrites, -⟩ :=
    (overwrites_iff outer.setup 3 hidden m).2 _ _ hok
  refine ⟨harises, hfinds, hok, houter, middle, last, hvalue, hoverwrites, ?_⟩
  rintro rfl
  have hstored := hoverwrites.value
  rw [show hidden.name = "x" from rfl, houter] at hstored
  simp [Value.ofInt, Decimal.ofInt] at hstored

end Assignment

end ProtoLisp
