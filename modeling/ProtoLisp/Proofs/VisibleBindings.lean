import Mathlib.Data.List.Induction
import Mathlib.Data.List.Nodup
import ProtoLisp.Proofs.ScopeForests

/-!
# What is visible from a scope

A name can be looked up from a scope, outward until a scope binds it, or all visible bindings can be
listed, inward from the outermost scope.  Both give the same: each name is listed once, with the value
that it means.  The names that the parent lists come first, in the parent's order, even if the scope
itself binds them again; behind them are those that only the scope binds.

Each scope has its own names in the order in which they were first defined.
-/

namespace ProtoLisp

/-! ### Bindings in order -/

namespace Bindings

variable {bindings own outer : Bindings} {name : String} {slot : Slot}

theorem mem_names {binding : String × Slot} (hmem : binding ∈ bindings) :
    binding.1 ∈ bindings.names :=
  List.mem_map_of_mem hmem

theorem nodup_names_cons {first : String} :
    (names ((first, slot) :: bindings)).Nodup ↔ first ∉ bindings.names ∧ bindings.names.Nodup :=
  List.nodup_cons

theorem nodup_put (hnodup : bindings.names.Nodup) (name : String) (slot : Slot) :
    (bindings.put name slot).names.Nodup := by
  rw [names_put]
  split
  · exact hnodup
  · rename_i hnew
    exact List.Nodup.append hnodup (List.nodup_singleton name) (by simpa using hnew)

theorem mem_iff_get? (hnodup : bindings.names.Nodup) :
    (name, slot) ∈ bindings ↔ bindings.get? name = some slot := by
  refine ⟨fun hmem => ?_, mem_of_get?⟩
  induction bindings with
  | nil => cases hmem
  | cons binding bindings ih =>
      obtain ⟨first, old⟩ := binding
      obtain ⟨hfirst, hrest⟩ := nodup_names_cons.mp hnodup
      rw [get?_cons]
      rcases List.mem_cons.mp hmem with heq | hlater
      · cases heq
        exact if_pos rfl
      · have hother : name ≠ first := by
          rintro rfl
          exact hfirst (mem_names hlater)
        rw [if_neg hother]
        exact ih hrest hlater

theorem put_of_mem (hnodup : bindings.names.Nodup) (hmem : name ∈ bindings.names) (slot : Slot) :
    bindings.put name slot =
      bindings.map fun binding => (binding.1, if binding.1 = name then slot else binding.2) := by
  induction bindings with
  | nil => cases hmem
  | cons binding bindings ih =>
      obtain ⟨first, old⟩ := binding
      obtain ⟨hfirst, hrest⟩ := nodup_names_cons.mp hnodup
      rw [put, List.map_cons]
      by_cases hsame : first = name
      · have hothers (binding : String × Slot) (hbinding : binding ∈ bindings) :
            (binding.1, if binding.1 = name then slot else binding.2) = binding := by
          rw [if_neg]
          rintro rfl
          exact hfirst (hsame ▸ mem_names hbinding)
        rw [if_pos hsame, if_pos hsame, List.map_congr_left hothers, List.map_id']
      · have hlater := (List.mem_cons.mp hmem).resolve_left (Ne.symm hsame)
        rw [if_neg hsame, if_neg hsame, ih hrest hlater]

/-- The bindings of a scope, put over those that are visible from its parent. -/
def atop (own outer : Bindings) : Bindings :=
  own.foldl (fun merged (name, slot) => merged.put name slot) outer

/-- What is overridden keeps its position, and what is new comes behind it. -/
theorem atop_eq (hown : own.names.Nodup) (houter : outer.names.Nodup) :
    atop own outer =
      (outer.map fun binding => (binding.1, (own.get? binding.1).getD binding.2)) ++
        own.filter fun binding => binding.1 ∉ outer.names := by
  induction own generalizing outer with
  | nil => simp [atop, get?]
  | cons binding own ih =>
      obtain ⟨first, slot⟩ := binding
      obtain ⟨hfirst, hown⟩ := nodup_names_cons.mp hown
      have hnone := get?_of_not_mem hfirst
      have hstep : atop ((first, slot) :: own) outer = atop own (outer.put first slot) := rfl
      rw [hstep, ih hown (nodup_put houter first slot)]
      by_cases hmem : first ∈ outer.names
      · rw [names_put_of_mem slot hmem, put_of_mem houter hmem, List.map_map,
          List.filter_cons_of_neg (by simpa using hmem)]
        congr 1
        apply List.map_congr_left
        rintro ⟨other, old⟩ -
        by_cases hother : other = first
        · simp [get?_cons, hother, hnone]
        · simp [get?_cons, hother]
      · rw [put_of_not_mem hmem, List.map_append, List.filter_cons_of_pos (by simpa using hmem),
          List.append_assoc]
        congr 1
        · apply List.map_congr_left
          rintro ⟨other, old⟩ hother
          have hne : other ≠ first := by
            rintro rfl
            exact hmem (List.mem_map_of_mem hother)
          rw [get?_cons, if_neg hne]
        · simp only [List.map_cons, List.map_nil, hnone, Option.getD_none, List.singleton_append]
          congr 1
          apply List.filter_congr
          intro binding hbinding
          have hne : binding.1 ≠ first := by
            rintro rfl
            exact hfirst (mem_names hbinding)
          have hiff : binding.1 ∈ names (outer ++ [(first, slot)]) ↔ binding.1 ∈ outer.names := by
            simp [names, hne]
          simp only [hiff]

theorem nodup_atop (own : Bindings) (houter : outer.names.Nodup) : (atop own outer).names.Nodup := by
  induction own generalizing outer with
  | nil => exact houter
  | cons binding own ih => exact ih (nodup_put houter binding.1 binding.2)

theorem get?_atop (hown : own.names.Nodup) (outer : Bindings) (name : String) :
    (atop own outer).get? name = (own.get? name).or (outer.get? name) := by
  induction own generalizing outer with
  | nil => rfl
  | cons binding own ih =>
      obtain ⟨first, slot⟩ := binding
      obtain ⟨hfirst, hown⟩ := nodup_names_cons.mp hown
      have hstep : atop ((first, slot) :: own) outer = atop own (outer.put first slot) := rfl
      rw [hstep, ih hown, get?_put, get?_cons]
      by_cases hname : name = first
      · rw [if_pos hname, if_pos hname, hname, get?_of_not_mem hfirst]
        rfl
      · rw [if_neg hname, if_neg hname]

end Bindings

/-! ### Histories of scopes -/

/-- A call that makes a scope, or changes the bindings of one. -/
inductive ScopeCall where
  | new (parent : Option ScopeId)
  | define (s : ScopeId) (name : String) (slot : Slot)
  | rebind (s : ScopeId) (name : String) (slot : Slot)

namespace ScopeCall

/-- What the call makes of the heap.  A definition without a value crashes. -/
def perform (heap : Heap) : ScopeCall → Heap
  | .new parent => heap.addScope parent
  | .define s name slot => ((Run.define s name slot).after ⟨heap, s, .empty 0⟩).heap
  | .rebind s name slot => (heap.rebind? s name slot).getD heap

/-- The scopes of which the call speaks are on the heap. -/
def Concerns (heap : Heap) : ScopeCall → Prop
  | .new parent => ∀ p ∈ parent, p < heap.nextScope
  | .define s _ _ => s < heap.nextScope
  | .rebind s _ _ => s < heap.nextScope

instance (heap : Heap) : (call : ScopeCall) → Decidable (call.Concerns heap)
  | .new parent => inferInstanceAs (Decidable (∀ p ∈ parent, p < heap.nextScope))
  | .define s _ _ => inferInstanceAs (Decidable (s < heap.nextScope))
  | .rebind s _ _ => inferInstanceAs (Decidable (s < heap.nextScope))

/-- The name that the call defines in the scope `s`. -/
def defined? (s : ScopeId) : ScopeCall → Option String
  | .define t name (some _) => if t = s then some name else none
  | _ => none

end ScopeCall

namespace Heap

variable {heap : Heap} {calls : List ScopeCall} {s p : ScopeId}

/-- The calls, one after the other, have made the heap. -/
inductive Built : List ScopeCall → Heap → Prop
  | empty : Built [] .empty
  | call {calls : List ScopeCall} {heap : Heap} (hbuilt : Built calls heap) (call : ScopeCall)
      (hconcerns : call.Concerns heap) : Built (calls ++ [call]) (call.perform heap)

/-- The scopes form a forest, and each binds the names defined in it, in the order in which they were
first defined. -/
structure Records (heap : Heap) (calls : List ScopeCall) : Prop where
  forest : heap.IsForest
  names : ∀ s, (heap.bindings s).names = (calls.filterMap (ScopeCall.defined? s)).eraseDups

theorem eraseDups_append_singleton (names : List String) (name : String) :
    (names ++ [name]).eraseDups =
      if name ∈ names.eraseDups then names.eraseDups else names.eraseDups ++ [name] := by
  rw [List.eraseDups_append]
  by_cases hmem : name ∈ names
  · simp [List.removeAll, hmem]
  · simp [List.removeAll, List.eraseDups_cons, hmem]

theorem nodup_eraseDups (names : List String) : names.eraseDups.Nodup := by
  induction names using List.reverseRecOn with
  | nil => exact .nil
  | append_singleton names name ih =>
      rw [eraseDups_append_singleton]
      split
      · exact ih
      · rename_i hnew
        exact List.Nodup.append ih (List.nodup_singleton name) (by simpa using hnew)

theorem Records.nodup (hrecords : heap.Records calls) (s : ScopeId) :
    (heap.bindings s).names.Nodup :=
  hrecords.names s ▸ nodup_eraseDups _

theorem Records.of_kept (hrecords : heap.Records calls) {call : ScopeCall} {after : Heap}
    (hforest : after.IsForest) (hdefined : ∀ s, call.defined? s = none)
    (hkept : ∀ s, (after.bindings s).names = (heap.bindings s).names) :
    after.Records (calls ++ [call]) where
  forest := hforest
  names s := by
    rw [hkept, hrecords.names, List.filterMap_append, List.filterMap_cons_none (hdefined s),
      List.filterMap_nil, List.append_nil]

theorem Records.put (hrecords : heap.Records calls) (hs : s < heap.nextScope) (name : String)
    (v : Value) : (heap.put s name (some v)).Records (calls ++ [.define s name (some v)]) where
  forest := hrecords.forest.put s name _
  names t := by
    rw [List.filterMap_append]
    by_cases hst : s = t
    · subst hst
      have hdefined : [ScopeCall.define s name (some v)].filterMap (ScopeCall.defined? s) = [name] := by
        simp [ScopeCall.defined?]
      rw [hdefined, eraseDups_append_singleton, ← hrecords.names, bindings_put_self hs,
        Bindings.names_put]
    · have hdefined : [ScopeCall.define s name (some v)].filterMap (ScopeCall.defined? t) = [] := by
        simp [ScopeCall.defined?, hst]
      rw [hdefined, List.append_nil, ← hrecords.names, bindings, getElem?_scopes_put hst]
      rfl

theorem Records.call (hrecords : heap.Records calls) {call : ScopeCall}
    (hconcerns : call.Concerns heap) : (call.perform heap).Records (calls ++ [call]) := by
  cases call with
  | new parent =>
      exact hrecords.of_kept (hrecords.forest.addScope hconcerns) (fun _ => rfl)
        (fun s => congrArg Bindings.names (bindings_addScope parent s))
  | define s name slot =>
      cases slot with
      | none => exact hrecords.of_kept hrecords.forest (fun _ => rfl) (fun _ => rfl)
      | some v => exact hrecords.put hconcerns name v
  | rebind s name slot =>
      rw [ScopeCall.perform]
      cases hrebind : heap.rebind? s name slot with
      | none => exact hrecords.of_kept hrecords.forest (fun _ => rfl) (fun _ => rfl)
      | some after =>
          obtain ⟨o, -, hoverwrites⟩ := hrecords.forest.overwrites_of_rebind? hrebind
          exact hrecords.of_kept (hoverwrites.isForest hrecords.forest) (fun _ => rfl)
            hoverwrites.names

theorem Built.records (hbuilt : heap.Built calls) : heap.Records calls := by
  induction hbuilt with
  | empty => exact ⟨isForest_empty, fun s => rfl⟩
  | call _ _ hconcerns ih => exact ih.call hconcerns

/-! ### Listing and looking up -/

theorem collect_of_root (hparent : heap.parent? s = none) :
    heap.collect s = Bindings.atop (heap.bindings s) [] := by
  rw [collect, chain_of_root hparent]
  rfl

theorem IsForest.collect_of_parent (hforest : heap.IsForest) (hparent : heap.parent? s = some p) :
    heap.collect s = Bindings.atop (heap.bindings s) (heap.collect p) := by
  rw [collect, hforest.chain_of_parent hparent]
  rfl

theorem IsForest.resolve?_of_parent (hforest : heap.IsForest) (hparent : heap.parent? s = some p)
    (name : String) :
    heap.resolve? s name = (heap.ownBinding? s name).or (heap.resolve? p name) := by
  rw [resolve?, hforest.chain_of_parent hparent, List.findSome?_cons]
  cases heap.ownBinding? s name <;> rfl

theorem resolve?_of_root (hparent : heap.parent? s = none) (name : String) :
    heap.resolve? s name = heap.ownBinding? s name := by
  rw [resolve?, chain_of_root hparent, List.findSome?_cons]
  cases heap.ownBinding? s name <;> rfl

theorem Records.nodup_collect (hrecords : heap.Records calls) (s : ScopeId) :
    (heap.collect s).names.Nodup := by
  induction s using hrecords.forest.induction with
  | hroot s hparent =>
      rw [collect_of_root hparent]
      exact Bindings.nodup_atop _ .nil
  | hchild s p hparent ih =>
      rw [hrecords.forest.collect_of_parent hparent]
      exact Bindings.nodup_atop _ ih

/-- One way goes outward and stops where the name is bound, the other one comes back inward and
overrides what it has found farther out. -/
theorem Records.get?_collect (hrecords : heap.Records calls) (s : ScopeId) (name : String) :
    (heap.collect s).get? name = heap.resolve? s name := by
  induction s using hrecords.forest.induction with
  | hroot s hparent =>
      rw [collect_of_root hparent, Bindings.get?_atop (hrecords.nodup s), resolve?_of_root hparent]
      exact Option.or_none
  | hchild s p hparent ih =>
      rw [hrecords.forest.collect_of_parent hparent, Bindings.get?_atop (hrecords.nodup s), ih,
        hrecords.forest.resolve?_of_parent hparent]
      rfl

/-- The visible bindings are listed once each, with the values that can be looked up: those of the
parent in the parent's order, unless the scope itself overrides their values, and behind them those of
names that only the scope binds.  A scope's own bindings are listed in the order in which their names
were first defined there. -/
theorem Built.mem_collect_iff (hbuilt : heap.Built calls) (s : ScopeId) :
    (heap.collect s).names.Nodup ∧
    (∀ name slot, (name, slot) ∈ heap.collect s ↔ heap.resolve? s name = some slot) ∧
    (heap.parent? s = none → heap.collect s = heap.bindings s) ∧
    (∀ p, heap.parent? s = some p → heap.collect s =
      ((heap.collect p).map fun (name, slot) => (name, (heap.ownBinding? s name).getD slot)) ++
        (heap.bindings s).filter fun (name, _) => name ∉ (heap.collect p).names) ∧
    (heap.bindings s).names.Nodup ∧
    (∀ name slot, (name, slot) ∈ heap.bindings s ↔ heap.ownBinding? s name = some slot) ∧
    (heap.bindings s).names = (calls.filterMap (ScopeCall.defined? s)).eraseDups := by
  have hrecords := hbuilt.records
  have hown := hrecords.nodup s
  have hlisted := hrecords.nodup_collect s
  refine ⟨hlisted, ?_, ?_, ?_, hown, fun name slot => Bindings.mem_iff_get? hown,
    hrecords.names s⟩
  · intro name slot
    rw [Bindings.mem_iff_get? hlisted, hrecords.get?_collect]
  · intro hparent
    have hnone : (Bindings.names []).Nodup := List.nodup_nil
    rw [collect_of_root hparent, Bindings.atop_eq hown hnone]
    simp [Bindings.names]
  · intro p hparent
    rw [hrecords.forest.collect_of_parent hparent,
      Bindings.atop_eq hown (hrecords.nodup_collect p)]
    rfl

/-- The scope 1 is inside the scope 0.  It defines a name that is defined in the scope 0 before and
again after that. -/
def shadowing : List ScopeCall :=
  [.new none, .new (some 0), .define 0 "a" (some (.ofInt 1)), .define 1 "c" (some (.ofInt 2)),
    .define 0 "b" (some (.ofInt 3)), .define 1 "a" (some (.ofInt 4)), .define 0 "a" (some (.ofInt 5))]

theorem Built.mem_collect_iff_shadowing :
    let heap := shadowing.foldl ScopeCall.perform .empty
    Built shadowing heap ∧
      heap.collect 0 = [("a", some (.ofInt 5)), ("b", some (.ofInt 3))] ∧
      heap.collect 1 =
        [("a", some (.ofInt 4)), ("b", some (.ofInt 3)), ("c", some (.ofInt 2))] ∧
      heap.resolve? 1 "a" = some (some (.ofInt 4)) ∧
      (heap.bindings 1).names = ["c", "a"] := by
  have hbuilt : Built shadowing (shadowing.foldl ScopeCall.perform .empty) :=
    Built.empty |>.call (.new none) (by decide) |>.call (.new (some 0)) (by decide)
      |>.call (.define 0 "a" _) (by decide) |>.call (.define 1 "c" _) (by decide)
      |>.call (.define 0 "b" _) (by decide) |>.call (.define 1 "a" _) (by decide)
      |>.call (.define 0 "a" _) (by decide)
  have hcollect : (shadowing.foldl ScopeCall.perform .empty).collect 1 =
      [("a", some (.ofInt 4)), ("b", some (.ofInt 3)), ("c", some (.ofInt 2))] := rfl
  obtain ⟨-, hiff, -, -, -, -, hnames⟩ := hbuilt.mem_collect_iff 1
  refine ⟨hbuilt, rfl, hcollect, (hiff _ _).mp ?_, hnames⟩
  rw [hcollect]
  exact List.mem_cons_self

end Heap

end ProtoLisp
