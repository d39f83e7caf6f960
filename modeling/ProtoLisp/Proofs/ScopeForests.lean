import ProtoLisp.Proofs.Assignments

/-!
# Assignments in a forest of scopes

Scopes share their parents, so one binding can be what a name means in many scopes: in all those from
which the scope of the binding is the nearest that binds the name.  A name that is given another value
means this value in exactly these scopes, and in all others, siblings, ancestors and descendants with
a binding of their own among them, it means what it has meant.
-/

namespace ProtoLisp

/-- What a program does with a name in its current scope. -/
theorem Run.rebind_eq (name : String) (slot : Slot) (m : Machine) :
    Run.rebind name slot m =
      let rebound := m.heap.rebind? m.scope name slot
      .ok rebound.isSome { m with heap := rebound.getD m.heap } := by
  unfold Run.rebind Heap.rebind?
  cases m.heap.owner? m.scope name <;> rfl

theorem Run.rebind_of_resolve?_none {name : String} {m : Machine}
    (hresolve : m.heap.resolve? m.scope name = none) (slot : Slot) :
    Run.rebind name slot m = .ok false m := by
  rw [Run.rebind, Heap.resolve?_eq_none_iff.mp hresolve]

namespace Heap

variable {heap before after : Heap} {s t p o : ScopeId} {name : String} {slot : Slot}

/-! ### Forests -/

/-- Every scope is younger than its parent, so no scope is among its own ancestors. -/
def IsForest (heap : Heap) : Prop := ∀ s p, heap.parent? s = some p → p < s

theorem isForest_empty : empty.IsForest := nofun

theorem IsForest.addScope (hforest : heap.IsForest) {parent : Option ScopeId}
    (hparent : ∀ p, parent = some p → p < heap.nextScope) : (heap.addScope parent).IsForest := by
  intro s p hp
  rw [parent?_addScope] at hp
  split at hp
  · rename_i hs
    exact hs ▸ hparent p hp
  · exact hforest s p hp

theorem IsForest.put (hforest : heap.IsForest) (s : ScopeId) (name : String) (slot : Slot) :
    (heap.put s name slot).IsForest := by
  intro t p hp
  rw [parent?_put] at hp
  exact hforest t p hp

/-- What holds of the roots, and of every scope of whose parent it holds, holds of all scopes. -/
theorem IsForest.induction {P : ScopeId → Prop} (hforest : heap.IsForest)
    (hroot : ∀ s, heap.parent? s = none → P s)
    (hchild : ∀ s p, heap.parent? s = some p → P p → P s) (s : ScopeId) : P s := by
  induction s using Nat.strong_induction_on with
  | _ s ih =>
      cases hparent : heap.parent? s with
      | none => exact hroot s hparent
      | some p => exact hchild s p hparent (ih p (hforest s p hparent))

/-- A chain comes to its end before the count does. -/
theorem IsForest.chainFrom_eq (hforest : heap.IsForest) {count : Nat} (hs : s < count) :
    heap.chainFrom count s = heap.chain s := by
  -- Of the count nothing is needed but that it exceeds the number of the scope, which falls at least
  -- as fast on the way outward.
  suffices hcounts : ∀ count count' s, s < count → s < count' →
      heap.chainFrom count s = heap.chainFrom count' s from
    hcounts count (s + 1) s hs (Nat.lt_succ_self s)
  intro count
  induction count with
  | zero => exact nofun
  | succ count ih =>
      intro count' s hs hs'
      cases count' with
      | zero => exact nomatch hs'
      | succ count' =>
          cases hparent : heap.parent? s with
          | none => simp only [chainFrom, hparent]
          | some p =>
              have hp := hforest s p hparent
              simp only [chainFrom, hparent]
              rw [ih count' p (Nat.lt_of_lt_of_le hp (Nat.le_of_lt_succ hs))
                (Nat.lt_of_lt_of_le hp (Nat.le_of_lt_succ hs'))]

theorem chain_of_root (hparent : heap.parent? s = none) : heap.chain s = [s] := by
  rw [chain, chainFrom, hparent]

theorem IsForest.chain_of_parent (hforest : heap.IsForest) (hparent : heap.parent? s = some p) :
    heap.chain s = s :: heap.chain p := by
  rw [chain, chainFrom, hparent]
  exact congrArg (s :: ·) (hforest.chainFrom_eq (hforest s p hparent))

/-! ### The nearest scope that binds a name -/

/-- Of the scopes on the way outward from `s`, the scope `o` is the first that binds the name. -/
inductive Nearest (heap : Heap) (name : String) : ScopeId → ScopeId → Prop
  | here {s : ScopeId} (hbinds : heap.Binds s name) : Nearest heap name s s
  | outward {s p o : ScopeId} (hfree : ¬ heap.Binds s name) (hparent : heap.parent? s = some p)
      (hnearest : Nearest heap name p o) : Nearest heap name s o

theorem Nearest.binds (hnearest : heap.Nearest name s o) : heap.Binds o name := by
  induction hnearest with
  | here hbinds => exact hbinds
  | outward _ _ _ ih => exact ih

theorem ownBinding?_of_not_binds (hfree : ¬ heap.Binds s name) : heap.ownBinding? s name = none :=
  Bindings.get?_of_not_mem hfree

theorem exists_chain_eq (heap : Heap) (s : ScopeId) : ∃ outer, heap.chain s = s :: outer := by
  rw [chain, chainFrom]
  split <;> exact ⟨_, rfl⟩

theorem Nearest.owner? (hforest : heap.IsForest) (hnearest : heap.Nearest name s o) :
    heap.owner? s name = some o := by
  induction hnearest with
  | @here s hbinds =>
      obtain ⟨outer, hchain⟩ := heap.exists_chain_eq s
      rw [Heap.owner?, hchain, List.find?_cons, binds_iff.mp hbinds]
  | outward hfree hparent _ ih =>
      rw [Heap.owner?, hforest.chain_of_parent hparent, List.find?_cons,
        ownBinding?_of_not_binds hfree]
      exact ih

theorem Nearest.resolve? (hforest : heap.IsForest) (hnearest : heap.Nearest name s o) :
    heap.resolve? s name = heap.ownBinding? o name := by
  rw [resolve?_eq_bind_owner?, hnearest.owner? hforest]
  rfl

theorem Nearest.unique (hforest : heap.IsForest) (hnearest : heap.Nearest name s o)
    (hother : heap.Nearest name s t) : o = t :=
  Option.some.inj ((hnearest.owner? hforest).symm.trans (hother.owner? hforest))

/-- There is a nearest scope that binds the name, or none is found. -/
theorem IsForest.nearest_cases (hforest : heap.IsForest) (s : ScopeId) (name : String) :
    (∃ o, heap.Nearest name s o) ∨ heap.owner? s name = none := by
  induction s using hforest.induction with
  | hroot s hparent =>
      by_cases hbinds : heap.Binds s name
      · exact .inl ⟨s, .here hbinds⟩
      · have hfree := ownBinding?_of_not_binds hbinds
        simp [Heap.owner?, chain_of_root hparent, hfree]
  | hchild s p hparent ih =>
      by_cases hbinds : heap.Binds s name
      · exact .inl ⟨s, .here hbinds⟩
      · have hfree := ownBinding?_of_not_binds hbinds
        rcases ih with ⟨o, hnearest⟩ | hnone
        · exact .inl ⟨o, .outward hbinds hparent hnearest⟩
        · right
          simpa [Heap.owner?, hforest.chain_of_parent hparent, hfree] using hnone

theorem IsForest.owner?_eq_some_iff (hforest : heap.IsForest) :
    heap.owner? s name = some o ↔ heap.Nearest name s o := by
  constructor
  · intro howner
    rcases hforest.nearest_cases s name with ⟨other, hnearest⟩ | hnone
    · rw [hnearest.owner? hforest] at howner
      exact Option.some.inj howner ▸ hnearest
    · rw [hnone] at howner
      cases howner
  · exact Nearest.owner? hforest

theorem IsForest.isSome_resolve?_iff (hforest : heap.IsForest) :
    (heap.resolve? s name).isSome = true ↔ ∃ o, heap.Nearest name s o := by
  constructor
  · intro hsome
    refine (hforest.nearest_cases s name).resolve_right ?_
    intro howner
    rw [resolve?_eq_none_iff.mpr howner] at hsome
    cases hsome
  · rintro ⟨o, hnearest⟩
    rw [hnearest.resolve? hforest]
    exact binds_iff.mp hnearest.binds

/-! ### One binding gets another value -/

theorem Nearest.congr (hnearest : before.Nearest name s o)
    (hbinds : ∀ t, after.Binds t name ↔ before.Binds t name)
    (hparents : ∀ t, after.parent? t = before.parent? t) : after.Nearest name s o := by
  induction hnearest with
  | here hbound => exact .here ((hbinds _).mpr hbound)
  | outward hfree hparent _ ih =>
      exact .outward (fun hbound => hfree ((hbinds _).mp hbound)) ((hparents _).trans hparent) ih

namespace Overwrites

theorem isForest (hoverwrites : before.Overwrites o name slot after) (hforest : before.IsForest) :
    after.IsForest := by
  intro t p hp
  rw [hoverwrites.parents] at hp
  exact hforest t p hp

theorem nearest_iff (hoverwrites : before.Overwrites o name slot after) {other : String} :
    after.Nearest other s t ↔ before.Nearest other s t := by
  have hbinds (u : ScopeId) : after.Binds u other ↔ before.Binds u other := by
    rw [Binds, Binds, hoverwrites.names]
  exact ⟨fun hnearest => hnearest.congr (fun u => (hbinds u).symm)
    (fun u => (hoverwrites.parents u).symm), fun hnearest => hnearest.congr hbinds hoverwrites.parents⟩

theorem resolve?_of_nearest (hoverwrites : before.Overwrites o name slot after)
    (hforest : before.IsForest) (hnearest : before.Nearest name t o) :
    after.resolve? t name = some slot := by
  rw [(hoverwrites.nearest_iff.mpr hnearest).resolve? (hoverwrites.isForest hforest),
    hoverwrites.value]

theorem resolve?_of_other (hoverwrites : before.Overwrites o name slot after)
    (hforest : before.IsForest) {other : String}
    (hother : other = name → ¬ before.Nearest name t o) :
    after.resolve? t other = before.resolve? t other := by
  have hafter := hoverwrites.isForest hforest
  rcases hforest.nearest_cases t other with ⟨owner, hnearest⟩ | howner
  · rw [hnearest.resolve? hforest, (hoverwrites.nearest_iff.mpr hnearest).resolve? hafter]
    apply hoverwrites.others
    by_contra hsame
    obtain ⟨rfl, rfl⟩ := not_or.mp hsame |>.imp not_not.mp not_not.mp
    exact hother rfl hnearest
  · have hnone := resolve?_eq_none_iff.mpr howner
    rw [hnone, ← Option.not_isSome_iff_eq_none, hafter.isSome_resolve?_iff]
    rintro ⟨owner, hnearest⟩
    have hsome := hforest.isSome_resolve?_iff.mpr ⟨owner, hoverwrites.nearest_iff.mp hnearest⟩
    rw [hnone] at hsome
    cases hsome

end Overwrites

theorem isSome_rebind?_iff :
    (heap.rebind? s name slot).isSome = true ↔ (heap.resolve? s name).isSome = true := by
  rw [rebind?, Option.isSome_map, Option.isSome_iff_ne_none, Option.isSome_iff_ne_none, ne_eq, ne_eq,
    resolve?_eq_none_iff]

theorem IsForest.overwrites_of_rebind? (hforest : heap.IsForest)
    (hrebind : heap.rebind? s name slot = some after) :
    ∃ o, heap.Nearest name s o ∧ heap.Overwrites o name slot after := by
  obtain ⟨o, howner, rfl⟩ := Option.map_eq_some_iff.mp hrebind
  have hnearest := hforest.owner?_eq_some_iff.mp howner
  exact ⟨o, hnearest, hnearest.binds.overwrites_put slot⟩

/-- A name can be given another value if and only if it means something; a program that tries it
otherwise is refused and leaves everything as it was.  Afterwards the name means the new value wherever
it has meant the same binding as in `s`; everywhere else it means what it has meant, and so do all other
names.  No scope binds other names, or in another order. -/
theorem IsForest.resolve?_rebind? (hforest : heap.IsForest) (s : ScopeId) (name : String)
    (slot : Slot) :
    let rebound := heap.rebind? s name slot
    let after := rebound.getD heap
    (rebound.isSome = true ↔ (heap.resolve? s name).isSome = true) ∧
    (∀ stack, Run.rebind name slot ⟨heap, s, stack⟩ = .ok rebound.isSome ⟨after, s, stack⟩) ∧
    (heap.resolve? s name = none →
      ∀ stack, Run.rebind name slot ⟨heap, s, stack⟩ = .ok false ⟨heap, s, stack⟩) ∧
    (∀ t o, heap.Nearest name s o → heap.Nearest name t o → after.resolve? t name = some slot) ∧
    (∀ t other, (other = name → ∀ o, heap.Nearest name s o → ¬ heap.Nearest name t o) →
      after.resolve? t other = heap.resolve? t other) ∧
    (∀ t, (after.bindings t).names = (heap.bindings t).names) ∧
    ∀ t, after.parent? t = heap.parent? t := by
  refine ⟨isSome_rebind?_iff, fun stack => Run.rebind_eq name slot ⟨heap, s, stack⟩,
    fun hresolve stack => Run.rebind_of_resolve?_none hresolve slot, ?_⟩
  cases hrebind : heap.rebind? s name slot with
  | none =>
      have howner : heap.owner? s name = none := Option.map_eq_none_iff.mp hrebind
      have hnone (o : ScopeId) : ¬ heap.Nearest name s o := by
        intro hnearest
        rw [hnearest.owner? hforest] at howner
        cases howner
      exact ⟨fun t o hnearest => absurd hnearest (hnone o), fun _ _ _ => rfl, fun _ => rfl,
        fun _ => rfl⟩
  | some after =>
      obtain ⟨o, hnearest, hoverwrites⟩ := hforest.overwrites_of_rebind? hrebind
      refine ⟨?_, ?_, hoverwrites.names, hoverwrites.parents⟩
      · intro t owner howner hthere
        obtain rfl := howner.unique hforest hnearest
        exact hoverwrites.resolve?_of_nearest hforest hthere
      · intro t other hother
        exact hoverwrites.resolve?_of_other hforest fun heq => hother heq o hnearest

/-- A root that binds `x`, two scopes inside it, the second of which binds `x` as well, and a scope
inside the second. -/
def siblings : Heap :=
  let root := (empty.addScope none).put 0 "x" (some (.ofInt 1))
  let inner := ((root.addScope (some 0)).addScope (some 0)).put 2 "x" (some (.ofInt 2))
  inner.addScope (some 2)

/-- From the first inner scope, the `x` of the root is given another value; the second inner scope,
and the one inside it, keep their own.  No scope binds `y`, so nothing can be given to it. -/
theorem IsForest.resolve?_rebind?_siblings :
    let after := (siblings.rebind? 1 "x" (some (.ofInt 5))).getD siblings
    siblings.IsForest ∧ (siblings.rebind? 1 "x" (some (.ofInt 5))).isSome = true ∧
      after.resolve? 0 "x" = some (some (.ofInt 5)) ∧
      after.resolve? 3 "x" = some (some (.ofInt 2)) ∧
      Run.rebind "y" (some (.ofInt 5)) ⟨siblings, 3, .empty 0⟩ =
        .ok false ⟨siblings, 3, .empty 0⟩ := by
  have hforest : siblings.IsForest := by
    refine IsForest.addScope (.put (.addScope (.addScope (.put (.addScope isForest_empty ?_) _ _ _)
      ?_) ?_) _ _ _) ?_
    all_goals decide
  obtain ⟨hiff, -, -, hsame, hothers, -⟩ := hforest.resolve?_rebind? 1 "x" (some (.ofInt 5))
  obtain ⟨-, -, hrefused, -⟩ := hforest.resolve?_rebind? 3 "y" (some (.ofInt 5))
  have hfirst : siblings.Nearest "x" 1 0 := hforest.owner?_eq_some_iff.mp rfl
  have hlast : siblings.Nearest "x" 3 2 := hforest.owner?_eq_some_iff.mp rfl
  refine ⟨hforest, hiff.mpr rfl, hsame 0 0 hfirst (hforest.owner?_eq_some_iff.mp rfl), ?_,
    hrefused rfl (.empty 0)⟩
  rw [hothers 3 "x"]
  · rfl
  · intro _ o hone hthree
    obtain rfl := hfirst.unique hforest hone
    cases hlast.unique hforest hthree

end Heap

end ProtoLisp
