import ProtoLisp.Proofs.AttributeLookup
import ProtoLisp.Proofs.OwnScopes

/-!
# Setting a field

A setter binds a field in the own scope of its target, under the dotted name if that is bound there
already and under the plain one otherwise, so that it is the new value that the target has from then
on.  Since no two objects share a scope, no other object has different bindings of its own; but those
that delegate to the target have the new value as well, unless an object in between has the attribute.
-/

namespace ProtoLisp

namespace Heap

variable {heap : Heap} {o x y : ObjectId} {object : Object} {name key : String} {slot : Slot}

/-! ## Names -/

theorem eq_of_stripDot (hstrip : stripDot key = name) : key = name ∨ key = "." ++ name := by
  unfold stripDot at hstrip
  split at hstrip
  next hselector =>
    right
    have hhead : key.toList.head? = some '.' := by simpa [Node.isSelector] using hselector
    obtain ⟨rest, hrest⟩ := List.head?_eq_some_iff.mp hhead
    rw [hrest, List.drop_one, List.tail_cons] at hstrip
    apply String.toList_inj.mp
    simp [hrest, ← hstrip]
  · exact .inl hstrip

theorem fieldName_eq (heap : Heap) (o : ObjectId) (name : String) :
    heap.fieldName o name = "." ++ name ∨ heap.fieldName o name = name := by
  unfold fieldName
  split
  · exact .inl rfl
  · exact .inr rfl

/-- A key under which neither spelling of the field is looked up. -/
theorem ne_fieldName (heap : Heap) (o : ObjectId)
    (hkey : key ∉ [name, "." ++ name, ".." ++ name]) :
    key ≠ heap.fieldName o name ∧ stripDot key ≠ heap.fieldName o name := by
  have hdots : "." ++ ("." ++ name) = ".." ++ name := by
    rw [← String.append_assoc]
    rfl
  simp only [List.mem_cons, List.not_mem_nil, or_false, not_or] at hkey
  obtain ⟨hplain, hdotted, htwice⟩ := hkey
  constructor
  · rcases heap.fieldName_eq o name with hfield | hfield
    · rw [hfield]
      exact hdotted
    · rw [hfield]
      exact hplain
  · intro hstrip
    rcases heap.fieldName_eq o name with hfield | hfield
    · rcases eq_of_stripDot (hstrip.trans hfield) with hsame | hsame
      · exact hdotted hsame
      · exact htwice (hsame.trans hdots)
    · rcases eq_of_stripDot (hstrip.trans hfield) with hsame | hsame
      · exact hplain hsame
      · exact hdotted hsame

/-! ## One object -/

section Setting

variable (hapart : heap.Apart) (hobject : heap.objects[o]? = some object)

theorem objects_setField (o : ObjectId) (name : String) (slot : Slot) :
    (heap.setField o name slot).objects = heap.objects := by
  unfold setField putOwn
  split <;> rfl

include hobject in
theorem setField_eq_put (name : String) (slot : Slot) :
    heap.setField o name slot = heap.put object.scope (heap.fieldName o name) slot := by
  rw [setField, putOwn, hobject]

include hapart hobject

theorem ownAttribute?_setField (name : String) (slot : Slot) (x : ObjectId) (key : String) :
    (heap.setField o name slot).ownAttribute? x key =
      if x = o ∧ key = heap.fieldName o name then some slot else heap.ownAttribute? x key := by
  rw [setField_eq_put hobject]
  show heap.objects[x]?.bind (fun found =>
    (heap.put object.scope (heap.fieldName o name) slot).ownBinding? found.scope key) = _
  cases hfound : heap.objects[x]? with
  | none =>
      have hne : x ≠ o := by
        rintro rfl
        rw [hobject] at hfound
        cases hfound
      simp [ownAttribute?, hfound, hne]
  | some found =>
      have hsame : found.scope = object.scope ↔ x = o := by
        constructor
        · exact hapart.distinct x o found object hfound hobject
        · rintro rfl
          rw [hobject] at hfound
          cases hfound
          rfl
      have hown : heap.ownAttribute? x key = heap.ownBinding? found.scope key := by
        rw [ownAttribute?, hfound, Option.bind_some]
      rw [Option.bind_some, ownBinding?_put (hapart.held o object hobject), hown]
      simp only [hsame]

theorem look_setField_of_ne (name : String) (slot : Slot) (hx : x ≠ o) (key : String) :
    (heap.setField o name slot).look key x = heap.look key x := by
  simp [look, ownAttribute?_setField hapart hobject, hx]

theorem look_setField_of_key (slot : Slot) (hkey : key ∉ [name, "." ++ name, ".." ++ name])
    (x : ObjectId) : (heap.setField o name slot).look key x = heap.look key x := by
  obtain ⟨hdotted, hplain⟩ := ne_fieldName heap o hkey
  simp [look, ownAttribute?_setField hapart hobject, hdotted, hplain]

theorem ownBindings_setField_of_ne (name : String) (slot : Slot) (hx : x ≠ o) :
    (heap.setField o name slot).ownBindings x = heap.ownBindings x := by
  unfold ownBindings
  rw [objects_setField]
  cases hfound : heap.objects[x]? with
  | none => rfl
  | some found =>
      have hne : object.scope ≠ found.scope := fun hshared =>
        hx (hapart.distinct x o found object hfound hobject hshared.symm)
      rw [setField_eq_put hobject]
      simp only [Option.map_some, Option.getD_some, bindings, getElem?_scopes_put hne]

theorem offersAttribute_setField (name : String) (slot : Slot) :
    (heap.setField o name slot).OffersAttribute o name slot := by
  unfold OffersAttribute
  simp only [ownAttribute?_setField hapart hobject, true_and]
  by_cases hdotted : (heap.ownAttribute? o ("." ++ name)).isSome = true
  · simp [fieldName, hdotted]
  · have hnone : heap.ownAttribute? o ("." ++ name) = none := by simpa using hdotted
    simp [fieldName, hnone]

end Setting

/-! ## Inheritance -/

/-- A lookup of the attribute that starts at `x` comes as far as `o`: the prototypes of `x` lead to
`o`, and no object in front of it has the attribute. -/
def Reaches (heap : Heap) (name : String) (x o : ObjectId) : Prop :=
  ∃ nearer farther, heap.Lineage x (nearer ++ o :: farther) ∧
    ∀ y ∈ nearer, ¬ heap.BindsAttribute y name

theorem Rooted.reaches_self (hrooted : heap.Rooted) (name : String) (o : ObjectId) :
    heap.Reaches name o o := by
  obtain ⟨path, hpath⟩ := hrooted o
  obtain ⟨farther, rfl⟩ : ∃ farther, path = o :: farther := by
    cases hpath <;> exact ⟨_, rfl⟩
  exact ⟨[], farther, hpath, nofun⟩

theorem Lineage.not_mem_nearer {nearer farther : List ObjectId}
    (hpath : heap.Lineage x (nearer ++ o :: farther)) : ∀ y ∈ nearer, y ≠ o := by
  rintro y hy rfl
  exact (List.nodup_append.mp hpath.nodup).2.2 y hy y List.mem_cons_self rfl

section Setting

variable (hapart : heap.Apart) (hobject : heap.objects[o]? = some object)

include hapart hobject

theorem attribute?_setField_of_reaches (slot : Slot) (hreaches : heap.Reaches name x o) :
    (heap.setField o name slot).attribute? x ("." ++ name) = some slot := by
  obtain ⟨nearer, farther, hpath, hnearer⟩ := hreaches
  have hpath' := hpath.of_objects (heap.objects_setField o name slot)
  apply hpath'.attribute?_of_first ?_ (offersAttribute_setField hapart hobject name slot)
  intro y hy
  rw [← look_eq_none_iff, look_setField_of_ne hapart hobject name slot
    (hpath.not_mem_nearer y hy), look_eq_none_iff]
  exact hnearer y hy

/-- Where a lookup ends before it comes to `o`, or does not lead there at all, the field makes no
difference. -/
theorem attribute?_setField_of_not_reaches (hrooted : heap.Rooted) (slot : Slot)
    (hreaches : ¬ heap.Reaches name x o) :
    (heap.setField o name slot).attribute? x ("." ++ name) = heap.attribute? x ("." ++ name) := by
  obtain ⟨path, hpath⟩ := hrooted x
  by_cases ho : o ∈ path
  · obtain ⟨nearer, farther, rfl⟩ := List.append_of_mem ho
    have hpath' := hpath.of_objects (heap.objects_setField o name slot)
    have hsame : nearer.findSome? ((heap.setField o name slot).look ("." ++ name)) =
        nearer.findSome? (heap.look ("." ++ name)) :=
      findSome?_congr fun y hy =>
        look_setField_of_ne hapart hobject name slot (hpath.not_mem_nearer y hy) _
    have hfound : (nearer.findSome? (heap.look ("." ++ name))) ≠ none := by
      intro hnone
      rw [List.findSome?_eq_none_iff] at hnone
      exact hreaches ⟨nearer, farther, hpath, fun y hy => look_eq_none_iff.mp (hnone y hy)⟩
    obtain ⟨found, hfound⟩ := Option.ne_none_iff_exists'.mp hfound
    rw [hpath.attribute?_eq, hpath'.attribute?_eq, List.findSome?_append, List.findSome?_append,
      hsame, hfound, Option.some_or, Option.some_or]
  · apply hpath.attribute?_congr (heap.objects_setField o name slot)
    intro y hy
    apply look_setField_of_ne hapart hobject
    rintro rfl
    exact ho hy

end Setting

end Heap

/-! ## Dispatches -/

theorem Eval.run_send_setter {name : String} (hname : IsFieldName name) (setup : Setup)
    (depth : Nat) (o : ObjectId) (v : Value) (m : Machine) :
    run setup (depth + 1) (.send o ("." ++ name ++ "=") [some v]) m =
      .ok (some v) { m with heap := m.heap.setField o name (some v) } := by
  rw [String.append_assoc]
  -- The field that a selector sets tells setters from the selectors with a meaning of their own.
  have hreads : ∀ selector, setterField? (Heap.stripDot selector) = none →
      "." ++ (name ++ "=") ≠ selector := by
    rintro selector hfield rfl
    simp at hfield
  have hprototype : "." ++ (name ++ "=") ≠ ".prototype=" := by
    intro hsame
    have hfield := congrArg (fun selector => setterField? (Heap.stripDot selector)) hsame
    simp only [Heap.stripDot_dot, setterField?_setter] at hfield
    exact hname.ne_prototype (Option.some.inj hfield)
  have hattr : ¬ (name ++ "=" = "" ∨ name ++ "=" = "=") := by
    simp [hname.ne_empty]
  show send setup (run setup depth) o ("." ++ (name ++ "=")) [some v] m = _
  simp only [send, if_neg (hreads ".prototype" rfl), if_neg hprototype,
    if_neg (hreads ".instance?" rfl), Heap.stripDot_dot, if_neg hattr, setterField?_setter]
  rfl

/-- At every moment of every history, a setter succeeds, and the selector of the field then has the
new value.  Nothing changes but the own scope of the target; there no attribute changes but those that
are looked up under a name of the field; and another object has the new value if its lookup comes as
far as the target, and what it had before if not. -/
theorem Task.Arises.sets_field {host : Host} {deeds : List Deed} {task : Task}
    (harises : task.Arises host deeds) {o : ObjectId} {object : Object}
    (hobject : task.machine.heap.objects[o]? = some object) {name : String}
    (hname : IsFieldName name) {v : Value} (hplain : v.type ≠ .function) (setup : Setup) :
    let m := task.machine
    ∃ after : Machine,
      (∀ depth, Eval.run setup (depth + 1) (.send o ("." ++ name ++ "=") [some v]) m =
        .ok (some v) after) ∧
      (∀ depth, Eval.run setup (depth + 1) (.send o ("." ++ name) []) after =
        .ok (some v) after) ∧
      after.heap.objects = m.heap.objects ∧
      (∀ s, s ≠ object.scope → after.heap.scopes[s]? = m.heap.scopes[s]?) ∧
      (∀ x, x ≠ o → after.heap.ownBindings x = m.heap.ownBindings x) ∧
      (∀ key, key ∉ [name, "." ++ name, ".." ++ name] →
        after.heap.attribute? o key = m.heap.attribute? o key) ∧
      ∀ x, x ≠ o →
        (m.heap.Reaches name x o → after.heap.attribute? x ("." ++ name) = some (some v)) ∧
        (¬ m.heap.Reaches name x o →
          after.heap.attribute? x ("." ++ name) = m.heap.attribute? x ("." ++ name)) := by
  intro m
  have hapart : m.heap.Apart := Heap.law_apart.arises Heap.apart_initialHeap harises
  have hrooted : m.heap.Rooted := Heap.law_rooted.arises Heap.rooted_initialHeap harises
  let after : Machine := { m with heap := m.heap.setField o name (some v) }
  have hobjects : after.heap.objects = m.heap.objects := m.heap.objects_setField o name (some v)
  have hread : after.heap.attribute? o ("." ++ name) = some (some v) :=
    Heap.attribute?_setField_of_reaches hapart hobject (some v) (hrooted.reaches_self name o)
  refine ⟨after, ?_, ?_, hobjects, ?_, ?_, ?_, ?_⟩
  · intro depth
    exact Eval.run_send_setter hname setup depth o v m
  · intro depth
    exact (uses_of_attribute? hname setup depth [] hread).gives hplain rfl
  · intro s hs
    show (m.heap.setField o name (some v)).scopes[s]? = _
    rw [Heap.setField_eq_put hobject, Heap.getElem?_scopes_put (Ne.symm hs)]
  · intro x hx
    exact Heap.ownBindings_setField_of_ne hapart hobject name (some v) hx
  · intro key hkey
    exact (hrooted.lineage o).attribute?_congr hobjects fun x _ =>
      Heap.look_setField_of_key hapart hobject (some v) hkey x
  · intro x _
    exact ⟨Heap.attribute?_setField_of_reaches hapart hobject (some v),
      Heap.attribute?_setField_of_not_reaches hapart hobject hrooted (some v)⟩

/-- Objects 1 and 2 have a field `x`, object 3 has none, and object 1 is the prototype of both. -/
def Deed.shadowing : List Deed :=
  [.operate 3 (.eval (.call "object" [.call "x" [.number (.ofInt 1)]])),
    .operate 3 (.eval (.call "object" [.call "x" [.number (.ofInt 2)]])),
    .makeObject "" none, .setPrototype 2 (some 1), .setPrototype 3 (some 1)]

/-- When the field of object 1 is set, object 3 has the new value and object 2 keeps its own. -/
theorem Task.Arises.sets_field_shadowing :
    let interpreter := Interpreter.history Host.standard Deed.shadowing
    let m := interpreter.machine
    Task.Arises Host.standard Deed.shadowing ⟨0, .eval .absent, m⟩ ∧ IsFieldName "x" ∧
      ∃ after, Eval.run interpreter.setup 1 (.send 1 ("." ++ "x" ++ "=") [some (.ofInt 5)]) m =
          .ok (some (.ofInt 5)) after ∧
        Eval.run interpreter.setup 1 (.send 1 ("." ++ "x") []) after =
          .ok (some (.ofInt 5)) after ∧
        after.heap.attribute? 3 ("." ++ "x") = some (some (.ofInt 5)) ∧
        after.heap.attribute? 2 ("." ++ "x") = some (some (.ofInt 2)) := by
  intro interpreter m
  have harises : Task.Arises Host.standard Deed.shadowing ⟨0, .eval .absent, m⟩ :=
    ⟨0, .eval .absent, _, .eval, .refl⟩
  have hobject : m.heap.objects[1]? = some ⟨"", 2, none⟩ := rfl
  have hname : IsFieldName "x" := ⟨by decide, by decide, by decide, by decide⟩
  have hreaches : m.heap.Reaches "x" 3 1 := ⟨[3], [], .next rfl (.last rfl), by decide⟩
  have hshadowed : ¬ m.heap.Reaches "x" 2 1 := by
    rintro ⟨nearer, farther, hpath, hnearer⟩
    have hsplit := hpath.unique (.next rfl (.last rfl))
    cases nearer with
    | nil => cases hsplit
    | cons first nearer =>
        obtain rfl : first = 2 := (List.cons.inj hsplit).1
        exact hnearer 2 List.mem_cons_self (by decide)
  obtain ⟨after, hset, hget, -, -, -, -, hothers⟩ :=
    sets_field harises hobject hname (v := .ofInt 5) nofun interpreter.setup
  refine ⟨harises, hname, after, hset 0, hget 0, (hothers 3 nofun).1 hreaches, ?_⟩
  exact ((hothers 2 nofun).2 hshadowed).trans rfl

end ProtoLisp
