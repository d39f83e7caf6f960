import Mathlib.Data.Finset.Card
import Mathlib.Data.Finset.Range
import ProtoLisp.Proofs.OwnScopes
import ProtoLisp.Proofs.Presence

/-!
# Values that refer to themselves

An object is open while its text is under way, and closed at the end of it.  So the objects that are
open when a field is written are those around it, whatever was written before.  With every object
inside another there are fewer left to be opened, which is why writing ends even if objects refer to
themselves or to each other.
-/

namespace ProtoLisp

namespace Heap

/-- The text of a slot that stands inside the objects `around`. -/
def textWithin (heap : Heap) (around : List ObjectId) (slot : Slot) : String :=
  match heap.write slot around with
  | .ok written _ => written
  | .error _ _ => Node.unwritable

/-- The text of a field as part of the text of its object. -/
def fieldText (textOf : Slot → String) (field : String × Slot) : String :=
  " [" ++ field.1 ++ " " ++ textOf field.2 ++ "]"

/-- The number of objects that are still to be opened. -/
def unopened (heap : Heap) (opened : List ObjectId) : Nat :=
  ((Finset.range heap.objects.size).filter (· ∉ opened)).card

variable {heap : Heap} {opened around : List ObjectId} {o : ObjectId}

theorem unopened_le (heap : Heap) (opened : List ObjectId) :
    heap.unopened opened ≤ heap.objects.size := by
  have hle := Finset.card_filter_le (Finset.range heap.objects.size) (· ∉ opened)
  rwa [Finset.card_range] at hle

theorem unopened_cons_lt (ho : o < heap.objects.size) (hclosed : o ∉ opened) :
    heap.unopened (o :: opened) < heap.unopened opened := by
  apply Finset.card_lt_card
  rw [Finset.ssubset_iff_of_subset]
  · refine ⟨o, ?_, ?_⟩
    · simp [ho, hclosed]
    · simp
  · intro p hp
    simp only [Finset.mem_filter, Finset.mem_range, List.mem_cons, not_or] at hp ⊢
    exact ⟨hp.1, hp.2.2⟩

theorem lt_of_mem_fields {field : String × Slot} (hfield : field ∈ heap.fields o) :
    o < heap.objects.size := by
  by_cases ho : o < heap.objects.size
  · exact ho
  · have hnone : heap.objects[o]? = none := Array.getElem?_eq_none (Nat.le_of_not_lt ho)
    simp [fields, ownBindings, hnone] at hfield

/-! ### One object -/

theorem writeFields_eq {writeObject : ObjectId → Pen String} {textOf : Slot → String}
    {fields : Bindings}
    (hfields : ∀ field ∈ fields,
      writeSlot writeObject field.2 opened = .ok (textOf field.2) opened) :
    writeFields writeObject fields opened =
      .ok (String.join (fields.map (fieldText textOf))) opened := by
  induction fields with
  | nil => rfl
  | cons field fields ih =>
      obtain ⟨hfield, hfields⟩ := List.forall_mem_cons.mp hfields
      rw [List.map_cons, String.join_cons]
      show EStateM.bind (writeSlot writeObject field.2) _ opened = _
      rw [EStateM.bind, hfield]
      show EStateM.bind (writeFields writeObject fields) _ opened = _
      rw [EStateM.bind, ih hfields]
      rfl

theorem writeObject_of_mem (ho : o ∈ opened) (room : Nat) :
    heap.writeObject (room + 1) o opened = .ok (heap.objectHead o ++ " ...)") opened := by
  have hopen : opened.contains o = true := by simpa using ho
  show (if opened.contains o then _ else _ : Pen String) opened = _
  rw [if_pos hopen]
  rfl

theorem writeObject_of_not_mem (ho : o ∉ opened) {room : Nat} {textOf : Slot → String}
    (hfields : ∀ field ∈ heap.fields o,
      writeSlot (heap.writeObject room) field.2 (o :: opened) =
        .ok (textOf field.2) (o :: opened)) :
    heap.writeObject (room + 1) o opened =
      .ok (heap.objectHead o ++ String.join ((heap.fields o).map (fieldText textOf)) ++ ")")
        opened := by
  have hclosed : ¬ opened.contains o = true := by simpa using ho
  -- When the object is closed, what is left open is what was open before it.
  have hrest : (o :: opened).filter (· ≠ o) = opened := by
    rw [List.filter_cons_of_neg (by simp), List.filter_eq_self]
    intro p hp
    have hne : p ≠ o := ne_of_mem_of_not_mem hp ho
    simpa using hne
  have hinside : Pen.inside o (writeFields (heap.writeObject room) (heap.fields o)) opened =
      .ok (String.join ((heap.fields o).map (fieldText textOf))) opened := by
    rw [Pen.inside, writeFields_eq hfields]
    exact congrArg (EStateM.Result.ok _) hrest
  show (if opened.contains o then _ else _ : Pen String) opened = _
  rw [if_neg hclosed]
  show EStateM.bind _ _ opened = _
  rw [EStateM.bind, hinside]
  rfl

theorem textWithin_of_writes {written : String} {after : List ObjectId}
    (hwrites : heap.writeObject (heap.objects.size + 1) o around = .ok written after) :
    heap.textWithin around (some (.object o)) = written := by
  have hwrite : heap.write (some (.object o)) around = .ok written after := hwrites
  rw [textWithin, hwrite]

theorem textWithin_of_mem (ho : o ∈ around) :
    heap.textWithin around (some (.object o)) = heap.objectHead o ++ " ...)" :=
  textWithin_of_writes (writeObject_of_mem ho _)

/-- The text of an object that is not abbreviated does not look as if it were. -/
theorem fields_ne_abbreviated (textOf : Slot → String) (fields : Bindings) (head : String) :
    head ++ String.join (fields.map (fieldText textOf)) ++ ")" ≠ head ++ " ...)" := by
  intro heq
  rw [String.append_assoc, String.append_right_inj] at heq
  have hchars := congrArg String.toList heq
  cases fields with
  | nil => simp at hchars
  | cons field fields => simp [fieldText] at hchars

/-! ### All objects -/

namespace Filled

variable (hfilled : heap.Filled)

include hfilled

theorem exists_of_mem_fields {field : String × Slot} (hfield : field ∈ heap.fields o) :
    ∃ v, field.2 = some v := by
  have hown := (List.mem_filter.mp hfield).1
  rw [ownBindings] at hown
  cases hobject : heap.objects[o]? with
  | none =>
      rw [hobject] at hown
      cases hown
  | some object =>
      rw [hobject] at hown
      exact Option.ne_none_iff_exists'.mp (hfilled object.scope field.1 field.2 hown)

/-- Enough room is as good as any, and what was open before is open afterwards. -/
theorem writeSlot_eq (opened : List ObjectId) (v : Value) {room : Nat}
    (hroom : heap.unopened opened < room) :
    writeSlot (heap.writeObject room) (some v) opened =
      .ok (heap.textWithin opened (some v)) opened := by
  induction hcount : heap.unopened opened using Nat.strongRecOn generalizing opened v room with
  | ind count ih =>
      cases v with
      | object o =>
          obtain ⟨lower, rfl⟩ : ∃ lower, room = lower + 1 := ⟨room - 1, by omega⟩
          by_cases ho : o ∈ opened
          · rw [textWithin_of_mem ho]
            exact writeObject_of_mem ho lower
          · -- The fields find one object less to be opened, in this room and in that of a text.
            have hfields (lower : Nat) (hlower : heap.unopened opened ≤ lower) :
                ∀ field ∈ heap.fields o,
                  writeSlot (heap.writeObject lower) field.2 (o :: opened) =
                    .ok (heap.textWithin (o :: opened) field.2) (o :: opened) := by
              intro field hfield
              obtain ⟨w, hw⟩ := hfilled.exists_of_mem_fields hfield
              have hless := unopened_cons_lt (lt_of_mem_fields hfield) ho
              rw [hw]
              exact ih _ (hcount ▸ hless) (o :: opened) w (Nat.lt_of_lt_of_le hless hlower) rfl
            have hwrites := writeObject_of_not_mem ho (hfields lower (Nat.le_of_lt_succ hroom))
            have htext := writeObject_of_not_mem ho (hfields _ (heap.unopened_le opened))
            rw [textWithin_of_writes htext]
            exact hwrites
      | _ => rfl

/-- An object is written with its own fields in order, each as it is written inside the object. -/
theorem textWithin_of_not_mem (ho : o ∉ around) :
    heap.textWithin around (some (.object o)) =
      heap.objectHead o ++
        String.join ((heap.fields o).map (fieldText (heap.textWithin (o :: around)))) ++ ")" := by
  have hfields : ∀ field ∈ heap.fields o,
      writeSlot (heap.writeObject heap.objects.size) field.2 (o :: around) =
        .ok (heap.textWithin (o :: around) field.2) (o :: around) := by
    intro field hfield
    obtain ⟨v, hv⟩ := hfilled.exists_of_mem_fields hfield
    have hless := unopened_cons_lt (lt_of_mem_fields hfield) ho
    rw [hv]
    exact hfilled.writeSlot_eq (o :: around) v (Nat.lt_of_lt_of_le hless (heap.unopened_le around))
  exact textWithin_of_writes (writeObject_of_not_mem ho hfields)

theorem textWithin_eq_abbreviated_iff :
    heap.textWithin around (some (.object o)) = heap.objectHead o ++ " ...)" ↔ o ∈ around := by
  constructor
  · intro heq
    by_contra ho
    rw [hfilled.textWithin_of_not_mem ho] at heq
    exact fields_ne_abbreviated _ _ _ heq
  · exact textWithin_of_mem

/-- Only which objects are around matters, not in which order. -/
theorem textWithin_congr {around' : List ObjectId} (hsame : ∀ o, o ∈ around ↔ o ∈ around')
    (v : Value) : heap.textWithin around (some v) = heap.textWithin around' (some v) := by
  induction hcount : heap.unopened around using Nat.strongRecOn
    generalizing around around' v with
  | ind count ih =>
      cases v with
      | object o =>
          by_cases ho : o ∈ around
          · rw [textWithin_of_mem ho, textWithin_of_mem ((hsame o).mp ho)]
          · have ho' : o ∉ around' := fun hmem => ho ((hsame o).mpr hmem)
            have hinside : ∀ p, p ∈ o :: around ↔ p ∈ o :: around' := by
              intro p
              rw [List.mem_cons, List.mem_cons, hsame p]
            have hfields : ∀ field ∈ heap.fields o,
                fieldText (heap.textWithin (o :: around)) field =
                  fieldText (heap.textWithin (o :: around')) field := by
              intro field hfield
              obtain ⟨w, hw⟩ := hfilled.exists_of_mem_fields hfield
              have hless := unopened_cons_lt (lt_of_mem_fields hfield) ho
              rw [fieldText, fieldText, hw, ih _ (hcount ▸ hless) hinside w rfl]
            rw [hfilled.textWithin_of_not_mem ho, hfilled.textWithin_of_not_mem ho',
              List.map_congr_left hfields]
      | _ => rfl

end Filled

/-! ### The order of the fields -/

theorem names_ownBindings_put (hapart : heap.Apart) {object : Object}
    (hobject : heap.objects[o]? = some object) (name : String) (slot : Slot) :
    ((heap.put object.scope name slot).ownBindings o).names =
      if name ∈ (heap.ownBindings o).names then (heap.ownBindings o).names
      else (heap.ownBindings o).names ++ [name] := by
  have hbefore : heap.ownBindings o = heap.bindings object.scope := by
    rw [ownBindings, hobject]
    rfl
  have hafter : (heap.put object.scope name slot).ownBindings o =
      (heap.bindings object.scope).put name slot := by
    rw [← bindings_put_self (hapart.held o object hobject)]
    show ((heap.objects[o]?).map _).getD [] = _
    rw [hobject]
    rfl
  rw [hafter, hbefore, Bindings.names_put]

end Heap

/-- At every moment of every history, every value can be written: all rooms beyond a bound give the
same text, and the objects that were open before are open afterwards.  An object is abbreviated
exactly if it stands inside itself.  Otherwise it is written with all its own bindings without a dot,
in the order in which they were made, and the text of each depends on nothing but the objects
around it. -/
theorem Task.Arises.writes_values {host : Host} {deeds : List Deed} {task : Task}
    (harises : task.Arises host deeds) :
    let heap := task.machine.heap
    (∀ v around room, heap.objects.size < room →
      Heap.writeSlot (heap.writeObject room) (some v) around =
        .ok (heap.textWithin around (some v)) around) ∧
      (∀ v, heap.text (some v) = heap.textWithin [] (some v)) ∧
      (∀ o around,
        heap.textWithin around (some (.object o)) = heap.objectHead o ++ " ...)" ↔ o ∈ around) ∧
      (∀ o around, o ∉ around →
        heap.textWithin around (some (.object o)) =
          heap.objectHead o ++
            String.join (((heap.ownBindings o).filter (!Node.isSelector ·.1)).map
              (Heap.fieldText (heap.textWithin (o :: around)))) ++
            ")") ∧
      (∀ (o : ObjectId) (object : Object), heap.objects[o]? = some object → ∀ name slot,
        let names := (heap.ownBindings o).names
        ((heap.put object.scope name slot).ownBindings o).names =
          if name ∈ names then names else names ++ [name]) ∧
      ∀ v around around', (∀ o, o ∈ around ↔ o ∈ around') →
        heap.textWithin around (some v) = heap.textWithin around' (some v) := by
  intro heap
  have hfilled : heap.Filled := harises.filled
  have hapart : heap.Apart := Heap.law_apart.arises Heap.apart_initialHeap harises
  refine ⟨?_, ?_, ?_, ?_, ?_, ?_⟩
  · intro v around room hroom
    exact hfilled.writeSlot_eq around v (Nat.lt_of_le_of_lt (heap.unopened_le around) hroom)
  · intro v
    rfl
  · intro o around
    exact hfilled.textWithin_eq_abbreviated_iff
  · intro o around ho
    exact hfilled.textWithin_of_not_mem ho
  · intro o object hobject name slot
    exact Heap.names_ownBindings_put hapart hobject name slot
  · intro v around around' hsame
    exact hfilled.textWithin_congr hsame v

/-- Object 2 has object 1 in two of its fields and itself in a third. -/
def Deed.sharing : List Deed :=
  [.operate 3 (.eval (.call "def" [.variable "p", .call "object" [.variable "p",
      .call "x" [.number (.ofInt 1)]]])),
    .operate 3 (.eval (.call "def" [.variable "o", .call "object" [.variable "o",
      .call "a" [.variable "p"], .call "b" [.variable "p"]]])),
    .operate 3 (.eval (.call ".self=" [.variable "o", .variable "o"]))]

/-- Object 1 is written in full both times. -/
theorem Task.Arises.writes_values_sharing :
    let m := (Interpreter.history Host.standard Deed.sharing).machine
    Task.Arises Host.standard Deed.sharing ⟨0, .eval .absent, m⟩ ∧
      Heap.writeSlot (m.heap.writeObject 9) (some (.object 2)) [] =
        .ok "(object o [a (object p [x 1])] [b (object p [x 1])] [self (object o ...)])" [] := by
  intro m
  have harises : Task.Arises Host.standard Deed.sharing ⟨0, .eval .absent, m⟩ :=
    ⟨0, .eval .absent, _, .eval, .refl⟩
  refine ⟨harises, ?_⟩
  obtain ⟨hwrites, -⟩ := writes_values harises
  rw [hwrites (.object 2) [] 9 (by decide)]
  rfl

end ProtoLisp
