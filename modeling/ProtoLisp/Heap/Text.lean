import ProtoLisp.Heap.Basic
import ProtoLisp.Failure
import ProtoLisp.Node.Text

/-!
# Values in writing

An object is written with its own fields.  While its text is under way the object is open, and inside
its own text it is abbreviated, so that every value has a text, even one that refers to itself.  Of an
empty slot there is nothing to write.
-/

namespace ProtoLisp

/-- A step of writing.  It works on the open objects, the innermost of which is the first. -/
abbrev Pen := EStateM Failure (List ObjectId)

/-- Writes with `o` open, and closes `o` however the writing ends. -/
def Pen.inside (o : ObjectId) (body : Pen α) : Pen α := fun opened =>
  match body (o :: opened) with
  | .ok a opened => .ok a (opened.filter (· ≠ o))
  | .error e opened => .error e (opened.filter (· ≠ o))

namespace Heap

/-- Writes a slot; `writeObject` writes objects. -/
def writeSlot (writeObject : ObjectId → Pen String) : Slot → Pen String
  | none => throw (.crash .absence)
  | some .null => pure "null"
  | some (.bool b) => pure (if b then "true" else "false")
  | some (.number d) => pure d.text
  | some (.atom name) => pure (":" ++ name)
  | some (.native name _) => pure ("(function " ++ name ++ " <builtin>)")
  | some (.closure name _ _ _) => pure ("(function " ++ name ++ " <lambda>)")
  | some (.object o) => writeObject o

/-- Writes fields in order. -/
def writeFields (writeObject : ObjectId → Pen String) : Bindings → Pen String
  | [] => pure ""
  | (name, slot) :: fields => do
    let written ← writeSlot writeObject slot
    let others ← writeFields writeObject fields
    return " [" ++ name ++ " " ++ written ++ "]" ++ others

/-- How the text of an object begins. -/
def objectHead (heap : Heap) (o : ObjectId) : String :=
  if heap.objectName o = "" then "(object" else "(object " ++ heap.objectName o

/-- Writes an object.  `room` bounds the depth. -/
def writeObject (heap : Heap) : (room : Nat) → ObjectId → Pen String
  | 0, _ => throw .tooDeep
  | room + 1, o => do
    if (← get).contains o then
      return heap.objectHead o ++ " ...)"
    else
      let written ← Pen.inside o (writeFields (heap.writeObject room) (heap.fields o))
      return heap.objectHead o ++ written ++ ")"

/-- Writes a slot.  Objects cannot stand inside each other more often than there are objects. -/
def write (heap : Heap) (slot : Slot) : Pen String :=
  writeSlot (heap.writeObject (heap.objects.size + 1)) slot

/-- A slot as a message shows it. -/
def text (heap : Heap) : Slot → String
  | none => "<nil>"
  | some v =>
    match heap.write (some v) [] with
    | .ok written _ => written
    | .error _ _ => Node.unwritable

/-- A value as a message shows it. -/
def exhibit (heap : Heap) (v : Value) : Exhibit := ⟨heap.text (some v), v.type.text⟩

/-- An object in words. -/
def objectLabel (heap : Heap) (o : ObjectId) : String :=
  if heap.objectName o = "" then "anonymous object" else "object " ++ heap.objectName o

/-- The bindings in writing. -/
def bindingTexts (heap : Heap) (bindings : Bindings) : List (String × String) :=
  bindings.map fun (name, slot) => (name, heap.text slot)

end Heap

end ProtoLisp
