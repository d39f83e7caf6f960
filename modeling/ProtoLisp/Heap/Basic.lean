import ProtoLisp.Value

/-!
# Scopes and objects

The heap holds all scopes and all objects ever made.  A scope binds names to slots, in the order in
which the names were first bound, and may have a parent.  An object has a display name, a scope of
its own for its fields and methods, and a prototype that it delegates to.

A scope is always younger than its parent, so the chain of parents is found by counting down.
-/

namespace ProtoLisp

/-- Names with their slots, in the order in which the names were first bound. -/
abbrev Bindings := List (String × Slot)

namespace Bindings

/-- The slot bound to `name`. -/
def get? (bindings : Bindings) (name : String) : Option Slot :=
  bindings.lookup name

/-- The bound names, in order. -/
def names (bindings : Bindings) : List String := bindings.map Prod.fst

/-- Binds `name` to `slot`.  A name that is bound already keeps its position. -/
def put (name : String) (slot : Slot) : Bindings → Bindings
  | [] => [(name, slot)]
  | (other, old) :: rest =>
    if other = name then (other, slot) :: rest else (other, old) :: put name slot rest

end Bindings

/-- A lexical scope. -/
structure Scope where
  parent : Option ScopeId
  bindings : Bindings
  deriving Repr, Inhabited

/-- A prototype object. -/
structure Object where
  /-- the name by which the object is shown; it may be empty -/
  name : String
  /-- the scope of the object's own fields and methods -/
  scope : ScopeId
  /-- the object that answers for attributes this one lacks -/
  proto : Option ObjectId
  deriving Repr, Inhabited

/-- All scopes and all objects, the oldest first. -/
structure Heap where
  scopes : Array Scope
  objects : Array Object
  deriving Repr, Inhabited

namespace Heap

/-- A heap that holds nothing. -/
def empty : Heap := ⟨#[], #[]⟩

/-! ### Scopes -/

/-- The name that the next new scope will have. -/
def nextScope (heap : Heap) : ScopeId := heap.scopes.size

/-- Adds an empty scope, whose name is `nextScope`. -/
def addScope (heap : Heap) (parent : Option ScopeId) : Heap :=
  { heap with scopes := heap.scopes.push ⟨parent, []⟩ }

/-- The bindings of the scope `s` itself. -/
def bindings (heap : Heap) (s : ScopeId) : Bindings :=
  (heap.scopes[s]?.map Scope.bindings).getD []

/-- The parent of the scope `s`. -/
def parent? (heap : Heap) (s : ScopeId) : Option ScopeId :=
  heap.scopes[s]?.bind Scope.parent

/-- What the scope `s` itself binds `name` to. -/
def ownBinding? (heap : Heap) (s : ScopeId) (name : String) : Option Slot :=
  (heap.bindings s).get? name

/-- At most `count` scopes from `s` outward. -/
def chainFrom (heap : Heap) : Nat → ScopeId → List ScopeId
  | 0, _ => []
  | count + 1, s =>
    match heap.parent? s with
    | some parent => s :: heap.chainFrom count parent
    | none => [s]

/-- The scopes visible from `s`, the nearest first. -/
def chain (heap : Heap) (s : ScopeId) : List ScopeId := heap.chainFrom (s + 1) s

/-- What `name` means in the scope `s`: the binding in the nearest visible scope that has one. -/
def resolve? (heap : Heap) (s : ScopeId) (name : String) : Option Slot :=
  (heap.chain s).findSome? fun t => heap.ownBinding? t name

/-- The nearest scope visible from `s` that binds `name`. -/
def owner? (heap : Heap) (s : ScopeId) (name : String) : Option ScopeId :=
  (heap.chain s).find? fun t => (heap.ownBinding? t name).isSome

/-- Binds `name` to `slot` in the scope `s` itself. -/
def put (heap : Heap) (s : ScopeId) (name : String) (slot : Slot) : Heap :=
  { heap with scopes := heap.scopes.modify s fun scope =>
      { scope with bindings := scope.bindings.put name slot } }

/-- Replaces what `name` means in the scope `s`, wherever it is bound; fails if it is bound nowhere.
The slot may be empty. -/
def rebind? (heap : Heap) (s : ScopeId) (name : String) (slot : Slot) : Option Heap :=
  (heap.owner? s name).map fun t => heap.put t name slot

/-- All bindings visible from `s`.  A nearer binding overrides a farther one, but a name keeps the
position that the farthest scope gives it. -/
def collect (heap : Heap) (s : ScopeId) : Bindings :=
  (heap.chain s).foldr (fun t outer =>
    (heap.bindings t).foldl (fun merged (name, slot) => merged.put name slot) outer) []

/-! ### Objects -/

/-- The name that the next new object will have. -/
def nextObject (heap : Heap) : ObjectId := heap.objects.size

/-- Adds an object without fields and prototype, whose name is `nextObject`, and with it its own
scope inside `parent`. -/
def addObject (heap : Heap) (name : String) (parent : Option ScopeId) : Heap :=
  let scope := heap.nextScope
  let heap := heap.addScope parent
  { heap with objects := heap.objects.push ⟨name, scope, none⟩ }

/-- The display name of an object. -/
def objectName (heap : Heap) (o : ObjectId) : String :=
  (heap.objects[o]?.map Object.name).getD ""

/-- The prototype of an object. -/
def proto? (heap : Heap) (o : ObjectId) : Option ObjectId :=
  heap.objects[o]?.bind Object.proto

/-- What the own scope of an object binds `name` to. -/
def ownAttribute? (heap : Heap) (o : ObjectId) (name : String) : Option Slot :=
  heap.objects[o]?.bind fun object => heap.ownBinding? object.scope name

/-- At most `count` objects from `o` along the prototypes. -/
def lineageFrom (heap : Heap) : Nat → ObjectId → List ObjectId
  | 0, _ => []
  | count + 1, o =>
    match heap.proto? o with
    | some proto => o :: heap.lineageFrom count proto
    | none => [o]

/-- The object `o`, its prototype, the prototype of that, and so on.  Only the last of them may be
missing from the heap. -/
def lineage (heap : Heap) (o : ObjectId) : List ObjectId :=
  heap.lineageFrom (heap.objects.size + 1) o

/-- `candidate` is `o` or answers for it. -/
def isInstance (heap : Heap) (o candidate : ObjectId) : Bool :=
  (heap.lineage o).contains candidate

/-- The selector without its dot. -/
def stripDot (selector : String) : String :=
  if Node.isSelector selector then String.ofList (selector.toList.drop 1) else selector

/-- The attribute `key` of an object: that of the first object of its lineage which binds the dotted
name or, failing that, the plain one. -/
def attribute? (heap : Heap) (o : ObjectId) (key : String) : Option Slot :=
  (heap.lineage o).findSome? fun p =>
    (heap.ownAttribute? p key).or (heap.ownAttribute? p (stripDot key))

/-- Binds `name` in the own scope of an object. -/
def putOwn (heap : Heap) (o : ObjectId) (name : String) (slot : Slot) : Heap :=
  match heap.objects[o]? with
  | some object => heap.put object.scope name slot
  | none => heap

/-- The name under which a field is set: the dotted one if the object itself binds that. -/
def fieldName (heap : Heap) (o : ObjectId) (name : String) : String :=
  if (heap.ownAttribute? o ("." ++ name)).isSome then "." ++ name else name

/-- Sets a field of the object itself, so that its attribute is the new value. -/
def setField (heap : Heap) (o : ObjectId) (name : String) (slot : Slot) : Heap :=
  heap.putOwn o (heap.fieldName o name) slot

/-- Makes `proto` the prototype of `o`, whatever that leads to. -/
def linkPrototype (heap : Heap) (o : ObjectId) (proto : Option ObjectId) : Heap :=
  { heap with objects := heap.objects.modify o fun object => { object with proto := proto } }

/-- Makes `proto` the prototype of `o`, unless `o` answers for `proto` already. -/
def setPrototype? (heap : Heap) (o : ObjectId) (proto : Option ObjectId) : Option Heap :=
  match proto with
  | some p => if heap.isInstance p o then none else some (heap.linkPrototype o proto)
  | none => some (heap.linkPrototype o none)

/-- All that the own scope of an object binds. -/
def ownBindings (heap : Heap) (o : ObjectId) : Bindings :=
  (heap.objects[o]?.map fun object => heap.bindings object.scope).getD []

/-- The fields of the object itself: its bindings without a dot. -/
def fields (heap : Heap) (o : ObjectId) : Bindings :=
  (heap.ownBindings o).filter fun (name, _) => !Node.isSelector name

end Heap

end ProtoLisp
