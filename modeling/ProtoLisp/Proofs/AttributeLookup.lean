import ProtoLisp.Proofs.Definitions
import ProtoLisp.Proofs.Instances
import ProtoLisp.Proofs.Presence

/-!
# Attributes

An object may bind an attribute in its own scope under two names, with a dot and without.  A selector
looks along the lineage of its target, one object after the other: at each of them for the name with
the dot and then for the plain one, so that a near object with the plain name goes before a far one
with the dotted name.  The scopes in which the objects were made play no part in this.

A function that is found is called in the name of the target, wherever in the lineage it was found,
and its body sees the scope in which it was defined.
-/

namespace ProtoLisp

/-- The name of an attribute that selectors read and set: nothing that has a meaning of its own. -/
structure IsFieldName (name : String) : Prop where
  ne_empty : name ≠ ""
  not_setter : name.toList.getLast? ≠ some '='
  ne_prototype : name ≠ "prototype"
  ne_instance : name ≠ "instance?"

/-! ## Selectors -/

@[simp]
theorem Heap.stripDot_dot (name : String) : stripDot ("." ++ name) = name := by
  simp [stripDot, Node.isSelector]

theorem Eval.setterField?_eq_none {name : String} (hname : name.toList.getLast? ≠ some '=') :
    setterField? name = none := by
  rw [List.getLast?_eq_head?_reverse] at hname
  unfold setterField?
  split
  next hlast => simp [hlast] at hname
  · rfl

@[simp]
theorem Eval.setterField?_setter (name : String) : setterField? (name ++ "=") = some name := by
  simp [setterField?]

theorem IsFieldName.dotted_ne {name : String} (hname : IsFieldName name) {selector : String}
    (hmeaning : Heap.stripDot selector ∈ ["prototype", "prototype=", "instance?"]) :
    "." ++ name ≠ selector := by
  rintro rfl
  rw [Heap.stripDot_dot] at hmeaning
  simp only [List.mem_cons, List.not_mem_nil, or_false] at hmeaning
  rcases hmeaning with rfl | rfl | rfl
  · exact hname.ne_prototype rfl
  · exact hname.not_setter (by decide)
  · exact hname.ne_instance rfl

theorem IsFieldName.readsAttribute {name : String} (hname : IsFieldName name) :
    Eval.ReadsAttribute ("." ++ name) := by
  refine ⟨hname.dotted_ne (by decide), hname.dotted_ne (by decide), hname.dotted_ne (by decide),
    ?_, ?_, ?_⟩
  · rw [Heap.stripDot_dot]
    exact hname.ne_empty
  · rw [Heap.stripDot_dot]
    rintro rfl
    exact hname.not_setter (by decide)
  · rw [Heap.stripDot_dot]
    exact Eval.setterField?_eq_none hname.not_setter

/-! ## One object -/

namespace Heap

variable {heap : Heap} {o x : ObjectId} {name : String} {slot : Slot} {path : List ObjectId}

/-- The own scope of the object binds the attribute, under one of its two names. -/
def BindsAttribute (heap : Heap) (x : ObjectId) (name : String) : Prop :=
  heap.ownAttribute? x ("." ++ name) ≠ none ∨ heap.ownAttribute? x name ≠ none

instance (heap : Heap) (x : ObjectId) (name : String) : Decidable (heap.BindsAttribute x name) :=
  inferInstanceAs (Decidable (_ ∨ _))

/-- What the object itself has for the attribute: the dotted binding, or the plain one if there is no
dotted one. -/
def OffersAttribute (heap : Heap) (x : ObjectId) (name : String) (slot : Slot) : Prop :=
  heap.ownAttribute? x ("." ++ name) = some slot ∨
    heap.ownAttribute? x ("." ++ name) = none ∧ heap.ownAttribute? x name = some slot

theorem look_dot (name : String) (x : ObjectId) :
    heap.look ("." ++ name) x =
      (heap.ownAttribute? x ("." ++ name)).or (heap.ownAttribute? x name) := by
  rw [look, stripDot_dot]

theorem look_eq_none_iff : heap.look ("." ++ name) x = none ↔ ¬ heap.BindsAttribute x name := by
  rw [look_dot, Option.or_eq_none_iff, BindsAttribute]
  tauto

theorem look_eq_some_iff :
    heap.look ("." ++ name) x = some slot ↔ heap.OffersAttribute x name slot := by
  rw [look_dot, Option.or_eq_some_iff, OffersAttribute]

/-! ## One lineage -/

theorem Lineage.attribute?_eq (hpath : heap.Lineage o path) (key : String) :
    heap.attribute? o key = path.findSome? (heap.look key) := by
  rw [attribute?, hpath.lineage_eq]
  rfl

theorem Lineage.attribute?_eq_none_iff (hpath : heap.Lineage o path) :
    heap.attribute? o ("." ++ name) = none ↔ ∀ x ∈ path, ¬ heap.BindsAttribute x name := by
  rw [hpath.attribute?_eq, List.findSome?_eq_none_iff]
  simp only [look_eq_none_iff]

/-- Objects in front of `x` that do not have the attribute are passed over. -/
theorem Lineage.attribute?_of_first {nearer farther : List ObjectId}
    (hpath : heap.Lineage o (nearer ++ x :: farther))
    (hnearer : ∀ y ∈ nearer, ¬ heap.BindsAttribute y name)
    (hoffers : heap.OffersAttribute x name slot) :
    heap.attribute? o ("." ++ name) = some slot := by
  have hpassed : nearer.findSome? (heap.look ("." ++ name)) = none := by
    rw [List.findSome?_eq_none_iff]
    intro y hy
    exact look_eq_none_iff.mpr (hnearer y hy)
  rw [hpath.attribute?_eq, List.findSome?_append, hpassed, Option.none_or, List.findSome?_cons,
    look_eq_some_iff.mpr hoffers]

theorem exists_offersAttribute (hfilled : heap.Filled) (hbinds : heap.BindsAttribute x name) :
    ∃ v, heap.OffersAttribute x name (some v) := by
  cases hlook : heap.look ("." ++ name) x with
  | none => exact (look_eq_none_iff.mp hlook hbinds).elim
  | some slot =>
      have hoffers := look_eq_some_iff.mp hlook
      cases slot with
      | some v => exact ⟨v, hoffers⟩
      | none =>
          rcases hoffers with hdotted | ⟨-, hplain⟩
          · exact (hfilled.ownAttribute? x _ hdotted).elim
          · exact (hfilled.ownAttribute? x _ hplain).elim

theorem Lineage.of_objects (hpath : heap.Lineage o path) {other : Heap}
    (hobjects : other.objects = heap.objects) : other.Lineage o path := by
  apply hpath.congr
  intro x
  rw [proto?, proto?, hobjects]

/-- Nothing matters but the objects and what is found at each of the lineage. -/
theorem Lineage.attribute?_congr (hpath : heap.Lineage o path) {other : Heap}
    (hobjects : other.objects = heap.objects) {key : String}
    (hlook : ∀ x ∈ path, other.look key x = heap.look key x) :
    other.attribute? o key = heap.attribute? o key := by
  rw [hpath.attribute?_eq, (hpath.of_objects hobjects).attribute?_eq, findSome?_congr hlook]

end Heap

/-! ## Dispatches -/

namespace Eval

open Run

variable {o : ObjectId} {name : String} {args : List Slot} {m : Machine} {v : Value}

theorem run_send_dot (hname : IsFieldName name) (setup : Setup) (depth : Nat) (o : ObjectId)
    (args : List Slot) :
    run setup (depth + 1) (.send o ("." ++ name) args) =
      sendGet setup (run setup depth) o ("." ++ name) args :=
  send_of_readsAttribute hname.readsAttribute setup (run setup depth) o args

theorem sendGet_of_none (setup : Setup) (depth : Nat) (args : List Slot) {selector : String}
    (hnone : m.heap.attribute? o selector = none) :
    sendGet setup (run setup depth) o selector args m =
      complain (.undefinedAttribute selector (m.heap.objectLabel o)) m := by
  have hlook : withHeap (·.attribute? o selector) m = .ok none m := by rw [withHeap, hnone]
  rw [sendGet, bind_of_ok hlook]
  rfl

/-- A dispatch that has found a value goes on with it. -/
theorem sendGet_of_some (setup : Setup) (depth : Nat) (args : List Slot) {selector : String}
    (hfound : m.heap.attribute? o selector = some (some v)) :
    sendGet setup (run setup depth) o selector args m =
      if v.type = .function then
        run setup (depth + 1) (.call (some v) args (m.heap.objectName o)) m
      else if args.length ≠ 0 then complain (.fieldNotInvokable selector (m.heap.exhibit v)) m
      else .ok (some v) m := by
  have hlook : withHeap (·.attribute? o selector) m = .ok (some (some v)) m := by
    rw [withHeap, hfound]
  rw [sendGet, bind_of_ok hlook]
  show (if v.type = .function then _ else _ : Run Slot) m = _
  split
  · rfl
  · split <;> rfl

theorem parent?_of_bindParams {s : ScopeId} {params : List String} {bound : Machine}
    (hbound : bindParams s params args m = .ok () bound) (t : ScopeId) :
    bound.heap.parent? t = m.heap.parent? t := by
  induction params generalizing m args with
  | nil =>
      cases hbound
      rfl
  | cons param params ih =>
      match args, hbound with
      | [], hbound =>
          cases hbound
          rfl
      | none :: args, hbound => cases hbound
      | some v :: args, hbound =>
          have hrest : bindParams s params args
              { m with heap := m.heap.put s param (some v) } = .ok () bound := hbound
          rw [ih hrest]
          exact Heap.parent?_put s t param (some v)

theorem exists_bindParams (s : ScopeId) (params : List String) (hargs : ∀ arg ∈ args, arg ≠ none)
    (m : Machine) : ∃ bound, bindParams s params args m = .ok () bound := by
  induction params generalizing m args with
  | nil => exact ⟨m, rfl⟩
  | cons param params ih =>
      cases args with
      | nil => exact ⟨m, rfl⟩
      | cons arg args =>
          obtain ⟨v, rfl⟩ := Option.ne_none_iff_exists'.mp (hargs arg List.mem_cons_self)
          exact ih (fun arg harg => hargs arg (List.mem_cons_of_mem _ harg))
            { m with heap := m.heap.put s param (some v) }

end Eval

/-- All that the call of a closure does is to evaluate the body, in a new scope inside that of the
definition. -/
theorem Task.Part.of_closure {setup : Setup} {depth : Nat} {function receiver : String}
    {params : List String} {body : Node} {scope : Option ScopeId} {args : List Slot} {m : Machine}
    {part : Task} (hpart : Part setup
      ⟨depth + 1, .call (some (.closure function params body scope)) args receiver, m⟩ part) :
    ∃ entered, part = ⟨depth, .eval body, entered⟩ ∧ entered.scope = m.heap.nextScope ∧
      entered.heap.parent? entered.scope = scope ∧
      entered.stack = m.stack.push ⟨function, receiver⟩ := by
  cases hpart with
  | body _ _ hbound =>
      have hparent : (m.heap.addScope scope).parent? m.heap.nextScope = scope := by
        rw [Heap.parent?_addScope, if_pos rfl]
      have htame : (Eval.bindParams m.heap.nextScope params args).Tame setup :=
        Eval.tame_bindParams _ params args
      exact ⟨_, rfl, rfl, (Eval.parent?_of_bindParams hbound _).trans hparent,
        htame.stack_of_ok hbound⟩

/-- What the dispatch of `selector` to `o` does with the value `v` that it has found. -/
structure Task.Uses (setup : Setup) (depth : Nat) (o : ObjectId) (selector : String)
    (args : List Slot) (m : Machine) (v : Value) : Prop where
  /-- A function is called with the arguments, in the name of the target. -/
  calls : v.type = .function →
    Eval.run setup (depth + 1) (.send o selector args) m =
      Eval.run setup (depth + 1) (.call (some v) args (m.heap.objectName o)) m
  /-- The body of a closure sees the scope of the definition, whatever the target is. -/
  inside : ∀ function params body scope, v = .closure function params body scope → ∀ part,
    Part setup ⟨depth + 1, .call (some v) args (m.heap.objectName o), m⟩ part →
    ∃ entered, part = ⟨depth, .eval body, entered⟩ ∧ entered.scope = m.heap.nextScope ∧
      entered.heap.parent? entered.scope = scope ∧
      entered.stack = m.stack.push ⟨function, m.heap.objectName o⟩
  /-- If the arguments are there and there is room for the call, the body is evaluated. -/
  enters : ∀ function params body scope, v = .closure function params body scope →
    args.length = params.length → (∀ arg ∈ args, arg ≠ none) → m.stack.isFull = false →
    ∃ part, Part setup ⟨depth + 1, .call (some v) args (m.heap.objectName o), m⟩ part
  gives : v.type ≠ .function → args = [] →
    Eval.run setup (depth + 1) (.send o selector args) m = .ok (some v) m
  refuses : v.type ≠ .function → args ≠ [] → ∃ error,
    Eval.run setup (depth + 1) (.send o selector args) m = .error (.eval error) m ∧
      error.condition = .notInvokable

theorem Task.uses_of_attribute? {name : String} (hname : IsFieldName name) (setup : Setup)
    (depth : Nat) {o : ObjectId} (args : List Slot) {m : Machine} {v : Value}
    (hfound : m.heap.attribute? o ("." ++ name) = some (some v)) :
    Uses setup depth o ("." ++ name) args m v := by
  have hsend := Eval.sendGet_of_some setup depth args hfound
  rw [← Eval.run_send_dot hname] at hsend
  constructor
  · intro hfunction
    rw [hsend, if_pos hfunction]
  · rintro function params body scope rfl part hpart
    exact hpart.of_closure
  · rintro function params body scope rfl harity hargs hroom
    obtain ⟨bound, hbound⟩ := Eval.exists_bindParams m.heap.nextScope params hargs
      (m.inClosure ⟨function, m.heap.objectName o⟩ scope)
    exact ⟨_, .body hroom harity hbound⟩
  · rintro hplain rfl
    rw [hsend, if_neg hplain]
    rfl
  · intro hplain hargs
    have hlength : args.length ≠ 0 := by simpa using hargs
    rw [hsend, if_neg hplain, if_pos hlength]
    exact ⟨_, rfl, rfl⟩

/-- At every moment of every history, a selector looks along the lineage of its target for the first
object that binds the attribute in its own scope, and takes the dotted binding of that object before
the plain one.  If there is none, the dispatch fails and changes nothing; a function is called in the
name of the target, with a body that sees the scope of its definition; and anything else is the
result, unless there are arguments. -/
theorem Task.Arises.resolves_attribute {host : Host} {deeds : List Deed} {task : Task}
    (harises : task.Arises host deeds) (setup : Setup) (depth : Nat) (o : ObjectId) {name : String}
    (hname : IsFieldName name) (args : List Slot) :
    let m := task.machine
    let path := m.heap.lineage o
    m.heap.Lineage o path ∧
      ((∀ x ∈ path, ¬ m.heap.BindsAttribute x name) → ∃ error,
        Eval.run setup (depth + 1) (.send o ("." ++ name) args) m = .error (.eval error) m ∧
          error.condition = .undefinedAttribute) ∧
      (∀ nearer x farther, path = nearer ++ x :: farther →
        (∀ y ∈ nearer, ¬ m.heap.BindsAttribute y name) → m.heap.BindsAttribute x name →
        ∃ v, m.heap.OffersAttribute x name (some v) ∧
          Uses setup depth o ("." ++ name) args m v) ∧
      (∀ other : Heap, other.objects = m.heap.objects →
        (∀ x ∈ path, ∀ key ∈ ["." ++ name, name],
          other.ownAttribute? x key = m.heap.ownAttribute? x key) →
        other.attribute? o ("." ++ name) = m.heap.attribute? o ("." ++ name)) ∧
      ∀ definition : Definition, definition.evaluates = false → ∀ slot middle,
        definition.value setup depth m = .ok slot middle →
        ∃ params body, slot = some (.closure definition.name params body (some m.scope)) := by
  intro m path
  have hrooted : m.heap.Rooted := Heap.law_rooted.arises Heap.rooted_initialHeap harises
  have hpath : m.heap.Lineage o path := hrooted.lineage o
  refine ⟨hpath, ?_, ?_, ?_, ?_⟩
  · intro hnone
    have hmissing := hpath.attribute?_eq_none_iff.mpr hnone
    rw [Eval.run_send_dot hname, Eval.sendGet_of_none setup depth args hmissing]
    exact ⟨_, rfl, rfl⟩
  · intro nearer x farther hsplit hnearer hbinds
    obtain ⟨v, hoffers⟩ := Heap.exists_offersAttribute harises.filled hbinds
    have hsplit' : m.heap.Lineage o (nearer ++ x :: farther) := hsplit ▸ hpath
    exact ⟨v, hoffers, uses_of_attribute? hname setup depth args
      (hsplit'.attribute?_of_first hnearer hoffers)⟩
  · intro other hobjects hown
    apply hpath.attribute?_congr hobjects
    intro x hx
    rw [Heap.look_dot, Heap.look_dot, hown x hx ("." ++ name) (by simp), hown x hx name (by simp)]
  · intro definition hevaluates slot middle hvalue
    exact Definition.exists_closure_of_value hevaluates hvalue

/-- `y` is defined outside; object 1 has the field `x`, and object 2 is made with it as its prototype. -/
def Deed.inheriting : List Deed :=
  [.operate 3 (.eval (.call "def" [.variable "y", .number (.ofInt 7)])),
    .operate 3 (.eval (.call "object" [.call "x" [.number (.ofInt 1)]])),
    .makeObject "" (some 0), .setPrototype 2 (some 1)]

/-- Object 2 has the field of its prototype, which cannot be called; it does not have `y`, though that
is visible from its own scope. -/
theorem Task.Arises.resolves_attribute_inheriting :
    let interpreter := Interpreter.history Host.standard Deed.inheriting
    let m := interpreter.machine
    Task.Arises Host.standard Deed.inheriting ⟨0, .eval .absent, m⟩ ∧
      IsFieldName "x" ∧ IsFieldName "y" ∧ m.heap.lineage 2 = [2, 1] ∧
      m.heap.resolve? 3 "y" = some (some (.ofInt 7)) ∧
      Eval.run interpreter.setup 1 (.send 2 ("." ++ "x") []) m = .ok (some (.ofInt 1)) m ∧
      (∃ error, Eval.run interpreter.setup 1 (.send 2 ("." ++ "x") [some .null]) m =
        .error (.eval error) m ∧ error.condition = .notInvokable) ∧
      ∃ error, Eval.run interpreter.setup 1 (.send 2 ("." ++ "y") []) m =
        .error (.eval error) m ∧ error.condition = .undefinedAttribute := by
  intro interpreter m
  have harises : Task.Arises Host.standard Deed.inheriting ⟨0, .eval .absent, m⟩ :=
    ⟨0, .eval .absent, _, .eval, .refl⟩
  have hx : IsFieldName "x" := ⟨by decide, by decide, by decide, by decide⟩
  have hy : IsFieldName "y" := ⟨by decide, by decide, by decide, by decide⟩
  have hlineage : m.heap.lineage 2 = [2] ++ 1 :: [] := rfl
  have hbinds : m.heap.BindsAttribute 1 "x" := by decide
  have hnearer : ∀ z ∈ [2], ¬ m.heap.BindsAttribute z "x" := by decide
  have hnone : ∀ z ∈ m.heap.lineage 2, ¬ m.heap.BindsAttribute z "y" := by decide
  have huses : ∀ args, Uses interpreter.setup 0 2 ("." ++ "x") args m (.ofInt 1) := by
    intro args
    obtain ⟨-, -, hfirst, -⟩ := resolves_attribute harises interpreter.setup 0 2 hx args
    obtain ⟨v, hoffers, huses⟩ := hfirst [2] 1 [] hlineage hnearer hbinds
    have hone : m.heap.OffersAttribute 1 "x" (some (.ofInt 1)) := .inr ⟨rfl, rfl⟩
    have hsame := (Heap.look_eq_some_iff.mpr hoffers).symm.trans (Heap.look_eq_some_iff.mpr hone)
    cases hsame
    exact huses
  obtain ⟨-, hmissing, -⟩ := resolves_attribute harises interpreter.setup 0 2 hy []
  exact ⟨harises, hx, hy, hlineage, rfl, (huses []).gives nofun rfl,
    (huses [some .null]).refuses nofun nofun, hmissing hnone⟩

end ProtoLisp
