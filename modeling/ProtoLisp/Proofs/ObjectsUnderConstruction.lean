import ProtoLisp.Proofs.Concealment

/-!
# Objects under construction

The clauses of `(object ...)` are evaluated in the own scope of the new object, so that a closure among
them may carry this scope anywhere.  The object itself is concealed from all of them until the form
returns it.  Hence no object that a clause can come by delegates to it, and a prototype clause never
closes a circle.
-/

namespace ProtoLisp

/-! ## Failures of the form itself -/

/-- From the machine `m`, the step does not fail with the error. -/
def Run.Avoids {α : Type} (error : EvalError) (step : Run α) (m : Machine) : Prop :=
  ∀ last, step m ≠ .error (.eval error) last

namespace Run

variable {α β : Type} {error : EvalError} {m : Machine}

theorem avoids_of_ok {step : Run α} {a : α} {after : Machine} (hok : step m = .ok a after) :
    Avoids error step m := by
  intro last hfails
  rw [hok] at hfails
  cases hfails

theorem avoids_complain {complaint : Complaint} (hother : complaint.condition ≠ error.condition) :
    Avoids error (complain complaint : Run α) m := by
  rintro last ⟨⟩
  exact hother rfl

theorem avoids_crash (cause : Crash) : Avoids error (crash cause : Run α) m := nofun

theorem avoids_bind {step : Run α} {next : α → Run β} (hstep : Avoids error step m)
    (hnext : ∀ a after, step m = .ok a after → Avoids error (next a) after) :
    Avoids error (step >>= next) m := by
  intro last hfails
  cases hrun : step m with
  | ok a after =>
      rw [bind_of_ok hrun] at hfails
      exact hnext a after hrun last hfails
  | error failure after =>
      rw [bind_of_error hrun] at hfails
      cases hfails
      exact hstep last hrun

/-- A step that looks at the machine leaves it alone. -/
theorem avoids_looking {look : Machine → α} {next : α → Run β}
    (hnext : Avoids error (next (look m)) m) :
    Avoids error ((fun m => .ok (look m) m : Run α) >>= next) m :=
  hnext

theorem avoids_define (s : ScopeId) (name : String) (slot : Slot) :
    Avoids error (define s name slot) m := by
  cases slot with
  | none => exact avoids_crash _
  | some v => exact avoids_of_ok rfl

theorem avoids_present (slot : Slot) : Avoids error (present slot) m := by
  cases slot with
  | none => exact avoids_crash _
  | some v => exact avoids_of_ok rfl

theorem avoids_inScope {s : ScopeId} {body : Run α} (hbody : Avoids error body { m with scope := s }) :
    Avoids error (inScope s body) m := by
  intro last hfails
  unfold inScope at hfails
  cases hrun : body { m with scope := s } with
  | ok a after =>
      simp only [hrun] at hfails
      cases hfails
  | error failure after =>
      simp only [hrun] at hfails
      cases hfails
      exact hbody after hrun

end Run

namespace Eval

open Run

variable {evaluate : Request → Run Slot} {error : EvalError} {o : ObjectId} {m : Machine}

theorem avoids_orComplain {α : Type} {result : Except Complaint α}
    (hresult : ∀ complaint, result = .error complaint → complaint.condition ≠ error.condition) :
    Avoids error (orComplain result) m := by
  cases result with
  | ok a => exact avoids_of_ok rfl
  | error complaint => exact avoids_complain (hresult complaint rfl)

section Clauses

variable (hcyclic : error.condition = .cyclicPrototype)

include hcyclic

theorem avoids_methodClause (head body : Node) : Avoids error (methodClause head body) m := by
  apply avoids_bind
  · apply avoids_orComplain
    intro complaint hsignature
    rw [Discipline.condition_of_signature hsignature, hcyclic]
    simp
  rintro ⟨name, params⟩ after _
  apply avoids_looking
  split
  · exact avoids_complain (by simp [hcyclic, Complaint.condition])
  · apply avoids_bind
    · apply avoids_orComplain
      intro complaint hformals
      rw [Discipline.condition_of_formals hformals, hcyclic]
      simp
    intro names after _
    exact avoids_looking (avoids_define _ _ _)

theorem avoids_fieldClause {name : String} {node : Node}
    (hnode : m.heap.ownBinding? m.scope name = none → Avoids error (evaluate (.eval node)) m) :
    Avoids error (fieldClause evaluate name node) m := by
  apply avoids_looking
  split
  · exact avoids_complain (by simp [hcyclic, Complaint.condition])
  next hnew =>
    apply avoids_bind (hnode (by simpa using hnew))
    intro slot evaluated _
    exact avoids_looking (avoids_define _ _ _)

theorem avoids_prototypeClause {node : Node} (hnode : Avoids error (evaluate (.eval node)) m)
    (hlinks : ∀ proto after, evaluate (.eval node) m = .ok (some (.object proto)) after →
      ∃ linked, setPrototype o proto after = .ok true linked) :
    Avoids error (prototypeClause evaluate o node) m := by
  apply avoids_bind hnode
  intro slot evaluated hevaluated
  cases slot with
  | none => exact avoids_bind (avoids_present none) nofun
  | some v =>
      apply avoids_bind (avoids_present _)
      rintro _ after ⟨⟩
      cases v with
      | object proto =>
          obtain ⟨linked, hlinked⟩ := hlinks proto evaluated hevaluated
          apply avoids_bind (avoids_of_ok hlinked)
          intro done after hdone
          rw [hlinked] at hdone
          cases hdone
          exact avoids_of_ok rfl
      | _ =>
          apply avoids_looking
          exact avoids_complain (by simp [hcyclic, Complaint.condition])

theorem avoids_clause {node : Node}
    (hpart : ∀ field inner, node = .call field [inner] → field ≠ "" →
      (field = "prototype" ∨ m.heap.ownBinding? m.scope field = none) →
      Avoids error (evaluate (.eval inner)) m)
    (hlinks : ∀ inner proto after, node = .call "prototype" [inner] →
      evaluate (.eval inner) m = .ok (some (.object proto)) after →
      ∃ linked, setPrototype o proto after = .ok true linked) :
    Avoids error (clause evaluate o node) m := by
  unfold clause
  split
  · exact avoids_methodClause hcyclic _ _
  · exact avoids_complain (by simp [hcyclic, Complaint.condition])
  next inner =>
    exact avoids_prototypeClause hcyclic (hpart "prototype" inner rfl (by simp) (.inl rfl))
      fun proto after => hlinks inner proto after rfl
  next field inner hfield _ =>
    exact avoids_fieldClause hcyclic fun hnew => hpart field inner rfl hfield (.inr hnew)
  · exact avoids_complain (by simp [hcyclic, Complaint.condition])
  · exact avoids_complain (by simp [hcyclic, Complaint.condition])

end Clauses

theorem avoids_clauses {nodes : List Node}
    (hnodes : ∀ front node rest found, nodes = front ++ node :: rest →
      clauses evaluate o front m = .ok () found → Avoids error (clause evaluate o node) found) :
    Avoids error (clauses evaluate o nodes) m := by
  induction nodes generalizing m with
  | nil => exact avoids_of_ok rfl
  | cons node nodes ih =>
      apply avoids_bind (hnodes [] node nodes m rfl rfl)
      intro _ middle hclause
      apply ih
      intro front other rest found hrest hfront
      apply hnodes (node :: front) other rest found (congrArg (node :: ·) hrest)
      rw [← hfront]
      exact bind_of_ok hclause _

theorem run_construction (setup : Setup) (depth : Nat) (nodes : List Node) :
    run setup (depth + 1) (.eval (.call "object" nodes)) =
      construct (run setup depth) (objectParts nodes).1 (objectParts nodes).2 := by
  rw [← construction_eq]
  simp [run, step, expression, form]

/-- The form leaves the heap that its clauses leave. -/
theorem heap_after_construction (setup : Setup) (depth : Nat) (nodes : List Node) (m : Machine) :
    ((run setup (depth + 1) (.eval (.call "object" nodes))).after m).heap =
      ((clauses (run setup depth) m.heap.nextObject (objectParts nodes).2).after
        (m.inObject (objectParts nodes).1)).heap := by
  let filled : Run Slot := do
    clauses (run setup depth) m.heap.nextObject (objectParts nodes).2
    return some (.object m.heap.nextObject)
  have hinside : ((construct (run setup depth) (objectParts nodes).1 (objectParts nodes).2).after
      m).heap = (filled.after (m.inObject (objectParts nodes).1)).heap :=
    heap_after_inScope m.heap.nextScope filled _
  rw [run_construction, hinside]
  cases hrun : clauses (run setup depth) m.heap.nextObject (objectParts nodes).2
    (m.inObject (objectParts nodes).1) with
  | ok a last =>
      have hfilled : filled (m.inObject (objectParts nodes).1) =
          .ok (some (.object m.heap.nextObject)) last := bind_of_ok hrun _
      rw [after_of_ok hrun, after_of_ok hfilled]
  | error failure last =>
      have hfilled : filled (m.inObject (objectParts nodes).1) = .error failure last :=
        bind_of_error hrun _
      rw [after_of_error hrun, after_of_error hfilled]

end Eval

/-! ## Concealment from the clauses -/

/-- Something on the heap refers to the object. -/
def Heap.Mentions (heap : Heap) (o : ObjectId) : Prop :=
  (∃ s name, (name, some (.object o)) ∈ heap.bindings s) ∨ ∃ x, heap.proto? x = some o

/-- The task has to do with the object: it holds it, it finds or leaves a heap that mentions it, or it
returns it. -/
def Task.Meets (setup : Setup) (task : Task) (o : ObjectId) : Prop :=
  some (.object o) ∈ task.request.slots ∨ task.machine.heap.Mentions o ∨
    (task.after setup).heap.Mentions o ∨ ∃ last, task.outcome setup = .ok (some (.object o)) last

theorem Heap.Conceals.not_mentions {heap : Heap} {hidden : Set ObjectId} {o : ObjectId}
    (hconceals : heap.Conceals hidden) (ho : o ∈ hidden) : ¬ heap.Mentions o := by
  rintro (⟨s, name, hmem⟩ | ⟨x, hproto⟩)
  · exact (hconceals.bound s name o hmem).2 ho
  · exact (hconceals.proto x o hproto).2 ho

namespace Discipline

variable {setup : Setup} {held hidden : Set ObjectId} {o : ObjectId} {m : Machine}

theorem Keeps.sound_after {α : Type} {D : Discipline} {step : Run α} {good : Heap → α → Prop}
    (hkeeps : D.Keeps m step good) (hsound : D.Sound m.heap) : D.Sound (step.after m).heap := by
  cases hrun : step m with
  | ok a last =>
      rw [Run.after_of_ok hrun]
      exact (hkeeps.of_ok hsound hrun).1.sound
  | error failure last =>
      rw [Run.after_of_error hrun]
      exact (hkeeps.of_error hsound hrun).1.sound

theorem not_meets_of_permits (hhost : setup.host.NamesOnly held) (ho : o ∈ hidden) {task : Task}
    (hpermits : (concealing held hidden).Permits task) : ¬ task.Meets setup o := by
  have hkeeps := serves_run (lawful_concealing hhost) task.depth task.machine task.request hpermits.2
  rintro (hslot | hfound | hleft | ⟨last, hok⟩)
  · exact (ready_concealing_iff.mp hpermits.2 o hslot).2 ho
  · exact hpermits.1.1.not_mentions ho hfound
  · exact (hkeeps.sound_after hpermits.1).1.not_mentions ho hleft
  · exact ((hkeeps.of_ok hpermits.1 hok).2 o rfl).2 ho

/-- A hidden object can be given any prototype that can be come by. -/
theorem setPrototype_concealing (hsound : (concealing held hidden).Sound m.heap) (ho : o ∈ hidden)
    {proto : ObjectId} (hproto : m.heap.Shows hidden proto) :
    Run.setPrototype o proto m =
      .ok true { m with heap := m.heap.linkPrototype o (some proto) } := by
  have hacyclic := hsound.1.isInstance_eq_false hproto ho
  simp [Run.setPrototype, hacyclic]

theorem links_concealing (ho : o ∈ hidden) : (concealing held hidden).Links m o := by
  intro after proto _ hproto hsound
  have hshows := hproto proto rfl
  rw [setPrototype_concealing hsound ho hshows]
  obtain ⟨hsound', hincludes⟩ := sound_link_concealing hsound o hshows
  exact ⟨⟨rfl, rfl, hsound', hincludes⟩, trivial⟩

theorem sound_inObject (hsound : (concealing held ∅).Sound m.heap) (name : String) :
    (concealing held {m.heap.nextObject}).Sound (m.inObject name).heap := by
  refine ⟨hsound.1.addObject name (some m.scope) fun o ho => .inr ho, ?_⟩
  intro o ho
  have hold := (hsound.2 o ho).1
  refine ⟨?_, ?_⟩
  · simp only [Machine.inObject, Heap.addObject, Heap.addScope, Array.size_push]
    exact Nat.lt_succ_of_lt hold
  · rintro rfl
    exact absurd hold (Nat.lt_irrefl _)

/-- The new object stays concealed while its clauses are evaluated, however they end. -/
theorem keeps_clauses_concealing (hhost : setup.host.NamesOnly held) (depth : Nat) (name : String)
    (nodes : List Node) :
    (concealing held {m.heap.nextObject}).Keeps (m.inObject name)
      (Eval.clauses (Eval.run setup depth) m.heap.nextObject nodes) fun _ _ => True :=
  have hlawful := lawful_concealing hhost
  keeps_clauses hlawful (serves_run hlawful depth) (fun _ _ => trivial) trivial
    (links_concealing rfl)

end Discipline

/-! ## The form -/

namespace Task

variable {setup : Setup} {depth : Nat} {nodes : List Node} {m : Machine}

/-- The parts of the form are the expressions of its clauses. -/
theorem Part.exists_clause {part : Task}
    (hpart : Part setup ⟨depth + 1, .eval (.call "object" nodes), m⟩ part) :
    ∃ node front rest found, (Eval.objectParts nodes).2 = front ++ rest ∧
      Eval.clauses (Eval.run setup depth) m.heap.nextObject front
        (m.inObject (Eval.objectParts nodes).1) = .ok () found ∧
      part = ⟨depth, .eval node, found⟩ := by
  generalize hform : (⟨depth + 1, .eval (.call "object" nodes), m⟩ : Task) = form at hpart
  cases hpart with
  | argument happlies _ _ _ =>
      cases hform
      exact (happlies.2.2.2.1 rfl).elim
  | application happlies _ _ _ =>
      cases hform
      exact (happlies.2.2.2.1 rfl).elim
  | clause hparts hdone _ _ =>
      cases hform
      rw [hparts]
      exact ⟨_, _, _, _, rfl, hdone, rfl⟩
  | target hselector =>
      cases hform
      cases hselector
  | operand hselector _ _ =>
      cases hform
      cases hselector
  | dispatch hselector _ _ =>
      cases hform
      cases hselector
  | _ => simp at hform

/-- A failure of the form with the condition of a circle is the failure of a part, provided that the
prototypes of the clauses can be linked. -/
theorem exists_part_of_cyclic
    (hlinks : ∀ front rest found node proto after,
      (Eval.objectParts nodes).2 = front ++ .call "prototype" [node] :: rest →
      Eval.clauses (Eval.run setup depth) m.heap.nextObject front
        (m.inObject (Eval.objectParts nodes).1) = .ok () found →
      Eval.run setup depth (.eval node) found = .ok (some (.object proto)) after →
      ∃ linked, Run.setPrototype m.heap.nextObject proto after = .ok true linked)
    {error : EvalError} {last : Machine} (hcyclic : error.condition = .cyclicPrototype)
    (hfails : Task.outcome setup ⟨depth + 1, .eval (.call "object" nodes), m⟩ =
      .error (.eval error) last) :
    ∃ part last', Part setup ⟨depth + 1, .eval (.call "object" nodes), m⟩ part ∧
      part.outcome setup = .error (.eval error) last' := by
  -- If no part fails so, no clause does: what a clause itself complains of is something else.
  by_contra hnone
  have hparts : ∀ part, Part setup ⟨depth + 1, .eval (.call "object" nodes), m⟩ part →
      Run.Avoids error (Eval.run setup part.depth part.request) part.machine :=
    fun part hpart last' hlast => hnone ⟨part, last', hpart, hlast⟩
  have hclauses : Run.Avoids error
      (Eval.clauses (Eval.run setup depth) m.heap.nextObject (Eval.objectParts nodes).2)
      (m.inObject (Eval.objectParts nodes).1) := by
    apply Eval.avoids_clauses
    intro front node rest found hnodes hfront
    apply Eval.avoids_clause hcyclic
    · rintro field inner rfl hfield hnew
      exact hparts _ (.clause (Prod.ext rfl hnodes) hfront hfield hnew)
    · rintro inner proto after rfl hinner
      exact hlinks front rest found inner proto after hnodes hfront hinner
  have hform : Run.Avoids error
      (Eval.construct (Eval.run setup depth) (Eval.objectParts nodes).1 (Eval.objectParts nodes).2)
      m := by
    apply Run.avoids_bind (Run.avoids_of_ok rfl)
    rintro opened after hopened
    cases hopened
    apply Run.avoids_inScope
    exact Run.avoids_bind hclauses fun _ _ _ => Run.avoids_of_ok rfl
  rw [outcome, Eval.run_construction] at hfails
  exact hform last hfails

/-- Wherever `(object ...)` is evaluated, nothing in the course of its clauses meets the new object, and
nothing refers to it between them and in the end.  So each prototype that a clause has found is linked,
and if the form fails with the condition of a circle, some expression of a clause has failed so. -/
theorem ArisesHonestly.conceals_new_object {host : Host} {deeds : List Deed}
    (harises : ArisesHonestly host deeds ⟨depth + 1, .eval (.call "object" nodes), m⟩) :
    let setup := (Interpreter.history host deeds).setup
    let form : Task := ⟨depth + 1, .eval (.call "object" nodes), m⟩
    let o := m.heap.nextObject
    let evaluate := Eval.run setup depth
    (∀ part moment, Part setup form part → Course setup part moment → ¬ moment.Meets setup o) ∧
      (∀ front rest found, (Eval.objectParts nodes).2 = front ++ rest →
        Eval.clauses evaluate o front (m.inObject (Eval.objectParts nodes).1) = .ok () found →
        ¬ found.heap.Mentions o ∧
          ∀ node others proto after, rest = .call "prototype" [node] :: others →
            evaluate (.eval node) found = .ok (some (.object proto)) after →
            Run.setPrototype o proto after =
              .ok true { after with heap := after.heap.linkPrototype o (some proto) }) ∧
      ¬ (form.after setup).heap.Mentions o ∧
      ∀ error last, form.outcome setup = .error (.eval error) last →
        error.condition = .cyclicPrototype →
        ∃ part last', Part setup form part ∧ part.outcome setup = .error (.eval error) last' := by
  intro setup form o evaluate
  -- Up to here nothing is hidden; from the moment the object is made, it alone is.
  obtain ⟨held, hhost, hsound, -⟩ := harises.exists_permits
  have hlawful : (Discipline.concealing held {o}).Lawful setup := Discipline.lawful_concealing hhost
  have hopened := Discipline.sound_inObject hsound (Eval.objectParts nodes).1
  have hkeeps := Discipline.keeps_clauses_concealing (m := m) hhost depth (Eval.objectParts nodes).1
  have hclauses : ∀ front found,
      Eval.clauses evaluate o front (m.inObject (Eval.objectParts nodes).1) = .ok () found →
      (Discipline.concealing held {o}).Sound found.heap :=
    fun front found hdone => ((hkeeps front).of_ok hopened hdone).1.sound
  have hlinks : ∀ front found node proto after,
      Eval.clauses evaluate o front (m.inObject (Eval.objectParts nodes).1) = .ok () found →
      evaluate (.eval node) found = .ok (some (.object proto)) after →
      Run.setPrototype o proto after =
        .ok true { after with heap := after.heap.linkPrototype o (some proto) } := by
    intro front found node proto after hdone hnode
    obtain ⟨hleaves, hadmits⟩ := (Discipline.keeps_eval (Discipline.serves_run hlawful depth) trivial
      trivial).of_ok (hclauses front found hdone) hnode
    exact Discipline.setPrototype_concealing hleaves.sound rfl (hadmits proto rfl)
  refine ⟨?_, ?_, ?_, ?_⟩
  · intro part moment hpart hcourse
    obtain ⟨node, front, rest, found, -, hdone, rfl⟩ := hpart.exists_clause
    have hpermits : (Discipline.concealing held {o}).Permits ⟨depth, .eval node, found⟩ :=
      ⟨hclauses front found hdone, trivial, trivial⟩
    have hmoment := Discipline.permits_course hlawful hcourse hpermits
    exact Discipline.not_meets_of_permits hhost (Set.mem_singleton o) hmoment
  · intro front rest found _ hdone
    refine ⟨(hclauses front found hdone).1.not_mentions rfl, ?_⟩
    intro node others proto after _ hnode
    exact hlinks front found node proto after hdone hnode
  · have hafter : (form.after setup).heap = _ := Eval.heap_after_construction setup depth nodes m
    rw [hafter]
    exact ((hkeeps _).sound_after hopened).1.not_mentions rfl
  · intro error last hfails hcyclic
    refine exists_part_of_cyclic ?_ hcyclic hfails
    intro front rest found node proto after _ hdone hnode
    exact ⟨_, hlinks front found node proto after hdone hnode⟩

end Task

/-- `(def a (object a))` and `(def leak 0)` are evaluated. -/
def Deed.preparingLeak : List Deed :=
  [.operate 9 (.eval (.call "def" [.variable "a", .call "object" [.variable "a"]])),
    .operate 9 (.eval (.call "def" [.variable "leak", .number (.ofInt 0)]))]

/-- `(object b [x (set! leak (do (def (peek) x) peek))] [prototype a])`: the field carries a function
away that is inside the own scope of the object. -/
def Node.leaking : Node :=
  .call "object" [.variable "b",
    .call "x" [.call "set!" [.variable "leak",
      .call "do" [.call "def" [.call "peek" [], .variable "x"], .variable "peek"]]],
    .call "prototype" [.variable "a"]]

def Task.leaking : Task :=
  ⟨9, .eval .leaking, (Interpreter.history Host.standard Deed.preparingLeak).machine⟩

/-- The object `b` is the third of all; its prototype becomes `a`, and nothing has met it before. -/
theorem Task.ArisesHonestly.conceals_new_object_leaking :
    let setup := (Interpreter.history Host.standard Deed.preparingLeak).setup
    Task.leaking.ArisesHonestly Host.standard Deed.preparingLeak ∧
      (∃ last, Task.leaking.outcome setup = .ok (some (.object 2)) last ∧
        last.heap.proto? 2 = some 1 ∧
        last.heap.resolve? 0 "leak" = some (some (.closure "peek" [] (.variable "x") (some 4)))) ∧
      ∀ part moment, Part setup Task.leaking part → Course setup part moment →
        ¬ moment.Meets setup 2 := by
  intro setup
  have hhost := Host.standard_usesOnlyArguments.namesOnly
  have harises : Task.leaking.ArisesHonestly Host.standard Deed.preparingLeak := by
    refine ⟨9, _, _, ?_, .eval, .refl⟩
    intro front deed rest hsplit
    have hdeed : deed ∈ Deed.preparingLeak ++ [.operate 9 (.eval .leaking)] := by
      rw [hsplit]
      simp
    simp only [Deed.preparingLeak, List.cons_append, List.nil_append, List.mem_cons,
      List.not_mem_nil, or_false] at hdeed
    rcases hdeed with rfl | rfl | rfl
    all_goals exact ⟨hhost _, nofun⟩
  refine ⟨harises, ⟨_, rfl, rfl, rfl⟩, ?_⟩
  exact (conceals_new_object harises).1

end ProtoLisp
