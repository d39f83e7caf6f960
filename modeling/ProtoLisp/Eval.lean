import ProtoLisp.Eval.Forms

/-!
# Evaluation

`Eval.run` evaluates requests.  Its first argument bounds the depth of the evaluation, and running
against that bound is an outcome of its own, `tooDeep`, apart from all failures of the language.
-/

namespace ProtoLisp.Eval

/-- One level of an evaluation: `evaluate` does the levels below. -/
def step (setup : Setup) (evaluate : Request → Run Slot) : Request → Run Slot
  | .eval node => expression setup evaluate node
  | .call function args receiver => call setup evaluate function args receiver
  | .send target selector args => send setup evaluate target selector args

/-- Meets a request, at most `depth` levels deep. -/
def run (setup : Setup) : (depth : Nat) → Request → Run Slot
  | 0, _ => Run.tooDeep
  | depth + 1, request => step setup (run setup depth) request

end ProtoLisp.Eval
