import Offside.Eval.Basic

/-!
# Evaluators with a counter

An evaluator that is kept for many calls holds a limit, and counts how many evaluations it is inside
of. An evaluation that the limit leaves no room for ends in an error. Any other one counts itself,
evaluates one level, and takes itself off the count again, whether the level ends in a value or in an
error.

* `Counter` -- the limit, the count, and the greatest count so far;
* `CountM` -- computations that change a counter besides what evaluation changes;
* `Counter.nest` -- a computation that is counted;
* `Counter.eval` -- evaluation by a counter, over the same level of evaluation as `eval`;
* `Call` -- what an evaluator can be asked to do, and `Call.inTurn`, one call after another.

Whether an evaluation goes on is decided by the count alone. That this comes to an end is a fact about
the counter and not about the recursion, so `CountM` has computations without a result, and
`Counter.evalWithin` has none where its evaluations would nest too deep.
-/

namespace Offside

/-! ## 1. Counters -/

/-- How deep an evaluator may go, and how deep it is. -/
structure Counter where
  limit : Nat
  /-- the number of evaluations that are going on -/
  depth : Nat
  /-- the greatest depth so far; it decides nothing -/
  peak : Nat
  deriving DecidableEq

namespace Counter

/-- The counter of a new evaluator. -/
def start (limit : Nat) : Counter :=
  ⟨limit, 0, 0⟩

/-- Counts an evaluation that starts. -/
def enter (counter : Counter) : Counter :=
  { counter with depth := counter.depth + 1, peak := max counter.peak (counter.depth + 1) }

/-- Takes an evaluation off the count. -/
def leave (counter : Counter) : Counter :=
  { counter with depth := counter.depth - 1 }

end Counter

/-! ## 2. Computations that count -/

/-- Computations that change a counter and a world, and may fail; there is no result where one does
not come to an end. What has been changed is kept when a computation fails. -/
abbrev CountM := ExceptT EvalError (StateT (Counter × World) Option)

/-- Evaluation without a counter leaves the counter alone. -/
instance : MonadLift EvalM CountM where
  monadLift m := fun (counter, world) =>
    let (outcome, after) := m.run world
    some (outcome, counter, after)

namespace Counter

/-- A computation one evaluation deeper, if the limit leaves room for it. -/
def nest {α : Type} (inner : CountM α) : CountM α := fun (counter, world) =>
  if counter.limit ≤ counter.depth then
    some (.error (.depthExceeded counter.limit), counter, world)
  else
    match inner.run (counter.enter, world) with
    | none => none
    | some (outcome, after, left) => some (outcome, after.leave, left)

/-! ## 3. Evaluation by a counter -/

/-- Evaluates with at most a number of evaluations inside of each other; there is no result where the
counter asks for more. -/
def evalWithin : (nested : Nat) → Evaluator CountM
  | 0, _, _ => fun _ => none
  | nested + 1, env, expr => nest (evalStep (evalWithin nested) env expr)

/-- Evaluates an expression, as deep as the counter allows. The last of the evaluations inside of each
other is the one that finds the limit reached. -/
def eval (env : Env) (expr : Expr) : CountM Expr := fun (counter, world) =>
  (evalWithin (counter.limit + 1) env expr).run (counter, world)

end Counter

/-! ## 4. Calls of an evaluator -/

/-- What an evaluator can be asked to do. -/
inductive Call
  | evaluate (env : Env) (expr : Expr)
  | apply (closure : Closure) (args : List Expr)

/-- How a call ends, and what it leaves. -/
structure Answer where
  outcome : Except EvalError Expr
  world : World
  counter : Counter

/-- What the caller sees of an answer: not the counter. -/
def Answer.seen (answer : Answer) : Except EvalError Expr × World :=
  (answer.outcome, answer.world)

namespace Call

/-- What the call computes by a counter, on a stack for the limit. -/
def counted (limit : Nat) : Call → CountM Expr
  | evaluate env expr => onStack limit (Counter.eval env expr)
  | apply closure args => onStack limit (closure.applyWith Counter.eval args)

/-- Makes a call of an evaluator; there is no answer if the call does not come to an end. -/
def on (call : Call) (counter : Counter) (world : World) : Option Answer :=
  ((call.counted counter.limit).run (counter, world)).map fun (outcome, after, left) =>
    ⟨outcome, left, after⟩

/-- Makes calls of one evaluator in turn, each in the world that it finds. A call that fails does not
keep the evaluator from the next one. -/
def inTurn (counter : Counter) : List (Call × World) → Option (List Answer)
  | [] => some []
  | (call, world) :: rest => do
    let answer ← call.on counter world
    let answers ← inTurn answer.counter rest
    pure (answer :: answers)

end Call

end Offside
