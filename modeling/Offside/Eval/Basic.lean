import Offside.Eval.Env
import Offside.Eval.Native

/-!
# Evaluation

The depth of an evaluation is the number of evaluations that it is nested in; a limit bounds it. An
evaluation that nothing is around runs on a stack of its own (`onStack`), large enough for the limit;
where the machine has none, it fails before it starts.
One level of evaluation (`evalStep`) is written over the evaluation of the levels below, in any monad
that has the effects of evaluation, and `eval` ties the two together by recursion on the number of
levels that are left.

* a variable is evaluated in the environment of the frame that binds it;
* a function captures its environment and becomes a closure;
* a call evaluates its operator, then its operands from left to right, and then applies;
* the conditional evaluates its condition and one of its branches;
* an application with too few arguments keeps them and leaves the other parameters open.
-/

namespace Offside

/-- The way to evaluate an expression in an environment. -/
abbrev Evaluator (m : Type → Type := EvalM) := Env → Expr → m Expr

section Level

variable {m : Type → Type} [Monad m] [MonadLiftT EvalM m]

/-- Ends with an error. -/
def fail {α : Type} (error : EvalError) : m α :=
  liftM (throw error : EvalM α)

namespace Closure

/-- The name that errors give the function. -/
def name : Closure → String
  | compound .. => "<closure>"
  | native name .. => name

/-- Binds the first parameters to arguments, and leaves the others open. -/
def applyPartly (closure : Closure) (args : List Expr) : EvalM Closure :=
  match closure with
  | compound params env locals body => do
    let env ← env.extendM (Env.pairs (params.take args.length) args)
    pure (compound (params.drop args.length) env locals body)
  | native name params applied function =>
    pure (native name (params.drop args.length) (applied ++ args) function)

/-- Applies a function to as many arguments as it has open parameters. -/
def applyFully (evaluate : Evaluator m) (closure : Closure) (args : List Expr) : m Expr :=
  match closure with
  | compound params env locals body => do
    let bound ← env.extendM (Env.pairs params args)
    let scope ← bound.extendM locals
    evaluate scope body
  | native _ _ applied function => liftM (function.operation.call (applied ++ args))

/-- Applies a function to at most as many arguments as it has open parameters. -/
def applyWith (evaluate : Evaluator m) (closure : Closure) (args : List Expr) : m Expr :=
  let arity := closure.params.length
  if arity < args.length then fail (.arity closure.name arity args.length)
  else if args.length < arity then do
    let rest ← closure.applyPartly args
    pure (.closure rest)
  else closure.applyFully evaluate args

end Closure

/-- Evaluates expressions from left to right. -/
def evalAll (evaluate : Evaluator m) (env : Env) : List Expr → m (List Expr)
  | [] => pure []
  | expr :: rest => do
    let value ← evaluate env expr
    let values ← evalAll evaluate env rest
    pure (value :: values)

/-- Evaluates the conditional. -/
def evalIfElse (evaluate : Evaluator m) (env : Env) (operands : List Expr) : m Expr :=
  match operands with
  | [condition, thenBranch, elseBranch] => do
    match ← evaluate env condition with
    | .lit (.bool true) => evaluate env thenBranch
    | .lit (.bool false) => evaluate env elseBranch
    | other => fail (.wrongKind ifElse .condition other.kind)
  | _ => fail (.arity ifElse 3 operands.length)

/-- Evaluates a variable. -/
def evalVar (evaluate : Evaluator m) (env : Env) (name : String) : m Expr := do
  let found ← env.resolveM name
  if found.bound.isNormal then pure found.bound else evaluate found.scope found.bound

/-- Evaluates the call of an operator that is not the conditional. -/
def evalCall (evaluate : Evaluator m) (env : Env) (operator : Expr) (operands : List Expr) :
    m Expr := do
  match ← evaluate env operator with
  | .closure closure => do
    let args ← evalAll evaluate env operands
    closure.applyWith evaluate args
  | _ => fail (.notAFunction operator.text)

/-- One level of evaluation, over the levels below. -/
def evalStep (evaluate : Evaluator m) (env : Env) (expr : Expr) : m Expr :=
  match expr with
  | .lit _ | .record .. | .closure _ => pure expr
  | .var name => evalVar evaluate env name
  | .function params locals body => pure (.closure (.compound params env locals body))
  | .scope locals body => do
    let inner ← env.extendM locals
    evaluate inner body
  | .call operator operands =>
    if operator.isIfElse then evalIfElse evaluate env operands
    else evalCall evaluate env operator operands

/-- Runs a computation on a stack of its own, one for evaluation up to a limit. -/
def onStack {α : Type} (limit : Nat) (computation : m α) : m α := do
  World.reserve limit
  computation

end Level

/-- Evaluates with a number of levels left of a limit. -/
def eval (limit : Nat) : (levels : Nat) → Evaluator
  | 0, _, _ => throw (.depthExceeded limit)
  | levels + 1, env, expr => evalStep (eval limit levels) env expr

/-- Evaluates an expression. -/
def Expr.evaluate (limit : Nat) (env : Env) (expr : Expr) : EvalM Expr :=
  onStack limit (eval limit limit env expr)

/-- Applies a function to arguments. -/
def Closure.apply (limit : Nat) (closure : Closure) (args : List Expr) : EvalM Expr :=
  onStack limit (closure.applyWith (eval limit limit) args)

end Offside
