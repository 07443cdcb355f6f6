import Offside.Proofs.Outcome

/-!
# Relations that evaluation keeps

Two runs are compared through a relation between computations. Evaluation puts its computations
together from few pieces, so it is enough to know that the relation holds of these:

* `Congruence` -- a relation that holds of values, errors, one computation after another, the number
  of the next frame, and lines that are written. The two computations may be of different monads, as
  long as both have the effects of evaluation;
* `Congruence.call` -- hence of native functions, whatever their arguments are;
* `Congruence.step` -- and of one level of evaluation, if it holds of the levels below.
-/

namespace Offside

/-! ## 1. What evaluation knows of frames -/

/-- The number that the next frame has. -/
def World.nextFrame : EvalM Nat := do
  let world ← get
  pure world.frames

/-- Goes on with another number for the next frame. -/
def World.setNextFrame (next : Nat) : EvalM PUnit := do
  let world ← get
  set { world with frames := next }

theorem World.freshFrame_eq :
    World.freshFrame = (do
      let next ← World.nextFrame
      World.setNextFrame (next + 1)
      pure next) := rfl

/-- A name is found by the number of the next frame; nothing else of the world counts. -/
theorem Env.resolveM_eq (env : Env) (name : String) :
    env.resolveM name = (do
      let next ← World.nextFrame
      match env.resolve next name with
      | none => throw (.unboundName name)
      | some found => do
        World.setNextFrame found.next
        pure found) := by
  refine funext fun world => (env.resolveM_run name world).trans ?_
  change _ = ExceptT.run (m := StateM World) (match env.resolve world.frames name with
    | none => _
    | some found => _) world
  cases env.resolve world.frames name <;> rfl

/-! ## 2. Relations that hold of the pieces -/

section Relation

variable {m m' : Type → Type} [Monad m] [MonadLiftT EvalM m] [Monad m'] [MonadLiftT EvalM m']

/-- A relation between computations that holds of all that evaluation is put together from. -/
structure Congruence (R : ⦃α : Type⦄ → m α → m' α → Prop) : Prop where
  pure : ∀ {α : Type} (a : α), R (Pure.pure a) (Pure.pure a)
  /-- only the limit has an error of its own in two runs -/
  throw : ∀ {α : Type} {error : EvalError}, (∀ depth, error ≠ .depthExceeded depth) →
    R (fail error : m α) (fail error)
  bind : ∀ {α β : Type} {x : m α} {x' : m' α} {f : α → m β} {f' : α → m' β},
    R x x' → (∀ a, R (f a) (f' a)) → R (x >>= f) (x' >>= f')
  nextFrame : R (liftM World.nextFrame) (liftM World.nextFrame)
  setNextFrame : ∀ next, R (liftM (World.setNextFrame next)) (liftM (World.setNextFrame next))
  write : ∀ line, R (liftM (World.write line)) (liftM (World.write line))

/-- The relation holds between the two ways to run a computation of evaluation. -/
def Lifts (R : ⦃α : Type⦄ → m α → m' α → Prop) {α : Type} (x : EvalM α) : Prop :=
  R (liftM x) (liftM x)

/-- Two choices by one condition are related if the alternatives are. -/
theorem rel_ite {σ τ : Type} {R : σ → τ → Prop} {p : Prop} [Decidable p] {x y : σ} {x' y' : τ}
    (h : p → R x x') (h' : ¬p → R y y') : R (if p then x else y) (if p then x' else y') := by
  by_cases hp : p
  · rw [if_pos hp, if_pos hp]
    exact h hp
  · rw [if_neg hp, if_neg hp]
    exact h' hp

namespace Congruence

variable {R : ⦃α : Type⦄ → m α → m' α → Prop} (hR : Congruence R)
  [LawfulMonadLiftT EvalM m] [LawfulMonadLiftT EvalM m']

include hR

theorem liftPure {α : Type} (a : α) : Lifts R (Pure.pure a : EvalM α) := by
  rw [Lifts, liftM_pure, liftM_pure]
  exact hR.pure a

omit [LawfulMonadLiftT EvalM m] [LawfulMonadLiftT EvalM m'] in
theorem liftThrow {α : Type} {error : EvalError} (h : ∀ depth, error ≠ .depthExceeded depth) :
    Lifts R (MonadExcept.throw error : EvalM α) :=
  hR.throw h

theorem liftBind {α β : Type} {x : EvalM α} {f : α → EvalM β} (hx : Lifts R x)
    (hf : ∀ a, Lifts R (f a)) : Lifts R (x >>= f) := by
  rw [Lifts, liftM_bind, liftM_bind]
  exact hR.bind hx hf

theorem writeTo (outlet : Outlet) (line : String) : Lifts R (World.writeTo outlet line) := by
  cases outlet with
  | void => exact hR.liftPure _
  | console => exact hR.write line

theorem extendM (env : Env) (bindings : Bindings) : Lifts R (env.extendM bindings) := by
  refine iteInduction (fun _ => hR.liftPure env) fun _ => hR.liftBind ?_ fun number => hR.liftPure _
  rw [World.freshFrame_eq]
  exact hR.liftBind hR.nextFrame fun next =>
    hR.liftBind (hR.setNextFrame _) fun _ => hR.liftPure next

theorem resolveM (env : Env) (name : String) : Lifts R (env.resolveM name) := by
  rw [Env.resolveM_eq]
  refine hR.liftBind hR.nextFrame fun next => ?_
  split
  · exact hR.liftThrow nofun
  · exact hR.liftBind (hR.setNextFrame _) fun _ => hR.liftPure _

/-! ## 3. Native functions -/

theorem integer (operation : Operation) (value : Expr) : Lifts R (operation.integer value) := by
  unfold Operation.integer
  split
  · exact hR.liftPure _
  · exact hR.liftThrow nofun

theorem string (operation : Operation) (value : Expr) : Lifts R (operation.string value) := by
  unfold Operation.string
  split
  · exact hR.liftPure _
  · exact hR.liftThrow nofun

theorem comparable (operation : Operation) (value : Expr) :
    Lifts R (operation.comparable value) :=
  iteInduction (fun _ => hR.liftPure _) fun _ => hR.liftThrow nofun

theorem exactly (operation : Operation) (result : Option Int64) :
    Lifts R (operation.exactly result) := by
  cases result with
  | none => exact hR.liftThrow nofun
  | some value => exact hR.liftPure _

theorem onIntegers (operation : Operation) (a b : Expr) {f : Int64 → Int64 → EvalM Expr}
    (hf : ∀ x y, Lifts R (f x y)) : Lifts R (operation.onIntegers a b f) :=
  hR.liftBind (hR.integer operation a) fun x =>
    hR.liftBind (hR.integer operation b) fun y => hf x y

theorem dividing (operation : Operation) (a b : Expr) (f : Int64 → Int64 → Option Int64) :
    Lifts R (operation.dividing a b f) :=
  hR.onIntegers operation a b fun x y =>
    iteInduction (fun _ => hR.liftThrow nofun) fun _ => hR.exactly operation (f x y)

/-- **The relation holds of native functions**, whatever their arguments are. -/
theorem call (operation : Operation) (args : List Expr) : Lifts R (operation.call args) := by
  unfold Operation.call
  split
  · exact hR.onIntegers _ _ _ fun x y => hR.exactly _ _
  · exact hR.onIntegers _ _ _ fun x y => hR.exactly _ _
  · exact hR.onIntegers _ _ _ fun x y => hR.exactly _ _
  · exact hR.dividing _ _ _ _
  · exact hR.dividing _ _ _ _
  · exact hR.onIntegers _ _ _ fun x y => hR.liftPure _
  · exact hR.onIntegers _ _ _ fun x y => hR.liftPure _
  · exact hR.liftBind (hR.comparable _ _) fun _ =>
      hR.liftBind (hR.comparable _ _) fun _ => hR.liftPure _
  · exact hR.liftBind (hR.string _ _) fun _ => hR.liftBind (hR.string _ _) fun _ => hR.liftPure _
  · exact hR.liftBind (hR.integer _ _) fun _ => hR.liftPure _
  · exact hR.liftBind (hR.string _ _) fun line =>
      hR.liftBind (hR.writeTo _ line) fun _ => hR.liftPure _
  · exact iteInduction (fun _ => hR.liftPure _) fun _ => hR.liftThrow nofun
  · split
    · refine iteInduction (fun _ => ?_) fun _ => hR.liftThrow nofun
      split
      · exact hR.liftPure _
      · exact hR.liftThrow nofun
    · exact hR.liftThrow nofun
  · exact hR.liftThrow nofun

theorem applyPartly (closure : Closure) (args : List Expr) :
    Lifts R (closure.applyPartly args) := by
  cases closure with
  | compound params env locals body =>
      exact hR.liftBind (hR.extendM env _) fun env => hR.liftPure _
  | native name params applied function => exact hR.liftPure _

/-! ## 4. One level of evaluation -/

section Step

variable {evaluate : Evaluator m} {evaluate' : Evaluator m'}
  (h : ∀ env expr, R (evaluate env expr) (evaluate' env expr))

include h

omit [LawfulMonadLiftT EvalM m] [LawfulMonadLiftT EvalM m'] in
theorem evalAll (env : Env) (operands : List Expr) :
    R (Offside.evalAll evaluate env operands) (Offside.evalAll evaluate' env operands) := by
  induction operands with
  | nil => exact hR.pure []
  | cons operand operands ih =>
      exact hR.bind (h env operand) fun value => hR.bind ih fun _ => hR.pure _

theorem applyFully (closure : Closure) (args : List Expr) :
    R (closure.applyFully evaluate args) (closure.applyFully evaluate' args) := by
  cases closure with
  | compound params env locals body =>
      refine hR.bind (hR.extendM env _) fun bound => ?_
      exact hR.bind (hR.extendM bound locals) fun scope => h scope body
  | native name params applied function => exact hR.call _ _

theorem applyWith (closure : Closure) (args : List Expr) :
    R (closure.applyWith evaluate args) (closure.applyWith evaluate' args) := by
  refine rel_ite (fun _ => hR.throw nofun) fun _ =>
    rel_ite (fun _ => ?_) fun _ => hR.applyFully h closure args
  exact hR.bind (hR.applyPartly closure args) fun rest => hR.pure _

omit [LawfulMonadLiftT EvalM m] [LawfulMonadLiftT EvalM m'] in
theorem evalIfElse (env : Env) (operands : List Expr) :
    R (Offside.evalIfElse evaluate env operands) (Offside.evalIfElse evaluate' env operands) := by
  unfold Offside.evalIfElse
  split
  · refine hR.bind (h env _) fun value => ?_
    split
    · exact h env _
    · exact h env _
    · exact hR.throw nofun
  · exact hR.throw nofun

theorem evalVar (env : Env) (name : String) :
    R (Offside.evalVar evaluate env name) (Offside.evalVar evaluate' env name) := by
  refine hR.bind (hR.resolveM env name) fun found => ?_
  exact rel_ite (fun _ => hR.pure _) fun _ => h found.scope found.bound

theorem evalCall (env : Env) (operator : Expr) (operands : List Expr) :
    R (Offside.evalCall evaluate env operator operands)
      (Offside.evalCall evaluate' env operator operands) := by
  refine hR.bind (h env operator) fun callee => ?_
  split
  · exact hR.bind (hR.evalAll h env operands) fun args => hR.applyWith h _ args
  · exact hR.throw nofun

/-- **One level of evaluation keeps the relation.** -/
theorem step (env : Env) (expr : Expr) :
    R (evalStep evaluate env expr) (evalStep evaluate' env expr) := by
  cases expr with
  | lit _ | record _ _ | closure _ => exact hR.pure _
  | var name => exact hR.evalVar h env name
  | function params locals body => exact hR.pure _
  | scope locals body => exact hR.bind (hR.extendM env locals) fun inner => h inner body
  | call operator operands =>
      refine rel_ite (fun _ => hR.evalIfElse h env operands) fun _ => ?_
      exact hR.evalCall h env operator operands

end Step

end Congruence

end Relation

end Offside
