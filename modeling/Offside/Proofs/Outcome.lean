import Offside.Eval.Basic
import Offside.Proofs.Except

/-!
# How an evaluation can end

`Yields m good bad` says of a computation that it ends, from every world, in a good value or in one
of the errors `bad`. One rule for each way to build a computation is all that later proofs use of
the monad; the rules for frames, for names and for the sink stand here too.
-/

namespace Offside

/-- A computation of evaluation that is wanted as one is the computation itself. -/
theorem EvalM.liftM_self {α : Type} (m : EvalM α) : (liftM m : EvalM α) = m := rfl

/-- What a name stands for is found in a world that counts the frames made to find it. -/
theorem Env.resolveM_run (env : Env) (name : String) (world : World) :
    (env.resolveM name).run world =
      match env.resolve world.frames name with
      | none => (.error (.unboundName name), world)
      | some found => (.ok found, { world with frames := found.next }) := by
  unfold Env.resolveM
  rw [exceptT_run_bind]
  change ExceptT.run (m := StateM World) (match env.resolve world.frames name with
    | none => _
    | some found => _) world = _
  cases env.resolve world.frames name <;> rfl

/-- A variable is evaluated where it is bound, in a world that counts the frames made to find it. -/
theorem evalVar_run (evaluate : Evaluator) (env : Env) (name : String) (world : World) :
    (evalVar evaluate env name).run world =
      match env.resolve world.frames name with
      | none => (.error (.unboundName name), world)
      | some found =>
        ExceptT.run (if found.bound.isNormal then Pure.pure found.bound
          else evaluate found.scope found.bound) { world with frames := found.next } := by
  rw [evalVar, exceptT_run_bind, EvalM.liftM_self, Env.resolveM_run]
  cases env.resolve world.frames name <;> rfl

/-- A name that a frame binds stands for what is bound, evaluated in the environment of the frame
unless it is a value. -/
theorem evalVar_of_lookup {env scope : Env} {name : String} {bound : Expr}
    (h : env.lookup name = some (bound, scope)) (evaluate : Evaluator) :
    evalVar evaluate env name =
      if bound.isNormal then pure bound else evaluate scope bound := by
  refine funext fun world => (evalVar_run evaluate env name world).trans ?_
  have hresolve : env.resolve world.frames name = some ⟨bound, scope, world.frames⟩ := by
    rw [Env.resolve, Qualified.resolve, h]
    rfl
  simp only [hresolve]
  rfl

/-- A closure that gets as many arguments as it has open parameters is applied fully. -/
theorem Closure.applyWith_eq_applyFully (evaluate : Evaluator) (closure : Closure)
    {args : List Expr} (h : closure.params.length = args.length) :
    closure.applyWith evaluate args = closure.applyFully evaluate args := by
  rw [Closure.applyWith, h]
  simp only [Nat.lt_irrefl, if_false]

/-- A closure that gets fewer arguments keeps them. -/
theorem Closure.applyWith_eq_applyPartly (evaluate : Evaluator) (closure : Closure)
    {args : List Expr} (h : args.length < closure.params.length) :
    closure.applyWith evaluate args =
      closure.applyPartly args >>= fun rest => pure (.closure rest) := by
  simp only [Closure.applyWith]
  rw [if_neg (Nat.not_lt.2 (Nat.le_of_lt h)), if_pos h, EvalM.liftM_self]

/-- From every world, the computation ends in a `good` value or a `bad` error. -/
def Yields {α : Type} (m : EvalM α) (good : α → Prop) (bad : EvalError → Prop) : Prop :=
  ∀ world, match (m.run world).1 with
    | .ok a => good a
    | .error error => bad error

namespace Yields

variable {α β : Type} {m : EvalM α} {good : α → Prop} {bad : EvalError → Prop}

theorem pure {a : α} (h : good a) : Yields (Pure.pure a) good bad := fun _ => h

theorem throw {error : EvalError} (h : bad error) :
    Yields (MonadExcept.throw error : EvalM α) good bad := fun _ => h

/-- What follows a computation may rely on the value of the computation being good. -/
theorem bind {f : α → EvalM β} {good' : β → Prop} (hm : Yields m good bad)
    (hf : ∀ a, good a → Yields (f a) good' bad) : Yields (m >>= f) good' bad := by
  intro world
  have h := hm world
  rw [exceptT_run_bind]
  generalize ExceptT.run m world = result at h ⊢
  obtain ⟨outcome, after⟩ := result
  cases outcome with
  | error error => exact h
  | ok a => exact hf a h after

theorem mono {good' : α → Prop} {bad' : EvalError → Prop} (h : Yields m good bad)
    (hgood : ∀ a, good a → good' a) (hbad : ∀ error, bad error → bad' error) :
    Yields m good' bad' := by
  intro world
  have hw := h world
  split at hw
  · exact hgood _ hw
  · exact hbad _ hw

theorem value (h : Yields m good bad) {good' : α → Prop} (hgood : ∀ a, good a → good' a) :
    Yields m good' bad :=
  h.mono hgood fun _ hb => hb

theorem get : Yields (MonadState.get : EvalM World) (fun _ => True) bad := fun _ => trivial

theorem set (world : World) : Yields (MonadStateOf.set world : EvalM PUnit) (fun _ => True) bad :=
  fun _ => trivial

theorem ite {p : Prop} [Decidable p] {m' : EvalM α} (h : p → Yields m good bad)
    (h' : ¬p → Yields m' good bad) : Yields (if p then m else m') good bad := by
  split
  · exact h ‹_›
  · exact h' ‹_›

/-- A value that a computation ends in is a good one. -/
theorem ok (h : Yields m good bad) {world : World} {a : α} (ha : (m.run world).1 = .ok a) :
    good a := by
  have hw := h world
  rw [ha] at hw
  exact hw

/-- An error that a computation ends in is one of those that it may end in. -/
theorem error (h : Yields m good bad) {world : World} {error : EvalError}
    (he : (m.run world).1 = .error error) : bad error := by
  have hw := h world
  rw [he] at hw
  exact hw

/-- A computation ends, in a good value or in one of the errors. -/
theorem ends (h : Yields m good bad) (world : World) :
    (∃ a, (m.run world).1 = .ok a ∧ good a) ∨
      ∃ error, (m.run world).1 = .error error ∧ bad error := by
  cases houtcome : (m.run world).1 with
  | ok a => exact .inl ⟨a, rfl, h.ok houtcome⟩
  | error error => exact .inr ⟨error, rfl, h.error houtcome⟩

end Yields

theorem World.yields_freshFrame {bad : EvalError → Prop} :
    Yields World.freshFrame (fun _ => True) bad := fun _ => trivial

/-- Adding a frame gives the environment with that frame, whatever number it has. -/
theorem Env.yields_extendM (env : Env) (bindings : Bindings) {bad : EvalError → Prop} :
    Yields (env.extendM bindings) (fun inner => ∃ number, inner = env.extend number bindings)
      bad := by
  rw [Env.extendM]
  refine .ite (fun h => .pure ⟨0, ?_⟩) fun h => ?_
  · rw [Env.extend, if_pos h]
  · refine .bind World.yields_freshFrame fun number _ => .pure ⟨number, ?_⟩
    rw [Env.extend, if_neg h]

/-- What a name is found to stand for is what it stands for, whatever number the next frame has. -/
theorem Env.yields_resolveM {env : Env} {name : String} {bad : EvalError → Prop}
    (hb : ∀ next, env.resolve next name = none → bad (.unboundName name)) :
    Yields (env.resolveM name) (fun found => ∃ next, env.resolve next name = some found) bad := by
  intro world
  rw [Env.resolveM_run]
  cases hfound : env.resolve world.frames name with
  | none => exact hb world.frames hfound
  | some found => exact ⟨world.frames, hfound⟩

/-- A line is written after all that has been written; of a line that is refused there may be a part. -/
theorem World.write_run (line : String) (world : World) :
    (World.write line).run world =
      match world.sink.refusal? world.written line with
      | none => (.ok (), { world with written := world.written ++ line ++ "\n" })
      | some refused =>
        (.error (.output refused.reason), { world with written := world.written ++ refused.part }) := by
  have hget : (get : EvalM World).run world = (.ok world, world) := rfl
  rw [World.write, exceptT_run_bind, hget]
  dsimp only
  cases world.sink.refusal? world.written line <;> rfl

/-- Writing a line may only fail because of the sink. -/
theorem World.yields_writeTo (outlet : Outlet) (line : String) {bad : EvalError → Prop}
    (hb : ∀ reason, bad (.output reason)) :
    Yields (World.writeTo outlet line) (fun _ => True) bad := by
  cases outlet with
  | void => exact .pure trivial
  | console =>
      rw [World.writeTo]
      intro world
      rw [World.write_run]
      cases world.sink.refusal? world.written line with
      | none => exact trivial
      | some refused => exact hb refused.reason

end Offside
