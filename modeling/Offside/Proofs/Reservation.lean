import Offside.Proofs.Outcome
import Offside.Run

/-!
# Stacks that a machine has or has not

An evaluation that nothing is around needs a stack that its limit fits on. Whether there is one is up to
the machine:

* `World.Grants`, `World.Refuses` -- the machine has a stack for a limit, or has none for a reason;
* `onStack_of_grants`, `onStack_of_refuses` -- a computation on its stack is the computation, or the
  error that there is no stack, before anything has happened;
* `HasValue` -- a computation on its stack that does nothing but end in a value;
* `Program.run_interpret_of_grants`, `Program.run_interpret_of_refuses` -- the same for a run of a
  program, which makes the scope of `main` first.
-/

namespace Offside

/-! ## 1. Computations on a stack -/

namespace World

/-- The machine has a stack for evaluation up to the limit. -/
def Grants (world : World) (limit : Nat) : Prop :=
  world.machine.lacks? (Machine.stackSize limit) = none

/-- The machine has no such stack, for a reason. -/
def Refuses (world : World) (limit : Nat) (reason : String) : Prop :=
  world.machine.lacks? (Machine.stackSize limit) = some reason

theorem grants_or_refuses (world : World) (limit : Nat) :
    world.Grants limit ∨ ∃ reason, world.Refuses limit reason := by
  cases h : world.machine.lacks? (Machine.stackSize limit) with
  | none => exact .inl h
  | some reason => exact .inr ⟨reason, h⟩

theorem reserve_run (limit : Nat) (world : World) :
    (reserve limit).run world =
      match world.machine.lacks? (Machine.stackSize limit) with
      | none => (.ok (), world)
      | some reason => (.error (.stack (Machine.stackSize limit) reason), world) := by
  change ExceptT.run (m := StateM World) (match world.machine.lacks? (Machine.stackSize limit) with
    | none => _
    | some reason => _) world = _
  cases world.machine.lacks? (Machine.stackSize limit) <;> rfl

end World

section OnStack

variable {α : Type} {m : EvalM α} {world : World} {limit : Nat} {reason : String}

/-- Where there is a stack, a computation on it is the computation. -/
theorem onStack_of_grants (h : world.Grants limit) :
    (onStack limit m).run world = m.run world := by
  rw [onStack, exceptT_run_bind, EvalM.liftM_self, World.reserve_run, h]

/-- Where there is none, it is the error that there is none, and nothing has happened. -/
theorem onStack_of_refuses (h : world.Refuses limit reason) :
    (onStack limit m).run world = (.error (.stack (Machine.stackSize limit) reason), world) := by
  rw [onStack, exceptT_run_bind, EvalM.liftM_self, World.reserve_run, h]

/-- A value is only there with a stack. -/
theorem onStack_eq_ok {a : α} (h : ((onStack limit m).run world).1 = .ok a) :
    (m.run world).1 = .ok a := by
  rcases world.grants_or_refuses limit with hs | ⟨reason, hs⟩
  · rwa [onStack_of_grants hs] at h
  · rw [onStack_of_refuses hs] at h
    cases h

end OnStack

/-- The computation does nothing but end in a value, wherever there is a stack for the limit; elsewhere
it ends in the error that there is none. -/
def HasValue {α : Type} (m : EvalM α) (limit : Nat) (value : α) : Prop :=
  ∀ world : World,
    (world.Grants limit → m.run world = (.ok value, world)) ∧
    ∀ reason, world.Refuses limit reason →
      m.run world = (.error (.stack (Machine.stackSize limit) reason), world)

theorem hasValue_onStack {α : Type} {m : EvalM α} {value : α} (h : m = pure value) (limit : Nat) :
    HasValue (onStack limit m) limit value := by
  intro world
  refine ⟨fun hs => ?_, fun reason hs => onStack_of_refuses hs⟩
  rw [onStack_of_grants hs, h]
  rfl

/-! ## 2. Runs of a program -/

/-- A new frame changes neither the machine nor what has been written. -/
theorem Env.exists_run_extendM (env : Env) (bindings : Bindings) (world : World) :
    ∃ inner frames, (env.extendM bindings).run world = (.ok inner, { world with frames }) := by
  rw [Env.extendM]
  split
  · exact ⟨env, world.frames, rfl⟩
  · exact ⟨_, world.frames + 1, rfl⟩

namespace Program

variable {program : Program} {ty : Ty} {operator : Expr} {operands : List Expr}
  {nested : Definitions}

/-- Evaluates the call of `main` with so many levels left of a limit, in the scope that a run builds
for it. -/
def evalMain (program : Program) (library nested : Definitions) (operator : Expr)
    (operands : List Expr) (limit levels : Nat) : EvalM Expr := do
  let env ← (baseEnv library program.definitions).extendM (Definitions.toBindings nested)
  eval limit levels env (.call operator operands)

section Runs

variable (library : Definitions)
  (hmain : Table.find? program.definitions "main" =
    some (.constant ty (.call operator operands) nested))
  {limit : Nat} {world : World}

include hmain

/-- A run evaluates the call of `main` on a stack of its own, in the scope of `main`. -/
theorem interpret_main (limit : Nat) :
    program.interpret library limit =
      (baseEnv library program.definitions).extendM (Definitions.toBindings nested) >>= fun env =>
        onStack limit (eval limit limit env (.call operator operands)) := by
  rw [interpret, hmain]
  rfl

/-- Where there is a stack for the limit, a run is the evaluation of the call. -/
theorem run_interpret_of_grants (h : world.Grants limit) :
    (program.interpret library limit).run world =
      (program.evalMain library nested operator operands limit limit).run world := by
  obtain ⟨inner, frames, hscope⟩ := (baseEnv library program.definitions).exists_run_extendM
    (Definitions.toBindings nested) world
  have hafter : World.Grants { world with frames } limit := h
  rw [interpret_main library hmain, evalMain, exceptT_run_bind, exceptT_run_bind, hscope]
  exact onStack_of_grants hafter

/-- Where there is none, a run ends in the error that there is none, and writes nothing. -/
theorem run_interpret_of_refuses {reason : String} (h : world.Refuses limit reason) :
    ((program.interpret library limit).run world).1 =
        .error (.stack (Machine.stackSize limit) reason) ∧
      ((program.interpret library limit).run world).2.written = world.written := by
  obtain ⟨inner, frames, hscope⟩ := (baseEnv library program.definitions).exists_run_extendM
    (Definitions.toBindings nested) world
  have hafter : World.Refuses { world with frames } limit reason := h
  rw [interpret_main library hmain, exceptT_run_bind, hscope]
  dsimp only
  rw [onStack_of_refuses hafter]
  exact ⟨rfl, rfl⟩

end Runs

/-- What any program ends in: an error about `main`, or what its `main` ends in. -/
theorem interpret_cases (program : Program) (library : Definitions) (limit : Nat) :
    program.interpret library limit = throw .missingMain ∨
      program.interpret library limit = throw .invalidMain ∨
      ∃ ty operator operands nested, Table.find? program.definitions "main" =
        some (.constant ty (.call operator operands) nested) := by
  rw [interpret]
  split
  · exact Or.inl rfl
  · rename_i ty operator operands nested hmain
    exact Or.inr (Or.inr ⟨ty, operator, operands, nested, hmain⟩)
  · exact Or.inr (Or.inl rfl)

end Program

/-! ## 3. A limit without a stack -/

/-- A limit that a machine whose addresses have 47 bits has no stack for. -/
def vastLimit : Nat := 1099511627776

/-- The error of an evaluation up to this limit on such a machine. -/
def vastStack : EvalError :=
  .stack 18014398509481984 "Resource temporarily unavailable (os error 11)"

theorem World.refuses_vastLimit (sink : Sink) (frames : Nat) :
    (World.initial sink frames .addressed).Refuses vastLimit
      "Resource temporarily unavailable (os error 11)" := rfl

end Offside
