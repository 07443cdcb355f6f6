import Offside.Proofs.Congruence
import Offside.Proofs.Reservation

/-!
# Runs whose output fails

A sink that refuses every line ends a run at the first line that is written, and changes nothing
before. The run is compared with one that does the same on a sink that accepts all lines:

* `Refusal` -- two results, one on each sink: nothing has been written and they are the same, or
  something has been, and the second is the error of the refused line;
* `RefusedBy` -- two computations with such results, from every number of frames. It holds of all that
  evaluation is put together from (`RefusedBy.congruence`): an error is never caught, and a sink never
  gives back what it has accepted;
* `eval_refusedBy` -- hence evaluation, at every limit and with any number of levels left.

`run_failing` says what this means for the run of a text.
-/

namespace Offside

/-! ## 1. Results on two sinks -/

/-- Two results of computations on a sink that accepts lines, after `before` has been written, and on
one that refuses them for a reason; the machine is the same. -/
inductive Refusal {α : Type} (reason : String) (machine : Machine) (before : String) :
    Except EvalError α × World → Except EvalError α × World → Prop
  /-- no line has been written -/
  | silent (outcome : Except EvalError α) (frames : Nat) :
      Refusal reason machine before (outcome, ⟨.accepting, before, frames, machine⟩)
        (outcome, ⟨.failing reason, "", frames, machine⟩)
  /-- a line has been refused, whatever the first computation came to after it -/
  | refused (outcome : Except EvalError α) {out : String} (nonempty : out ≠ "")
      (frames frames' : Nat) :
      Refusal reason machine before (outcome, ⟨.accepting, before ++ out, frames, machine⟩)
        (.error (.output reason), ⟨.failing reason, "", frames', machine⟩)

/-- The second computation is the first one on a sink that refuses all lines for a reason. -/
def RefusedBy {α : Type} (reason : String) (m m' : EvalM α) : Prop :=
  ∀ (machine : Machine) (before : String) (frames : Nat), Refusal reason machine before
    (m.run ⟨.accepting, before, frames, machine⟩) (m'.run ⟨.failing reason, "", frames, machine⟩)

/-- After a refused line, nothing that the first computation does makes a difference. -/
theorem Refusal.more {α : Type} {reason : String} {machine : Machine} {before out : String}
    (nonempty : out ≠ "") {result result' : Except EvalError α × World}
    (h : Refusal reason machine (before ++ out) result result') (frames : Nat) :
    Refusal reason machine before result
      (.error (.output reason), ⟨.failing reason, "", frames, machine⟩) := by
  cases h with
  | silent outcome frames' => exact .refused outcome nonempty frames' frames
  | @refused outcome more _ frames' _ =>
      have hmore : out ++ more ≠ "" := fun h => nonempty (String.append_eq_empty_iff.1 h).1
      rw [String.append_assoc]
      exact .refused outcome hmore frames' frames

/-- What the failing sink is told, and what the run on it ends in. -/
theorem Refusal.outcome {α : Type} {reason : String} {machine : Machine}
    {result result' : Except EvalError α × World} (h : Refusal reason machine "" result result') :
    result'.2.written = "" ∧
      result'.1 = if result.2.written = "" then result.1 else .error (.output reason) := by
  cases h with
  | silent outcome frames => exact ⟨rfl, (if_pos rfl).symm⟩
  | refused outcome nonempty frames frames' =>
      refine ⟨rfl, (if_neg ?_).symm⟩
      rw [String.empty_append]
      exact nonempty

namespace RefusedBy

variable {α β : Type} {reason : String} {m m' : EvalM α}

theorem pure (a : α) : RefusedBy reason (Pure.pure a) (Pure.pure a) :=
  fun _ _ frames => .silent (.ok a) frames

theorem throw (error : EvalError) :
    RefusedBy reason (MonadExcept.throw error : EvalM α) (MonadExcept.throw error) :=
  fun _ _ frames => .silent (.error error) frames

/-- **A refused line is not masked** by what follows, and what follows is reached on both sinks if no
line was refused. -/
theorem bind {f f' : α → EvalM β} (hm : RefusedBy reason m m')
    (hf : ∀ a, RefusedBy reason (f a) (f' a)) : RefusedBy reason (m >>= f) (m' >>= f') := by
  intro machine before frames
  have h := hm machine before frames
  rw [exceptT_run_bind, exceptT_run_bind]
  generalize m.run _ = result at h ⊢
  generalize m'.run _ = result' at h ⊢
  cases h with
  | silent outcome frames =>
      cases outcome with
      | error error => exact .silent (.error error) frames
      | ok a => exact hf a machine before frames
  | refused outcome nonempty frames frames' =>
      cases outcome with
      | error error => exact .refused (.error error) nonempty frames frames'
      | ok a => exact (hf a machine _ frames).more nonempty frames'

/-- A line is never empty: it ends in a line break. -/
theorem write (line : String) : RefusedBy reason (World.write line) (World.write line) := by
  intro machine before frames
  have hline : line ++ "\n" ≠ "" := fun h => absurd (String.append_eq_empty_iff.1 h).2 (by decide)
  have h : Refusal reason machine before
      (.ok PUnit.unit, ⟨.accepting, before ++ (line ++ "\n"), frames, machine⟩)
      (.error (.output reason), ⟨.failing reason, "", frames, machine⟩) :=
    .refused _ hline frames frames
  rw [← String.append_assoc] at h
  exact h

theorem congruence (reason : String) :
    Congruence fun α (m m' : EvalM α) => RefusedBy reason m m' where
  pure := .pure
  throw _ := .throw _
  bind := .bind
  nextFrame _ _ frames := .silent (.ok frames) frames
  setNextFrame next _ _ _ := .silent (.ok _) next
  write := .write

/-- The machine does not know of the sink. -/
theorem onStack (limit : Nat) (h : RefusedBy reason m m') :
    RefusedBy reason (Offside.onStack limit m) (Offside.onStack limit m') := by
  intro machine before frames
  rcases World.grants_or_refuses ⟨.accepting, before, frames, machine⟩ limit with hs | ⟨cause, hs⟩
  · have hs' : World.Grants ⟨.failing reason, "", frames, machine⟩ limit := hs
    rw [onStack_of_grants hs, onStack_of_grants hs']
    exact h machine before frames
  · have hs' : World.Refuses ⟨.failing reason, "", frames, machine⟩ limit cause := hs
    rw [onStack_of_refuses hs, onStack_of_refuses hs']
    exact .silent (.error _) frames

end RefusedBy

/-! ## 2. Evaluation on two sinks -/

/-- **Evaluation on a sink that refuses all lines** is the same up to the first line, where it
ends. -/
theorem eval_refusedBy (reason : String) (limit levels : Nat) (env : Env) (expr : Expr) :
    RefusedBy reason (eval limit levels env expr) (eval limit levels env expr) := by
  induction levels generalizing env expr with
  | zero => exact .throw _
  | succ levels ih => exact (RefusedBy.congruence reason).step ih env expr

theorem Program.interpret_refusedBy (reason : String) (program : Program) (library : Definitions)
    (limit : Nat) :
    RefusedBy reason (program.interpret library limit) (program.interpret library limit) := by
  unfold Program.interpret
  split
  · exact .throw _
  · refine .bind ((RefusedBy.congruence reason).extendM _ _) fun env => ?_
    exact (eval_refusedBy reason limit limit env _).onStack limit
  · exact .throw _

/-- A run ends before the program is interpreted, or with it; what sink it has does not decide. -/
theorem run_cases (source : String) (options : Options) (machine : Machine) :
    (∃ error, ∀ sink, run source options sink machine = (.error error, "")) ∨
      ∃ program : Program, ∀ sink, run source options sink machine =
        let result := (program.interpret (Library.definitions libraryOrigin .console)
          options.limit).run (World.initial sink Program.baseFrames machine)
        (result.1.mapError .eval, result.2.written) := by
  unfold run
  cases compile programOrigin source with
  | error error => exact .inl ⟨error, fun _ => rfl⟩
  | ok program =>
      dsimp only
      cases (if options.check = true then
          program.checkWith (Library.definitions libraryOrigin .console) else .ok ()) with
      | error error => exact .inl ⟨.type error, fun _ => rfl⟩
      | ok _ => exact .inr ⟨program, fun _ => rfl⟩

/-- **A failing sink changes nothing but the first write.** A text is run on any machine, once on a sink
that accepts all lines, and once on one that refuses them, for whatever reason. If the first run writes nothing,
the second one has the same result; if it writes anything, the second one ends in the error of the
output, whether the first one ends in a value or in an error. The failing sink accepts nothing. -/
theorem run_failing (source : String) (options : Options) (reason : String) (machine : Machine) :
    run source options (.failing reason) machine =
      (if (run source options .accepting machine).2 = "" then
          (run source options .accepting machine).1
        else .error (.eval (.output reason)), "") := by
  rcases run_cases source options machine with ⟨error, hrun⟩ | ⟨program, hrun⟩
  · rw [hrun, hrun, if_pos rfl]
  · obtain ⟨hwritten, houtcome⟩ := (program.interpret_refusedBy reason
      (Library.definitions libraryOrigin .console) options.limit machine "" Program.baseFrames).outcome
    rw [hrun, hrun]
    refine Prod.ext ?_ hwritten
    change Except.mapError Error.eval _ = if _ = "" then Except.mapError Error.eval _ else _
    rw [World.initial, houtcome]
    exact apply_ite (Except.mapError Error.eval) _ _ _

end Offside
