import Offside.Proofs.Characters
import Offside.Proofs.Congruence
import Offside.Proofs.Reservation

/-!
# What a limit cuts off

An evaluation that runs into its limit ends there, and one with a higher limit goes on. Nothing else
depends on the limit:

* `Cut` -- two results of which the first one may have been cut off: they are the same if it was not,
  and what it wrote is the start of what the second one wrote;
* `CutBy` -- two computations with such results in every world. It holds of all that evaluation is
  put together from (`CutBy.congruence`), hence of one level of evaluation over two evaluators that
  are related so (`Evaluator.CutBy.step`);
* `eval_cutBy` -- evaluation with fewer and with more levels left.

`evaluate_of_le` says what this means for the evaluation of an expression at two limits.
-/

namespace Offside

/-! ## 1. Results that may have been cut off -/

/-- Two results of computations that start when `start` has been written: the first is the second
one, or it was cut off by `limit`. -/
structure Cut {α : Type} (limit : Nat) (start : String) (short long : Except EvalError α × World) :
    Prop where
  /-- a computation that was not cut off has no other result under a higher limit -/
  same : short.1 ≠ .error (.depthExceeded limit) → long = short
  /-- what is cut off under the higher limit is so under the lower one -/
  both : ∀ depth, long.1 = .error (.depthExceeded depth) → short.1 = .error (.depthExceeded limit)
  /-- the lower limit drops nothing but the end of what is written -/
  output : ∃ out more, short.2.written = start ++ out ∧ long.2.written = start ++ (out ++ more)

/-- A result that no limit is to blame for. -/
theorem Cut.refl {α : Type} {limit : Nat} {start : String} {result : Except EvalError α × World}
    (hfree : ∀ depth, result.1 ≠ .error (.depthExceeded depth))
    (hout : ∃ out, result.2.written = start ++ out) : Cut limit start result result := by
  obtain ⟨out, hout⟩ := hout
  refine ⟨fun _ => rfl, fun depth h => absurd h (hfree depth), out, "", hout, ?_⟩
  rw [String.append_empty, hout]

/-- A result of a computation that wrote nothing. -/
theorem Cut.silent {α : Type} {limit : Nat} {start : String} {result : Except EvalError α × World}
    (hfree : ∀ depth, result.1 ≠ .error (.depthExceeded depth))
    (hout : result.2.written = start) : Cut limit start result result :=
  .refl hfree ⟨"", by rw [String.append_empty, hout]⟩

/-- In every world, the first computation is the second one, cut off by `limit`. -/
def CutBy {α : Type} (limit : Nat) (m m' : EvalM α) : Prop :=
  ∀ world : World, Cut limit world.written (m.run world) (m'.run world)

namespace CutBy

variable {α β : Type} {limit : Nat} {m m' : EvalM α}

theorem pure (a : α) : CutBy limit (Pure.pure a) (Pure.pure a) :=
  fun _ => .silent nofun rfl

/-- An error that is not about a limit. -/
theorem throw {error : EvalError} (h : ∀ depth, error ≠ .depthExceeded depth) :
    CutBy limit (MonadExcept.throw error : EvalM α) (MonadExcept.throw error) := by
  intro world
  exact .silent (fun depth he => h depth (Except.error.inj he)) rfl

/-- **What follows a computation that was cut off is dropped**, and what follows under the higher
limit only adds to what is written. -/
theorem bind {f f' : α → EvalM β} (hm : CutBy limit m m') (hf : ∀ a, CutBy limit (f a) (f' a)) :
    CutBy limit (m >>= f) (m' >>= f') := by
  intro world
  obtain ⟨hsame, hboth, out, more, hshort, hlong⟩ := hm world
  rw [exceptT_run_bind, exceptT_run_bind]
  generalize m.run world = short at hsame hboth hshort ⊢
  generalize m'.run world = long at hsame hboth hlong ⊢
  obtain ⟨outcome, after⟩ := short
  obtain ⟨outcome', after'⟩ := long
  change after.written = world.written ++ out at hshort
  change after'.written = world.written ++ (out ++ more) at hlong
  by_cases hcut : outcome = .error (.depthExceeded limit)
  · subst hcut
    cases outcome' with
    | error error => exact ⟨fun h => absurd rfl h, fun _ _ => rfl, out, more, hshort, hlong⟩
    | ok a =>
        -- only the second computation goes on, from where it stands
        obtain ⟨_, _, out', more', _, hrest⟩ := hf a after'
        refine ⟨fun h => absurd rfl h, fun _ _ => rfl, out, more ++ (out' ++ more'), hshort, ?_⟩
        simp only [hrest, hlong, String.append_assoc]
  · have hequal : (outcome', after') = (outcome, after) := hsame hcut
    cases hequal
    cases outcome with
    | error error =>
        refine .refl (fun depth h => hcut (hboth depth ?_)) ⟨out, hshort⟩
        exact congrArg Except.error (Except.error.inj h)
    | ok a =>
        obtain ⟨hsame', hboth', out', more', hshort', hlong'⟩ := hf a after
        refine ⟨hsame', hboth', out ++ out', more', ?_, ?_⟩
        · simp only [hshort', hshort, String.append_assoc]
        · simp only [hlong', hshort, String.append_assoc]

end CutBy

/-- A line, or the part of it that the sink accepts, comes after all that has been written. -/
theorem World.cutBy_write {limit : Nat} (line : String) :
    CutBy limit (World.write line) (World.write line) := by
  intro world
  rw [World.write_run]
  cases world.sink.refusal? world.written line with
  | none =>
      refine .refl nofun ⟨line ++ "\n", ?_⟩
      show world.written ++ line ++ "\n" = world.written ++ (line ++ "\n")
      rw [String.append_assoc]
  | some refused => exact .refl nofun ⟨refused.part, rfl⟩

/-- Nothing that evaluation is put together from depends on a limit. -/
theorem CutBy.congruence (limit : Nat) : Congruence fun α (m m' : EvalM α) => CutBy limit m m' where
  pure := .pure
  throw := .throw
  bind := .bind
  nextFrame _ := .silent nofun rfl
  setNextFrame _ _ := .silent nofun rfl
  write := World.cutBy_write

/-! ## 2. Evaluation at two limits -/

/-- The first way to evaluate is the second one, cut off by `limit`. -/
def Evaluator.CutBy (limit : Nat) (evaluate evaluate' : Evaluator) : Prop :=
  ∀ (env : Env) (expr : Expr), Offside.CutBy limit (evaluate env expr) (evaluate' env expr)

/-- **One level of evaluation keeps two evaluators in step.** -/
theorem Evaluator.CutBy.step {limit : Nat} {evaluate evaluate' : Evaluator}
    (h : Evaluator.CutBy limit evaluate evaluate') :
    Evaluator.CutBy limit (evalStep evaluate) (evalStep evaluate') :=
  (Offside.CutBy.congruence limit).step h

/-- An evaluation without any level left is cut off at once. -/
theorem eval_zero_cutBy {limit : Nat} {evaluate : Evaluator} {bound : Nat}
    (h : Evaluator.CutBy bound evaluate evaluate) : Evaluator.CutBy limit (eval limit 0) evaluate := by
  intro env expr world
  obtain ⟨_, _, out, more, _, hlong⟩ := h env expr world
  refine ⟨fun hne => absurd rfl hne, fun _ _ => rfl, "", out ++ more, ?_, ?_⟩
  · rw [String.append_empty]
    rfl
  · rw [hlong, String.empty_append]

/-- Evaluation is in step with itself. -/
theorem eval_cutBy_self (limit levels : Nat) :
    Evaluator.CutBy limit (eval limit levels) (eval limit levels) := by
  induction levels with
  | zero =>
      intro env expr world
      refine ⟨fun _ => rfl, fun _ _ => rfl, "", "", ?_, ?_⟩
      · rw [String.append_empty]
        rfl
      · rw [String.append_empty, String.append_empty]
        rfl
  | succ levels ih => exact ih.step

/-- **With fewer levels left an evaluation is the same, or cut off.** -/
theorem eval_cutBy {levels levels' : Nat} (hle : levels ≤ levels') (limit limit' : Nat) :
    Evaluator.CutBy limit (eval limit levels) (eval limit' levels') := by
  induction levels generalizing levels' with
  | zero => exact eval_zero_cutBy (eval_cutBy_self limit' levels')
  | succ levels ih =>
      cases levels' with
      | zero => exact absurd hle (Nat.not_succ_le_zero levels)
      | succ levels' => exact (ih (Nat.le_of_succ_le_succ hle)).step

/-- **A limit only cuts off**, where the machine has a stack for it. An evaluation that does not run into
the lower limit ends in the same way under the higher one: the same value or error, the same output
and the same frames. One that runs into the higher limit runs into the lower one. What is written
under the lower limit is the start of what is written under the higher one. Each of these needs the
stacks of the limits that it says something of; without a stack for its limit, an evaluation is the
error that there is none, and writes nothing. -/
theorem evaluate_of_le {low high : Nat} (hle : low ≤ high) (env : Env) (expr : Expr)
    (world : World) :
    (world.Grants low → world.Grants high →
      ((expr.evaluate low env).run world).1 ≠ .error (.depthExceeded low) →
        (expr.evaluate high env).run world = (expr.evaluate low env).run world) ∧
    (world.Grants low →
      ∀ depth, ((expr.evaluate high env).run world).1 = .error (.depthExceeded depth) →
        ((expr.evaluate low env).run world).1 = .error (.depthExceeded low)) ∧
    (world.Grants high →
      ∃ out more, ((expr.evaluate low env).run world).2.written = world.written ++ out ∧
        ((expr.evaluate high env).run world).2.written = world.written ++ (out ++ more)) ∧
    ∀ limit reason, world.Refuses limit reason →
      (expr.evaluate limit env).run world =
        (.error (.stack (Machine.stackSize limit) reason), world) := by
  obtain ⟨hsame, hboth, houtput⟩ := eval_cutBy hle low high env expr world
  refine ⟨fun hlow hhigh => ?_, fun hlow depth hcut => ?_, fun hhigh => ?_, fun _ _ h =>
    onStack_of_refuses h⟩
  · rw [Expr.evaluate, Expr.evaluate, onStack_of_grants hlow, onStack_of_grants hhigh]
    exact hsame
  · rw [Expr.evaluate, onStack_of_grants hlow]
    rcases world.grants_or_refuses high with hhigh | ⟨reason, hhigh⟩
    · rw [Expr.evaluate, onStack_of_grants hhigh] at hcut
      exact hboth depth hcut
    · rw [Expr.evaluate, onStack_of_refuses hhigh] at hcut
      cases hcut
  · rw [Expr.evaluate, Expr.evaluate, onStack_of_grants hhigh]
    rcases world.grants_or_refuses low with hlow | ⟨reason, hlow⟩
    · rw [onStack_of_grants hlow]
      exact houtput
    · -- under the lower limit nothing is written at all
      obtain ⟨out, more, _, hlong⟩ := houtput
      rw [onStack_of_refuses hlow]
      exact ⟨"", out ++ more, String.append_empty.symm, by rw [hlong, String.empty_append]⟩

/-- Two functions that call each other and write a line each time. -/
def countdownSource : String :=
  "countdown:None n:Integer = ifElse (less n 1) none (after (printLine (intToStr n)) n)
after:None line:None n:Integer = countdown (minus n 1)"

/-- The evaluation of `countdown 3` in the environment of a program. -/
def countdown (program : Program) (limit : Nat) : Except EvalError Expr × World :=
  ((Expr.call (.var "countdown") [.lit (.int 3)]).evaluate limit
    (Program.baseEnv (Library.definitions libraryOrigin .console) program.definitions)).run
      (World.initial .accepting Program.baseFrames)

/-- The limit that a result was cut off by. -/
def cutOff? (result : Except EvalError Expr × World) : Option Nat :=
  match result.1 with
  | .error (.depthExceeded limit) => some limit
  | _ => none

theorem cutOff?_eq_none {result : Except EvalError Expr × World} (h : cutOff? result = none)
    (depth : Nat) : result.1 ≠ .error (.depthExceeded depth) := by
  intro hcut
  rw [cutOff?, hcut] at h
  cases h

set_option maxRecDepth 4000 in
theorem countdown_of_le :
    ∃ program, compile programOrigin countdownSource = .ok program ∧
      cutOff? (countdown program 9) = some 9 ∧ (countdown program 9).2.written = "3\n2\n" ∧
      (∃ out more, (countdown program 9).2.written = "" ++ out ∧
        (countdown program 13).2.written = "" ++ (out ++ more)) ∧
      cutOff? (countdown program 13) = none ∧ (countdown program 13).2.written = "3\n2\n1\n" ∧
      countdown program 20 = countdown program 13 := by
  have hsource : ∃ source, countdownSource = String.ofList source ∧
      compiles programOrigin source (fun program =>
        cutOff? (countdown program 9) = some 9 ∧ (countdown program 9).2.written = "3\n2\n" ∧
        cutOff? (countdown program 13) = none ∧
          (countdown program 13).2.written = "3\n2\n1\n") := ⟨_, rfl, by decide +kernel⟩
  obtain ⟨source, htext, hsource⟩ := hsource
  obtain ⟨program, hcompile, hp⟩ := exists_of_compiles htext hsource
  obtain ⟨hcut, hwritten, hfree, hall⟩ := of_decide_eq_true hp
  have hprefix := evaluate_of_le (by decide : 9 ≤ 13)
    (Program.baseEnv (Library.definitions libraryOrigin .console) program.definitions)
    (.call (.var "countdown") [.lit (.int 3)]) (World.initial .accepting Program.baseFrames)
  have hsame := evaluate_of_le (by decide : 13 ≤ 20)
    (Program.baseEnv (Library.definitions libraryOrigin .console) program.definitions)
    (.call (.var "countdown") [.lit (.int 3)]) (World.initial .accepting Program.baseFrames)
  exact ⟨program, hcompile, hcut, hwritten, hprefix.2.2.1 rfl, hfree, hall,
    hsame.1 rfl rfl (cutOff?_eq_none hfree 13)⟩

/-- A program that writes a line. -/
def greetSource : String := "greet:None name:String = printLine name"

/-- The evaluation of `greet "hi"` in the environment of a program, on a machine whose addresses have
47 bits. -/
def greet (program : Program) (limit : Nat) : Except EvalError Expr × World :=
  ((Expr.call (.var "greet") [.lit (.str "hi")]).evaluate limit
    (Program.baseEnv (Library.definitions libraryOrigin .console) program.definitions)).run
      (World.initial .accepting Program.baseFrames .addressed)

set_option maxRecDepth 4000 in
/-- A limit that the machine has no stack for does not only cut off. -/
theorem greet_without_stack :
    ∃ program, compile programOrigin greetSource = .ok program ∧ 9 ≤ vastLimit ∧
      (greet program 9).1.toOption.map Expr.text = some "none" ∧
      (greet program 9).2.written = "hi\n" ∧
      (greet program vastLimit).1 = .error vastStack ∧ (greet program vastLimit).2.written = "" := by
  have hsource : ∃ source, greetSource = String.ofList source ∧
      compiles programOrigin source (fun program =>
        (greet program 9).1.toOption.map Expr.text = some "none" ∧
        (greet program 9).2.written = "hi\n") := ⟨_, rfl, by decide +kernel⟩
  obtain ⟨source, htext, hsource⟩ := hsource
  obtain ⟨program, hcompile, hp⟩ := exists_of_compiles htext hsource
  obtain ⟨hvalue, hwritten⟩ := of_decide_eq_true hp
  have hrefused : greet program vastLimit = (.error vastStack, _) :=
    onStack_of_refuses (World.refuses_vastLimit .accepting Program.baseFrames)
  refine ⟨program, hcompile, by decide, hvalue, hwritten, ?_, ?_⟩
  · rw [hrefused]
  · rw [hrefused]
    rfl

end Offside
