import Offside.Eval.Counter
import Offside.Proofs.Congruence

/-!
# An evaluator can be used again

The counter of an evaluator goes up and down through every level of an evaluation, and any level may
end early in an error. Still, a call leaves the count as it was:

* `Tallies` -- a computation with a counter that ends, does what one without does, and leaves the
  count as it was; the peak has not risen above the limit. It holds of all that evaluation is put
  together from (`Tallies.congruence`), hence of one level of evaluation over levels that are so;
* `Tallies.nest` -- one evaluation deeper, the count has risen by one, and falls by one at the end;
* `Counter.tallies_eval` -- evaluation by a counter is evaluation with the levels that the count
  leaves. In particular it ends;
* `Counter.eval_eq` -- so nothing but the count decides how many evaluations are inside of each other.

`answers_inTurn` says what this means for an evaluator that is called any number of times.
-/

namespace Offside

/-! ## 1. Computations that count -/

namespace CountM

variable {α β : Type}

theorem run_lift (m : EvalM α) (counter : Counter) (world : World) :
    (liftM m : CountM α).run (counter, world) =
      some ((m.run world).1, counter, (m.run world).2) := rfl

/-- A computation goes on from the state that the one before it leaves; an error ends both. -/
theorem run_bind (x : CountM α) (f : α → CountM β) (state : Counter × World) :
    (x >>= f).run state = match x.run state with
      | none => none
      | some (.ok a, after) => (f a).run after
      | some (.error error, after) => some (.error error, after) := by
  change (ExceptT.bind x f) state = _
  simp only [ExceptT.bind, ExceptT.mk, Bind.bind, StateT.bind, ExceptT.run]
  match x state with
  | none => rfl
  | some (.ok _, _) => rfl
  | some (.error _, _) => rfl

instance : LawfulMonadLift EvalM CountM where
  monadLift_pure _ := rfl
  monadLift_bind m f := by
    refine funext fun (counter, world) => ?_
    refine (run_lift (m >>= f) counter world).trans (Eq.trans ?_ (run_bind _ _ _).symm)
    rw [exceptT_run_bind]
    change _ = match some ((m.run world).1, counter, (m.run world).2) with
      | none => none
      | some (.ok a, after) => _
      | some (.error error, after) => _
    match m.run world with
    | (.ok _, _) => rfl
    | (.error _, _) => rfl

end CountM

namespace Counter

variable {α : Type} {inner : CountM α} {counter : Counter} {world : World}

/-- Where the limit is reached, a computation that is counted is the error of the limit. -/
theorem run_nest_of_le (h : counter.limit ≤ counter.depth) :
    (nest inner).run (counter, world) =
      some (.error (.depthExceeded counter.limit), counter, world) :=
  if_pos h

/-- Otherwise it is the computation, with the count one higher until it ends. -/
theorem run_nest_of_lt (h : counter.depth < counter.limit) :
    (nest inner).run (counter, world) =
      (inner.run (counter.enter, world)).map fun (outcome, after, left) =>
        (outcome, after.leave, left) := by
  refine (if_neg (Nat.not_le.2 h)).trans ?_
  cases inner.run (counter.enter, world) <;> rfl

end Counter

/-! ## 2. Computations that leave the count as it was -/

/-- With a counter at a depth, the first computation ends as the second one does, in every world. The
limit and the depth are then what they were, and the peak has not risen above the limit. -/
def Tallies {α : Type} (limit depth : Nat) (x : CountM α) (m : EvalM α) : Prop :=
  ∀ peak world, ∃ peak', peak ≤ peak' ∧ peak' ≤ max peak limit ∧
    x.run (⟨limit, depth, peak⟩, world) =
      some ((m.run world).1, ⟨limit, depth, peak'⟩, (m.run world).2)

namespace Tallies

variable {α β : Type} {limit depth : Nat}

/-- A computation that knows nothing of the counter. -/
theorem lift (m : EvalM α) : Tallies limit depth (liftM m) m :=
  fun peak _ => ⟨peak, Nat.le_refl _, Nat.le_max_left _ _, rfl⟩

theorem bind {x : CountM α} {m : EvalM α} {f : α → CountM β} {g : α → EvalM β}
    (hx : Tallies limit depth x m) (hf : ∀ a, Tallies limit depth (f a) (g a)) :
    Tallies limit depth (x >>= f) (m >>= g) := by
  intro peak world
  obtain ⟨middle, hrise, hbound, hrun⟩ := hx peak world
  rw [CountM.run_bind, hrun, exceptT_run_bind]
  generalize m.run world = result
  obtain ⟨outcome, after⟩ := result
  cases outcome with
  | error error => exact ⟨middle, hrise, hbound, rfl⟩
  | ok a =>
      obtain ⟨peak', hrise', hbound', hrest⟩ := hf a middle after
      exact ⟨peak', Nat.le_trans hrise hrise', by omega, hrest⟩

/-- All that evaluation is put together from leaves the count as it was. -/
theorem congruence (limit depth : Nat) :
    Congruence fun α (x : CountM α) (m : EvalM α) => Tallies limit depth x m where
  pure a := lift (Pure.pure a)
  throw _ := lift _
  bind := bind
  nextFrame := lift _
  setNextFrame _ := lift _
  write _ := lift _

/-- The counter has no part in a reservation. -/
theorem onStack {x : CountM α} {m : EvalM α} (h : Tallies limit depth x m) {size : Nat} :
    Tallies limit depth (Offside.onStack size x) (Offside.onStack size m) :=
  bind (lift (World.reserve size)) fun _ => h

/-- Where the limit is reached, the counter is not touched. -/
theorem nest_of_le {inner : CountM α} (h : limit ≤ depth) :
    Tallies limit depth (Counter.nest inner) (throw (.depthExceeded limit)) := by
  intro peak world
  exact ⟨peak, Nat.le_refl _, Nat.le_max_left _ _, Counter.run_nest_of_le h⟩

/-- **Whatever a computation one evaluation deeper ends in, the count is back where it was.** -/
theorem nest {inner : CountM α} {m : EvalM α} (h : depth < limit)
    (hinner : Tallies limit (depth + 1) inner m) :
    Tallies limit depth (Counter.nest inner) m := by
  intro peak world
  obtain ⟨peak', hrise, hbound, hrun⟩ := hinner (max peak (depth + 1)) world
  have henter : Counter.enter ⟨limit, depth, peak⟩ = ⟨limit, depth + 1, max peak (depth + 1)⟩ := rfl
  refine ⟨peak', by omega, by omega, ?_⟩
  rw [Counter.run_nest_of_lt h, henter, hrun]
  rfl

end Tallies

/-! ## 3. Evaluation by a counter -/

namespace Counter

/-- Evaluations that may be inside of each other once more than there are levels left are evaluation
with these levels. -/
theorem tallies_evalWithin {limit depth levels nested : Nat} (hlevels : limit - depth = levels)
    (hnested : levels < nested) (env : Env) (expr : Expr) :
    Tallies limit depth (evalWithin nested env expr) (Offside.eval limit levels env expr) := by
  -- the levels left go down as the depth goes up; the counter does not know of them
  induction levels generalizing depth nested env expr with
  | zero =>
      obtain ⟨nested, rfl⟩ := Nat.exists_eq_add_of_lt hnested
      rw [evalWithin]
      exact .nest_of_le (Nat.sub_eq_zero_iff_le.1 hlevels)
  | succ levels ih =>
      obtain ⟨nested, rfl⟩ := Nat.exists_eq_add_of_lt hnested
      rw [evalWithin, Offside.eval]
      refine .nest (by omega) ?_
      refine (Tallies.congruence limit (depth + 1)).step (fun env expr => ?_) env expr
      exact ih (by omega) (by omega) env expr

/-- **Evaluation by a counter is evaluation with the levels that the count leaves**, and the count is
afterwards what it was before. -/
theorem tallies_eval (limit depth : Nat) (env : Env) (expr : Expr) :
    Tallies limit depth (eval env expr) (Offside.eval limit (limit - depth) env expr) := by
  have hnested : limit - depth < limit + 1 := Nat.lt_succ_of_le (Nat.sub_le limit depth)
  intro peak world
  exact tallies_evalWithin rfl hnested env expr peak world

end Counter

/-! ## 4. What bounds the recursion -/

namespace CountM

variable {α β : Type}

/-- The second computation ends as the first one does, wherever the first one ends. -/
def Below (x y : CountM α) : Prop :=
  ∀ state result, x.run state = some result → y.run state = some result

namespace Below

theorem refl (x : CountM α) : Below x x :=
  fun _ _ h => h

theorem bind {x x' : CountM α} {f f' : α → CountM β} (hx : Below x x')
    (hf : ∀ a, Below (f a) (f' a)) : Below (x >>= f) (x' >>= f') := by
  intro state result h
  rw [run_bind] at h ⊢
  split at h
  · cases h
  · rename_i a after hfirst
    rw [hx _ _ hfirst]
    exact hf a after result h
  · rename_i error after hfirst
    rw [hx _ _ hfirst]
    exact h

theorem congruence : Congruence fun α (x y : CountM α) => Below x y where
  pure _ := refl _
  throw _ := refl _
  bind := bind
  nextFrame := refl _
  setNextFrame _ := refl _
  write _ := refl _

theorem nest {inner inner' : CountM α} (h : Below inner inner') :
    Below (Counter.nest inner) (Counter.nest inner') := by
  rintro ⟨counter, world⟩ result hresult
  by_cases hroom : counter.depth < counter.limit
  · rw [Counter.run_nest_of_lt hroom] at hresult ⊢
    obtain ⟨middle, hinner, rfl⟩ := Option.map_eq_some_iff.1 hresult
    rw [h _ _ hinner, Option.map_some]
  · rw [Counter.run_nest_of_le (Nat.not_lt.1 hroom)] at hresult ⊢
    exact hresult

end Below

end CountM

namespace Counter

open CountM (Below)

/-- Where more evaluations may be inside of each other, results stay what they are. -/
theorem below_evalWithin {nested nested' : Nat} (h : nested ≤ nested') (env : Env) (expr : Expr) :
    Below (evalWithin nested env expr) (evalWithin nested' env expr) := by
  induction nested generalizing nested' env expr with
  | zero =>
      intro state result hresult
      cases hresult
  | succ nested ih =>
      obtain ⟨more, rfl⟩ := Nat.exists_eq_add_of_le' h
      refine Below.nest (Below.congruence.step (fun env expr => ?_) env expr)
      exact ih (Nat.le_add_left nested more) env expr

/-- Evaluation ends from every count, one above the limit included. -/
theorem exists_run_evalWithin (counter : Counter) (world : World) (env : Env) (expr : Expr) :
    ∃ result, (evalWithin (counter.limit + 1) env expr).run (counter, world) = some result := by
  obtain ⟨_, _, _, hrun⟩ := tallies_eval counter.limit counter.depth env expr counter.peak world
  exact ⟨_, hrun⟩

/-- Wherever there is a result at all, `eval` has it. -/
theorem below_eval (nested : Nat) (env : Env) (expr : Expr) :
    Below (evalWithin nested env expr) (eval env expr) := by
  rintro ⟨counter, world⟩ result hresult
  obtain ⟨result', hrun⟩ := exists_run_evalWithin counter world env expr
  have hlong := below_evalWithin (Nat.le_max_left nested (counter.limit + 1)) env expr _ _ hresult
  have hsame := below_evalWithin (Nat.le_max_right nested (counter.limit + 1)) env expr _ _ hrun
  exact hrun.trans (hsame.symm.trans hlong)

/-- **Nothing but the count bounds the recursion**: evaluation by a counter is one level of evaluation
over itself, one deeper in the count. -/
theorem eval_eq (env : Env) (expr : Expr) : eval env expr = nest (evalStep eval env expr) := by
  refine funext fun (counter, world) => ?_
  obtain ⟨result, hrun⟩ := exists_run_evalWithin counter world env expr
  have hlevel := Below.nest (Below.congruence.step (below_eval counter.limit) env expr)
  exact hrun.trans (hlevel _ _ hrun).symm

end Counter

/-! ## 5. Calls in turn -/

/-- What a call computes without a counter. -/
def Call.uncounted (limit : Nat) : Call → EvalM Expr
  | .evaluate env expr => expr.evaluate limit env
  | .apply closure args => closure.apply limit args

/-- A call on a stack of its own leaves the count as it was, whether there is such a stack or not. -/
theorem Call.tallies (call : Call) (limit : Nat) :
    Tallies limit 0 (call.counted limit) (call.uncounted limit) := by
  cases call with
  | evaluate env expr => exact (Counter.tallies_eval limit 0 env expr).onStack
  | apply closure args =>
      refine Tallies.onStack ?_
      exact (Tallies.congruence limit 0).applyWith (Counter.tallies_eval limit 0) closure args

/-- The counter of an evaluator that no evaluation is going on in, and that none has been above the
limit in. -/
structure Counter.Idle (limit : Nat) (counter : Counter) : Prop where
  limit_eq : counter.limit = limit
  depth_eq : counter.depth = 0
  peak_le : counter.peak ≤ limit

theorem Counter.idle_start (limit : Nat) : (Counter.start limit).Idle limit :=
  ⟨rfl, rfl, Nat.zero_le limit⟩

/-- A call of an idle evaluator ends and leaves it idle, and what the caller sees of it does not depend
on the counter. -/
theorem Call.on_idle (call : Call) {limit : Nat} {counter : Counter} (h : counter.Idle limit)
    (world : World) : ∃ answer, call.on counter world = some answer ∧
      answer.counter.Idle limit ∧ answer.seen = (call.uncounted limit).run world := by
  obtain ⟨bound, depth, peak⟩ := counter
  obtain rfl : bound = limit := h.limit_eq
  obtain rfl : depth = 0 := h.depth_eq
  obtain ⟨peak', _, hbound, hrun⟩ := call.tallies bound peak world
  generalize (call.uncounted bound).run world = result at hrun ⊢
  have hpeak : peak' ≤ bound := Nat.le_trans hbound (Nat.max_le.2 ⟨h.peak_le, Nat.le_refl _⟩)
  refine ⟨⟨result.1, result.2, ⟨bound, 0, peak'⟩⟩, ?_, ⟨rfl, rfl, hpeak⟩, rfl⟩
  rw [Call.on, hrun]
  rfl

/-- Any number of calls leave an evaluator idle. -/
theorem Call.inTurn_idle {limit : Nat} {counter : Counter} (h : counter.Idle limit)
    (calls : List (Call × World)) : ∃ answers, Call.inTurn counter calls = some answers ∧
      (∀ answer ∈ answers, answer.counter.Idle limit) ∧
      answers.map Answer.seen = calls.map fun made => (made.1.uncounted limit).run made.2 := by
  induction calls generalizing counter with
  | nil => exact ⟨[], rfl, nofun, rfl⟩
  | cons made rest ih =>
      obtain ⟨call, world⟩ := made
      obtain ⟨answer, hanswer, hidle, hseen⟩ := call.on_idle h world
      obtain ⟨answers, hanswers, hall, hsame⟩ := ih hidle
      refine ⟨answer :: answers, ?_, List.forall_mem_cons.2 ⟨hidle, hall⟩, ?_⟩
      · rw [Call.inTurn, hanswer]
        change (Call.inTurn answer.counter rest).bind _ = _
        rw [hanswers]
        rfl
      · rw [List.map_cons, List.map_cons, hseen, hsame]

/-- **An evaluator can be used again after any outcome.** Take an evaluator with any limit, and any
calls of it, each in any world: evaluations in any environment, and applications of any function to
any arguments. Every call ends. After each one the limit and the count are what they were when the
evaluator was new, and the count has never been above the limit. The caller sees of each call what a
new evaluator with this limit would have shown, and this is what evaluation and application at the
limit come to. -/
theorem answers_inTurn (limit : Nat) (calls : List (Call × World)) :
    ∃ answers, Call.inTurn (.start limit) calls = some answers ∧
      (∀ answer ∈ answers, answer.counter.limit = limit ∧
        answer.counter.depth = (Counter.start limit).depth ∧ answer.counter.peak ≤ limit) ∧
      (answers.map fun answer => some answer.seen) =
        (calls.map fun made => (made.1.on (.start limit) made.2).map Answer.seen) ∧
      answers.map Answer.seen = calls.map fun made => (made.1.uncounted limit).run made.2 := by
  obtain ⟨answers, hanswers, hidle, hseen⟩ := Call.inTurn_idle (Counter.idle_start limit) calls
  refine ⟨answers, hanswers, fun answer h => ?_, ?_, hseen⟩
  · obtain ⟨hlimit, hdepth, hpeak⟩ := hidle answer h
    exact ⟨hlimit, hdepth, hpeak⟩
  · have hfresh : ∀ made ∈ calls, (made.1.on (.start limit) made.2).map Answer.seen =
        some ((made.1.uncounted limit).run made.2) := by
      rintro ⟨call, world⟩ _
      obtain ⟨answer, hanswer, _, hsame⟩ := call.on_idle (Counter.idle_start limit) world
      rw [hanswer, Option.map_some, hsame]
    calc answers.map (fun answer => some answer.seen)
        = (answers.map Answer.seen).map some := List.map_map.symm
      _ = (calls.map fun made => (made.1.uncounted limit).run made.2).map some := by rw [hseen]
      _ = calls.map (fun made => some ((made.1.uncounted limit).run made.2)) := List.map_map
      _ = calls.map fun made => (made.1.on (.start limit) made.2).map Answer.seen :=
          (List.map_congr_left hfresh).symm

end Offside
