import Offside.Proofs.Likeness
import Offside.Proofs.NativeCalls
import Offside.Proofs.Reservation

/-!
# Runs in alike environments

Evaluation does not tell alike environments apart: in step by step evaluation of alike expressions,
two runs write the same lines, fail with the same error, or end in alike values, at every limit.

* `InStep` -- two computations do the same from every two worlds that differ in the frames made so
  far. One rule for each way to build a computation is all that the proofs below use of it;
* `Operation.inStep_call` -- a native function on alike arguments;
* `Evaluator.InStep.step` -- one level of evaluation over two evaluators in step;
* `eval_inStep` -- hence evaluation, at every limit and with any number of levels left.
-/

namespace Offside

/-! ## 1. Computations in step -/

/-- Two worlds with the same sink, the same output and the same machine; frames may be numbered
differently. -/
structure World.Alike (world world' : World) : Prop where
  sink : world.sink = world'.sink
  written : world.written = world'.written
  machine : world.machine = world'.machine

/-- Two outcomes: the same error, or values that belong together. -/
inductive Outcomes {α β : Type} (R : α → β → Prop) :
    Except EvalError α → Except EvalError β → Prop
  | error (error : EvalError) : Outcomes R (.error error) (.error error)
  | value {a : α} {b : β} (h : R a b) : Outcomes R (.ok a) (.ok b)

/-- Two results: outcomes that belong together, after the same output. -/
structure Results {α β : Type} (R : α → β → Prop) (result : Except EvalError α × World)
    (result' : Except EvalError β × World) : Prop where
  outcomes : Outcomes R result.1 result'.1
  worlds : result.2.Alike result'.2

theorem Results.mono {α β : Type} {R Q : α → β → Prop} {result : Except EvalError α × World}
    {result' : Except EvalError β × World} (h : Results R result result')
    (hmono : ∀ a b, R a b → Q a b) : Results Q result result' := by
  obtain ⟨outcome, world⟩ := result
  obtain ⟨outcome', world'⟩ := result'
  obtain ⟨houtcomes, hworlds⟩ := h
  refine ⟨?_, hworlds⟩
  cases houtcomes with
  | error error => exact .error error
  | value hab => exact .value (hmono _ _ hab)

/-- Two computations do the same in alike worlds, and end in values that belong together. -/
def InStep {α β : Type} (R : α → β → Prop) (m : EvalM α) (m' : EvalM β) : Prop :=
  ∀ world world' : World, world.Alike world' → Results R (m.run world) (m'.run world')

namespace InStep

variable {α β γ δ : Type} {R : α → β → Prop} {m : EvalM α} {m' : EvalM β}

theorem pure {a : α} {b : β} (h : R a b) : InStep R (Pure.pure a) (Pure.pure b) :=
  fun _ _ hworlds => ⟨.value h, hworlds⟩

theorem throw (error : EvalError) :
    InStep R (MonadExcept.throw error : EvalM α) (MonadExcept.throw error : EvalM β) :=
  fun _ _ hworlds => ⟨.error error, hworlds⟩

/-- What follows may rely on values that belong together, and on alike worlds. -/
theorem bind {Q : γ → δ → Prop} {f : α → EvalM γ} {f' : β → EvalM δ} (hm : InStep R m m')
    (hf : ∀ a b, R a b → InStep Q (f a) (f' b)) : InStep Q (m >>= f) (m' >>= f') := by
  intro world world' hworlds
  obtain ⟨houtcomes, hafter⟩ := hm world world' hworlds
  rw [exceptT_run_bind, exceptT_run_bind]
  generalize m.run world = result at houtcomes hafter ⊢
  generalize m'.run world' = result' at houtcomes hafter ⊢
  obtain ⟨outcome, after⟩ := result
  obtain ⟨outcome', after'⟩ := result'
  cases houtcomes with
  | error error => exact ⟨.error error, hafter⟩
  | value hab => exact hf _ _ hab after after' hafter

theorem ite {p : Prop} [Decidable p] {n : EvalM α} {n' : EvalM β} (h : p → InStep R m m')
    (h' : ¬p → InStep R n n') : InStep R (if p then m else n) (if p then m' else n') := by
  by_cases hp : p
  · rw [if_pos hp, if_pos hp]
    exact h hp
  · rw [if_neg hp, if_neg hp]
    exact h' hp

end InStep

/-! ## 2. Effects -/

/-- The number of a new frame is no difference between two runs. -/
theorem World.inStep_freshFrame :
    InStep (fun _ _ => True) World.freshFrame World.freshFrame :=
  fun _ _ hworlds => ⟨.value trivial, hworlds.sink, hworlds.written, hworlds.machine⟩

/-- A line is written in both runs, or refused in both. -/
theorem World.inStep_writeTo (outlet : Outlet) (line : String) :
    InStep Eq (World.writeTo outlet line) (World.writeTo outlet line) := by
  cases outlet with
  | void => exact .pure rfl
  | console =>
      intro world world' hworlds
      rw [World.writeTo, World.write_run, World.write_run, ← hworlds.sink, ← hworlds.written]
      cases world.sink.refusal? world.written line with
      | none => exact ⟨.value rfl, rfl, rfl, hworlds.machine⟩
      | some refused => exact ⟨.error _, rfl, rfl, hworlds.machine⟩

/-- There is a stack in both runs, or in neither. -/
theorem InStep.onStack {α β : Type} {R : α → β → Prop} {m : EvalM α} {m' : EvalM β}
    (h : InStep R m m') (limit : Nat) :
    InStep R (Offside.onStack limit m) (Offside.onStack limit m') := by
  intro world world' hworlds
  rcases world.grants_or_refuses limit with hs | ⟨reason, hs⟩
  · have hs' : world'.Grants limit := by rwa [World.Grants, ← hworlds.machine]
    rw [onStack_of_grants hs, onStack_of_grants hs']
    exact h world world' hworlds
  · have hs' : world'.Refuses limit reason := by rwa [World.Refuses, ← hworlds.machine]
    rw [onStack_of_refuses hs, onStack_of_refuses hs']
    exact ⟨.error _, hworlds⟩

variable {L : Likeness}

theorem Env.inStep_extendM {env env' : Env} (h : env.Alike L env') {bindings bindings' : Bindings}
    (hentries : Table.Rel (Expr.Alike L) bindings bindings') :
    InStep (Env.Alike L) (env.extendM bindings) (env'.extendM bindings') := by
  unfold Env.extendM
  rw [hentries.isEmpty_eq]
  refine .ite (fun _ => .pure h) fun _ => ?_
  exact .bind World.inStep_freshFrame fun number number' _ => .pure (.frame number number' hentries h)

/-! ## 3. Native functions -/

theorem Expr.alike_singleton {args args' : List Expr}
    (h : List.Forall₂ (Expr.Alike L) args args') (hlength : args.length = 1) :
    ∃ a a', args = [a] ∧ args' = [a'] ∧ a.Alike L a' := by
  obtain ⟨a, rfl⟩ := List.length_eq_one_iff.1 hlength
  obtain ⟨a', _, ha, hnil, rfl⟩ := List.forall₂_cons_left_iff.1 h
  cases hnil
  exact ⟨a, a', rfl, rfl, ha⟩

theorem Expr.alike_pair {args args' : List Expr}
    (h : List.Forall₂ (Expr.Alike L) args args') (hlength : args.length = 2) :
    ∃ a b a' b', args = [a, b] ∧ args' = [a', b'] ∧ a.Alike L a' ∧ b.Alike L b' := by
  obtain ⟨a, b, rfl⟩ := List.length_eq_two.1 hlength
  obtain ⟨a', rest, ha, hrest, rfl⟩ := List.forall₂_cons_left_iff.1 h
  obtain ⟨b', _, hb, hnil, rfl⟩ := List.forall₂_cons_left_iff.1 hrest
  cases hnil
  exact ⟨a, b, a', b', rfl, rfl, ha, hb⟩

namespace Operation

variable {a b a' b' : Expr} {args args' : List Expr}

theorem inStep_integer (operation : Operation) (h : a.Alike L a') :
    InStep Eq (operation.integer a) (operation.integer a') := by
  cases h with
  | lit value =>
      cases value with
      | int n => exact .pure rfl
      | str _ | bool _ | nothing => exact .throw _
  | record _ | var _ | call _ _ | function _ _ | scope _ _ | compound _ _ _ | native _ =>
      exact .throw _

theorem inStep_string (operation : Operation) (h : a.Alike L a') :
    InStep Eq (operation.string a) (operation.string a') := by
  cases h with
  | lit value =>
      cases value with
      | str s => exact .pure rfl
      | int _ | bool _ | nothing => exact .throw _
  | record _ | var _ | call _ _ | function _ _ | scope _ _ | compound _ _ _ | native _ =>
      exact .throw _

/-- What can be compared is the same in both runs. -/
theorem inStep_comparable (operation : Operation) (h : a.Alike L a') :
    InStep (fun _ _ => a = a') (operation.comparable a) (operation.comparable a') := by
  unfold Operation.comparable
  rw [← h.isComparable_eq, ← h.kind_eq]
  exact .ite (fun hcomparable => .pure (h.eq_of_isComparable hcomparable)) fun _ => .throw _

theorem inStep_exactly (operation : Operation) (result : Option Int64) :
    InStep (Expr.Alike L) (operation.exactly result) (operation.exactly result) := by
  cases result with
  | none => exact .throw _
  | some value => exact .pure (.lit _)

theorem inStep_onIntegers (operation : Operation) (ha : a.Alike L a') (hb : b.Alike L b')
    {f : Int64 → Int64 → EvalM Expr} (hf : ∀ x y, InStep (Expr.Alike L) (f x y) (f x y)) :
    InStep (Expr.Alike L) (operation.onIntegers a b f) (operation.onIntegers a' b' f) := by
  refine .bind (inStep_integer operation ha) fun x x' hx => ?_
  refine .bind (inStep_integer operation hb) fun y y' hy => ?_
  subst hx hy
  exact hf x y

theorem inStep_dividing (operation : Operation) (ha : a.Alike L a') (hb : b.Alike L b')
    (f : Int64 → Int64 → Option Int64) :
    InStep (Expr.Alike L) (operation.dividing a b f) (operation.dividing a' b' f) :=
  inStep_onIntegers operation ha hb fun x y =>
    .ite (fun _ => .throw _) fun _ => inStep_exactly operation (f x y)

/-- A native function that gets another number of arguments than it takes says so. -/
theorem call_of_length_ne {operation : Operation} (h : args.length ≠ operation.arity) :
    operation.call args = throw (.arity operation.name operation.arity args.length) := by
  unfold Operation.call
  split
  case h_12 => exact if_neg h
  case h_14 => rfl
  -- all others got as many arguments as they take
  all_goals exact absurd rfl h

theorem inStep_construct (type : String) (fields : List String)
    (h : List.Forall₂ (Expr.Alike L) args args') :
    InStep (Expr.Alike L) ((construct type fields).call args) ((construct type fields).call args') := by
  show InStep _ (if args.length = fields.length then Pure.pure (Expr.record type (fields.zip args))
    else throw (.arity type fields.length args.length)) _
  rw [h.length_eq]
  exact .ite (fun _ => .pure (.record (.zip h fields))) fun _ => .throw _

theorem inStep_access (type field : String) (h : a.Alike L a') :
    InStep (Expr.Alike L) ((access type field).call [a]) ((access type field).call [a']) := by
  cases h with
  | @record tag values values' each =>
      unfold Operation.call
      refine .ite (fun _ => ?_) fun _ => .throw _
      have hfind := each.find? field
      rw [field?_eq_find?, field?_eq_find?]
      generalize Table.find? values field = found at hfind ⊢
      generalize Table.find? values' field = found' at hfind ⊢
      cases hfind with
      | none => exact .throw _
      | some halike => exact .pure halike
  | lit _ | var _ | call _ _ | function _ _ | scope _ _ | compound _ _ _ | native _ =>
      exact .throw _

/-- **A native function on alike arguments** fails in the same way, or gives alike results. -/
theorem inStep_call (operation : Operation) (h : List.Forall₂ (Expr.Alike L) args args') :
    InStep (Expr.Alike L) (operation.call args) (operation.call args') := by
  by_cases hlength : args.length = operation.arity
  · cases operation with
    | plus | minus | multiply =>
        obtain ⟨a, b, a', b', rfl, rfl, ha, hb⟩ := Expr.alike_pair h hlength
        exact inStep_onIntegers _ ha hb fun x y => inStep_exactly _ _
    | divide | modulo =>
        obtain ⟨a, b, a', b', rfl, rfl, ha, hb⟩ := Expr.alike_pair h hlength
        exact inStep_dividing _ ha hb _
    | less | greater =>
        obtain ⟨a, b, a', b', rfl, rfl, ha, hb⟩ := Expr.alike_pair h hlength
        exact inStep_onIntegers _ ha hb fun x y => .pure (.lit _)
    | equal =>
        obtain ⟨a, b, a', b', rfl, rfl, ha, hb⟩ := Expr.alike_pair h hlength
        refine .bind (inStep_comparable _ ha) fun _ _ hsame => ?_
        refine .bind (inStep_comparable _ hb) fun _ _ hsame' => ?_
        rw [hsame, hsame']
        exact .pure (.lit _)
    | concat =>
        obtain ⟨a, b, a', b', rfl, rfl, ha, hb⟩ := Expr.alike_pair h hlength
        refine .bind (inStep_string _ ha) fun x x' hx => ?_
        refine .bind (inStep_string _ hb) fun y y' hy => ?_
        rw [hx, hy]
        exact .pure (.lit _)
    | intToStr =>
        obtain ⟨a, a', rfl, rfl, ha⟩ := Expr.alike_singleton h hlength
        refine .bind (inStep_integer _ ha) fun x x' hx => ?_
        rw [hx]
        exact .pure (.lit _)
    | printLine outlet =>
        obtain ⟨a, a', rfl, rfl, ha⟩ := Expr.alike_singleton h hlength
        refine .bind (inStep_string _ ha) fun line line' hline => ?_
        rw [hline]
        exact .bind (World.inStep_writeTo outlet line') fun _ _ _ => .pure (.lit _)
    | construct type fields => exact inStep_construct type fields h
    | access type field =>
        obtain ⟨a, a', rfl, rfl, ha⟩ := Expr.alike_singleton h hlength
        exact inStep_access type field ha
  · have hlength' : args'.length ≠ operation.arity := h.length_eq ▸ hlength
    rw [call_of_length_ne hlength, call_of_length_ne hlength', h.length_eq]
    exact .throw _

end Operation

/-! ## 4. One level of evaluation -/

/-- Alike closures keep alike arguments alike. -/
theorem Closure.inStep_applyPartly {closure closure' : Closure}
    (hclosure : (Expr.closure closure).Alike L (.closure closure')) {args args' : List Expr}
    (hargs : List.Forall₂ (Expr.Alike L) args args') :
    InStep (fun rest rest' => (Expr.closure rest).Alike L (.closure rest'))
      (closure.applyPartly args) (closure'.applyPartly args') := by
  cases hclosure with
  | @compound params _ _ _ _ _ _ captured inside result =>
      have hpairs : Table.Rel (Expr.Alike L) (Env.pairs (params.take args.length) args)
          (Env.pairs (params.take args.length) args') := (Table.Rel.zip hargs _).ofList
      unfold Closure.applyPartly
      rw [← hargs.length_eq]
      exact .bind (Env.inStep_extendM captured hpairs) fun env env' henv =>
        .pure (.compound henv inside result)
  | native each =>
      unfold Closure.applyPartly
      rw [← hargs.length_eq]
      exact .pure (.native (List.rel_append each hargs))

/-- The conditional takes three operands. -/
theorem evalIfElse_of_length_ne {evaluate : Evaluator} {env : Env} {operands : List Expr}
    (h : operands.length ≠ 3) :
    evalIfElse evaluate env operands = throw (.arity ifElse 3 operands.length) := by
  unfold evalIfElse
  split
  · exact absurd rfl h
  · rfl

/-- Two ways to evaluate that do not tell alike environments and expressions apart. -/
def Evaluator.InStep (L : Likeness) (evaluate evaluate' : Evaluator) : Prop :=
  ∀ ⦃env env' : Env⦄ ⦃expr expr' : Expr⦄, env.Alike L env' → expr.Alike L expr' →
    Offside.InStep (Expr.Alike L) (evaluate env expr) (evaluate' env' expr')

namespace Evaluator.InStep

variable {evaluate evaluate' : Evaluator} (hs : InStep L evaluate evaluate') {env env' : Env}

include hs

theorem all (henv : env.Alike L env') {operands operands' : List Expr}
    (h : List.Forall₂ (Expr.Alike L) operands operands') :
    Offside.InStep (List.Forall₂ (Expr.Alike L)) (evalAll evaluate env operands)
      (evalAll evaluate' env' operands') := by
  induction h with
  | nil => exact .pure .nil
  | cons head _ ih =>
      refine .bind (hs henv head) fun value value' hvalue => ?_
      exact .bind ih fun values values' hvalues => .pure (.cons hvalue hvalues)

theorem applyFully {closure closure' : Closure}
    (hclosure : (Expr.closure closure).Alike L (.closure closure')) {args args' : List Expr}
    (hargs : List.Forall₂ (Expr.Alike L) args args') :
    Offside.InStep (Expr.Alike L) (closure.applyFully evaluate args)
      (closure'.applyFully evaluate' args') := by
  cases hclosure with
  | @compound params _ _ _ _ _ _ captured inside result =>
      have hpairs : Table.Rel (Expr.Alike L) (Env.pairs params args) (Env.pairs params args') :=
        (Table.Rel.zip hargs params).ofList
      refine .bind (Env.inStep_extendM captured hpairs) fun bound bound' hbound => ?_
      exact .bind (Env.inStep_extendM hbound inside) fun scope scope' hscope => hs hscope result
  | @native name params applied applied' function each =>
      have hall : List.Forall₂ (Expr.Alike L) (applied ++ args) (applied' ++ args') :=
        List.rel_append each hargs
      exact Operation.inStep_call function.operation hall

/-- **Alike closures applied to alike arguments.** -/
theorem applyWith {closure closure' : Closure}
    (hclosure : (Expr.closure closure).Alike L (.closure closure')) {args args' : List Expr}
    (hargs : List.Forall₂ (Expr.Alike L) args args') :
    Offside.InStep (Expr.Alike L) (closure.applyWith evaluate args)
      (closure'.applyWith evaluate' args') := by
  have hparams : closure.params = closure'.params := by cases hclosure <;> rfl
  have hname : closure.name = closure'.name := by cases hclosure <;> rfl
  simp only [Closure.applyWith, ← hparams, ← hname, ← hargs.length_eq]
  refine .ite (fun _ => .throw _) fun _ => .ite (fun _ => ?_) fun _ => hs.applyFully hclosure hargs
  exact .bind (Closure.inStep_applyPartly hclosure hargs) fun rest rest' hrest => .pure hrest

theorem ifElse (henv : env.Alike L env') {operands operands' : List Expr}
    (h : List.Forall₂ (Expr.Alike L) operands operands') :
    Offside.InStep (Expr.Alike L) (evalIfElse evaluate env operands)
      (evalIfElse evaluate' env' operands') := by
  by_cases hlength : operands.length = 3
  · obtain ⟨condition, yes, no, rfl⟩ := List.length_eq_three.1 hlength
    obtain ⟨condition', rest, hcondition, hrest, rfl⟩ := List.forall₂_cons_left_iff.1 h
    obtain ⟨_, _, yes', no', hpair, rfl, hyes, hno⟩ := Expr.alike_pair hrest rfl
    cases hpair
    refine .bind (hs henv hcondition) fun value value' hvalue => ?_
    cases hvalue with
    | lit value =>
        cases value with
        | bool choice =>
            cases choice with
            | true => exact hs henv hyes
            | false => exact hs henv hno
        | int _ | str _ | nothing => exact .throw _
    | record _ | var _ | call _ _ | function _ _ | scope _ _ | compound _ _ _ | native _ =>
        exact .throw _
  · have hlength' : operands'.length ≠ 3 := h.length_eq ▸ hlength
    rw [evalIfElse_of_length_ne hlength, evalIfElse_of_length_ne hlength', h.length_eq]
    exact .throw _

/-- What a known name stands for is alike in alike environments, and finding it writes nothing. -/
theorem var (hL : L.Sound) (henv : env.Alike L env') {name : String} (hknown : L.Known name) :
    Offside.InStep (Expr.Alike L) (evalVar evaluate env name) (evalVar evaluate' env' name) := by
  intro world world' hworlds
  rw [evalVar_run, evalVar_run]
  have hresolve := henv.resolve hL hknown world.frames world'.frames
  generalize env.resolve world.frames name = found at hresolve ⊢
  generalize env'.resolve world'.frames name = found' at hresolve ⊢
  cases hresolve with
  | none => exact ⟨.error _, hworlds⟩
  | @some found found' hbinds =>
      obtain ⟨halike, hscopes⟩ := hbinds
      have hfound : Offside.InStep (Expr.Alike L)
          (if found.bound.isNormal then Pure.pure found.bound else evaluate found.scope found.bound)
          (if found'.bound.isNormal then Pure.pure found'.bound
            else evaluate' found'.scope found'.bound) := by
        rw [← halike.isNormal_eq]
        refine .ite (fun _ => .pure halike) fun hnormal => ?_
        exact hs (hscopes.resolve_left hnormal) halike
      exact hfound _ _ ⟨hworlds.sink, hworlds.written, hworlds.machine⟩

theorem call (henv : env.Alike L env') {operator operator' : Expr}
    (hoperator : operator.Alike L operator') {operands operands' : List Expr}
    (h : List.Forall₂ (Expr.Alike L) operands operands') :
    Offside.InStep (Expr.Alike L) (evalCall evaluate env operator operands)
      (evalCall evaluate' env' operator' operands') := by
  unfold evalCall
  rw [hoperator.text_eq]
  refine .bind (hs henv hoperator) fun callee callee' hcallee => ?_
  cases hcallee with
  | compound captured inside result =>
      exact .bind (hs.all henv h) fun args args' hargs =>
        hs.applyWith (.compound captured inside result) hargs
  | native each =>
      exact .bind (hs.all henv h) fun args args' hargs => hs.applyWith (.native each) hargs
  | lit _ | record _ | var _ | call _ _ | function _ _ | scope _ _ => exact .throw _

/-- **One level of evaluation keeps two evaluators in step.** -/
theorem step (hL : L.Sound) : InStep L (evalStep evaluate) (evalStep evaluate') := by
  intro env env' expr expr' henv hexpr
  cases hexpr with
  | lit value => exact .pure (.lit value)
  | record each => exact .pure (.record each)
  | compound captured inside result => exact .pure (.compound captured inside result)
  | native each => exact .pure (.native each)
  | var hknown => exact hs.var hL henv hknown
  | function inside result => exact .pure (.compound henv inside result)
  | scope inside result =>
      exact .bind (Env.inStep_extendM henv inside) fun inner inner' hinner => hs hinner result
  | call callee each =>
      simp only [evalStep, callee.isIfElse_eq]
      exact .ite (fun _ => hs.ifElse henv each) fun _ => hs.call henv callee each

end Evaluator.InStep

/-! ## 5. Evaluation -/

/-- **Evaluation does not tell alike environments apart**, at any limit and with any number of
levels left. -/
theorem eval_inStep (hL : L.Sound) (limit levels : Nat) :
    Evaluator.InStep L (eval limit levels) (eval limit levels) := by
  induction levels with
  | zero =>
      intro env env' expr expr' _ _
      exact .throw _
  | succ levels ih => exact ih.step hL

end Offside
