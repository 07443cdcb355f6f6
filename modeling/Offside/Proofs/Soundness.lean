import Offside.Proofs.NativeCalls
import Offside.Proofs.Reservation

/-!
# Checked programs keep to their types

One level of evaluation is sound if the levels below are (`Evaluator.Sound.step`), so evaluation is
sound at every limit (`eval_sound`): an expression of a type ends in a value of the type, or in an
error that the policy permits. A program that was read and checked starts in an environment that
belongs to its definitions (`Program.WellFormed.envFits`), so its run does the same
(`Program.yields_evalMain`). All of this holds for every discipline and every policy.
-/

namespace Offside

variable {aliases : Aliases} {D : Discipline aliases} {types : Table Ty}

/-- A definition that is bound to a value is a constant with a literal of its type. -/
theorem fits_of_isNormal {frames : List Frame} {definition : Definition} {name : String}
    (hw : definition.Written) (hc : definition.Checked aliases frames)
    (hn : (definition.toExpr name).isNormal = true) :
    Fits D types (definition.toExpr name) definition.ty := by
  cases definition with
  | native ty params function => cases hw
  | function ty params body nested => cases hn
  | constant ty body nested =>
      obtain ⟨_, found, hfound, hsame⟩ := hc.constant hw
      cases hw with
      | constant plain _ _ =>
          rw [Definition.toExpr] at hn ⊢
          split at hn
          · rename_i hempty
            rw [if_pos hempty]
            cases plain with
            | var name => cases hn
            | call => cases hn
            | lit value =>
                rw [Context.derive] at hfound
                cases hfound
                exact .lit (D.symm (D.same hsame))
          · cases hn

/-- A way to evaluate that keeps to the types: of expressions, and of what definitions are bound
to. -/
structure Evaluator.Sound (P : Policy D types) (evaluate : Evaluator) : Prop where
  plain : ∀ {frames : List Frame} {env : Env} {expr : Expr} {ty : Ty},
    EnvFits (Fits D types) aliases frames env → expr.Plain →
      (⟨aliases, frames⟩ : Context).derive expr = .ok ty →
        Yields (evaluate env expr) (fun value => Fits D types value ty) P.Permitted
  definition : ∀ {frames : List Frame} {env : Env} {definition : Definition} (name : String),
    EnvFits (Fits D types) aliases frames env → definition.Written →
      definition.Checked aliases frames →
        Yields (evaluate env (definition.toExpr name))
          (fun value => Fits D types value definition.ty) P.Permitted

namespace Evaluator.Sound

variable {P : Policy D types} {evaluate : Evaluator} (hs : Sound P evaluate)
  {frames : List Frame} {env : Env}

include hs

/-! ## 1. Calls -/

/-- A body ends in a value of its declared type. -/
theorem body {body : Expr} {declared : Ty} (he : EnvFits (Fits D types) aliases frames env)
    (hp : body.Plain) (hb : body.Bodies aliases frames declared) :
    Yields (evaluate env body) (fun value => Fits D types value declared) P.Permitted := by
  obtain ⟨found, hfound, hsame⟩ := hb
  exact (hs.plain he hp hfound).value fun value hv => hv.trans (D.symm (D.same hsame))

theorem all {operands : List Expr} {params : List Ty}
    (he : EnvFits (Fits D types) aliases frames env) (hp : ∀ operand ∈ operands, operand.Plain)
    (hb : List.Forall₂ (Expr.Bodies aliases frames) operands params) :
    Yields (evalAll evaluate env operands)
      (fun args => List.Forall₂ (Fits D types) args params) P.Permitted := by
  induction hb with
  | nil => exact .pure .nil
  | @cons operand param operands params hfirst _ ih =>
      refine .bind (hs.body he (hp operand List.mem_cons_self) hfirst) fun value hv => ?_
      refine .bind (ih fun other hm => hp other (List.mem_cons_of_mem _ hm)) fun values hvs => ?_
      exact .pure (.cons hv hvs)

/-- A closure of a function type, applied to values of the parameter types. -/
theorem apply {closure : Closure} {params : List Ty} {result : Ty} {args : List Expr}
    (hc : Fits D types (.closure closure) (.func params result))
    (ha : List.Forall₂ (Fits D types) args params) :
    Yields (closure.applyWith evaluate args) (fun value => Fits D types value result)
      P.Permitted := by
  cases hc with
  | @compound frames env paramTypes declared names body nested _ below written checked alike =>
      obtain ⟨hparams, hresult⟩ := D.func_func alike
      have hargs := Fits.trans_forall₂ ha (hparams.flip.imp fun _ _ h => D.symm h)
      obtain ⟨accepted, hbody⟩ := checked.function written
      cases written with
      | function plain _ _ typed fresh _ _ =>
          have hlength : (Closure.compound names env (Definitions.toBindings nested) body).params.length
              = args.length := typed.symm.trans hargs.length_eq.symm
          rw [Closure.applyWith_eq_applyFully _ _ hlength, Closure.applyFully]
          refine .bind (Env.yields_extendM _ _) ?_
          rintro _ ⟨number, rfl⟩
          refine .bind (Env.yields_extendM _ _) ?_
          rintro _ ⟨number', rfl⟩
          have henv := EnvFits.call number number' below accepted fresh hargs
          exact (hs.body henv plain hbody).value fun value hv => hv.trans hresult
  | @native name names function paramTypes declared _ signature arity alike =>
      obtain ⟨hparams, hresult⟩ := D.func_func alike
      have hargs := Fits.trans_forall₂ ha (hparams.flip.imp fun _ _ h => D.symm h)
      have hlength : (Closure.native name names [] function).params.length = args.length :=
        arity.trans hargs.length_eq.symm
      rw [Closure.applyWith_eq_applyFully _ _ hlength, Closure.applyFully, List.nil_append]
      exact (Operation.yields_call P signature hargs).value fun value hv => hv.trans hresult

/-! ## 2. One level of evaluation -/

theorem var {name : String} {ty : Ty} (he : EnvFits (Fits D types) aliases frames env)
    (h : (⟨aliases, frames⟩ : Context).derive (.var name) = .ok ty) :
    Yields (evalVar evaluate env name) (fun value => Fits D types value ty) P.Permitted := by
  rw [Context.derive] at h
  refine .bind (Env.yields_resolveM fun next hnone => ?_) fun found hfound => ?_
  · have hentry := he.resolve next name
    rw [hnone] at hentry
    generalize (⟨aliases, frames⟩ : Context).lookup name = entry at hentry h
    cases hentry
    cases h
  · obtain ⟨next, hsome⟩ := hfound
    have hentry := he.resolve next name
    rw [hsome] at hentry
    generalize (⟨aliases, frames⟩ : Context).lookup name = entry at hentry h
    cases hentry with
    | @some entry found hd =>
        cases h
        obtain ⟨bound, scope, next⟩ := found
        cases hd with
        | value fits _ => exact .ite (fun _ => .pure fits) fun hn => absurd fits.isNormal hn
        | definition short below written checked =>
            exact .ite (fun hn => .pure (fits_of_isNormal written checked hn))
              fun _ => hs.definition short below written checked

theorem conditional {condition thenBranch elseBranch : Expr} {ty : Ty}
    (he : EnvFits (Fits D types) aliases frames env)
    (hp : ∀ operand ∈ [condition, thenBranch, elseBranch], operand.Plain)
    (hcondition : (⟨aliases, frames⟩ : Context).derive condition = .ok .truth)
    (hthen : (⟨aliases, frames⟩ : Context).derive thenBranch = .ok ty)
    (helse : elseBranch.Bodies aliases frames ty) :
    Yields (evalIfElse evaluate env [condition, thenBranch, elseBranch])
      (fun value => Fits D types value ty) P.Permitted := by
  simp only [List.forall_mem_cons] at hp
  obtain ⟨hpc, hpt, hpe, _⟩ := hp
  refine .bind (hs.plain he hpc hcondition) fun value hv => ?_
  split
  · exact hs.plain he hpt hthen
  · exact hs.body he hpe helse
  · rename_i htrue hfalse
    refine .throw (P.kind _ trivial hv (Expectation.condition_admits_eq_false fun b e => ?_))
    cases b with
    | true => exact htrue e
    | false => exact hfalse e

theorem call {operator : Expr} {operands : List Expr} {params : List Ty} {result : Ty}
    (he : EnvFits (Fits D types) aliases frames env) (hcallee : operator.Plain)
    (hp : ∀ operand ∈ operands, operand.Plain)
    (hoperator : (⟨aliases, frames⟩ : Context).derive operator = .ok (.func params result))
    (hoperands : List.Forall₂ (Expr.Bodies aliases frames) operands params) :
    Yields (evalCall evaluate env operator operands) (fun value => Fits D types value result)
      P.Permitted := by
  refine .bind (hs.plain he hcallee hoperator) fun callee hfits => ?_
  obtain ⟨closure, rfl⟩ := hfits.closure_of_func
  exact .bind (hs.all he hp hoperands) fun args hargs => hs.apply hfits hargs

theorem stepPlain {expr : Expr} {ty : Ty} (he : EnvFits (Fits D types) aliases frames env)
    (hp : expr.Plain) (h : (⟨aliases, frames⟩ : Context).derive expr = .ok ty) :
    Yields (evalStep evaluate env expr) (fun value => Fits D types value ty) P.Permitted := by
  cases hp with
  | lit value =>
      rw [Context.derive] at h
      cases h
      exact .pure (.lit (D.refl _))
  | var name => exact hs.var he h
  | call _ _ hcallee heach =>
      rw [evalStep]
      rcases Context.derive_call h with ⟨hform, condition, thenBranch, elseBranch, rfl, hc, ht, hel⟩
        | ⟨hform, params, hoperator, hoperands⟩
      · rw [if_pos hform]
        exact hs.conditional he heach hc ht hel
      · rw [if_neg (Bool.eq_false_iff.1 hform)]
        exact hs.call he hcallee heach hoperator hoperands

theorem stepDefinition {definition : Definition} (name : String)
    (he : EnvFits (Fits D types) aliases frames env) (hw : definition.Written)
    (hc : definition.Checked aliases frames) :
    Yields (evalStep evaluate env (definition.toExpr name))
      (fun value => Fits D types value definition.ty) P.Permitted := by
  cases definition with
  | native ty params function => cases hw
  | function ty params body nested =>
      cases hw with
      | function plain some distinct typed fresh ordered each =>
          exact .pure (.compound he (.function plain some distinct typed fresh ordered each) hc
            (D.refl _))
  | constant ty body nested =>
      obtain ⟨accepted, hbody⟩ := hc.constant hw
      cases hw with
      | constant plain _ _ =>
          rw [Definition.toExpr]
          split
          · rename_i hempty
            rw [List.isEmpty_iff.1 hempty] at accepted hbody
            -- without nested definitions there is no frame, and the body stands for itself
            obtain ⟨found, hfound, hsame⟩ := hbody
            exact (hs.stepPlain (.nested 0 he accepted) plain hfound).value fun value hv =>
              hv.trans (D.symm (D.same hsame))
          · refine .bind (Env.yields_extendM _ _) ?_
            rintro _ ⟨number, rfl⟩
            exact hs.body (.nested number he accepted) plain hbody

/-- **One level of evaluation is sound if the levels below are.** -/
theorem step : Sound P (evalStep evaluate) :=
  ⟨fun he hp h => hs.stepPlain he hp h, fun name he hw hc => hs.stepDefinition name he hw hc⟩

end Evaluator.Sound

/-- **Evaluation is sound at every limit.** -/
theorem eval_sound (P : Policy D types) (limit levels : Nat) :
    Evaluator.Sound P (eval limit levels) := by
  induction levels with
  | zero => exact ⟨fun _ _ _ => .throw (P.depth limit), fun _ _ _ _ => .throw (P.depth limit)⟩
  | succ levels ih => exact ih.step

/-! ## 3. Programs -/

/-- A native function, defined with the types that its operation works on. -/
def Definition.Signed (types : Table Ty) (definition : Definition) : Prop :=
  ∃ params result names function, definition = .native (.func params result) names function ∧
    function.operation.Signature types params result ∧ names.length = params.length

theorem Library.signed {origin : Nat} {outlet : Outlet} {name : String} {definition : Definition}
    (h : (name, definition) ∈ Library.definitions origin outlet) : definition.Signed types := by
  simp only [Library.definitions, Library.function, List.mem_cons, Prod.mk.injEq, List.not_mem_nil,
    or_false] at h
  rcases h with ⟨_, rfl⟩ | ⟨_, rfl⟩ | ⟨_, rfl⟩ | ⟨_, rfl⟩ | ⟨_, rfl⟩ | ⟨_, rfl⟩ | ⟨_, rfl⟩ |
    ⟨_, rfl⟩ | ⟨_, rfl⟩ | ⟨_, rfl⟩ | ⟨_, rfl⟩
  · exact ⟨_, _, _, _, rfl, .concat, rfl⟩
  · exact ⟨_, _, _, _, rfl, .arithmetic (by simp), rfl⟩
  · exact ⟨_, _, _, _, rfl, .comparison (by simp), rfl⟩
  · exact ⟨_, _, _, _, rfl, .comparison (by simp), rfl⟩
  · exact ⟨_, _, _, _, rfl, .intToStr, rfl⟩
  · exact ⟨_, _, _, _, rfl, .comparison (by simp), rfl⟩
  · exact ⟨_, _, _, _, rfl, .arithmetic (by simp), rfl⟩
  · exact ⟨_, _, _, _, rfl, .arithmetic (by simp), rfl⟩
  · exact ⟨_, _, _, _, rfl, .arithmetic (by simp), rfl⟩
  · exact ⟨_, _, _, _, rfl, .arithmetic (by simp), rfl⟩
  · exact ⟨_, _, _, _, rfl, .printLine outlet, rfl⟩

/-- Libraries differ in their origin and their outlet only. -/
theorem Library.agrees (origin origin' : Nat) (outlet outlet' : Outlet) :
    Library.Agrees (Library.definitions origin outlet) (Library.definitions origin' outlet') := by
  refine Table.find?_forall₂ ?_
  simp only [Library.definitions, Library.function]
  repeat refine .cons ⟨rfl, _, _, _, _, rfl, rfl⟩ ?_
  exact .nil

theorem Definition.signed_ofStruct {origin : Nat} {type : String} {fields : List (String × Ty)}
    (declared : Table.find? types type = some (.struct fields))
    (distinct : (fields.map (·.1)).Nodup) {name : String} {definition : Definition}
    (h : (name, definition) ∈ Definition.ofStruct origin type fields) :
    definition.Signed types := by
  rcases List.mem_cons.1 h with h | h
  · cases h
    exact ⟨_, _, _, _, rfl, .construct declared, by simp⟩
  · obtain ⟨field, hm, h⟩ := List.mem_map.1 h
    cases h
    exact ⟨_, _, _, _, rfl, .access declared distinct hm, rfl⟩

namespace Program

variable {program : Program} {origin : Nat}

theorem WellFormed.nodup_fields (h : program.WellFormed origin) {type : String}
    {fields : List (String × Ty)}
    (declared : Table.find? program.types type = some (.struct fields)) :
    (fields.map (·.1)).Nodup := by
  obtain ⟨declaration, hsound, hty, _⟩ := h.declared.each type _ declared
  cases declaration with
  | struct other =>
      cases hty
      exact hsound.2
  | union options => cases hty

/-- A definition of a program is written, or the native function of a struct. -/
theorem WellFormed.written_or_signed (h : program.WellFormed origin) {name : String}
    {definition : Definition} (hm : (name, definition) ∈ program.definitions) :
    definition.Written ∨ definition.Signed program.types := by
  refine (h.defines.each name definition hm).imp id ?_
  rintro ⟨type, fields, hdeclared, hm⟩
  exact Definition.signed_ofStruct hdeclared (h.nodup_fields hdeclared) hm

/-- **A checked program starts in an environment that belongs to its definitions.** -/
theorem WellFormed.envFits (h : program.WellFormed origin) (hc : program.check = .ok ())
    (D : Discipline program.aliases) (libOrigin : Nat) (outlet : Outlet) :
    EnvFits (Fits D program.types) program.aliases
      [Frame.ofDefinitions
        (Table.merge (Library.definitions libraryOrigin .void) program.definitions)]
      (baseEnv (Library.definitions libOrigin outlet) program.definitions) := by
  have hordered := h.defines.ordered
  refine .base (Library.agrees _ _ _ _) hordered ?_ ?_
  · intro below name ty params function hbelow hfind
    have hsigned : (Definition.native ty params function).Signed program.types := by
      have hm := Table.mem_of_find? hfind
      rcases hbelow with rfl | rfl
      · exact Library.signed hm
      · rcases h.written_or_signed hm with hw | hs
        · cases hw
        · exact hs
    obtain ⟨_, _, _, _, e, signature, arity⟩ := hsigned
    cases e
    exact .native signature arity (D.refl _)
  · intro name definition hfind
    rcases h.written_or_signed (Table.mem_of_find? hfind) with hw | ⟨_, _, _, _, rfl, _⟩
    · refine Or.inr ⟨hw, checked_of_checkAll hc name definition (Table.mem_of_find? ?_)⟩
      rw [Table.find?_merge, Table.find?_reverse hordered.nodup, hfind]
      rfl
    · exact Or.inl ⟨_, _, _, rfl⟩

/-- **What the `main` of a checked program ends in** where it is a call: a value of the declared type, or
a permitted error. -/
theorem yields_evalMain {D : Discipline program.aliases} (P : Policy D program.types)
    (h : program.WellFormed origin) (hc : program.check = .ok ()) (libOrigin : Nat)
    (outlet : Outlet) (limit : Nat) {ty : Ty} {operator : Expr} {operands : List Expr}
    {nested : Definitions} (hmain : Table.find? program.definitions "main" =
      some (.constant ty (.call operator operands) nested)) :
    Yields (program.evalMain (Library.definitions libOrigin outlet) nested operator operands limit
      limit) (fun value => Fits D program.types value ty) P.Permitted := by
  have henv := h.envFits hc D libOrigin outlet
  have hchecked : (Definition.constant ty (.call operator operands) nested).Checked
      program.aliases [Frame.ofDefinitions
        (Table.merge (Library.definitions libraryOrigin .void) program.definitions)] := by
    refine checked_of_checkAll hc "main" _ (Table.mem_of_find? ?_)
    rw [Table.find?_merge, Table.find?_reverse h.defines.ordered.nodup, hmain]
    rfl
  rcases h.written_or_signed (Table.mem_of_find? hmain) with hw | ⟨_, _, _, _, e, _⟩
  · obtain ⟨accepted, hbody⟩ := hchecked.constant hw
    cases hw with
    | constant plain _ _ =>
        refine .bind (Env.yields_extendM _ _) ?_
        rintro _ ⟨number, rfl⟩
        exact (eval_sound P limit limit).body (.nested number henv accepted) plain hbody
  · cases e

/-- **How a run of a checked program can fail**: at `main` itself, for want of a stack, or in a
permitted error. -/
theorem interpret_error {D : Discipline program.aliases} (P : Policy D program.types)
    (h : program.WellFormed origin) (hc : program.check = .ok ()) (libOrigin : Nat)
    (outlet : Outlet) {limit : Nat} {world : World} {error : EvalError}
    (hrun : ((program.interpret (Library.definitions libOrigin outlet) limit).run world).1 =
      .error error) :
    error = .missingMain ∨ error = .invalidMain ∨
      (∃ reason, world.Refuses limit reason ∧ error = .stack (Machine.stackSize limit) reason) ∨
      P.Permitted error := by
  rcases program.interpret_cases (Library.definitions libOrigin outlet) limit with e | e |
    ⟨ty, operator, operands, nested, hmain⟩
  · rw [e] at hrun
    cases hrun
    exact .inl rfl
  · rw [e] at hrun
    cases hrun
    exact .inr (.inl rfl)
  · rcases world.grants_or_refuses limit with hgrants | ⟨reason, hrefuses⟩
    · rw [run_interpret_of_grants _ hmain hgrants] at hrun
      exact .inr (.inr (.inr ((yields_evalMain P h hc libOrigin outlet limit hmain).error hrun)))
    · rw [(run_interpret_of_refuses _ hmain hrefuses).1] at hrun
      cases hrun
      exact .inr (.inr (.inl ⟨reason, hrefuses, rfl⟩))

end Program

/-- **A program that was compiled is well formed.** -/
theorem wellFormed_of_compile {origin : Nat} {source : String} {program : Program}
    (h : compile origin source = .ok program) : program.WellFormed origin := by
  obtain ⟨marked, _, h⟩ := except_bind_eq_ok h
  obtain ⟨tokens, _, h⟩ := except_bind_eq_ok h
  exact Program.wellFormed_ofTokens (mapError_eq_ok h)

end Offside
