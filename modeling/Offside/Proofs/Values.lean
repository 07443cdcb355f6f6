import Offside.Proofs.Characters
import Offside.Proofs.Soundness

/-!
# What values look like

The values of a program look the same whether it was checked or not, since no type has a part in it:

* `Expr.Formed` -- what can come up in a run: a record is one of a declared struct and has the
  fields of it in their order, fields and kept arguments are values, and so on in all that an
  expression or a closure holds;
* `Expr.IsValue` -- what an evaluation can end in;
* `Evaluator.Keeps` -- a way to evaluate that ends in values only. One level of evaluation keeps
  this (`Evaluator.Keeps.step`), so evaluation does at every limit (`eval_keeps`);
* `Program.WellFormed.all_baseEnv` -- a program that was read starts with formed expressions;
* `Closure.constructor`, `Closure.accessor` -- what the names that a struct comes with stand for:
  the one makes records of the struct, and the others take them apart.
-/

namespace Offside

/-! ## 1. Formed expressions -/

/-- All that is bound in an environment has the property. -/
inductive Env.All (P : Expr → Prop) : Env → Prop
  | root : All P .root
  | frame {number : Nat} {bindings : Bindings} {parent : Env}
      (each : ∀ entry ∈ bindings, P entry.2) (below : All P parent) :
      All P (.frame number bindings parent)

/-- A constructor makes records of a declared struct. -/
def Operation.Declared (types : Table Ty) : Operation → Prop
  | construct type names =>
    ∃ fields, Table.find? types type = some (.struct fields) ∧ names = fields.map (·.1)
  | _ => True

namespace Expr

/-- What can come up in a run of a program that declares `types`. -/
inductive Formed (types : Table Ty) : Expr → Prop
  | lit (value : Literal) : Formed types (.lit value)
  | record {type : String} {fields : List (String × Ty)} {entries : List (String × Expr)}
      (declared : Table.find? types type = some (.struct fields))
      (names : entries.map (·.1) = fields.map (·.1))
      (values : ∀ entry ∈ entries, entry.2.isNormal = true)
      (each : ∀ entry ∈ entries, Formed types entry.2) : Formed types (.record type entries)
  | var (name : String) : Formed types (.var name)
  | call {operator : Expr} {operands : List Expr} (callee : Formed types operator)
      (each : ∀ operand ∈ operands, Formed types operand) : Formed types (.call operator operands)
  | function {params : List String} {locals : Bindings} {body : Expr}
      (each : ∀ entry ∈ locals, Formed types entry.2) (result : Formed types body) :
      Formed types (.function params locals body)
  | scope {locals : Bindings} {body : Expr} (each : ∀ entry ∈ locals, Formed types entry.2)
      (result : Formed types body) : Formed types (.scope locals body)
  | compound {params : List String} {env : Env} {locals : Bindings} {body : Expr}
      (captured : Env.All (Formed types) env) (each : ∀ entry ∈ locals, Formed types entry.2)
      (result : Formed types body) : Formed types (.closure (.compound params env locals body))
  | native {name : String} {params : List String} {applied : List Expr} {function : Native}
      (values : ∀ arg ∈ applied, arg.isNormal = true) (each : ∀ arg ∈ applied, Formed types arg)
      (declared : function.operation.Declared types) :
      Formed types (.closure (.native name params applied function))

/-- A literal, a record or a closure, formed throughout. -/
def IsValue (types : Table Ty) (value : Expr) : Prop :=
  value.isNormal = true ∧ value.Formed types

variable {types : Table Ty}

theorem IsValue.lit (value : Literal) : IsValue types (.lit value) :=
  ⟨rfl, .lit value⟩

/-- What a text can write is formed, since it has neither records nor closures. -/
theorem Plain.formed {expr : Expr} (h : expr.Plain) : expr.Formed types := by
  induction h with
  | lit value => exact .lit value
  | var name => exact .var name
  | call _ _ _ _ hcallee heach => exact .call hcallee heach

end Expr

variable {types : Table Ty}

/-! ## 2. Environments -/

namespace Env.All

variable {P : Expr → Prop} {env : Env}

theorem extend (h : env.All P) (number : Nat) {bindings : Bindings}
    (hb : ∀ entry ∈ bindings, P entry.2) : (env.extend number bindings).All P := by
  rw [Env.extend]
  split
  · exact h
  · exact .frame hb h

theorem lookup (h : env.All P) {name : String} {found : Expr × Env}
    (hfound : env.lookup name = some found) : P found.1 ∧ found.2.All P := by
  induction h with
  | root => cases hfound
  | frame each below ih =>
      rw [Env.lookup] at hfound
      split at hfound
      · rename_i bound hbound
        cases hfound
        exact ⟨each _ (Table.mem_of_find? hbound), .frame each below⟩
      · exact ih hfound

/-- What a name stands for is formed, and so is all that is in scope of it. -/
theorem resolve (h : env.All (Expr.Formed types)) {next : Nat} {name : String} {found : Env.Found}
    (hfound : env.resolve next name = some found) :
    found.bound.Formed types ∧ found.scope.All (Expr.Formed types) := by
  refine Qualified.resolve_forall
    (P := fun found : Env.Found => found.bound.Formed types ∧ found.scope.All (Expr.Formed types))
    (fun plain found hplain => ?_) ?_ hfound
  · obtain ⟨entry, hentry, rfl⟩ := Option.map_eq_some_iff.1 hplain
    exact h.lookup hentry
  · rintro ⟨bound, scope, next⟩ inner found ⟨hbound, hscope⟩ hmember
    cases hbound with
    | @scope locals body each result =>
        obtain ⟨member, hfind, rfl⟩ := Option.map_eq_some_iff.1 hmember
        exact ⟨each _ (Table.mem_of_find? hfind), hscope.extend next each⟩
    | lit _ | record _ _ _ _ | var _ | call _ _ | function _ _ | compound _ _ _ | native _ _ _ =>
        cases hmember

end Env.All

/-- Parameters bind arguments and nothing else. -/
theorem Env.forall_pairs {P : Expr → Prop} (params : List String) {args : List Expr}
    (h : ∀ arg ∈ args, P arg) : ∀ entry ∈ Env.pairs params args, P entry.2 := by
  intro entry hentry
  rcases Table.mem_merge hentry with hzip | hnil
  · exact h entry.2 (List.of_mem_zip hzip).2
  · cases hnil

/-! ## 3. Native functions -/

theorem Yields.any {α : Type} (m : EvalM α) : Yields m (fun _ => True) fun _ => True := by
  intro world
  split <;> trivial

/-- The computation ends in a value, or in some error. -/
abbrev YieldsValue (types : Table Ty) (m : EvalM Expr) : Prop :=
  Yields m (Expr.IsValue types) fun _ => True

namespace YieldsValue

theorem lit (value : Literal) : YieldsValue types (pure (.lit value)) :=
  .pure (.lit value)

theorem exactly (operation : Operation) (result : Option Int64) :
    YieldsValue types (operation.exactly result) := by
  cases result with
  | none => exact .throw trivial
  | some value => exact lit _

theorem onIntegers (operation : Operation) (a b : Expr) {f : Int64 → Int64 → EvalM Expr}
    (hf : ∀ x y, YieldsValue types (f x y)) : YieldsValue types (operation.onIntegers a b f) :=
  .bind (.any _) fun x _ => .bind (.any _) fun y _ => hf x y

theorem dividing (operation : Operation) (a b : Expr) (f : Int64 → Int64 → Option Int64) :
    YieldsValue types (operation.dividing a b f) :=
  onIntegers operation a b fun _ _ => .ite (fun _ => .throw trivial) fun _ => exactly operation _

theorem construct {type : String} {names : List String} {args : List Expr}
    (hd : (Operation.construct type names).Declared types)
    (hargs : ∀ arg ∈ args, arg.IsValue types) :
    YieldsValue types ((Operation.construct type names).call args) := by
  obtain ⟨fields, hdeclared, rfl⟩ := hd
  rw [Operation.call.eq_def]
  refine .ite (fun hlength => .pure ⟨rfl, .record hdeclared ?_ ?_ ?_⟩) fun _ => .throw trivial
  · exact List.map_fst_zip hlength.ge
  · exact fun entry hentry => (hargs _ (List.of_mem_zip hentry).2).1
  · exact fun entry hentry => (hargs _ (List.of_mem_zip hentry).2).2

theorem access {type field : String} {value : Expr} (hv : value.IsValue types) :
    YieldsValue types ((Operation.access type field).call [value]) := by
  rw [Operation.call.eq_def]
  simp only
  split
  · rename_i tag entries
    refine .ite (fun _ => ?_) fun _ => .throw trivial
    split
    · rename_i found hfound
      rw [Operation.field?_eq_find?] at hfound
      have hmem := Table.mem_of_find? hfound
      cases hv.2 with
      | record _ _ values each => exact .pure ⟨values _ hmem, each _ hmem⟩
    · exact .throw trivial
  · exact .throw trivial

/-- **A native function makes values of values.** -/
theorem call {operation : Operation} (hd : operation.Declared types) {args : List Expr}
    (hargs : ∀ arg ∈ args, arg.IsValue types) : YieldsValue types (operation.call args) := by
  rw [Operation.call.eq_def]
  split
  -- the five operations of arithmetic
  · exact onIntegers _ _ _ fun _ _ => exactly _ _
  · exact onIntegers _ _ _ fun _ _ => exactly _ _
  · exact onIntegers _ _ _ fun _ _ => exactly _ _
  · exact dividing _ _ _ _
  · exact dividing _ _ _ _
  -- the comparisons
  · exact onIntegers _ _ _ fun _ _ => lit _
  · exact onIntegers _ _ _ fun _ _ => lit _
  · exact .bind (.any _) fun _ _ => .bind (.any _) fun _ _ => lit _
  -- strings and output
  · exact .bind (.any _) fun _ _ => .bind (.any _) fun _ _ => lit _
  · exact .bind (.any _) fun _ _ => lit _
  · exact .bind (.any _) fun _ _ => .bind (.any _) fun _ _ => lit _
  -- structs
  · exact construct hd hargs
  · exact access (hargs _ List.mem_cons_self)
  -- the wrong number of arguments
  · exact .throw trivial

end YieldsValue

/-! ## 4. Evaluation -/

/-- A way to evaluate that ends in values, if all that it meets is formed. -/
def Evaluator.Keeps (types : Table Ty) (evaluate : Evaluator) : Prop :=
  ∀ {env : Env} {expr : Expr}, env.All (Expr.Formed types) → expr.Formed types →
    YieldsValue types (evaluate env expr)

namespace Evaluator.Keeps

variable {evaluate : Evaluator} (hk : Keeps types evaluate) {env : Env}

include hk

theorem all (he : env.All (Expr.Formed types)) {operands : List Expr}
    (hoperands : ∀ operand ∈ operands, operand.Formed types) :
    Yields (evalAll evaluate env operands) (fun args => ∀ arg ∈ args, arg.IsValue types)
      fun _ => True := by
  induction operands with
  | nil => exact .pure fun _ harg => absurd harg List.not_mem_nil
  | cons operand rest ih =>
      obtain ⟨hfirst, hrest⟩ := List.forall_mem_cons.1 hoperands
      refine .bind (hk he hfirst) fun value hvalue => .bind (ih hrest) fun values hvalues => ?_
      exact .pure (List.forall_mem_cons.2 ⟨hvalue, hvalues⟩)

/-- A closure that gets too few values keeps them, and one that gets enough makes a value. -/
theorem apply {closure : Closure} (hc : (Expr.closure closure).Formed types) {args : List Expr}
    (hargs : ∀ arg ∈ args, arg.IsValue types) :
    YieldsValue types (closure.applyWith evaluate args) := by
  have hformed : ∀ arg ∈ args, arg.Formed types := fun arg harg => (hargs arg harg).2
  refine .ite (fun _ => .throw trivial) fun _ => .ite (fun _ => ?_) fun _ => ?_
  · cases hc with
    | compound captured each result =>
        rw [EvalM.liftM_self, Closure.applyPartly, bind_assoc]
        refine .bind (Env.yields_extendM _ _) ?_
        rintro _ ⟨number, rfl⟩
        refine .pure ⟨rfl, .compound ?_ each result⟩
        exact captured.extend number (Env.forall_pairs _ hformed)
    | @native _ _ applied _ values each declared =>
        refine .pure ⟨rfl, .native ?_ ?_ declared⟩
        · exact List.forall_mem_append.2 ⟨values, fun arg harg => (hargs arg harg).1⟩
        · exact List.forall_mem_append.2 ⟨each, hformed⟩
  · cases hc with
    | compound captured each result =>
        rw [Closure.applyFully]
        refine .bind (Env.yields_extendM _ _) ?_
        rintro _ ⟨number, rfl⟩
        refine .bind (Env.yields_extendM _ _) ?_
        rintro _ ⟨number', rfl⟩
        exact hk ((captured.extend number (Env.forall_pairs _ hformed)).extend number' each) result
    | native values each declared =>
        refine YieldsValue.call declared (List.forall_mem_append.2 ⟨fun arg harg => ?_, hargs⟩)
        exact ⟨values arg harg, each arg harg⟩

theorem var (he : env.All (Expr.Formed types)) (name : String) :
    YieldsValue types (evalVar evaluate env name) := by
  refine .bind (Env.yields_resolveM fun _ _ => trivial) fun found hfound => ?_
  obtain ⟨next, hsome⟩ := hfound
  obtain ⟨hbound, hscope⟩ := he.resolve hsome
  exact .ite (fun hn => .pure ⟨hn, hbound⟩) fun _ => hk hscope hbound

theorem conditional (he : env.All (Expr.Formed types)) {operands : List Expr}
    (hoperands : ∀ operand ∈ operands, operand.Formed types) :
    YieldsValue types (evalIfElse evaluate env operands) := by
  rw [evalIfElse.eq_def]
  split
  · rename_i condition thenBranch elseBranch
    simp only [List.forall_mem_cons] at hoperands
    obtain ⟨hcondition, hthen, helse, _⟩ := hoperands
    refine .bind (hk he hcondition) fun value _ => ?_
    split
    · exact hk he hthen
    · exact hk he helse
    · exact .throw trivial
  · exact .throw trivial

theorem call (he : env.All (Expr.Formed types)) {operator : Expr}
    (hoperator : operator.Formed types) {operands : List Expr}
    (hoperands : ∀ operand ∈ operands, operand.Formed types) :
    YieldsValue types (evalCall evaluate env operator operands) := by
  refine .bind (hk he hoperator) fun callee hcallee => ?_
  split
  · exact .bind (hk.all he hoperands) fun args hargs => hk.apply hcallee.2 hargs
  · exact .throw trivial

/-- **One level of evaluation ends in values if the levels below do.** -/
theorem step : Keeps types (evalStep evaluate) := by
  intro env expr he h
  cases h with
  | lit value => exact .pure (.lit value)
  | record declared names values each => exact .pure ⟨rfl, .record declared names values each⟩
  | var name => exact hk.var he name
  | call callee each =>
      exact .ite (fun _ => hk.conditional he each) fun _ => hk.call he callee each
  | function each result => exact .pure ⟨rfl, .compound he each result⟩
  | scope each result =>
      refine .bind (Env.yields_extendM _ _) ?_
      rintro _ ⟨number, rfl⟩
      exact hk (he.extend number each) result
  | compound captured each result => exact .pure ⟨rfl, .compound captured each result⟩
  | native values each declared => exact .pure ⟨rfl, .native values each declared⟩

end Evaluator.Keeps

/-- **Evaluation ends in values at every limit.** -/
theorem eval_keeps (types : Table Ty) (limit levels : Nat) :
    Evaluator.Keeps types (eval limit levels) := by
  induction levels with
  | zero => exact fun _ _ => .throw trivial
  | succ levels ih => exact ih.step

/-- **Whatever has a value's form is its own value**, in every environment. -/
theorem eval_of_isNormal {value : Expr} (h : value.isNormal = true) (limit levels : Nat)
    (env : Env) : eval limit (levels + 1) env value = pure value := by
  cases value with
  | lit _ | record _ _ | closure _ => rfl
  | var _ | call _ _ | function _ _ _ | scope _ _ => cases h

theorem evalAll_of_isNormal {args : List Expr} (h : ∀ arg ∈ args, arg.isNormal = true)
    (limit levels : Nat) (env : Env) : evalAll (eval limit (levels + 1)) env args = pure args := by
  induction args with
  | nil => rfl
  | cons first rest ih =>
      obtain ⟨hfirst, hrest⟩ := List.forall_mem_cons.1 h
      rw [evalAll, eval_of_isNormal hfirst, pure_bind, ih hrest, pure_bind]

/-! ## 5. Programs -/

theorem Definitions.forall_toBindings {P : Expr → Prop} {definitions : Definitions}
    (h : ∀ name definition, (name, definition) ∈ definitions → P (definition.toExpr name)) :
    ∀ entry ∈ Definitions.toBindings definitions, P entry.2 := by
  induction definitions with
  | nil => exact fun _ hentry => absurd hentry List.not_mem_nil
  | cons first rest ih =>
      refine List.forall_mem_cons.2 ⟨h first.1 first.2 List.mem_cons_self, ?_⟩
      exact ih fun name definition hmem => h name definition (List.mem_cons_of_mem _ hmem)

namespace Definition

/-- What evaluation binds for a definition of a text is formed. -/
theorem Written.formed {definition : Definition} (h : definition.Written) (name : String) :
    (definition.toExpr name).Formed types := by
  induction h generalizing name with
  | constant plain _ _ ih =>
      rw [toExpr]
      split
      · exact plain.formed
      · exact .scope (Definitions.forall_toBindings fun key _ hmem => ih _ _ hmem key) plain.formed
  | function plain _ _ _ _ _ _ ih =>
      exact .function (Definitions.forall_toBindings fun key _ hmem => ih _ _ hmem key) plain.formed

/-- What evaluation binds for a native function is formed. -/
theorem Signed.formed {definition : Definition} (h : definition.Signed types) (name : String) :
    (definition.toExpr name).Formed types := by
  obtain ⟨params, result, names, function, rfl, signature, _⟩ := h
  refine .native (fun _ harg => absurd harg List.not_mem_nil)
    (fun _ harg => absurd harg List.not_mem_nil) ?_
  generalize function.operation = operation at signature
  cases signature with
  | construct declared => exact ⟨_, declared, rfl⟩
  | concat | intToStr | printLine _ | access _ _ _ => trivial
  | arithmetic h | comparison h =>
      simp only [List.mem_cons, List.not_mem_nil, or_false] at h
      rcases h with rfl | rfl | rfl | rfl | rfl <;> trivial

end Definition

/-- **A program that was read starts with formed expressions.** -/
theorem Program.WellFormed.all_baseEnv {program : Program} {origin : Nat}
    (h : program.WellFormed origin) (libOrigin : Nat) (outlet : Outlet) :
    (Program.baseEnv (Library.definitions libOrigin outlet) program.definitions).All
      (Expr.Formed program.types) := by
  refine Env.All.extend (Env.All.extend .root 0 ?_) 1 ?_
  · exact Definitions.forall_toBindings fun name _ hmem => (Library.signed hmem).formed name
  · refine Definitions.forall_toBindings fun name _ hmem => ?_
    rcases h.written_or_signed hmem with hwritten | hsigned
    · exact hwritten.formed name
    · exact hsigned.formed name

theorem plain_of_compileExpr {source : String} {expr : Expr}
    (h : compileExpr source = .ok expr) : expr.Plain := by
  obtain ⟨lexemes, _, h⟩ := except_bind_eq_ok h
  obtain ⟨_, _, _, hderives, _⟩ := Expr.ofTokens_iff_derives.1 (mapError_eq_ok h)
  exact hderives.plain

/-! ## 6. Structs -/

/-- A call that is no conditional applies what its operator stands for. -/
theorem eval_call {limit levels : Nat} {env : Env} {operator : Expr} {operands args : List Expr}
    {closure : Closure} (hform : operator.isIfElse = false)
    (hoperator : eval limit levels env operator = pure (.closure closure))
    (hoperands : evalAll (eval limit levels) env operands = pure args) :
    eval limit (levels + 1) env (.call operator operands) =
      closure.applyWith (eval limit levels) args := by
  rw [eval, evalStep, if_neg (Bool.eq_false_iff.1 hform), evalCall, hoperator, pure_bind]
  simp only [hoperands, pure_bind]

namespace Closure

variable {origin : Nat} {type : String}

/-- The function that makes records of a struct. -/
def constructor (origin : Nat) (type : String) (fields : List (String × Ty)) : Closure :=
  .native type (fields.map (·.1)) [] ⟨origin, .construct type (fields.map (·.1))⟩

/-- The function that takes a field out of records of a struct. -/
def accessor (origin : Nat) (type field : String) : Closure :=
  .native (accessorName type field) ["value"] [] ⟨origin, .access type field⟩

theorem applyWith_constructor {fields : List (String × Ty)} {args : List Expr}
    (h : args.length = fields.length) (evaluate : Evaluator) :
    (constructor origin type fields).applyWith evaluate args =
      pure (.record type ((fields.map (·.1)).zip args)) := by
  have hlength : args.length = (fields.map (·.1)).length := by rw [List.length_map, h]
  rw [applyWith_eq_applyFully evaluate (constructor origin type fields) hlength.symm]
  exact if_pos hlength

theorem applyWith_accessor {field : String} {entries : List (String × Expr)} {found : Expr}
    (hdistinct : (entries.map (·.1)).Nodup) (hmem : (field, found) ∈ entries)
    (evaluate : Evaluator) :
    (accessor origin type field).applyWith evaluate [.record type entries] = pure found := by
  rw [applyWith_eq_applyFully evaluate _ rfl]
  change Operation.call (.access type field) [.record type entries] = _
  rw [Operation.call.eq_def]
  simp only [if_true, Operation.field?_eq_find?, Table.find?_of_mem hdistinct hmem]

end Closure

/-- The name of an accessor has a dot in it, and that of the conditional has none. -/
theorem isIfElse_accessorName (type field : String) :
    (Expr.var (accessorName type field)).isIfElse = false := by
  refine beq_eq_false_iff_ne.2 fun heq => ?_
  have hdot : '.' ∈ (accessorName type field).toList := by
    simp [accessorName]
  rw [heq] at hdot
  revert hdot
  decide

namespace Program

variable {program : Program} {origin : Nat} {type : String} {fields : List (String × Ty)}

/-- The name of a native function of a program stands for that function. -/
theorem eval_native (library : Definitions) {definitions : Definitions} {name : String} {ty : Ty}
    {params : List String} {function : Native}
    (h : Table.find? definitions name = some (.native ty params function)) (limit levels : Nat) :
    eval limit (levels + 1) (baseEnv library definitions) (.var name) =
      pure (.closure (.native name params [] function)) := by
  have hlookup := lookup_baseEnv library definitions name
  rw [h] at hlookup
  exact (evalVar_of_lookup hlookup _).trans (if_pos rfl)

theorem WellFormed.eval_constructor (h : program.WellFormed origin)
    (declared : Table.find? program.types type = some (.struct fields)) (library : Definitions)
    (limit levels : Nat) :
    eval limit (levels + 1) (baseEnv library program.definitions) (.var type) =
      pure (.closure (.constructor origin type fields)) := by
  have hmem := h.defines.generated type fields declared _ List.mem_cons_self
  exact eval_native library (Table.find?_of_mem h.defines.ordered.nodup hmem) limit levels

theorem WellFormed.eval_accessor (h : program.WellFormed origin)
    (declared : Table.find? program.types type = some (.struct fields)) {field : String} {ty : Ty}
    (hfield : (field, ty) ∈ fields) (library : Definitions) (limit levels : Nat) :
    eval limit (levels + 1) (baseEnv library program.definitions)
        (.var (accessorName type field)) =
      pure (.closure (.accessor origin type field)) := by
  have hmem := h.defines.generated type fields declared _
    (List.mem_cons_of_mem _ (List.mem_map_of_mem hfield))
  exact eval_native library (Table.find?_of_mem h.defines.ordered.nodup hmem) limit levels

/-- **An accessor takes the field in its place out of every record of its struct.** -/
theorem WellFormed.applyWith_accessor (h : program.WellFormed origin)
    (declared : Table.find? program.types type = some (.struct fields)) {i : Nat} {field : String}
    {ty : Ty} (hfield : fields[i]? = some (field, ty)) {entries : List (String × Expr)}
    (hnames : entries.map (·.1) = fields.map (·.1)) :
    ∃ found, entries[i]? = some (field, found) ∧ ∀ evaluate : Evaluator,
      (Closure.accessor origin type field).applyWith evaluate [.record type entries] =
        pure found := by
  have hname : (entries.map (·.1))[i]? = some field := by
    rw [hnames, List.getElem?_map, hfield]
    rfl
  rw [List.getElem?_map] at hname
  obtain ⟨⟨_, found⟩, hentry, rfl⟩ := Option.map_eq_some_iff.1 hname
  have hdistinct : (entries.map (·.1)).Nodup := hnames ▸ h.nodup_fields declared
  exact ⟨found, hentry, Closure.applyWith_accessor hdistinct (List.mem_of_getElem? hentry)⟩

/-- **A field of a new record is the argument in its place.** -/
theorem WellFormed.applyWith_accessor_zip (h : program.WellFormed origin)
    (declared : Table.find? program.types type = some (.struct fields)) {i : Nat} {field : String}
    {ty : Ty} (hfield : fields[i]? = some (field, ty)) {args : List Expr} {component : Expr}
    (hlength : args.length = fields.length) (hcomponent : args[i]? = some component)
    (evaluate : Evaluator) :
    (Closure.accessor origin type field).applyWith evaluate
        [.record type ((fields.map (·.1)).zip args)] = pure component := by
  have hnames : ((fields.map (·.1)).zip args).map (·.1) = fields.map (·.1) :=
    List.map_fst_zip (by rw [List.length_map, hlength])
  obtain ⟨found, hentry, hfound⟩ := h.applyWith_accessor declared hfield hnames
  have hplace : args[i]? = some found := (List.getElem?_zip_eq_some.1 hentry).2
  rw [hfound evaluate, Option.some.inj (hplace.symm.trans hcomponent)]

/-- The same where the functions are called by their names, and that of the struct is not the name of
the conditional. -/
theorem WellFormed.eval_component (h : program.WellFormed origin)
    (declared : Table.find? program.types type = some (.struct fields)) (hform : type ≠ ifElse)
    {i : Nat} {field : String} {ty : Ty} (hfield : fields[i]? = some (field, ty))
    {args : List Expr} {component : Expr} (hlength : args.length = fields.length)
    (hargs : ∀ arg ∈ args, arg.isNormal = true) (hcomponent : args[i]? = some component)
    (library : Definitions) (limit levels : Nat) :
    eval limit (levels + 3) (baseEnv library program.definitions)
        (.call (.var (accessorName type field)) [.call (.var type) args]) = pure component := by
  have hname : (Expr.var type).isIfElse = false := beq_eq_false_iff_ne.2 hform
  have hrecord := eval_call hname (h.eval_constructor declared library limit levels)
    (evalAll_of_isNormal hargs limit levels _)
  rw [Closure.applyWith_constructor hlength] at hrecord
  have hoperands : evalAll (eval limit (levels + 2)) (baseEnv library program.definitions)
      [.call (.var type) args] = pure [.record type ((fields.map (·.1)).zip args)] := by
    rw [evalAll, hrecord, pure_bind, evalAll, pure_bind]
  rw [eval_call (isIfElse_accessorName type field)
    (h.eval_accessor declared (List.mem_of_getElem? hfield) library limit (levels + 1)) hoperands]
  exact h.applyWith_accessor_zip declared hfield hlength hcomponent _

end Program

/-! ## 7. Values of a program -/

namespace Expr

/-- The expression has the value, without writing anything, at every limit from `least` on that there is
a stack for. -/
def Gives (expr : Expr) (env : Env) (least : Nat) (value : Expr) : Prop :=
  ∀ limit, least ≤ limit → HasValue (expr.evaluate limit env) limit value

theorem Gives.of_eval {expr value : Expr} {env : Env} {least : Nat}
    (h : ∀ limit levels, eval limit (levels + least) env expr = pure value) :
    expr.Gives env least value := by
  intro limit hle
  obtain ⟨levels, rfl⟩ := Nat.exists_eq_add_of_le' hle
  exact hasValue_onStack (h _ levels) _

/-- A record of a declared struct has the fields of the struct. -/
theorem IsValue.names_eq {type : String} {fields : List (String × Ty)}
    {entries : List (String × Expr)} (h : IsValue types (.record type entries))
    (hdeclared : Table.find? types type = some (.struct fields)) :
    entries.map (·.1) = fields.map (·.1) := by
  cases h.2 with
  | record declared names _ _ =>
      rw [hdeclared] at declared
      cases declared
      exact names

end Expr

/-- **The values of a program**, checked or not. An expression that ends in a value ends in a
literal, a record or a closure; so are all fields and kept arguments inside of it, and all records
inside of it are records of declared structs, with their fields in order. A value is its own value
everywhere. The name of a struct stands for the function that makes its records, and that of an
accessor for one that gives the field in its place for every record of the struct, and so for a new
record the argument in that place. Calls by name do the same, unless the struct has the name of the
conditional: a call by that name is the conditional. All this needs a stack for the limit; without one
there is an error instead of the value. -/
theorem evaluate_isValue {origin : Nat} {source : String} {program : Program}
    (h : compile origin source = .ok program) (libOrigin : Nat) (outlet : Outlet) :
    let env := Program.baseEnv (Library.definitions libOrigin outlet) program.definitions
    (∀ text expr limit world value, compileExpr text = .ok expr →
      ((expr.evaluate limit env).run world).1 = .ok value →
        value.IsValue program.types ∧ ∀ again, value.Gives again 1 value) ∧
    ∀ type fields, Table.find? program.types type = some (.struct fields) →
      (Expr.var type).Gives env 1 (.closure (.constructor origin type fields)) ∧
      ∀ (i : Nat) field ty, fields[i]? = some (field, ty) →
        (Expr.var (accessorName type field)).Gives env 1
          (.closure (.accessor origin type field)) ∧
        (∀ entries, (Expr.record type entries).IsValue program.types →
          ∃ found, entries[i]? = some (field, found) ∧ ∀ limit, HasValue
            ((Closure.accessor origin type field).apply limit [.record type entries]) limit found) ∧
        ∀ args component, args.length = fields.length → (∀ arg ∈ args, arg.isNormal = true) →
          args[i]? = some component →
            (∀ limit, ∃ record,
              HasValue ((Closure.constructor origin type fields).apply limit args) limit record ∧
              HasValue ((Closure.accessor origin type field).apply limit [record]) limit
                component) ∧
            (type ≠ ifElse →
              (Expr.call (.var (accessorName type field)) [.call (.var type) args]).Gives env 3
                component) := by
  intro env
  have hwf := wellFormed_of_compile h
  refine ⟨?_, fun type fields hdeclared => ⟨.of_eval (hwf.eval_constructor hdeclared _), ?_⟩⟩
  · intro text expr limit world value hexpr hvalue
    have hformed : expr.Formed program.types := (plain_of_compileExpr hexpr).formed
    have hends := eval_keeps program.types limit limit (hwf.all_baseEnv libOrigin outlet) hformed
    have hisValue : value.IsValue program.types := hends.ok (onStack_eq_ok hvalue)
    exact ⟨hisValue, fun again => .of_eval fun limit levels =>
      eval_of_isNormal hisValue.1 limit levels again⟩
  intro i field ty hfield
  refine ⟨.of_eval (hwf.eval_accessor hdeclared (List.mem_of_getElem? hfield) _), ?_, ?_⟩
  · intro entries hrecord
    obtain ⟨found, hentry, hfound⟩ :=
      hwf.applyWith_accessor hdeclared hfield (hrecord.names_eq hdeclared)
    exact ⟨found, hentry, fun limit => hasValue_onStack (hfound _) limit⟩
  · intro args component hlength hargs hcomponent
    refine ⟨fun limit => ⟨.record type ((fields.map (·.1)).zip args), ?_, ?_⟩, fun hform => ?_⟩
    · exact hasValue_onStack (Closure.applyWith_constructor hlength _) limit
    · exact hasValue_onStack
        (hwf.applyWith_accessor_zip hdeclared hfield hlength hcomponent _) limit
    · exact .of_eval (hwf.eval_component hdeclared hform hfield hlength hargs hcomponent _)

/-- A struct with a function in one field; its constructor is used with too few arguments, too. -/
def shiftSource : String :=
  "Shift := struct by:Integer next:(Integer -> Integer)
wrap:Shift by:Integer = Shift by (plus by)"

/-- An expression of no type, with records and kept arguments inside each other. -/
def shiftText : String :=
  "Shift (Shift 1) (wrap 2)"

/-- What an expression ends in, in the environment of a program. -/
def outcome (program : Program) (expr : Expr) (limit : Nat := 9) (machine : Machine := .ample) :
    Except EvalError Expr :=
  ((expr.evaluate limit
    (Program.baseEnv (Library.definitions libraryOrigin .void) program.definitions)).run
      (World.initial .accepting Program.baseFrames machine)).1

set_option maxRecDepth 4000 in
theorem evaluate_isValue_shiftText :
    ∃ program expr value, compile programOrigin shiftSource = .ok program ∧
      compileExpr shiftText = .ok expr ∧ outcome program expr = .ok value ∧
      value.text = "Shift \x7b by: <builtin Shift/1>, next: " ++
        "Shift \x7b by: 2, next: <builtin plus/1> \x7d \x7d" ∧
      value.IsValue program.types ∧
      let env := Program.baseEnv (Library.definitions libraryOrigin .void) program.definitions
      value.Gives env 1 value ∧
      (Expr.call (.var "Shift.next") [.call (.var "Shift") [.lit (.int 1), value]]).Gives env 3
        value := by
  have hsources : ∃ source text, shiftSource = String.ofList source ∧
      shiftText = String.ofList text ∧
      compiles programOrigin source fun program => compilesExpr text fun expr =>
        Table.find? program.types "Shift" = some (.struct
          [("by", .integer), ("next", .func [.integer] .integer)]) ∧
        (outcome program expr).map Expr.text = .ok ("Shift \x7b by: <builtin Shift/1>, next: " ++
          "Shift \x7b by: 2, next: <builtin plus/1> \x7d \x7d") :=
    ⟨_, _, rfl, rfl, by decide +kernel⟩
  obtain ⟨source, text, hsource, htext, hsources⟩ := hsources
  obtain ⟨program, hcompile, hsources⟩ := exists_of_compiles hsource hsources
  obtain ⟨expr, hexpr, hp⟩ := exists_of_compilesExpr htext hsources
  obtain ⟨hdeclared, houtcome⟩ := of_decide_eq_true hp
  cases hends : outcome program expr with
  | error error =>
      rw [hends] at houtcome
      cases houtcome
  | ok value =>
      rw [hends] at houtcome
      obtain ⟨hvalues, hstructs⟩ := evaluate_isValue hcompile libraryOrigin .void
      obtain ⟨hisValue, hagain⟩ := hvalues _ _ _ _ _ hexpr hends
      obtain ⟨-, hfields⟩ := hstructs _ _ hdeclared
      obtain ⟨-, -, hnew⟩ := hfields 1 _ _ rfl
      have hargs : ∀ arg ∈ [Expr.lit (.int 1), value], arg.isNormal = true :=
        List.forall_mem_cons.2 ⟨rfl, List.forall_mem_singleton.2 hisValue.1⟩
      exact ⟨program, expr, value, hcompile, hexpr, hends, Except.ok.inj houtcome, hisValue,
        hagain _, (hnew _ _ rfl hargs rfl).2 (by decide)⟩

/-- A struct, and one with the name of the conditional. -/
def branchSource : String := "Box := struct x:Integer
ifElse := struct x:Integer"

/-- A field of a new record, and of one that is to be made by the name of the conditional. -/
def branchTexts : String × String := ("Box.x (Box 42)", "ifElse.x (ifElse 42)")

set_option maxRecDepth 4000 in
/-- The name of the conditional does not call the constructor of a struct, and without a stack no
constructor is called. -/
theorem outcome_of_branchTexts :
    ∃ program box branch, compile programOrigin branchSource = .ok program ∧
      Table.find? program.types "Box" = some (.struct [("x", .integer)]) ∧
      Table.find? program.types ifElse = some (.struct [("x", .integer)]) ∧
      compileExpr branchTexts.1 = .ok box ∧ compileExpr branchTexts.2 = .ok branch ∧
      outcome program branch = .error (.arity ifElse 3 1) ∧
      (outcome program box).toOption.map Expr.text = some "42" ∧
      outcome program box vastLimit .addressed = .error vastStack := by
  have hsources : ∃ source first second, branchSource = String.ofList source ∧
      branchTexts.1 = String.ofList first ∧ branchTexts.2 = String.ofList second ∧
      compiles programOrigin source fun program => compilesExpr first fun box =>
        compilesExpr second fun branch =>
          Table.find? program.types "Box" = some (.struct [("x", .integer)]) ∧
          Table.find? program.types ifElse = some (.struct [("x", .integer)]) ∧
          (outcome program branch).map Expr.text = .error (.arity ifElse 3 1) ∧
          (outcome program box).toOption.map Expr.text = some "42" :=
    ⟨_, _, _, rfl, rfl, rfl, by decide +kernel⟩
  obtain ⟨source, first, second, hsource, hfirst, hsecond, hsources⟩ := hsources
  obtain ⟨program, hcompile, hsources⟩ := exists_of_compiles hsource hsources
  obtain ⟨box, hbox, hsources⟩ := exists_of_compilesExpr hfirst hsources
  obtain ⟨branch, hbranch, hp⟩ := exists_of_compilesExpr hsecond hsources
  obtain ⟨hdeclared, hdeclared', houtcome, hvalue⟩ := of_decide_eq_true hp
  refine ⟨program, box, branch, hcompile, hdeclared, hdeclared', hbox, hbranch, ?_, hvalue, ?_⟩
  · cases hends : outcome program branch with
    | error error =>
        rw [hends] at houtcome
        exact congrArg _ (Except.error.inj houtcome)
    | ok value =>
        rw [hends] at houtcome
        cases houtcome
  · rw [outcome, Expr.evaluate, onStack_of_refuses (World.refuses_vastLimit _ _)]
    rfl

end Offside
