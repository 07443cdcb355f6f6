import Offside.Proofs.Accepted
import Offside.Run

/-!
# Values of a type

When does a value that comes up in a run belong to a type of the program? The answer depends on how
far types are told apart, and the checker's own comparison (`Ty.same`) is not transitive, so it
cannot be the answer itself. A `Discipline` is an equivalence of types that the comparison respects
and that takes function types apart; everything here and in the modules that follow holds for each
of them.

* `Fits` -- a value belongs to a type. A closure belongs to the type of the definition that it was
  made from, in an environment that belongs to the scopes the definition was checked in;
* `EnvFits` -- an environment belongs to the frames of a context. It is a chain that grows as the
  frames do, by the definitions of a scope or by the parameters and definitions of a function;
* `Operation.Signature` -- the types of a native function.
-/

namespace Offside

/-! ## 1. Disciplines -/

/-- A way to tell types apart. -/
structure Discipline (aliases : Aliases) where
  /-- types that are not told apart -/
  Alike : Ty → Ty → Prop
  refl : ∀ ty, Alike ty ty
  symm : ∀ {a b}, Alike a b → Alike b a
  trans : ∀ {a b c}, Alike a b → Alike b c → Alike a c
  /-- what the checker takes for the same is alike -/
  same : ∀ {a b}, Ty.same aliases a b = true → Alike a b
  /-- only a function type is like a function type, and it is so position by position -/
  func : ∀ {params result ty}, Alike (.func params result) ty → ∃ params' result',
    ty = .func params' result' ∧ List.Forall₂ Alike params params' ∧ Alike result result'

namespace Discipline

variable {aliases : Aliases} (D : Discipline aliases)

/-- A name is not like a function type. -/
theorem not_named_func {name : String} {params : List Ty} {result : Ty}
    (h : D.Alike (.named name) (.func params result)) : False := by
  obtain ⟨_, _, e, _⟩ := D.func (D.symm h)
  cases e

theorem func_func {params params' : List Ty} {result result' : Ty}
    (h : D.Alike (.func params result) (.func params' result')) :
    List.Forall₂ D.Alike params params' ∧ D.Alike result result' := by
  obtain ⟨_, _, e, hparams, hresult⟩ := D.func h
  cases e
  exact ⟨hparams, hresult⟩

end Discipline

/-! ## 2. Native functions -/

/-- The types of a native function's parameters and of its result. -/
inductive Operation.Signature (types : Table Ty) : Operation → List Ty → Ty → Prop
  | arithmetic {operation : Operation}
      (h : operation ∈ [.plus, .minus, .multiply, .divide, .modulo]) :
      Signature types operation [.integer, .integer] .integer
  | comparison {operation : Operation} (h : operation ∈ [.less, .greater, .equal]) :
      Signature types operation [.integer, .integer] .truth
  | concat : Signature types .concat [.string, .string] .string
  | intToStr : Signature types .intToStr [.integer] .string
  | printLine (outlet : Outlet) : Signature types (.printLine outlet) [.string] .nothing
  | construct {type : String} {fields : List (String × Ty)}
      (declared : Table.find? types type = some (.struct fields)) :
      Signature types (.construct type (fields.map (·.1))) (fields.map (·.2)) (.named type)
  | access {type field : String} {ty : Ty} {fields : List (String × Ty)}
      (declared : Table.find? types type = some (.struct fields))
      (distinct : (fields.map (·.1)).Nodup) (mem : (field, ty) ∈ fields) :
      Signature types (.access type field) [.named type] ty

/-! ## 3. Values and environments -/

theorem Literal.ty_eq_named (value : Literal) : ∃ name, value.ty = .named name := by
  cases value <;> exact ⟨_, rfl⟩

/-- Two libraries have the same functions, as far as types and parameters tell. -/
def Library.Agrees (seen library : Definitions) : Prop :=
  ∀ name, Option.Rel
    (fun d d' => ∃ ty params f f', d = Definition.native ty params f ∧ d' = .native ty params f')
    (Table.find? seen name) (Table.find? library name)

/-- An environment belongs to the frames of a context; `V` says which values belong to a type. The
checker may have seen another build of the library than the one in the environment. -/
inductive EnvFits (V : Expr → Ty → Prop) (aliases : Aliases) : List Frame → Env → Prop
  | base {seen library definitions : Definitions}
      (agrees : Library.Agrees seen library)
      (ordered : Table.Ordered definitions)
      (natives : ∀ below name ty params function, below = library ∨ below = definitions →
        Table.find? below name = some (.native ty params function) →
          V (.closure (.native name params [] function)) ty)
      (accepted : ∀ name definition, Table.find? definitions name = some definition →
        (∃ ty params function, definition = .native ty params function) ∨ definition.Written ∧
          definition.Checked aliases [Frame.ofDefinitions (Table.merge seen definitions)]) :
      EnvFits V aliases [Frame.ofDefinitions (Table.merge seen definitions)]
        (Program.baseEnv library definitions)
  | nested {frames : List Frame} {env : Env} {nested : Definitions} (number : Nat)
      (below : EnvFits V aliases frames env)
      (accepted : Definitions.Accepted aliases (Frame.ofDefinitions nested :: frames) nested) :
      EnvFits V aliases (Frame.ofDefinitions nested :: frames)
        (env.extend number (Definitions.toBindings nested))
  | call {frames : List Frame} {env : Env} {nested : Definitions} {params : List String}
      {types : List Ty} {args : List Expr} (number number' : Nat)
      (below : EnvFits V aliases frames env)
      (accepted : Definitions.Accepted aliases
        ((Frame.ofDefinitions nested).withParams (params.zip types) :: frames) nested)
      (fresh : ∀ param ∈ params, Table.find? nested param = none)
      (values : List.Forall₂ V args types) :
      EnvFits V aliases ((Frame.ofDefinitions nested).withParams (params.zip types) :: frames)
        ((env.extend number (Env.pairs params args)).extend number'
          (Definitions.toBindings nested))

/-- A value belongs to a type, as far as a discipline tells types apart; `types` are the declared
ones. -/
inductive Fits {aliases : Aliases} (D : Discipline aliases) (types : Table Ty) : Expr → Ty → Prop
  | lit {value : Literal} {ty : Ty} (alike : D.Alike value.ty ty) : Fits D types (.lit value) ty
  | record {type : String} {fields : List (String × Ty)} {values : List (String × Expr)} {ty : Ty}
      (declared : Table.find? types type = some (.struct fields))
      (names : values.map (·.1) = fields.map (·.1))
      (each : List.Forall₂ (Fits D types) (values.map (·.2)) (fields.map (·.2)))
      (alike : D.Alike (.named type) ty) : Fits D types (.record type values) ty
  | compound {frames : List Frame} {env : Env} {paramTypes : List Ty} {result : Ty}
      {params : List String} {body : Expr} {nested : Definitions} {ty : Ty}
      (below : EnvFits (Fits D types) aliases frames env)
      (written : (Definition.function (.func paramTypes result) params body nested).Written)
      (checked : (Definition.function (.func paramTypes result) params body nested).Checked
        aliases frames)
      (alike : D.Alike (.func paramTypes result) ty) :
      Fits D types (.closure (.compound params env (Definitions.toBindings nested) body)) ty
  | native {name : String} {params : List String} {function : Native} {paramTypes : List Ty}
      {result : Ty} {ty : Ty}
      (signature : function.operation.Signature types paramTypes result)
      (arity : params.length = paramTypes.length)
      (alike : D.Alike (.func paramTypes result) ty) :
      Fits D types (.closure (.native name params [] function)) ty

namespace Fits

variable {aliases : Aliases} {D : Discipline aliases} {types : Table Ty} {value : Expr} {ty : Ty}

/-- A value belongs to all types that are alike. -/
theorem trans (h : Fits D types value ty) {ty' : Ty} (ha : D.Alike ty ty') :
    Fits D types value ty' := by
  cases h with
  | lit alike => exact .lit (D.trans alike ha)
  | record declared names each alike => exact .record declared names each (D.trans alike ha)
  | compound below written checked alike =>
      exact .compound below written checked (D.trans alike ha)
  | native signature arity alike => exact .native signature arity (D.trans alike ha)

/-- What belongs to a type is a value. -/
theorem isNormal (h : Fits D types value ty) : value.isNormal = true := by
  cases h <;> rfl

/-- What belongs to a function type is a closure. -/
theorem closure_of_func {params : List Ty} {result : Ty}
    (h : Fits D types value (.func params result)) : ∃ closure, value = .closure closure := by
  cases h with
  | @lit literal _ alike =>
      obtain ⟨name, e⟩ := literal.ty_eq_named
      rw [e] at alike
      exact (D.not_named_func alike).elim
  | record _ _ _ alike => exact (D.not_named_func alike).elim
  | compound => exact ⟨_, rfl⟩
  | native => exact ⟨_, rfl⟩

theorem trans_forall₂ {values : List Expr} {tys tys' : List Ty}
    (h : List.Forall₂ (Fits D types) values tys) (ha : List.Forall₂ D.Alike tys tys') :
    List.Forall₂ (Fits D types) values tys' := by
  induction h generalizing tys' with
  | nil =>
      cases ha
      exact .nil
  | cons hv _ ih =>
      cases ha with
      | cons hab hrest => exact .cons (hv.trans hab) (ih hrest)

end Fits

end Offside
