import Offside.Proofs.Except
import Offside.Typing.Check

/-!
# The scopes of the checker

The checker enters a scope for each definition, and leaves it when it is done with the definition or
has found a fault. So it hands back the context that it was given (`CheckM.checkDefinition_keeps`), and
what it finds in a context (`Context.checkDefinition`) does not depend on what it has seen before: the
equations `Context.checkDefinition_constant` and those after it say it in terms of the parts, each in
the context of its scope.
-/

namespace Offside

/-! ## 1. Contexts are handed back -/

namespace CheckM

/-- The computation hands back the context that it was given, whatever it ends in. -/
def Keeps {α : Type} (m : CheckM α) : Prop :=
  ∀ context : Context, (m.run context).2 = context

namespace Keeps

variable {α β : Type} {m : CheckM α}

theorem pure (a : α) : Keeps (Pure.pure a) := fun _ => rfl

theorem throw (error : TypeError) : Keeps (MonadExcept.throw error : CheckM α) := fun _ => rfl

theorem bind {f : α → CheckM β} (h : m.Keeps) (hf : ∀ a, (f a).Keeps) : (m >>= f).Keeps := by
  intro context
  have hafter := h context
  rw [exceptT_run_bind]
  generalize m.run context = result at hafter ⊢
  obtain ⟨outcome, after⟩ := result
  cases outcome with
  | error error => exact hafter
  | ok a => exact (hf a after).trans hafter

/-- What follows a computation that hands back its context starts in the same context. -/
theorem run_bind (h : m.Keeps) (f : α → CheckM β) (context : Context) :
    ((m >>= f).run context).1 = (m.run context).1 >>= fun a => ((f a).run context).1 := by
  have hafter := h context
  rw [exceptT_run_bind]
  generalize m.run context = result at hafter ⊢
  obtain ⟨outcome, after⟩ := result
  cases outcome with
  | error error => rfl
  | ok a =>
      cases hafter
      rfl

/-- A scope that is entered is left again. -/
theorem within (h : m.Keeps) (frame : Frame) : (CheckM.within frame m).Keeps := by
  intro context
  change (m.run (context.push frame)).2.pop = context
  rw [h, Context.pop_push]

end Keeps

theorem checkBody_run (path : String) (declared : Ty) (body : Expr) (context : Context) :
    (checkBody path declared body).run context =
      (match context.derive body with
        | .error fault => .error ⟨path, fault⟩
        | .ok found =>
          if context.sameType declared found then .ok ()
          else .error ⟨path, .mismatch declared found⟩, context) := by
  change ExceptT.run (m := StateM Context) (match context.derive body with
    | .error fault => _
    | .ok found => if context.sameType declared found then _ else _) context = _
  cases context.derive body with
  | error fault => rfl
  | ok found => cases hsame : context.sameType declared found <;> simp only [hsame] <;> rfl

theorem checkBody_keeps (path : String) (declared : Ty) (body : Expr) :
    (checkBody path declared body).Keeps := by
  intro context
  rw [checkBody_run]

mutual

/-- **The checker hands back the context** in which it has checked a definition. -/
theorem checkDefinition_keeps :
    ∀ (definition : Definition) (path : String), (checkDefinition path definition).Keeps
  | .native .., path => .pure ()
  | .constant ty body nested, path => by
      rw [checkDefinition]
      exact ((checkNested_keeps nested path).bind fun _ => checkBody_keeps path ty body).within _
  | .function (.func paramTypes result) params body nested, path => by
      rw [checkDefinition]
      split
      · exact ((checkNested_keeps nested path).bind fun _ =>
          checkBody_keeps path result body).within _
      · exact .throw _
  | .function (.named _) .., path => .throw _
  | .function (.struct _) .., path => .throw _
  | .function (.union _) .., path => .throw _

theorem checkNested_keeps :
    ∀ (nested : List (String × Definition)) (path : String), (checkNested path nested).Keeps
  | [], path => .pure ()
  | (name, definition) :: rest, path => by
      rw [checkNested]
      exact (checkDefinition_keeps definition _).bind fun _ => checkNested_keeps rest path

end

end CheckM

/-! ## 2. What the checker finds -/

namespace Context

section Findings

variable (context : Context)

/-- What the checker finds of the body of a definition. -/
def checkBody (path : String) (declared : Ty) (body : Expr) : Except TypeError Unit :=
  ((CheckM.checkBody path declared body).run context).1

/-- What the checker finds of a definition and all that is nested in it. -/
def checkDefinition (path : String) (definition : Definition) : Except TypeError Unit :=
  ((CheckM.checkDefinition path definition).run context).1

/-- What the checker finds of definitions nested in the one at `path`. -/
def checkNested (path : String) (nested : Definitions) : Except TypeError Unit :=
  ((CheckM.checkNested path nested).run context).1

/-- What the checker finds of definitions in order. -/
def checkAll (definitions : Definitions) : Except TypeError Unit :=
  ((CheckM.checkAll definitions).run context).1

end Findings

variable (context : Context) (path : String)

theorem checkBody_eq (declared : Ty) (body : Expr) :
    context.checkBody path declared body =
      match context.derive body with
      | .error fault => .error ⟨path, fault⟩
      | .ok found =>
        if context.sameType declared found then .ok ()
        else .error ⟨path, .mismatch declared found⟩ := by
  rw [checkBody, CheckM.checkBody_run]

/-- Inside of a scope, nested definitions are checked first and then the body. -/
theorem checkDefinition_within (frame : Frame) (declared : Ty) (body : Expr)
    (nested : Definitions) :
    ((CheckM.within frame do
        CheckM.checkNested path nested
        CheckM.checkBody path declared body).run context).1 = (do
      (context.push frame).checkNested path nested
      (context.push frame).checkBody path declared body) :=
  (CheckM.checkNested_keeps nested path).run_bind
    (fun _ => CheckM.checkBody path declared body) (context.push frame)

theorem checkDefinition_native (ty : Ty) (params : List String) (function : Native) :
    context.checkDefinition path (.native ty params function) = .ok () := rfl

theorem checkDefinition_constant (ty : Ty) (body : Expr) (nested : Definitions) :
    context.checkDefinition path (.constant ty body nested) = (do
      let inner := context.push (Frame.ofDefinitions nested)
      inner.checkNested path nested
      inner.checkBody path ty body) := by
  rw [checkDefinition, CheckM.checkDefinition]
  exact context.checkDefinition_within path _ ty body nested

theorem checkDefinition_function (paramTypes : List Ty) (result : Ty) (params : List String)
    (body : Expr) (nested : Definitions) :
    context.checkDefinition path (.function (.func paramTypes result) params body nested) =
      if paramTypes.length = params.length then do
        let inner := context.push ((Frame.ofDefinitions nested).withParams (params.zip paramTypes))
        inner.checkNested path nested
        inner.checkBody path result body
      else .error ⟨path, .parameterCount paramTypes.length params.length⟩ := by
  rw [checkDefinition, CheckM.checkDefinition]
  split
  · exact context.checkDefinition_within path _ result body nested
  · rfl

/-- What is defined as a function has the type of one. -/
theorem checkDefinition_malformed {ty : Ty} (h : ∀ params result, ty ≠ .func params result)
    (params : List String) (body : Expr) (nested : Definitions) :
    context.checkDefinition path (.function ty params body nested) =
      .error ⟨path, .malformedSignature ty⟩ := by
  rw [checkDefinition, CheckM.checkDefinition]
  · rfl
  · exact h

theorem checkNested_nil : context.checkNested path [] = .ok () := rfl

theorem checkNested_cons (name : String) (definition : Definition) (rest : Definitions) :
    context.checkNested path ((name, definition) :: rest) = (do
      context.checkDefinition (path ++ "." ++ name) definition
      context.checkNested path rest) := by
  rw [checkNested, CheckM.checkNested]
  exact (CheckM.checkDefinition_keeps definition _).run_bind _ context

theorem checkAll_nil : context.checkAll [] = .ok () := rfl

theorem checkAll_cons (name : String) (definition : Definition) (rest : Definitions) :
    context.checkAll ((name, definition) :: rest) = (do
      context.checkDefinition name definition
      context.checkAll rest) := by
  rw [checkAll, CheckM.checkAll]
  exact (CheckM.checkDefinition_keeps definition _).run_bind _ context

end Context

end Offside
