import Offside.Proofs.Checking
import Offside.Proofs.Written

/-!
# What the checker has found when it accepts

The checker is a function that fails with the first fault; here is what its success says, one
inversion for each function:

* `Context.derive_call` -- a call that has a type is a conditional or has an operator of a function
  type, and the parts have the types that they need;
* `Definition.Checked.constant`, `Definition.Checked.function` -- an accepted definition has a body
  of the declared type, and all that is nested in it is accepted too.
-/

namespace Offside

variable {aliases : Aliases} {frames : List Frame}

/-! ## 1. Expressions -/

/-- A body has a declared type, as far as the checker tells. -/
def Expr.Bodies (aliases : Aliases) (frames : List Frame) (body : Expr) (declared : Ty) : Prop :=
  ∃ found, (⟨aliases, frames⟩ : Context).derive body = .ok found ∧
    Ty.same aliases declared found = true

/-- The operands that the checker has compared with the parameters. -/
theorem bodies_of_checkOperands {callee : String} {position : Nat}
    {params : List Ty} {operands : List Expr}
    (h : (⟨aliases, frames⟩ : Context).checkOperands callee position params operands = .ok ())
    (hl : params.length = operands.length) :
    List.Forall₂ (Expr.Bodies aliases frames) operands params := by
  induction operands generalizing params position with
  | nil =>
      rw [List.length_eq_zero_iff.1 hl]
      exact .nil
  | cons operand operands ih =>
      cases params with
      | nil => cases hl
      | cons param params =>
          rw [Context.checkOperands] at h
          obtain ⟨found, hfound, h⟩ := except_bind_eq_ok h
          split at h
          · rename_i hsame
            exact .cons ⟨found, hfound, hsame⟩ (ih h (Nat.succ.inj hl))
          · cases h

/-- **The type of a call**: that of the branches of a conditional, or the result of a function whose
parameters the operands are compared with. -/
theorem Context.derive_call {operator : Expr} {operands : List Expr} {ty : Ty}
    (h : (⟨aliases, frames⟩ : Context).derive (.call operator operands) = .ok ty) :
    (operator.isIfElse = true ∧ ∃ condition thenBranch elseBranch,
      operands = [condition, thenBranch, elseBranch] ∧
      (⟨aliases, frames⟩ : Context).derive condition = .ok .truth ∧
      (⟨aliases, frames⟩ : Context).derive thenBranch = .ok ty ∧
      elseBranch.Bodies aliases frames ty) ∨
    (operator.isIfElse = false ∧ ∃ params,
      (⟨aliases, frames⟩ : Context).derive operator = .ok (.func params ty) ∧
      List.Forall₂ (Expr.Bodies aliases frames) operands params) := by
  rw [Context.derive.eq_def] at h
  simp only at h
  split at h
  · rename_i hform
    refine Or.inl ⟨hform, ?_⟩
    split at h
    · rename_i condition thenBranch elseBranch
      obtain ⟨found, hcondition, h⟩ := except_bind_eq_ok h
      split at h
      · rename_i htruth
        subst htruth
        obtain ⟨thenType, hthen, h⟩ := except_bind_eq_ok h
        obtain ⟨elseType, helse, h⟩ := except_bind_eq_ok h
        split at h
        · rename_i hsame
          cases h
          exact ⟨condition, thenBranch, elseBranch, rfl, hcondition, hthen, elseType, helse, hsame⟩
        · cases h
      · cases h
    · cases h
  · rename_i hform
    refine Or.inr ⟨Bool.eq_false_iff.2 hform, ?_⟩
    split at h
    · cases h
    · rename_i params result hoperator
      split at h
      · rename_i hlength
        obtain ⟨_, hoperands, h⟩ := except_bind_eq_ok h
        cases h
        exact ⟨params, hoperator, bodies_of_checkOperands hoperands hlength⟩
      · cases h
    · cases h

/-! ## 2. Definitions -/

/-- The checker accepts a definition where the frames are in scope. -/
def Definition.Checked (aliases : Aliases) (frames : List Frame) (definition : Definition) : Prop :=
  ∃ path, (⟨aliases, frames⟩ : Context).checkDefinition path definition = .ok ()

/-- All definitions of a scope are written and accepted where the frames are in scope. -/
def Definitions.Accepted (aliases : Aliases) (frames : List Frame) (definitions : Definitions) :
    Prop :=
  ∀ name definition, (name, definition) ∈ definitions →
    definition.Written ∧ definition.Checked aliases frames

theorem bodies_of_checkBody {path : String} {declared : Ty} {body : Expr}
    (h : (⟨aliases, frames⟩ : Context).checkBody path declared body = .ok ()) :
    body.Bodies aliases frames declared := by
  rw [Context.checkBody_eq] at h
  split at h
  · cases h
  · rename_i found hfound
    split at h
    · rename_i hsame
      exact ⟨found, hfound, hsame⟩
    · cases h

theorem checked_of_checkNested {path : String} {nested : Definitions}
    (h : (⟨aliases, frames⟩ : Context).checkNested path nested = .ok ()) :
    ∀ name definition, (name, definition) ∈ nested → definition.Checked aliases frames := by
  induction nested with
  | nil => exact fun _ _ hm => absurd hm List.not_mem_nil
  | cons first rest ih =>
      obtain ⟨key, head⟩ := first
      rw [Context.checkNested_cons] at h
      obtain ⟨_, hhead, hrest⟩ := except_bind_eq_ok h
      intro name definition hm
      rcases List.mem_cons.1 hm with e | hm
      · cases e
        exact ⟨_, hhead⟩
      · exact ih hrest name definition hm

/-- Definitions are accepted if each of them is. -/
theorem Context.checkAll_eq_ok_iff {context : Context} {definitions : Definitions} :
    context.checkAll definitions = .ok () ↔ ∀ name definition, (name, definition) ∈ definitions →
      context.checkDefinition name definition = .ok () := by
  induction definitions with
  | nil => simp [Context.checkAll_nil]
  | cons first rest ih =>
      obtain ⟨key, head⟩ := first
      rw [Context.checkAll_cons]
      constructor
      · intro h name definition hmem
        obtain ⟨_, hhead, hrest⟩ := except_bind_eq_ok h
        rcases List.mem_cons.1 hmem with heq | hmem
        · cases heq
          exact hhead
        · exact ih.1 hrest name definition hmem
      · intro h
        rw [h key head List.mem_cons_self]
        exact ih.2 fun name definition hmem => h name definition (List.mem_cons_of_mem _ hmem)

theorem checked_of_checkAll {definitions : Definitions}
    (h : (⟨aliases, frames⟩ : Context).checkAll definitions = .ok ()) :
    ∀ name definition, (name, definition) ∈ definitions → definition.Checked aliases frames :=
  fun name definition hm => ⟨name, Context.checkAll_eq_ok_iff.1 h name definition hm⟩

theorem Definition.Checked.constant {ty : Ty} {body : Expr} {nested : Definitions}
    (h : (Definition.constant ty body nested).Checked aliases frames)
    (hw : (Definition.constant ty body nested).Written) :
    Definitions.Accepted aliases (Frame.ofDefinitions nested :: frames) nested ∧
      body.Bodies aliases (Frame.ofDefinitions nested :: frames) ty := by
  obtain ⟨path, h⟩ := h
  rw [Context.checkDefinition_constant] at h
  obtain ⟨_, hnested, hbody⟩ := except_bind_eq_ok h
  cases hw with
  | constant _ _ heach =>
      exact ⟨fun name definition hm =>
        ⟨heach name definition hm, checked_of_checkNested hnested name definition hm⟩,
        bodies_of_checkBody hbody⟩

theorem Definition.Checked.function {types : List Ty} {result : Ty} {params : List String}
    {body : Expr} {nested : Definitions}
    (h : (Definition.function (.func types result) params body nested).Checked aliases frames)
    (hw : (Definition.function (.func types result) params body nested).Written) :
    Definitions.Accepted aliases
        ((Frame.ofDefinitions nested).withParams (params.zip types) :: frames) nested ∧
      body.Bodies aliases
        ((Frame.ofDefinitions nested).withParams (params.zip types) :: frames) result := by
  obtain ⟨path, h⟩ := h
  rw [Context.checkDefinition_function] at h
  split at h
  · obtain ⟨_, hnested, hbody⟩ := except_bind_eq_ok h
    cases hw with
    | function _ _ _ _ _ _ heach =>
        exact ⟨fun name definition hm =>
          ⟨heach name definition hm, checked_of_checkNested hnested name definition hm⟩,
          bodies_of_checkBody hbody⟩
  · cases h

end Offside
