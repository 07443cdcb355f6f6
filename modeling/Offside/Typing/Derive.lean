import Offside.Typing.Context
import Offside.Typing.Error

/-!
# The type of an expression

Every expression that a program can contain has a type or a fault. A call supplies all arguments of
its operator; the conditional is a form of its own, whose condition is exactly a truth value and
whose branches have the same type.
-/

namespace Offside

namespace Literal

/-- The type of a literal. -/
def ty : Literal → Ty
  | int _ => .integer
  | str _ => .string
  | bool _ => .truth
  | nothing => .nothing

end Literal

namespace Context

mutual

/-- The type of an expression. -/
def derive (context : Context) : Expr → Except TypeFault Ty
  | .lit value => .ok value.ty
  | .record type _ => .ok (.named type)
  | .var name =>
    match context.lookup name with
    | some entry => .ok entry.ty
    | none => .error (.unknownName name)
  | .call operator operands =>
    if operator.isIfElse then
      match operands with
      | [condition, thenBranch, elseBranch] => do
        let found ← derive context condition
        if found = .truth then do
          let thenType ← derive context thenBranch
          let elseType ← derive context elseBranch
          if context.sameType thenType elseType then .ok thenType
          else .error (.branchMismatch thenType elseType)
        else .error (.condition found)
      | _ => .error (.arity ifElse 3 operands.length)
    else
      match derive context operator with
      | .error fault => .error fault
      | .ok (.func params result) =>
        if params.length = operands.length then do
          checkOperands context operator.text 1 params operands
          .ok result
        else .error (.arity operator.text params.length operands.length)
      | .ok found => .error (.notAFunction operator.text found)
  | expr => .error (.uncheckable expr.text)

/-- Compares operands with parameters, the first of them at `position`, up to the first that does
not fit. -/
def checkOperands (context : Context) (callee : String) (position : Nat) (params : List Ty) :
    List Expr → Except TypeFault Unit
  | [] => .ok ()
  | operand :: operands =>
    match params with
    | [] => .ok ()
    | param :: params => do
      let found ← derive context operand
      if context.sameType param found then
        checkOperands context callee (position + 1) params operands
      else .error (.argument callee position param found)

end

end Context

end Offside
