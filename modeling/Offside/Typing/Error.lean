import Offside.Text.Decimal
import Offside.Ty.Basic

/-!
# Why a program is ill typed

A `TypeError` is a cause (`TypeFault`) together with the qualified name of the innermost definition
that shows it.
-/

namespace Offside

/-- Why an expression has no type, or a definition not the one it declares. -/
inductive TypeFault
  /-- the declared type is not the type found -/
  | mismatch (declared found : Ty)
  | arity (callee : String) (expected given : Nat)
  /-- arguments are counted from one -/
  | argument (callee : String) (position : Nat) (expected found : Ty)
  /-- a function whose type is no function type -/
  | malformedSignature (ty : Ty)
  | parameterCount (signature params : Nat)
  | unknownName (name : String)
  | notAFunction (callee : String) (found : Ty)
  /-- a condition whose type is not that of truth values -/
  | condition (found : Ty)
  | branchMismatch (thenType elseType : Ty)
  /-- an expression that no program contains -/
  | uncheckable (text : String)
  deriving DecidableEq

/-- A cause, and the definition that shows it. -/
structure TypeError where
  definition : String
  fault : TypeFault
  deriving DecidableEq

open Text (Decimal.ofNat)

/-- The cause as a message. -/
def TypeFault.message : TypeFault → String
  | mismatch declared found => "declared as " ++ declared.text ++ " but has type " ++ found.text
  | arity callee expected given =>
    "`" ++ callee ++ "` takes " ++ Decimal.ofNat expected ++ " argument(s) but " ++
      Decimal.ofNat given ++ " were supplied"
  | argument callee position expected found =>
    "argument " ++ Decimal.ofNat position ++ " of `" ++ callee ++ "` should be " ++
      expected.text ++ " but is " ++ found.text
  | malformedSignature ty => "malformed function signature " ++ ty.text
  | parameterCount signature params =>
    "inconsistent number of parameters: the signature has " ++ Decimal.ofNat signature ++
      ", the definition " ++ Decimal.ofNat params
  | unknownName name => "unknown name `" ++ name ++ "`"
  | notAFunction callee found =>
    "`" ++ callee ++ "` has type " ++ found.text ++ " and cannot be applied"
  | condition found => "the condition of ifElse must be Boolean, found " ++ found.text
  | branchMismatch thenType elseType =>
    "the branches of ifElse have different types: " ++ thenType.text ++ " and " ++ elseType.text
  | uncheckable text => "`" ++ text ++ "` cannot appear in source code"

/-- The error as a message. -/
def TypeError.message (error : TypeError) : String :=
  "type error in `" ++ error.definition ++ "`: " ++ error.fault.message

end Offside
