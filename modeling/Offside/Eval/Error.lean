import Offside.Text.Decimal

/-!
# Why an evaluation fails
-/

namespace Offside

/-- What kind of value a function or form wants. -/
inductive Expectation
  | integer
  | string
  | comparable
  | condition
  | record (type : String)
  deriving DecidableEq

/-- Why an evaluation fails. -/
inductive EvalError
  | unboundName (name : String)
  | arity (callee : String) (expected given : Nat)
  /-- a value of another kind than the one wanted; `found` is its kind -/
  | wrongKind (callee : String) (expected : Expectation) (found : String)
  /-- a result that is no integer of 64 bits -/
  | overflow (callee : String)
  | zeroDivisor (callee : String)
  /-- `text` is the operator that evaluated to something else -/
  | notAFunction (text : String)
  | depthExceeded (limit : Nat)
  | missingMain
  | invalidMain
  /-- the sink refused a line -/
  | output (reason : String)
  /-- the machine has no stack of `size` bytes to evaluate on -/
  | stack (size : Nat) (reason : String)
  deriving DecidableEq

namespace Expectation

/-- The words for the kind. -/
def text : Expectation → String
  | integer => "an Integer"
  | string => "a String"
  | comparable => "a comparable value"
  | condition => "a Boolean condition"
  | record type => "a " ++ type

end Expectation

namespace EvalError

open Text (Decimal.ofNat)

/-- The wording for a function that got something else than it wants. -/
def mismatch (callee expected found : String) : String :=
  "`" ++ callee ++ "` expected " ++ expected ++ " but got " ++ found

/-- The error as a message. -/
def message : EvalError → String
  | unboundName name => "unbound name `" ++ name ++ "`"
  | arity callee expected given =>
    "`" ++ callee ++ "` takes " ++ Decimal.ofNat expected ++ " argument(s) but " ++
      Decimal.ofNat given ++ " were supplied"
  | wrongKind callee expected found => mismatch callee expected.text found
  | overflow callee => mismatch callee "a result that fits in 64 bits" "an overflow"
  | zeroDivisor callee => mismatch callee "a non-zero divisor" "Integer 0"
  | notAFunction text => "`" ++ text ++ "` is not a function and cannot be applied"
  | depthExceeded limit =>
    "evaluation exceeded the maximum depth of " ++ Decimal.ofNat limit ++ " nested expressions"
  | missingMain => "the program has no `main` definition"
  | invalidMain => "`main` must be a constant whose expression is a call"
  | output reason => "failed to write output: " ++ reason
  | stack size reason =>
    "could not reserve " ++ Decimal.ofNat size ++ " bytes of stack for evaluation: " ++ reason

end EvalError

end Offside
