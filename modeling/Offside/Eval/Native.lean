import Offside.Definition.Struct
import Offside.Eval.Arithmetic
import Offside.Eval.World

/-!
# What native functions do

A native function checks the number of its arguments, then their kinds in order, and then computes
its result. It takes any expressions as arguments; what is no value has no kind that it wants.

The native functions are those of the library and of struct declarations, and no others: functions
that a host might put into a table of definitions itself are not covered here.
-/

namespace Offside

namespace Expr

mutual

/-- Whether an expression is a value without functions inside. -/
def isComparable : Expr → Bool
  | lit _ => true
  | record _ fields => areComparable fields
  | _ => false

/-- Whether all fields are values without functions inside. -/
def areComparable : List (String × Expr) → Bool
  | [] => true
  | (_, value) :: rest => isComparable value && areComparable rest

end

end Expr

namespace Operation

/-- The name that errors give the function. -/
def name : Operation → String
  | plus => "plus"
  | minus => "minus"
  | multiply => "multiply"
  | divide => "divide"
  | modulo => "modulo"
  | less => "less"
  | greater => "greater"
  | equal => "equal"
  | concat => "concat"
  | intToStr => "intToStr"
  | printLine _ => "printLine"
  | construct type _ => type
  | access type field => accessorName type field

/-- The number of arguments that the function takes. -/
def arity : Operation → Nat
  | intToStr | printLine _ | access .. => 1
  | construct _ fields => fields.length
  | _ => 2

/-- An argument that has to be an integer. -/
def integer (operation : Operation) : Expr → EvalM Int64
  | .lit (.int value) => pure value
  | other => throw (.wrongKind operation.name .integer other.kind)

/-- An argument that has to be a string. -/
def string (operation : Operation) : Expr → EvalM String
  | .lit (.str value) => pure value
  | other => throw (.wrongKind operation.name .string other.kind)

/-- An argument that has to be a value without functions inside. -/
def comparable (operation : Operation) (value : Expr) : EvalM Unit :=
  if value.isComparable then pure ()
  else throw (.wrongKind operation.name .comparable value.kind)

/-- An exact result, or the error that there is none. -/
def exactly (operation : Operation) : Option Int64 → EvalM Expr
  | some value => pure (.lit (.int value))
  | none => throw (.overflow operation.name)

/-- A function of two integers. -/
def onIntegers (operation : Operation) (a b : Expr) (f : Int64 → Int64 → EvalM Expr) :
    EvalM Expr := do
  let x ← operation.integer a
  let y ← operation.integer b
  f x y

/-- A division: there is none by zero. -/
def dividing (operation : Operation) (a b : Expr) (f : Int64 → Int64 → Option Int64) :
    EvalM Expr :=
  operation.onIntegers a b fun x y =>
    if y = 0 then throw (.zeroDivisor operation.name) else operation.exactly (f x y)

/-- Calls the function. -/
def call (operation : Operation) (args : List Expr) : EvalM Expr :=
  match operation, args with
  | plus, [a, b] => plus.onIntegers a b fun x y => plus.exactly (Arithmetic.add? x y)
  | minus, [a, b] => minus.onIntegers a b fun x y => minus.exactly (Arithmetic.sub? x y)
  | multiply, [a, b] => multiply.onIntegers a b fun x y => multiply.exactly (Arithmetic.mul? x y)
  | divide, [a, b] => divide.dividing a b Arithmetic.floorDiv?
  | modulo, [a, b] => modulo.dividing a b Arithmetic.floorMod?
  | less, [a, b] => less.onIntegers a b fun x y => pure (.lit (.bool (x < y)))
  | greater, [a, b] => greater.onIntegers a b fun x y => pure (.lit (.bool (y < x)))
  | equal, [a, b] => do
    equal.comparable a
    equal.comparable b
    pure (.lit (.bool (a.same b)))
  | concat, [a, b] => do
    let x ← concat.string a
    let y ← concat.string b
    pure (.lit (.str (x ++ y)))
  | intToStr, [number] => do
    let value ← intToStr.integer number
    pure (.lit (.str (Text.Decimal.ofInt value.toInt)))
  | printLine outlet, [message] => do
    let line ← (printLine outlet).string message
    World.writeTo outlet line
    pure (.lit .nothing)
  | construct type fields, args =>
    if args.length = fields.length then pure (.record type (fields.zip args))
    else throw (.arity type fields.length args.length)
  | access type field, [value] =>
    let wrong : EvalM Expr :=
      throw (.wrongKind (accessorName type field) (.record type) value.kind)
    match value with
    | .record tag fields =>
      if tag = type then
        match Expr.field? fields field with
        | some found => pure found
        | none => wrong
      else wrong
    | _ => wrong
  | operation, args => throw (.arity operation.name operation.arity args.length)

end Operation

/-- Calls the native function that a table has under a name. -/
def Definitions.call (definitions : Definitions) (name : String) (args : List Expr) : EvalM Expr :=
  match Table.find? definitions name with
  | some (.native _ _ function) => function.operation.call args
  | _ => throw (.unboundName name)

end Offside
