import Offside.Expr.Basic
import Offside.Token.Basic

/-!
# Expressions as text

* `Expr.text` -- an expression as the language writes it; functions show their arity only;
* `Expr.kind` -- what kind of value it is, in the words of messages;
* `Expr.dump` -- an expression as a tree; a closure leaves out what it captured;
* `Env.text` -- an environment by the number of its frames.
-/

namespace Offside

namespace Literal

/-- The literal as the language writes it. -/
def text : Literal → String
  | int value => Text.Decimal.ofInt value.toInt
  | str value => Text.quoted value
  | bool value => Token.boolText value
  | nothing => "none"

/-- The literal as a tree. -/
def dump : Literal → Text.Dump
  | int value => .variant "Integer" (.atom (Text.Decimal.ofInt value.toInt))
  | str value => .variant "String" (.text value)
  | bool value => .variant "Boolean" (.atom (Token.boolText value))
  | nothing => .atom "None"

end Literal

namespace Closure

/-- The number of open parameters, and the name of a native function. -/
def text : Closure → String
  | compound params .. => "<closure/" ++ Text.Decimal.ofNat params.length ++ ">"
  | native name params .. =>
    "<builtin " ++ name ++ "/" ++ Text.Decimal.ofNat params.length ++ ">"

end Closure

namespace Expr

/-! ## 1. Text -/

mutual

/-- The expression as the language writes it. -/
def text : Expr → String
  | lit value => value.text
  | record type fields => type ++ " \x7b" ++ fieldsText " " fields ++ " \x7d"
  | var name => name
  | call operator operands => "(" ++ text operator ++ operandsText operands ++ ")"
  | function params _ _ => "<function/" ++ Text.Decimal.ofNat params.length ++ ">"
  | scope _ body => text body
  | closure value => value.text

/-- Each operand after a blank. -/
def operandsText : List Expr → String
  | [] => ""
  | operand :: rest => " " ++ text operand ++ operandsText rest

/-- Fields with their values; `separator` stands before the first. -/
def fieldsText (separator : String) : List (String × Expr) → String
  | [] => ""
  | (field, value) :: rest =>
    separator ++ field ++ ": " ++ text value ++ fieldsText ", " rest

end

/-- The kind of a value, in the words of messages. -/
def kind : Expr → String
  | lit (.int value) => "Integer " ++ Text.Decimal.ofInt value.toInt
  | lit (.str value) => "String " ++ Text.quoted value
  | lit (.bool value) => "Boolean " ++ Token.boolText value
  | lit .nothing => "None"
  | record type _ => type
  | closure _ | function .. => "a function"
  | var _ | call .. | scope .. => "an unevaluated expression"

end Expr

/-! ## 2. Dumps -/

mutual

/-- The expression as a tree. -/
def Expr.dump : Expr → Text.Dump
  | .lit value => .variant "Primitive" value.dump
  | .record type fields =>
    .variant "Primitive" (.variant "Record" (.record "Record"
      [("type_name", .text type), ("fields", .sequence (Expr.pairDumps fields))]))
  | .var name => .variant "Variable" (.text name)
  | .call operator operands =>
    .record "Call" [("operator", operator.dump), ("operands", .sequence (Expr.dumps operands))]
  | .function params locals body =>
    .variant "Function" (.record "Lambda"
      [("parameters", .sequence (params.map .text)), ("locals", .table (Expr.entryDumps locals)),
       ("body", body.dump)])
  | .scope locals body =>
    .record "Scope" [("locals", .table (Expr.entryDumps locals)), ("body", body.dump)]
  | .closure value => .variant "Closure" value.dump

/-- The closure as a tree, without what it captured. -/
def Closure.dump : Closure → Text.Dump
  | .compound params _ _ body =>
    .elidedRecord "Compound" [("parameters", .sequence (params.map .text)), ("body", body.dump)]
  | .native name params applied _ =>
    .elidedRecord "Primitive"
      [("name", .text name), ("parameters", .sequence (params.map .text)),
       ("applied", .sequence (Expr.dumps applied))]

/-- The trees of several expressions. -/
def Expr.dumps : List Expr → List Text.Dump
  | [] => []
  | expr :: rest => expr.dump :: Expr.dumps rest

/-- Named expressions as pairs. -/
def Expr.pairDumps : List (String × Expr) → List Text.Dump
  | [] => []
  | (name, expr) :: rest => .pair (.text name) expr.dump :: Expr.pairDumps rest

/-- Named expressions as entries of a table. -/
def Expr.entryDumps : List (String × Expr) → List (String × Text.Dump)
  | [] => []
  | (name, expr) :: rest => (name, expr.dump) :: Expr.entryDumps rest

end

/-- An environment as text: how many frames it has, and none of what they hold. -/
def Env.text (env : Env) : String :=
  "Environment(depth = " ++ Text.Decimal.ofNat env.depth ++ ")"

end Offside
