import Offside.Table

/-!
# Expressions, closures and environments

Evaluation works on expressions and answers with expressions, so one type holds both what a program
says and the values that come up while it runs.

* `Expr` -- literals, records, variables, calls, function and scope bodies, closures;
* `Closure` -- a function ready to be applied: compound, with the environment that it was made in,
  or native, with the arguments that it already has;
* `Env` -- a chain of frames, innermost first. Every frame has a number of its own, so that two
  frames with the same bindings are still two frames;
* `Native` -- a function of the library or of a struct declaration. It is data: which operation it
  performs, and the origin that it was made for.
-/

namespace Offside

/-! ## 1. Native functions -/

/-- Where a native `printLine` writes. -/
inductive Outlet
  /-- the output of the run -/
  | console
  /-- nowhere -/
  | void
  deriving DecidableEq

/-- What a native function does. -/
inductive Operation
  | plus
  | minus
  | multiply
  | divide
  | modulo
  | less
  | greater
  | equal
  | concat
  | intToStr
  | printLine (outlet : Outlet)
  /-- makes a record of a struct -/
  | construct (type : String) (fields : List String)
  /-- takes a field of a record of a struct -/
  | access (type field : String)
  deriving DecidableEq

/-- A native function. Each library that is built and each program that is read is an origin of
its own, so that functions made for different ones differ. -/
structure Native where
  origin : Nat
  operation : Operation
  deriving DecidableEq

/-! ## 2. Expressions -/

/-- Literals. -/
inductive Literal
  | int (value : Int64)
  | str (value : String)
  | bool (value : Bool)
  /-- the literal `none` -/
  | nothing
  deriving DecidableEq

mutual

/-- Expressions and values. Locals and bindings are tables. -/
inductive Expr
  | lit (value : Literal)
  /-- a value of a struct, with its fields in the order of the declaration -/
  | record (type : String) (fields : List (String × Expr))
  | var (name : String)
  | call (operator : Expr) (operands : List Expr)
  /-- a function that has not met its environment yet -/
  | function (params : List String) (locals : List (String × Expr)) (body : Expr)
  /-- the body of a constant together with its nested definitions -/
  | scope (locals : List (String × Expr)) (body : Expr)
  | closure (value : Closure)

/-- Functions ready to be applied. -/
inductive Closure
  | compound (params : List String) (env : Env) (locals : List (String × Expr)) (body : Expr)
  /-- `params` are the parameters still open, `applied` the arguments for those before them -/
  | native (name : String) (params : List String) (applied : List Expr) (function : Native)

/-- Chains of frames. -/
inductive Env
  | root
  | frame (number : Nat) (bindings : List (String × Expr)) (parent : Env)

end

instance : Inhabited Expr := ⟨.lit .nothing⟩

/-- What a scope or frame binds. -/
abbrev Bindings := Table Expr

/-- The name of the conditional, which is a form of its own and no function. -/
def ifElse : String := "ifElse"

namespace Closure

/-- The parameters that are still open. -/
def params : Closure → List String
  | compound params .. => params
  | native _ params .. => params

end Closure

namespace Expr

/-- Literals, records and closures are values; all else has to be evaluated. -/
def isNormal : Expr → Bool
  | lit _ | record .. | closure _ => true
  | _ => false

/-- Literals and records. -/
def isPrimitive : Expr → Bool
  | lit _ | record .. => true
  | _ => false

/-- Whether the expression is the operator of a conditional. -/
def isIfElse : Expr → Bool
  | var name => name == ifElse
  | _ => false

/-- The first of a record's fields with the name. -/
def field? (fields : List (String × Expr)) (name : String) : Option Expr :=
  match fields with
  | [] => none
  | (field, value) :: rest => if field = name then some value else field? rest name

end Expr

namespace Env

/-- The number of frames. -/
def depth : Env → Nat
  | root => 0
  | frame _ _ parent => parent.depth + 1

/-- Whether two environments are the same chain of frames. -/
def same : Env → Env → Bool
  | root, root => true
  | frame a _ _, frame b _ _ => a == b
  | _, _ => false

end Env

/-! ## 3. Identity

Expressions are compared as trees, native functions by what they are and where they come from, and
environments by identity of their frames. -/

mutual

/-- Whether two expressions are the same. -/
def Expr.same : Expr → Expr → Bool
  | .lit a, .lit b => a == b
  | .record s fs, .record t gs => s == t && Expr.sameEntries fs gs
  | .var a, .var b => a == b
  | .call f as, .call g bs => f.same g && Expr.sameAll as bs
  | .function ps ls b, .function qs ms c => ps == qs && Expr.sameEntries ls ms && b.same c
  | .scope ls b, .scope ms c => Expr.sameEntries ls ms && b.same c
  | .closure a, .closure b => a.same b
  | _, _ => false

/-- Whether two closures are the same. -/
def Closure.same : Closure → Closure → Bool
  | .compound ps e ls b, .compound qs f ms c =>
    ps == qs && e.same f && Expr.sameEntries ls ms && b.same c
  | .native m ps as f, .native n qs bs g =>
    m == n && ps == qs && Expr.sameAll as bs && f == g
  | _, _ => false

/-- Whether two lists of expressions are the same. -/
def Expr.sameAll : List Expr → List Expr → Bool
  | [], [] => true
  | a :: as, b :: bs => a.same b && Expr.sameAll as bs
  | _, _ => false

/-- Whether two lists of named expressions are the same. -/
def Expr.sameEntries : List (String × Expr) → List (String × Expr) → Bool
  | [], [] => true
  | (m, a) :: as, (n, b) :: bs => m == n && a.same b && Expr.sameEntries as bs
  | _, _ => false

end

end Offside
