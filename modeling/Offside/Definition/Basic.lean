import Offside.Expr.Printer
import Offside.Ty.Alias

/-!
# Definitions and programs

A definition gives a name in a scope: a constant, a function, or a native function. Constants and
functions may hold definitions of their own. A program is a table of definitions, with the struct
and union types that it declares.

* `Definition.toExpr`, `Definitions.toBindings` -- what evaluation binds for definitions: the same
  without types;
* `Definition.same`, `Program.same` -- identity of definitions and programs;
* `Program.dump` -- a program as a tree.
-/

namespace Offside

/-- What a name is defined as. -/
inductive Definition
  | constant (ty : Ty) (body : Expr) (nested : List (String × Definition))
  /-- `ty` is the type of the whole function -/
  | function (ty : Ty) (params : List String) (body : Expr) (nested : List (String × Definition))
  | native (ty : Ty) (params : List String) (function : Native)

instance : Inhabited Definition := ⟨.constant .nothing (.lit .nothing) []⟩

/-- The definitions of a scope. -/
abbrev Definitions := Table Definition

namespace Definition

/-- The declared type. -/
def ty : Definition → Ty
  | constant ty .. | function ty .. | native ty .. => ty

/-- The nested definitions; a native function cannot have any. -/
def nested? : Definition → Option Definitions
  | constant _ _ nested | function _ _ _ nested => some nested
  | native .. => none

end Definition

/-! ## 1. What evaluation binds -/

mutual

/-- The expression that evaluation binds to `name` for the definition. -/
def Definition.toExpr (name : String) : Definition → Expr
  | .constant _ body nested =>
    if nested.isEmpty then body else .scope (Definitions.toBindings nested) body
  | .function _ params body nested => .function params (Definitions.toBindings nested) body
  | .native _ params function => .closure (.native name params [] function)

/-- What evaluation binds for the definitions of a scope. -/
def Definitions.toBindings : List (String × Definition) → List (String × Expr)
  | [] => []
  | (name, definition) :: rest => (name, definition.toExpr name) :: Definitions.toBindings rest

end

/-! ## 2. Identity -/

mutual

/-- Whether two definitions are the same. -/
def Definition.same : Definition → Definition → Bool
  | .constant s a ds, .constant t b es => decide (s = t) && a.same b && Definitions.same ds es
  | .function s ps a ds, .function t qs b es =>
    decide (s = t) && ps == qs && a.same b && Definitions.same ds es
  | .native s ps f, .native t qs g => decide (s = t) && ps == qs && f == g
  | _, _ => false

/-- Whether two scopes have the same definitions. -/
def Definitions.same : List (String × Definition) → List (String × Definition) → Bool
  | [], [] => true
  | (m, a) :: as, (n, b) :: bs => m == n && a.same b && Definitions.same as bs
  | _, _ => false

end

/-! ## 3. Programs -/

/-- A program: its definitions, the options of its unions, and its declared types. -/
structure Program where
  definitions : Definitions
  aliases : Aliases
  types : Table Ty

namespace Program

/-- Whether two programs are the same. -/
def same (a b : Program) : Bool :=
  Definitions.same a.definitions b.definitions && decide (a.aliases = b.aliases) &&
    decide (a.types = b.types)

end Program

/-! ## 4. Dumps -/

mutual

/-- The definition as a tree; a native function leaves out what it does. -/
def Definition.dump : Definition → Text.Dump
  | .constant ty body nested =>
    .record "Constant"
      [("type_sig", ty.dump), ("expression", body.dump),
       ("sub_definitions", .table (Definitions.entryDumps nested))]
  | .function ty params body nested =>
    .record "CompoundFunction"
      [("type_sig", ty.dump), ("parameters", .sequence (params.map .text)), ("body", body.dump),
       ("sub_definitions", .table (Definitions.entryDumps nested))]
  | .native ty params _ =>
    .elidedRecord "PrimitiveFunction"
      [("type_sig", ty.dump), ("parameters", .sequence (params.map .text))]

/-- Definitions as entries of a table. -/
def Definitions.entryDumps : List (String × Definition) → List (String × Text.Dump)
  | [] => []
  | (name, definition) :: rest => (name, definition.dump) :: Definitions.entryDumps rest

end

/-- The program as a tree. -/
def Program.dump (program : Program) : Text.Dump :=
  .record "Program"
    [("definitions", .table (Definitions.entryDumps program.definitions)),
     ("type_aliases", .table (Table.mapEntries (fun _ options => .names options) program.aliases)),
     ("types", .table (Table.mapEntries (fun _ ty => ty.dump) program.types))]

end Offside
