import Offside.Proofs.Characters
import Offside.Proofs.Labels
import Offside.Proofs.Soundness

/-!
# Checked programs without unions keep their types

Without unions, and with the names of the primitive types left to them, the checker's comparison is
equality, and a type tells what its values look like (`Expr.isOf`). So a function always gets values
of the kind that it wants (`Expectation.admits_of_fits`), and a checked program ends in a value of
the type that its `main` is declared with, unless arithmetic leaves the range, the sink refuses a
line, or evaluation nests too deep (`interpret_isOf`).
-/

namespace Offside

/-! ## 1. What the values of a type look like -/

namespace Expr

mutual

/-- Whether a value is of a type: a literal of it, a record of the declared struct with a value of
the right type in each field, or a closure with as many open parameters as the type has. -/
def isOf (types : Table Ty) : Expr → Ty → Bool
  | lit value, ty => decide (value.ty = ty)
  | record type values, ty =>
    decide (.named type = ty) &&
      match Table.find? types type with
      | some (.struct fields) => areOf types values fields
      | _ => false
  | closure value, .func params _ => value.params.length == params.length
  | _, _ => false

/-- Whether the fields of a record are those of a declaration, in order and with values of their
types. -/
def areOf (types : Table Ty) : List (String × Expr) → List (String × Ty) → Bool
  | [], [] => true
  | (name, value) :: values, (field, ty) :: fields =>
    name == field && value.isOf types ty && areOf types values fields
  | _, _ => false

end

variable {aliases : Aliases} {h : aliases = []} {types : Table Ty}

mutual

/-- Where types are told apart as trees, what belongs to a type looks like it. -/
theorem isOf_of_fits : ∀ (value : Expr) {ty : Ty}, Fits (.exact aliases h) types value ty →
    value.isOf types ty = true
  | lit value, ty, hfits => by
      cases hfits with
      | lit alike => exact decide_eq_true (Discipline.eq_of_exact alike)
  | record type values, ty, hfits => by
      cases hfits with
      | record declared names each alike =>
          rw [isOf, declared, decide_eq_true (Discipline.eq_of_exact alike)]
          exact areOf_of_fits values names each
  | closure value, ty, hfits => by
      cases hfits with
      | compound _ written _ alike =>
          cases Discipline.eq_of_exact alike
          cases written with
          | function plain some distinct typed fresh ordered each =>
              exact beq_iff_eq.2 typed.symm
      | native _ arity alike =>
          cases Discipline.eq_of_exact alike
          exact beq_iff_eq.2 arity
  | var _, _, hfits | call .., _, hfits | function .., _, hfits | scope .., _, hfits => by
      cases hfits

theorem areOf_of_fits : ∀ (values : List (String × Expr)) {fields : List (String × Ty)},
    values.map (·.1) = fields.map (·.1) →
      List.Forall₂ (Fits (.exact aliases h) types) (values.map (·.2)) (fields.map (·.2)) →
        areOf types values fields = true
  | [], [], _, _ => rfl
  | (name, value) :: values, (field, ty) :: fields, names, each => by
      obtain ⟨hname, hnames⟩ := List.cons.inj names
      cases each with
      | cons hv hrest =>
          rw [areOf, isOf_of_fits value hv, areOf_of_fits values hnames hrest, beq_iff_eq.2 hname]
          rfl

end

end Expr

/-! ## 2. Values are of the wanted kind -/

/-- The names of the primitive types. -/
def Ty.primitives : List String := ["Integer", "String", "Boolean", "None"]

theorem Literal.ty_mem_primitives (literal : Literal) :
    ∃ name ∈ Ty.primitives, literal.ty = .named name := by
  cases literal <;> exact ⟨_, by decide, rfl⟩

namespace Expectation

/-- A kind is wanted among the records of a struct, or among the values of a primitive type. -/
theorem record_or_primitive (expected : Expectation) :
    (∃ type, expected = record type) ∨ ∃ name ∈ Ty.primitives, expected.ty = .named name := by
  cases expected with
  | record type => exact .inl ⟨type, rfl⟩
  | integer | string | comparable | condition => exact .inr ⟨_, by decide, rfl⟩

theorem admits_lit {expected : Expectation} {literal : Literal} (h : literal.ty = expected.ty)
    (hrecord : ∀ type, expected ≠ record type) : expected.admits (.lit literal) = true := by
  cases expected with
  | record type => exact absurd rfl (hrecord type)
  | comparable => rfl
  | integer | string | condition =>
      cases literal <;>
        simp_all [admits, Expectation.ty, Literal.ty, Ty.integer, Ty.string, Ty.truth, Ty.nothing]

/-- A value of the type among whose values a kind is wanted is of that kind. -/
theorem admits_of_fits {aliases : Aliases} {h : aliases = []} {types : Table Ty}
    (hfree : ∀ name ∈ Ty.primitives, Ty.isStruct types name = false) {expected : Expectation}
    {value : Expr} (hknown : expected.Known types)
    (hfits : Fits (.exact aliases h) types value expected.ty) : expected.admits value = true := by
  have hnamed : ∃ name, expected.ty = .named name := by cases expected <;> exact ⟨_, rfl⟩
  obtain ⟨name, hname⟩ := hnamed
  cases hfits with
  | @lit literal _ alike =>
      have hty := Discipline.eq_of_exact alike
      refine admits_lit hty ?_
      rintro type rfl
      obtain ⟨primitive, hmem, hliteral⟩ := literal.ty_mem_primitives
      rw [hliteral] at hty
      cases hty
      exact Bool.false_ne_true ((hfree _ hmem).symm.trans hknown)
  | @record tag fields values _ declared _ _ alike =>
      have hty := Discipline.eq_of_exact alike
      rcases expected.record_or_primitive with ⟨type, rfl⟩ | ⟨primitive, hmem, hprimitive⟩
      · cases hty
        exact beq_self_eq_true tag
      · rw [hprimitive] at hty
        cases hty
        exact (Bool.false_ne_true ((hfree _ hmem).symm.trans (Ty.isStruct_of_find? declared))).elim
  | compound _ _ _ alike | native _ _ alike =>
      have hty := Discipline.eq_of_exact alike
      rw [hname] at hty
      cases hty

end Expectation

/-! ## 3. Runs -/

/-- The errors that types do not rule out: evaluation nests too deep, the sink refuses a line, or
arithmetic has no result. -/
def EvalError.IsUntyped (error : EvalError) : Prop :=
  (∃ depth, error = .depthExceeded depth) ∨ (∃ reason, error = .output reason) ∨
    (∃ callee ∈ ["plus", "minus", "multiply", "divide", "modulo"], error = .overflow callee) ∨
      ∃ callee ∈ ["divide", "modulo"], error = .zeroDivisor callee

/-- Only the errors that types do not rule out. -/
def Policy.exact (aliases : Aliases) (types : Table Ty) (h : aliases = [])
    (hfree : ∀ name ∈ Ty.primitives, Ty.isStruct types name = false) :
    Policy (.exact aliases h) types where
  Permitted := EvalError.IsUntyped
  depth limit := .inl ⟨limit, rfl⟩
  output reason := .inr (.inl ⟨reason, rfl⟩)
  overflow operation hmem := .inr (.inr (.inl
    ⟨operation.name, List.mem_map_of_mem (f := Operation.name) hmem, rfl⟩))
  zeroDivisor operation hmem := .inr (.inr (.inr
    ⟨operation.name, List.mem_map_of_mem (f := Operation.name) hmem, rfl⟩))
  kind _ _ _ hknown hfits hnot := by
    rw [Expectation.admits_of_fits hfree hknown hfits] at hnot
    cases hnot

/-- The type of `main`, if that is a constant whose body is a call. -/
def Program.mainType? (program : Program) : Option Ty :=
  match Table.find? program.definitions "main" with
  | some (.constant ty (.call _ _) _) => some ty
  | _ => none

theorem Program.find?_main {program : Program} {ty : Ty} (h : program.mainType? = some ty) :
    ∃ operator operands nested, Table.find? program.definitions "main" =
      some (.constant ty (.call operator operands) nested) := by
  rw [Program.mainType?] at h
  split at h
  · cases h
    exact ⟨_, _, _, ‹_›⟩
  · cases h

/-- **A checked program without unions keeps its types**: at every limit, from every state of the
sink and on every machine that has a stack for the limit, it ends in a value of the type that `main` is
declared with, or in an error that types do not rule out. Where the machine has no stack for the limit,
it ends in the error that there is none. -/
theorem interpret_isOf {origin : Nat} {source : String} {program : Program}
    (hcompile : compile origin source = .ok program) (hunions : program.aliases = [])
    (hfree : ∀ name ∈ Ty.primitives, Ty.isStruct program.types name = false)
    (hcheck : program.check = .ok ()) {ty : Ty} (hmain : program.mainType? = some ty)
    (libOrigin : Nat) (outlet : Outlet) (limit : Nat) (world : World) :
    let outcome :=
      ((program.interpret (Library.definitions libOrigin outlet) limit).run world).1
    (world.Grants limit →
      (∃ value, outcome = .ok value ∧ value.isOf program.types ty = true) ∨
        ∃ error, outcome = .error error ∧ error.IsUntyped) ∧
    ∀ reason, world.Refuses limit reason →
      outcome = .error (.stack (Machine.stackSize limit) reason) := by
  obtain ⟨operator, operands, nested, hfind⟩ := Program.find?_main hmain
  refine ⟨fun hgrants => ?_, fun reason hrefuses =>
    (Program.run_interpret_of_refuses _ hfind hrefuses).1⟩
  rw [Program.run_interpret_of_grants _ hfind hgrants]
  have hyields := Program.yields_evalMain
    (Policy.exact program.aliases program.types hunions hfree) (wellFormed_of_compile hcompile)
    hcheck libOrigin outlet limit hfind
  exact (hyields.value fun value hfits => value.isOf_of_fits hfits).ends world

/-- A struct that holds a function which makes more of its records, a recursive function, and nested
definitions. -/
def streamSource : String := "Stream := struct head:Integer tail:(Integer -> Stream)
from:Stream start:Integer = Stream start after
    after:Stream step:Integer = from (plus start step)
product:Integer count:Integer = ifElse (less count 2) 1 rest
    rest:Integer = multiply count (product (minus count 1))
main:Stream = (Stream.tail (from 1)) (product 3)"

set_option maxRecDepth 4000 in
theorem interpret_streamSource_isOf :
    ∃ program, compile 1 streamSource = .ok program ∧ program.aliases = [] ∧
      (∀ name ∈ Ty.primitives, Ty.isStruct program.types name = false) ∧ program.check = .ok () ∧
      program.mainType? = some (.named "Stream") ∧
      program.fault? 30 (World.initial .accepting 2) = none ∧
      ∃ value, ((program.interpret (Library.definitions libraryOrigin .console) 30).run
        (World.initial .accepting 2)).1 = .ok value ∧
          value.isOf program.types (.named "Stream") = true := by
  have hsource : ∃ source, streamSource = String.ofList source ∧
      compiles 1 source (fun program => program.aliases = [] ∧
        (∀ name ∈ Ty.primitives, Ty.isStruct program.types name = false) ∧
        program.check = .ok () ∧ program.mainType? = some (.named "Stream") ∧
        program.fault? 30 (World.initial .accepting 2) = none) := ⟨_, rfl, by decide +kernel⟩
  obtain ⟨source, htext, hsource⟩ := hsource
  obtain ⟨program, hcompile, hp⟩ := exists_of_compiles htext hsource
  obtain ⟨hunions, hfree, hcheck, hmain, hvalue⟩ := of_decide_eq_true hp
  refine ⟨program, hcompile, hunions, hfree, hcheck, hmain, hvalue, ?_⟩
  rcases (interpret_isOf hcompile hunions hfree hcheck hmain libraryOrigin .console 30
    (World.initial .accepting 2)).1 rfl with hok | ⟨error, herror, _⟩
  · exact hok
  · rw [Program.fault?, herror] at hvalue
    cases hvalue

set_option maxRecDepth 4000 in
/-- Without a stack for the limit, the same program ends in an error that is none of these. -/
theorem interpret_streamSource_without_stack :
    ∃ program, compile 1 streamSource = .ok program ∧ program.aliases = [] ∧
      (∀ name ∈ Ty.primitives, Ty.isStruct program.types name = false) ∧ program.check = .ok () ∧
      program.mainType? = some (.named "Stream") ∧
      ((program.interpret (Library.definitions libraryOrigin .console) vastLimit).run
        (World.initial .accepting 2 .addressed)).1 = .error vastStack ∧ ¬vastStack.IsUntyped := by
  have hsource : ∃ source, streamSource = String.ofList source ∧
      compiles 1 source (fun program => program.aliases = [] ∧
        (∀ name ∈ Ty.primitives, Ty.isStruct program.types name = false) ∧
        program.check = .ok () ∧ program.mainType? = some (.named "Stream")) :=
    ⟨_, rfl, by decide +kernel⟩
  obtain ⟨source, htext, hsource⟩ := hsource
  obtain ⟨program, hcompile, hp⟩ := exists_of_compiles htext hsource
  obtain ⟨hunions, hfree, hcheck, hmain⟩ := of_decide_eq_true hp
  obtain ⟨_, _, _, hfind⟩ := Program.find?_main hmain
  refine ⟨program, hcompile, hunions, hfree, hcheck, hmain,
    (Program.run_interpret_of_refuses _ hfind (World.refuses_vastLimit _ _)).1, ?_⟩
  rintro (⟨_, h⟩ | ⟨_, h⟩ | ⟨_, _, h⟩ | ⟨_, _, h⟩)
  all_goals cases h

end Offside
