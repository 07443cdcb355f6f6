import Offside.Proofs.Characters
import Offside.Proofs.Labels
import Offside.Proofs.Soundness

/-!
# Checked programs apply only functions, and to all of their arguments

Unions let a value of one named type pass for a value of another, so a checked program may well hand
a text to a function of integers. But a union has named types for options, never function types:
what the checker takes for the same has the same *shape*, which is what is left of a type when the
names in it are forgotten. Shapes are a discipline (`Discipline.shape`), and they are all that it
takes to find every name, to apply only closures and to supply each of them with all of its
arguments (`interpret_keeps_shape`).
-/

namespace Offside

/-- Types are told apart by their shapes: all names have one label. -/
def Discipline.shape (aliases : Aliases) : Discipline aliases :=
  .ofLabels aliases (fun _ => "") fun _ _ _ => rfl

namespace EvalError

/-- A value is not what a function can work on: of another kind, or out of range. -/
def isDynamicKind : EvalError → Bool
  | wrongKind .. | overflow _ | zeroDivisor _ => true
  | _ => false

/-- The program goes wrong by its shape: a name that stands for nothing, the application of
something that is no function, or of a function to another number of arguments. -/
def isMisapplication : EvalError → Bool
  | unboundName _ | notAFunction _ | arity .. => true
  | _ => false

/-- What a program of the right shape can still fail with: a value that a function cannot work on, the
limit, the sink, or a missing or unfit `main`. -/
def IsForeseen (error : EvalError) : Prop :=
  error.isDynamicKind = true ∨ (∃ depth, error = .depthExceeded depth) ∨
    (∃ reason, error = .output reason) ∨ error = .missingMain ∨ error = .invalidMain

theorem IsForeseen.isMisapplication {error : EvalError} (h : error.IsForeseen) :
    error.isMisapplication = false := by
  rcases h with hkind | ⟨depth, rfl⟩ | ⟨reason, rfl⟩ | rfl | rfl
  · cases error with
    | wrongKind _ _ _ | overflow _ | zeroDivisor _ => rfl
    | _ => cases hkind
  all_goals rfl

end EvalError

/-- Programs of the right shape fail with foreseen errors only. -/
def Policy.shape (aliases : Aliases) (types : Table Ty) :
    Policy (Discipline.shape aliases) types where
  Permitted := EvalError.IsForeseen
  depth limit := .inr (.inl ⟨limit, rfl⟩)
  output reason := .inr (.inr (.inl ⟨reason, rfl⟩))
  overflow _ _ := .inl rfl
  zeroDivisor _ _ := .inl rfl
  kind _ _ _ _ _ _ := .inl rfl

/-- **A checked program never misapplies anything**: whatever its unions, structs, scopes and
definitions are, at every limit, from every state of the sink and on every machine, a run that fails
does so because of a value that a function cannot work on, the limit, the sink, a missing or unfit
`main`, or because the machine has no stack for the limit. -/
theorem interpret_keeps_shape {origin : Nat} {source : String} {program : Program}
    (hcompile : compile origin source = .ok program) (hcheck : program.check = .ok ())
    (libOrigin : Nat) (outlet : Outlet) (limit : Nat) (world : World) {error : EvalError}
    (hrun : ((program.interpret (Library.definitions libOrigin outlet) limit).run world).1 =
      .error error) :
    error.isMisapplication = false ∧
      (error.IsForeseen ∨
        ∃ reason, world.Refuses limit reason ∧ error = .stack (Machine.stackSize limit) reason) := by
  rcases Program.interpret_error (Policy.shape program.aliases program.types)
    (wellFormed_of_compile hcompile) hcheck libOrigin outlet hrun with
    rfl | rfl | ⟨reason, hrefuses, rfl⟩ | hforeseen
  · exact ⟨rfl, .inl (.inr (.inr (.inr (.inl rfl))))⟩
  · exact ⟨rfl, .inl (.inr (.inr (.inr (.inr rfl))))⟩
  · exact ⟨rfl, .inr ⟨reason, hrefuses, rfl⟩⟩
  · exact ⟨hforeseen.isMisapplication, .inl hforeseen⟩

/-- A union, a struct of functions under the name of a primitive type, a new meaning for a name of the
library, nested scopes and a qualified name. -/
def wordSource : String := "Word := union String | Integer
None := struct step:(Integer -> Integer)
less:Integer number:Integer = outer.shift number
outer:Integer = 1
    shift:(Integer -> Integer) = inner
    inner:Integer number:Integer = twice
        twice:Integer = plus number number
word:Word = \"five\"
main:Integer = (None.step (None less)) word"

set_option maxRecDepth 4000 in
theorem interpret_wordSource_keeps_shape :
    ∃ program error, compile 1 wordSource = .ok program ∧ program.check = .ok () ∧
      ((program.interpret (Library.definitions libraryOrigin .console) 100).run
        (World.initial .accepting 2)).1 = .error error ∧
      error = .wrongKind "plus" .integer "String \"five\"" ∧
      error.isMisapplication = false ∧
        (error.IsForeseen ∨ ∃ reason, (World.initial .accepting 2).Refuses 100 reason ∧
          error = .stack (Machine.stackSize 100) reason) := by
  have hsource : ∃ source, wordSource = String.ofList source ∧
      compiles 1 source (fun program => program.check = .ok () ∧
        program.fault? 100 (World.initial .accepting 2) =
          some (.wrongKind "plus" .integer "String \"five\"")) := ⟨_, rfl, by decide +kernel⟩
  obtain ⟨source, htext, hsource⟩ := hsource
  obtain ⟨program, hcompile, hp⟩ := exists_of_compiles htext hsource
  obtain ⟨hcheck, hfault⟩ := of_decide_eq_true hp
  have hrun := Program.run_of_fault? hfault
  exact ⟨program, _, hcompile, hcheck, hrun, rfl,
    interpret_keeps_shape hcompile hcheck libraryOrigin .console 100 _ hrun⟩

set_option maxRecDepth 4000 in
/-- Without a stack for the limit, the same program ends in an error that is not foreseen. -/
theorem interpret_wordSource_without_stack :
    ∃ program, compile 1 wordSource = .ok program ∧ program.check = .ok () ∧
      ((program.interpret (Library.definitions libraryOrigin .console) vastLimit).run
        (World.initial .accepting 2 .addressed)).1 = .error vastStack ∧ ¬vastStack.IsForeseen := by
  have hsource : ∃ source, wordSource = String.ofList source ∧
      compiles 1 source (fun program => program.check = .ok () ∧
        program.fault? vastLimit (World.initial .accepting 2 .addressed) = some vastStack) :=
    ⟨_, rfl, by decide +kernel⟩
  obtain ⟨source, htext, hsource⟩ := hsource
  obtain ⟨program, hcompile, hp⟩ := exists_of_compiles htext hsource
  obtain ⟨hcheck, hfault⟩ := of_decide_eq_true hp
  refine ⟨program, hcompile, hcheck, Program.run_of_fault? hfault, ?_⟩
  rintro (h | ⟨_, h⟩ | ⟨_, h⟩ | h | h)
  all_goals cases h

end Offside
