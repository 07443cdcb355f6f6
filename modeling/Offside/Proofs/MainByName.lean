import Offside.Proofs.Limits
import Offside.Proofs.Resolve

/-!
# Running a program by the name `main`

A run builds the scope of `main` and evaluates the call in it. The same happens when the name `main`
is evaluated in the environment of the program, one level further down, or two if there are nested
definitions. So the two agree once the limit makes up for these levels:

* `CutBy.antisymm` -- two computations of which each is the other one, cut off by a limit, are the
  same but for the limit that they tell;
* `Program.eval_main` -- the name `main` leads to the call of a run, with as many levels left.

`interpret_eq_evaluate_main` puts the two together. The greater limit needs the greater stack, which the
machine need not have.
-/

namespace Offside

/-! ## 1. Results but for the limit -/

/-- The error, without the limit that was exceeded. -/
def EvalError.withoutLimit : EvalError → EvalError
  | .depthExceeded _ => .depthExceeded 0
  | error => error

/-- Of two texts that each start with the other one, neither has more. -/
theorem eq_of_append {a b more more' : String} (h : b = a ++ more) (h' : a = b ++ more') :
    b = a := by
  have hlong := congrArg String.length h
  have hshort := congrArg String.length h'
  rw [String.length_append] at hlong hshort
  have hmore : more = "" := String.length_eq_zero_iff.1 (by omega)
  rw [h, hmore, String.append_empty]

/-- **Computations that are each the other one, cut off,** differ in the limit that they tell. -/
theorem CutBy.antisymm {α : Type} {limit limit' : Nat} {m m' : EvalM α} (h : CutBy limit m m')
    (h' : CutBy limit' m' m) (world : World) :
    (m'.run world).1.mapError EvalError.withoutLimit =
      (m.run world).1.mapError EvalError.withoutLimit ∧
    (m'.run world).2.written = (m.run world).2.written := by
  obtain ⟨hsame, _, out, more, hshort, hlong⟩ := h world
  obtain ⟨_, hboth, out', more', hshort', hlong'⟩ := h' world
  by_cases hcut : (m.run world).1 = .error (.depthExceeded limit)
  · rw [hcut, hboth limit hcut]
    have hstart : (m'.run world).2.written = (m.run world).2.written ++ more := by
      rw [hshort, hlong, String.append_assoc]
    have hstart' : (m.run world).2.written = (m'.run world).2.written ++ more' := by
      rw [hlong', hshort', String.append_assoc]
    exact ⟨rfl, eq_of_append hstart hstart'⟩
  · rw [hsame hcut]
    exact ⟨rfl, rfl⟩

/-! ## 2. The name `main` -/

namespace Program

variable {program : Program} {ty : Ty} {operator : Expr} {operands : List Expr}
  {nested : Definitions}

/-- **The name `main` leads to the call** in the scope that a run builds for it. -/
theorem eval_main (library : Definitions)
    (hmain : Table.find? program.definitions "main" =
      some (.constant ty (.call operator operands) nested)) (limit levels : Nat) :
    eval limit (levels + if nested.isEmpty then 1 else 2) (baseEnv library program.definitions)
        (.var "main") =
      program.evalMain library nested operator operands limit levels := by
  have hlookup := lookup_baseEnv library program.definitions "main"
  rw [hmain] at hlookup
  have hvar := evalVar_of_lookup hlookup
  cases nested with
  | nil => exact hvar (eval limit levels)
  | cons first rest =>
      -- the call stands in a scope, which is a level of its own
      exact hvar (eval limit (levels + 1))

/-- With as many levels left, two limits are told apart only by the error that they are exceeded. -/
theorem evalMain_cutBy (program : Program) (library nested : Definitions) (operator : Expr)
    (operands : List Expr) (levels low high : Nat) :
    CutBy low (program.evalMain library nested operator operands low levels)
      (program.evalMain library nested operator operands high levels) :=
  .bind ((CutBy.congruence low).extendM _ _) fun env =>
    eval_cutBy (Nat.le_refl levels) low high env _

end Program

/-- **Running `main` agrees with evaluating the name `main`.** Let `main` be a constant whose body is
a call. At every limit, with every library and in every world, a run of the program and the evaluation
of `main` in its environment, with one level more, or two if `main` has nested definitions, write the
same and end in the same value or error, if the machine has a stack for both limits; only the limit
that an error tells is another one. The one of the two whose limit there is no stack for ends in the
error that there is none, and writes nothing. -/
theorem interpret_eq_evaluate_main (program : Program) (library : Definitions) (limit : Nat)
    {ty : Ty} {operator : Expr} {operands : List Expr} {nested : Definitions}
    (hmain : Table.find? program.definitions "main" =
      some (.constant ty (.call operator operands) nested)) (world : World) :
    let deeper := limit + if nested.isEmpty then 1 else 2
    let whole := (program.interpret library limit).run world
    let named := ((Expr.var "main").evaluate deeper
      (Program.baseEnv library program.definitions)).run world
    (world.Grants limit → world.Grants deeper →
      named.1.mapError EvalError.withoutLimit = whole.1.mapError EvalError.withoutLimit ∧
        named.2.written = whole.2.written) ∧
    (∀ reason, world.Refuses limit reason →
      whole.1 = .error (.stack (Machine.stackSize limit) reason) ∧
        whole.2.written = world.written) ∧
    ∀ reason, world.Refuses deeper reason →
      named = (.error (.stack (Machine.stackSize deeper) reason), world) := by
  refine ⟨fun hlimit hdeeper => ?_, fun reason h => ?_, fun reason h => onStack_of_refuses h⟩
  · rw [Program.run_interpret_of_grants library hmain hlimit, Expr.evaluate,
      onStack_of_grants hdeeper, Program.eval_main library hmain]
    -- the two evaluate the call in one scope with as many levels left
    have hcut := program.evalMain_cutBy library nested operator operands limit
    exact (hcut limit _).antisymm (hcut _ limit) world
  · exact Program.run_interpret_of_refuses library hmain h

/-- A program whose `main` has a nested definition, writes a line, and then needs one level more. -/
def doublingSource : String :=
  "main:Integer = second (printLine greeting) (twice 3)
    greeting:String = \"hi\"
second:Integer line:None n:Integer = n
twice:Integer n:Integer = plus n n"

/-- Whether `main` is a call with nested definitions. -/
def Program.nestsInMain (program : Program) : Bool :=
  match Table.find? program.definitions "main" with
  | some (.constant _ (.call _ _) nested) => !nested.isEmpty
  | _ => false

theorem Program.exists_of_nestsInMain {program : Program} (h : program.nestsInMain = true) :
    ∃ ty operator operands nested, Table.find? program.definitions "main" =
      some (.constant ty (.call operator operands) nested) ∧ nested.isEmpty = false := by
  rw [Program.nestsInMain] at h
  split at h
  · exact ⟨_, _, _, _, ‹_›, by simpa using h⟩
  · cases h

/-- A run of the program. -/
def Program.wholeRun (program : Program) (limit : Nat) (machine : Machine := .ample) :
    Except EvalError Expr × World :=
  (program.interpret (Library.definitions libraryOrigin .console) limit).run
    (World.initial .accepting Program.baseFrames machine)

/-- The evaluation of the name `main`. -/
def Program.namedRun (program : Program) (limit : Nat) (machine : Machine := .ample) :
    Except EvalError Expr × World :=
  ((Expr.var "main").evaluate limit
    (Program.baseEnv (Library.definitions libraryOrigin .console) program.definitions)).run
      (World.initial .accepting Program.baseFrames machine)

set_option maxRecDepth 4000 in
theorem doublingSource_main :
    ∃ program, compile programOrigin doublingSource = .ok program ∧ program.nestsInMain = true ∧
      cutOff? (program.wholeRun 3) = some 3 ∧ cutOff? (program.namedRun 5) = some 5 ∧
      (program.namedRun 5).2.written = (program.wholeRun 3).2.written ∧
      (program.wholeRun 3).2.written = "hi\n" ∧
      cutOff? (program.wholeRun 4) = none ∧
      (program.namedRun 6).1.mapError EvalError.withoutLimit =
        (program.wholeRun 4).1.mapError EvalError.withoutLimit := by
  have hsource : ∃ source, doublingSource = String.ofList source ∧
      compiles programOrigin source (fun program => program.nestsInMain = true ∧
        cutOff? (program.wholeRun 3) = some 3 ∧ cutOff? (program.namedRun 5) = some 5 ∧
        (program.wholeRun 3).2.written = "hi\n" ∧ cutOff? (program.wholeRun 4) = none) :=
    ⟨_, rfl, by decide +kernel⟩
  obtain ⟨source, htext, hsource⟩ := hsource
  obtain ⟨program, hcompile, hp⟩ := exists_of_compiles htext hsource
  obtain ⟨hnests, hcut, hcut', hwritten, hfree⟩ := of_decide_eq_true hp
  obtain ⟨_, _, _, nested, hmain, hnested⟩ := Program.exists_of_nestsInMain hnests
  have hthree := interpret_eq_evaluate_main program (Library.definitions libraryOrigin .console) 3
    hmain (World.initial .accepting Program.baseFrames)
  have hfour := interpret_eq_evaluate_main program (Library.definitions libraryOrigin .console) 4
    hmain (World.initial .accepting Program.baseFrames)
  rw [hnested] at hthree hfour
  exact ⟨program, hcompile, hnests, hcut, hcut', (hthree.1 rfl rfl).2, hwritten, hfree,
    (hfour.1 rfl rfl).1⟩

set_option maxRecDepth 4000 in
/-- Where there is no stack for either limit, the errors tell the two sizes. -/
theorem doublingSource_main_without_stack :
    ∃ program, compile programOrigin doublingSource = .ok program ∧ program.nestsInMain = true ∧
      (program.wholeRun vastLimit .addressed).1 = .error vastStack ∧
      (program.namedRun (vastLimit + 2) .addressed).1 =
        .error (.stack 18014398509514752 "Resource temporarily unavailable (os error 11)") ∧
      (program.namedRun (vastLimit + 2) .addressed).1.mapError EvalError.withoutLimit ≠
        (program.wholeRun vastLimit .addressed).1.mapError EvalError.withoutLimit := by
  have hsource : ∃ source, doublingSource = String.ofList source ∧
      compiles programOrigin source Program.nestsInMain := ⟨_, rfl, by decide +kernel⟩
  obtain ⟨source, htext, hsource⟩ := hsource
  obtain ⟨program, hcompile, hnests⟩ := exists_of_compiles htext hsource
  obtain ⟨_, _, _, _, hmain, _⟩ := Program.exists_of_nestsInMain hnests
  have hwhole : (program.wholeRun vastLimit .addressed).1 = .error vastStack :=
    (Program.run_interpret_of_refuses _ hmain (World.refuses_vastLimit _ _)).1
  have hnamed : program.namedRun (vastLimit + 2) .addressed = (.error
      (.stack 18014398509514752 "Resource temporarily unavailable (os error 11)"), _) :=
    onStack_of_refuses rfl
  refine ⟨program, hcompile, hnests, hwhole, by rw [hnamed], ?_⟩
  rw [hwhole, hnamed]
  intro h
  exact absurd (Except.error.inj h) (by decide)

end Offside
