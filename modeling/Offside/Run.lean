import Offside.Eval.Basic
import Offside.Grammar.Scope
import Offside.Layout
import Offside.Library
import Offside.Token.Lexer
import Offside.Typing.Check

/-!
# From a text to a run

* `compile` -- the program of a text: layout, tokens, definitions;
* `compileExpr` -- the expression of a text, without layout;
* `Program.check` -- checks a program against the library;
* `Program.interpret` -- evaluates the definition `main` of a program;
* `run` -- all of these in turn.
-/

namespace Offside

/-- Why a text does not run. -/
inductive Error
  | layout (error : LayoutError)
  | lex (error : LexError)
  | parse (error : ParseError)
  | type (error : TypeError)
  | eval (error : EvalError)
  deriving DecidableEq

namespace Error

/-- The error as a message. -/
def message : Error → String
  | layout error => error.message
  | lex error => error.message
  | parse error => error.fault.message
  | type error => error.message
  | eval error => error.message

/-- The part of the marked text that the error points to. -/
def span? : Error → Option Span
  | lex error => some error.span
  | parse error => some error.span
  | _ => none

end Error

/-- The depth of evaluation that is allowed where no other limit is given. -/
def defaultLimit : Nat := 10000

/-- How a program is run. -/
structure Options where
  /-- whether the program is checked first -/
  check : Bool := true
  /-- how deep evaluation may nest -/
  limit : Nat := defaultLimit
  deriving DecidableEq

/-! ## 1. Programs and expressions of a text -/

/-- The program of a text; `origin` is that of its native functions. -/
def compile (origin : Nat) (source : String) : Except Error Program := do
  let marked ← (Layout.mark source).mapError .layout
  let tokens ← (Token.read marked).mapError .lex
  (Program.ofTokens origin tokens).mapError .parse

/-- The expression of a text of one line. -/
def compileExpr (source : String) : Except Error Expr := do
  let tokens ← (Token.read source).mapError .lex
  (Expr.ofTokens tokens).mapError .parse

/-! ## 2. Checking and running programs -/

/-- The origin of the library in a run. -/
def libraryOrigin : Nat := 0

/-- The origin of the program in a run. -/
def programOrigin : Nat := 1

/-- The world in which an evaluation starts in an environment with fewer than `frames` frames. -/
def World.initial (sink : Sink) (frames : Nat) (machine : Machine := .ample) : World :=
  ⟨sink, "", frames, machine⟩

namespace Program

/-- Checks a program, with a library below its definitions. -/
def checkWith (program : Program) (library : Definitions) : Except TypeError Unit :=
  Definitions.check (Table.merge library program.definitions) program.aliases

/-- Checks a program. -/
def check (program : Program) : Except TypeError Unit :=
  program.checkWith (Library.definitions libraryOrigin .void)

/-- The environment of a program: a frame for the library, and one for its definitions over it. -/
def baseEnv (library definitions : Definitions) : Env :=
  (Env.root.extend 0 (Definitions.toBindings library)).extend 1 (Definitions.toBindings definitions)

/-- The number of frames that `baseEnv` makes. -/
def baseFrames : Nat := 2

/-- Evaluates the call that `main` is defined as. -/
def interpret (program : Program) (library : Definitions) (limit : Nat) : EvalM Expr :=
  match Table.find? program.definitions "main" with
  | none => throw .missingMain
  | some (.constant _ (.call operator operands) nested) => do
    let env ← (baseEnv library program.definitions).extendM (Definitions.toBindings nested)
    (Expr.call operator operands).evaluate limit env
  | some _ => throw .invalidMain

end Program

/-- Runs the program of a text: its result, and what it wrote. -/
def run (source : String) (options : Options) (sink : Sink) (machine : Machine) :
    Except Error Expr × String :=
  let library := Library.definitions libraryOrigin .console
  match compile programOrigin source with
  | .error error => (.error error, "")
  | .ok program =>
    match if options.check then program.checkWith library else .ok () with
    | .error error => (.error (.type error), "")
    | .ok _ =>
      let (outcome, world) :=
        (program.interpret library options.limit).run
          (World.initial sink Program.baseFrames machine)
      (outcome.mapError .eval, world.written)

end Offside
