import Offside.Run

/-!
# The command line

    [--no-check] [--max-depth N] [--dump augmented|tokens|ast] [-v | --verbose]... PATH

A program is run, or one stage of its way to a program is shown. An option with a value takes it
after `=` or as the next argument; only `--verbose` may be given more than once. After `--` every
argument is a path.

* `Arguments.parse?` -- what the arguments ask for, unless they are malformed;
* `Arguments.execute` -- does it to a text;
* `CommandLine.run` -- both, with a way to read files.
-/

namespace Offside

/-- What can be shown of a program instead of running it. -/
inductive Stage
  /-- the text with its layout marked -/
  | layout
  | tokens
  | program
  deriving DecidableEq

/-- What the arguments ask for. -/
structure Arguments where
  path : String
  options : Options
  dump : Option Stage

namespace Arguments

/-! ## 1. Reading arguments -/

/-- The arguments read so far; what has not been given is missing. -/
structure Draft where
  path : Option String := none
  noCheck : Bool := false
  limit : Option Nat := none
  dump : Option Stage := none

/-- The value of a machine word that is written in decimal digits, perhaps after a plus sign. -/
def word? (text : String) : Option Nat :=
  let digits :=
    match text.toList with
    | '+' :: rest => rest
    | all => all
  if digits.isEmpty || !digits.all Char.isDigit then none
  else
    let value := Text.Decimal.value digits
    if value < UInt64.size then some value else none

/-- The stage of a word. -/
def stage? (word : String) : Option Stage :=
  if word = "augmented" then some .layout
  else if word = "tokens" then some .tokens
  else if word = "ast" then some .program
  else none

namespace Draft

/-- Takes a path; there is one only. -/
def withPath (draft : Draft) (path : String) : Option Draft :=
  if draft.path.isSome then none else some { draft with path := some path }

/-- Takes the value of `--max-depth`, once. -/
def withLimit (draft : Draft) (value : String) : Option Draft :=
  if draft.limit.isSome then none
  else (word? value).map fun limit => { draft with limit := some limit }

/-- Takes the value of `--dump`, once. -/
def withDump (draft : Draft) (value : String) : Option Draft :=
  if draft.dump.isSome then none
  else (stage? value).map fun stage => { draft with dump := some stage }

/-- Takes the value of an option that has one. -/
def withValue (draft : Draft) (option value : String) : Option Draft :=
  if option = "--max-depth" then draft.withLimit value
  else if option = "--dump" then draft.withDump value
  else none

/-- Takes an option that has no value. -/
def withFlag (draft : Draft) (option : String) : Option Draft :=
  if option = "--no-check" then
    if draft.noCheck then none else some { draft with noCheck := true }
  else if option = "--verbose" then some draft
  else
    match option.toList with
    | '-' :: letters => if letters.all (· == 'v') && !letters.isEmpty then some draft else none
    | _ => none

/-- Whether an argument is no path and no value. -/
def isOption (argument : String) : Bool :=
  match argument.toList with
  | ['-'] => false
  | '-' :: _ => true
  | _ => false

/-- The option and the value of an argument such as `--dump=ast`. -/
def assignment? (argument : String) : Option (String × String) :=
  let chars := argument.toList
  if chars.contains '=' then
    some (String.ofList (chars.takeWhile (· != '=')),
      String.ofList ((chars.dropWhile (· != '=')).drop 1))
  else none

/-- Reads paths only. -/
def readPaths (draft : Draft) : List String → Option Draft
  | [] => some draft
  | path :: rest =>
    match draft.withPath path with
    | none => none
    | some draft => draft.readPaths rest

/-- Reads arguments. -/
def read (draft : Draft) : List String → Option Draft
  | [] => some draft
  | argument :: rest =>
    if argument = "--" then draft.readPaths rest
    else if !isOption argument then
      match draft.withPath argument with
      | none => none
      | some draft => draft.read rest
    else if argument = "--max-depth" || argument = "--dump" then
      match rest with
      | [] => none
      | value :: rest =>
        if isOption value then none
        else
          match draft.withValue argument value with
          | none => none
          | some draft => draft.read rest
    else
      let next :=
        match assignment? argument with
        | some (option, value) => draft.withValue option value
        | none => draft.withFlag argument
      match next with
      | none => none
      | some draft => draft.read rest

end Draft

/-- What the arguments ask for. -/
def parse? (arguments : List String) : Option Arguments := do
  let draft ← Draft.read {} arguments
  let path ← draft.path
  some ⟨path, ⟨!draft.noCheck, draft.limit.getD defaultLimit⟩, draft.dump⟩

/-! ## 2. Doing what they ask for -/

/-- A token with its place, on a line. -/
def tokenLine (lexeme : Lexeme) : String :=
  Text.Decimal.ofNat lexeme.span.start ++ ".." ++ Text.Decimal.ofNat lexeme.span.stop ++ "\t" ++
    lexeme.token.dump.flat ++ "\n"

/-- A stage of a text. -/
def showStage (source : String) (stage : Stage) : Except Error String := do
  let marked ← (Layout.mark source).mapError .layout
  match stage with
  | .layout => pure (marked ++ "\n")
  | .tokens => do
    let tokens ← (Token.read marked).mapError .lex
    pure (String.join (tokens.map tokenLine))
  | .program => do
    let program ← compile programOrigin source
    pure (program.dump.indented ++ "\n")

/-- Does what the arguments ask for to a text: the output, and the error that ended it. -/
def execute (arguments : Arguments) (source : String) (machine : Machine) : String × Option Error :=
  match arguments.dump with
  | some stage =>
    match showStage source stage with
    | .ok text => (text, none)
    | .error error => ("", some error)
  | none =>
    match run source arguments.options .accepting machine with
    | (.ok _, out) => (out, none)
    | (.error error, out) => (out, some error)

end Arguments

namespace CommandLine

/-- How the command ends. -/
inductive Outcome
  /-- the arguments are malformed -/
  | usage
  /-- the file is missing or no text -/
  | unreadable
  | finished (out : String) (error : Option Error)

namespace Outcome

/-- The exit code. -/
def exitCode : Outcome → Nat
  | usage => 2
  | unreadable => 1
  | finished _ error => if error.isSome then 1 else 0

/-- What stands on the standard output. -/
def out : Outcome → String
  | finished out _ => out
  | _ => ""

/-- The message of an error that points to no part of the text. -/
def message? : Outcome → Option String
  | finished _ (some error) => if error.span?.isSome then none else some error.message
  | _ => none

end Outcome

/-- Runs the command on a machine; `read` gives the text of a file. -/
def run (arguments : List String) (read : String → Option String) (machine : Machine) : Outcome :=
  match Arguments.parse? arguments with
  | none => .usage
  | some parsed =>
    match read parsed.path with
    | none => .unreadable
    | some source =>
      let (out, error) := parsed.execute source machine
      .finished out error

end CommandLine

end Offside
