import Offside.Typing.Derive

/-!
# Checking definitions

A definition is well typed if its nested definitions are, and its body has the declared type; inside
it, its nested definitions and parameters are in scope, parameters first. Definitions are visited
in order of name, nested ones before the one that holds them, and the first fault is reported.

The checker keeps one context, and enters and leaves the scopes of definitions as it comes to them
(`CheckM.within`).
-/

namespace Offside

/-- Computations in a context that they may change, and which may end in a fault. -/
abbrev CheckM := ExceptT TypeError (StateM Context)

namespace CheckM

/-- Runs a body with one more frame in scope, and leaves the scope however the body ends. -/
def within {α : Type} (frame : Frame) (body : CheckM α) : CheckM α :=
  fun context => context.within frame body

/-- Compares the type of a body with the declared one. -/
def checkBody (path : String) (declared : Ty) (body : Expr) : CheckM Unit := do
  let context ← get
  match context.derive body with
  | .error fault => throw ⟨path, fault⟩
  | .ok found =>
    if context.sameType declared found then pure () else throw ⟨path, .mismatch declared found⟩

mutual

/-- Checks a definition and all that is nested in it; `path` is its qualified name. -/
def checkDefinition (path : String) : Definition → CheckM Unit
  | .native .. => pure ()
  | .constant ty body nested =>
    within (Frame.ofDefinitions nested) do
      checkNested path nested
      checkBody path ty body
  | .function (.func paramTypes result) params body nested =>
    if paramTypes.length = params.length then
      within ((Frame.ofDefinitions nested).withParams (params.zip paramTypes)) do
        checkNested path nested
        checkBody path result body
    else throw ⟨path, .parameterCount paramTypes.length params.length⟩
  | .function ty _ _ _ => throw ⟨path, .malformedSignature ty⟩

/-- Checks definitions nested in the one at `path`. -/
def checkNested (path : String) : List (String × Definition) → CheckM Unit
  | [] => pure ()
  | (name, definition) :: rest => do
    checkDefinition (path ++ "." ++ name) definition
    checkNested path rest

end

/-- Checks definitions in order. -/
def checkAll : List (String × Definition) → CheckM Unit
  | [] => pure ()
  | (name, definition) :: rest => do
    checkDefinition name definition
    checkAll rest

end CheckM

namespace Definitions

/-- Checks a complete table of definitions. -/
def check (definitions : Definitions) (aliases : Aliases) : Except TypeError Unit :=
  ((CheckM.checkAll definitions).run ⟨aliases, [Frame.ofDefinitions definitions]⟩).1

end Definitions

end Offside
