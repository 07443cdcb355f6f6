import Offside.Eval.World
import Offside.Qualified

/-!
# Environments in use

An environment grows by frames and is searched from the innermost frame outwards. What is bound in
a frame is evaluated in the environment that ends with this frame, so a lookup gives both.
-/

namespace Offside

namespace Env

/-- Adds a frame with a number and bindings; without bindings the environment stays the same. -/
def extend (env : Env) (number : Nat) (bindings : Bindings) : Env :=
  if bindings.isEmpty then env else frame number bindings env

/-- What parameters bind, position by position; of two parameters with one name the later counts. -/
def pairs (params : List String) (args : List Expr) : Bindings :=
  Table.ofList (params.zip args)

/-- What the innermost frame with the name binds to it, and the environment of that frame. -/
def lookup (name : String) : Env → Option (Expr × Env)
  | root => none
  | frame number bindings parent =>
    match Table.find? bindings name with
    | some bound => some (bound, frame number bindings parent)
    | none => parent.lookup name

/-- What a name stands for: an expression, the environment to evaluate it in, and the number that
the next new frame has. -/
structure Found where
  bound : Expr
  scope : Env
  next : Nat

namespace Found

/-- The definition nested in a constant under a name, with the constant's definitions in scope. -/
def member (found : Found) (name : String) : Option Found :=
  match found.bound with
  | .scope locals _ =>
    (Table.find? locals name).map fun bound =>
      ⟨bound, found.scope.extend found.next locals, found.next + 1⟩
  | _ => none

end Found

/-- What a name stands for; new frames are numbered from `next` on. -/
def resolve (env : Env) (next : Nat) (name : String) : Option Found :=
  Qualified.resolve
    (fun plain => (env.lookup plain).map fun entry => ⟨entry.1, entry.2, next⟩)
    Found.member name

/-- Adds a new frame, unless there is nothing to bind. -/
def extendM (env : Env) (bindings : Bindings) : EvalM Env :=
  if bindings.isEmpty then pure env
  else do
    let number ← World.freshFrame
    pure (frame number bindings env)

/-- What a name stands for; the frames that are made to find it are new ones. -/
def resolveM (env : Env) (name : String) : EvalM Found := do
  let world ← get
  match env.resolve world.frames name with
  | none => throw (.unboundName name)
  | some found => do
    set { world with frames := found.next }
    pure found

end Env

end Offside
