import Offside.Definition.Basic
import Offside.Qualified

/-!
# What names stand for in types

The checker knows the definitions and parameters in scope. A qualified name reaches into the nested
definitions of a constant; those of a function may use its parameters and are out of reach.
-/

namespace Offside

/-- What a name in scope stands for. -/
inductive Entry
  | parameter (ty : Ty)
  | definition (definition : Definition)

namespace Entry

/-- The type of the name. -/
def ty : Entry → Ty
  | parameter declared => declared
  | definition found => found.ty

/-- The definition nested in a constant under a name. -/
def member (entry : Entry) (name : String) : Option Entry :=
  match entry with
  | definition (.constant _ _ nested) => (Table.find? nested name).map definition
  | _ => none

end Entry

/-- The names of a scope. -/
abbrev Frame := Table Entry

namespace Frame

/-- The frame of a table of definitions. -/
def ofDefinitions (definitions : Definitions) : Frame :=
  Table.mapEntries (fun _ => .definition) definitions

/-- The frame with parameters laid over it. -/
def withParams (frame : Frame) (params : List (String × Ty)) : Frame :=
  Table.merge frame (params.map fun param => (param.1, .parameter param.2))

end Frame

/-- The declared unions, and the names in scope, innermost frame first. -/
structure Context where
  aliases : Aliases
  frames : List Frame

namespace Context

/-- The context with one more frame. -/
def push (context : Context) (frame : Frame) : Context :=
  { context with frames := frame :: context.frames }

/-- The context without its innermost frame. -/
def pop (context : Context) : Context :=
  { context with frames := context.frames.tail }

@[simp] theorem pop_push (context : Context) (frame : Frame) :
    (context.push frame).pop = context := rfl

/-- Runs a body with one more frame in scope. Leaving the scope drops the frame that is innermost
then: a body that gives back the context it was given leaves this one unchanged, and a body that
has pushed a frame loses that frame and leaves the one of the scope. -/
def within {m : Type → Type} [Monad m] {α : Type} (context : Context) (frame : Frame)
    (body : Context → m (α × Context)) : m (α × Context) := do
  let left ← body (context.push frame)
  pure (left.1, left.2.pop)

/-- What a name stands for by itself, in the innermost frame that has it. -/
def direct (context : Context) (name : String) : Option Entry :=
  context.frames.findSome? fun frame => Table.find? frame name

/-- What a name stands for. -/
def lookup (context : Context) (name : String) : Option Entry :=
  Qualified.resolve context.direct Entry.member name

/-- Whether two types are the same up to the declared unions. -/
def sameType (context : Context) (a b : Ty) : Bool :=
  Ty.same context.aliases a b

end Context

end Offside
