import Offside.Eval.Error
import Offside.Expr.Basic

/-!
# What evaluation changes, and what it is given

Evaluation has two effects: it writes lines to a sink, and it makes frames, each with a number of
its own. Both are kept when an evaluation fails. What becomes of a line is up to the sink, and whether
there is a stack to evaluate on is up to the machine:

* `Sink` -- accepts a line or refuses it, by what it has accepted so far;
* `Machine` -- has a stack of so many bytes, or says why not;
* `World.write`, `World.freshFrame`, `World.reserve` -- the computations that depend on them.
-/

namespace Offside

/-! ## 1. Sinks -/

/-- How a sink refuses a line. -/
structure Refused where
  /-- what it has accepted of the line before -/
  part : String
  reason : String
  deriving DecidableEq

/-- What becomes of a line that is written when so much has been written before: it is accepted
unless there is a refusal. -/
structure Sink where
  refusal? : (written line : String) → Option Refused

namespace Sink

/-- A sink that accepts every line. -/
def accepting : Sink where
  refusal? _ _ := none

/-- A sink on which every write fails, for a reason. -/
def failing (reason : String) : Sink where
  refusal? _ _ := some ⟨"", reason⟩

/-- A sink that an earlier failure has left unusable. -/
def poisoned : Sink := failing "output sink is poisoned"

end Sink

/-! ## 2. Machines -/

/-- A machine, as far as stacks are concerned. -/
structure Machine where
  /-- why there is no stack of so many bytes, where there is none -/
  lacks? : (size : Nat) → Option String

namespace Machine

/-- A machine with stacks of every size. -/
def ample : Machine where
  lacks? _ := none

/-- A machine whose addresses have 47 bits. A stack has a page of 4096 bytes in front of it, and a size
that is no word of 64 bits together with this page is no size at all. -/
def addressed : Machine where
  lacks? size :=
    if UInt64.size ≤ size + 4096 then some "Invalid argument (os error 22)"
    else if size ≤ 140737488355328 then none
    else some "Resource temporarily unavailable (os error 11)"

/-- The bytes of stack for evaluation up to a limit: 16 KiB for each level, at least 2 MiB, and no more
than a word of 64 bits can count. -/
def stackSize (limit : Nat) : Nat :=
  max (2 * 1024 * 1024) (min (limit * (16 * 1024)) (UInt64.size - 1))

end Machine

/-! ## 3. Worlds -/

/-- The state of an evaluation besides its result. -/
structure World where
  sink : Sink
  /-- what the sink has accepted -/
  written : String
  /-- the number of the next frame -/
  frames : Nat
  machine : Machine

/-- Computations that may write, make frames, and fail. -/
abbrev EvalM := ExceptT EvalError (StateM World)

namespace World

/-- Writes a line to the sink. -/
def write (line : String) : EvalM Unit := do
  let world ← get
  match world.sink.refusal? world.written line with
  | none => set { world with written := world.written ++ line ++ "\n" }
  | some ⟨part, reason⟩ => do
    set { world with written := world.written ++ part }
    throw (.output reason)

/-- Writes a line where an outlet leads. -/
def writeTo (outlet : Outlet) (line : String) : EvalM Unit :=
  match outlet with
  | .console => write line
  | .void => pure ()

/-- A number for a new frame. -/
def freshFrame : EvalM Nat := do
  let world ← get
  set { world with frames := world.frames + 1 }
  pure world.frames

/-- Reserves a stack for evaluation up to a limit. -/
def reserve (limit : Nat) : EvalM Unit := do
  let world ← get
  match world.machine.lacks? (Machine.stackSize limit) with
  | none => pure ()
  | some reason => throw (.stack (Machine.stackSize limit) reason)

end World

end Offside
