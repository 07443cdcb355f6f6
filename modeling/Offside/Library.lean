import Offside.Definition.Basic

/-!
# The library

The native functions that every program sees. A program may define the same names anew.
-/

namespace Offside.Library

/-- The native function of an operation. -/
def function (origin : Nat) (operation : Operation) (paramTypes : List Ty) (result : Ty)
    (params : List String) : Definition :=
  .native (.func paramTypes result) params ⟨origin, operation⟩

/-- The definitions of the library, in order of name. Each library that is built needs an origin
of its own; `outlet` is where `printLine` writes. -/
def definitions (origin : Nat) (outlet : Outlet) : Definitions :=
  let arithmetic (operation : Operation) (params : List String) : Definition :=
    function origin operation [.integer, .integer] .integer params
  let comparison (operation : Operation) : Definition :=
    function origin operation [.integer, .integer] .truth ["a", "b"]
  [("concat", function origin .concat [.string, .string] .string ["a", "b"]),
   ("divide", arithmetic .divide ["numerator", "denominator"]),
   ("equal", comparison .equal),
   ("greater", comparison .greater),
   ("intToStr", function origin .intToStr [.integer] .string ["number"]),
   ("less", comparison .less),
   ("minus", arithmetic .minus ["a", "b"]),
   ("modulo", arithmetic .modulo ["numerator", "denominator"]),
   ("multiply", arithmetic .multiply ["a", "b"]),
   ("plus", arithmetic .plus ["a", "b"]),
   ("printLine", function origin (.printLine outlet) [.string] .nothing ["message"])]

end Offside.Library
