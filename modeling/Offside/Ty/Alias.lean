import Offside.Table
import Offside.Ty.Basic

/-!
# Types up to unions

A declared union is another name for any of its options. `Ty.same` compares types with that in
mind: a name is expanded to its options, or to itself; one expansion with a single name must be
part of the other, and two with several names must agree. Function types are compared position by
position, and all else as trees.
-/

namespace Offside

/-- The options of each declared union. -/
abbrev Aliases := Table NameSet

namespace Aliases

/-- The names that a name stands for. -/
def expand (aliases : Aliases) (name : String) : NameSet :=
  (Table.find? aliases name).getD [name]

/-- Whether two names stand for the same, or one of them for one option of the other. -/
def sameName (aliases : Aliases) (a b : String) : Bool :=
  let left := aliases.expand a
  let right := aliases.expand b
  match left.length, right.length with
  | 1, 1 => left == right
  | 1, _ => NameSet.subset left right
  | _, 1 => NameSet.subset right left
  | _, _ => left == right

end Aliases

namespace Ty

mutual

/-- Whether two types are the same up to unions. -/
def same (aliases : Aliases) : Ty → Ty → Bool
  | named a, named b => aliases.sameName a b
  | func ps r, func qs s => sameAll aliases ps qs && same aliases r s
  | a, b => decide (a = b)

/-- Whether two lists of types are the same up to unions, position by position. -/
def sameAll (aliases : Aliases) : List Ty → List Ty → Bool
  | [], [] => true
  | a :: as, b :: bs => same aliases a b && sameAll aliases as bs
  | _, _ => false

end

end Ty

end Offside
