/-!
# Arithmetic on integers of 64 bits

Sums, differences and products are exact or nothing: the machine's result counts if it is the true
one. Division rounds the quotient down, so the remainder has the sign of the divisor; there is no
quotient by zero, and none of the least integer by minus one.
-/

namespace Offside.Arithmetic

/-- The exact sum. -/
def add? (a b : Int64) : Option Int64 :=
  let sum := a + b
  if sum.toInt = a.toInt + b.toInt then some sum else none

/-- The exact difference. -/
def sub? (a b : Int64) : Option Int64 :=
  let difference := a - b
  if difference.toInt = a.toInt - b.toInt then some difference else none

/-- The exact product. -/
def mul? (a b : Int64) : Option Int64 :=
  let product := a * b
  if product.toInt = a.toInt * b.toInt then some product else none

/-- Whether the machine divides `a` by `b`. -/
def divides (a b : Int64) : Bool :=
  b ≠ 0 && !(a = Int64.minValue && b = -1)

/-- The quotient, rounded down. The machine rounds towards zero, which is one too much where the
signs differ and the division leaves a remainder. -/
def floorDiv? (a b : Int64) : Option Int64 :=
  if divides a b then
    if a % b ≠ 0 ∧ (a < 0) ≠ (b < 0) then sub? (a / b) 1 else some (a / b)
  else none

/-- The remainder of the division that rounds down. The machine's remainder has the sign of `a`. -/
def floorMod? (a b : Int64) : Option Int64 :=
  if divides a b then
    let remainder := a % b
    if remainder ≠ 0 ∧ (remainder < 0) ≠ (b < 0) then some (remainder + b) else some remainder
  else none

end Offside.Arithmetic
