/-!
# Decimal numerals

* `Decimal.value` -- the number that a run of digits stands for, leading zeros included;
* `Decimal.digits` -- the digits of a number, without leading zeros;
* `Decimal.ofNat`, `Decimal.ofInt` -- the numeral as a text, with a minus sign where needed.

Reading what was written gives the number back (`Decimal.value_digits`).
-/

namespace Offside.Text.Decimal

/-- The digit of a number below ten. -/
def digit (n : Nat) : Char :=
  Char.ofNat (48 + n)

/-- Appends one more digit to a value. -/
def step (value : Nat) (c : Char) : Nat :=
  10 * value + (c.toNat - 48)

/-- The value of a run of digits. -/
def value (digits : List Char) : Nat :=
  digits.foldl step 0

/-- The digits of a number, most significant first. -/
def digits (n : Nat) : List Char :=
  if n < 10 then [digit n] else digits (n / 10) ++ [digit (n % 10)]

/-- The numeral of a natural number. -/
def ofNat (n : Nat) : String :=
  String.ofList (digits n)

/-- The numeral of an integer. -/
def ofInt (n : Int) : String :=
  if n < 0 then "-" ++ ofNat n.natAbs else ofNat n.natAbs

theorem toNat_digit {n : Nat} (h : n < 10) : (digit n).toNat = 48 + n := by
  match n, h with
  | 0, _ | 1, _ | 2, _ | 3, _ | 4, _ | 5, _ | 6, _ | 7, _ | 8, _ | 9, _ => decide

theorem value_append_digit (ds : List Char) (n : Nat) (h : n < 10) :
    value (ds ++ [digit n]) = 10 * value ds + n := by
  simp [value, step, toNat_digit h]

/-- The digits of a number have its value. -/
theorem value_digits (n : Nat) : value (digits n) = n := by
  fun_induction digits n with
  | case1 n h => simp [value, step, toNat_digit h]
  | case2 n _ ih =>
    rw [value_append_digit _ _ (Nat.mod_lt _ (by decide)), ih]
    omega

end Offside.Text.Decimal
