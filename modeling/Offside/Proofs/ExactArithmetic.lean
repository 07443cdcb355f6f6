import Offside.Run

/-!
# Arithmetic is exact, or an error

An arithmetic function of the library gives the true result or says that there is none; only `modulo`
says so once too often (`modulo_least_overflows`). What the functions do is compared with the integers
without bounds:

* `Arithmetic.Fits`, `Arithmetic.ofInt?` -- the integers that 64 bits hold. Sums, differences and
  products are the true ones where these fit (`add?_eq`, `sub?_eq`, `mul?_eq`);
* `Arithmetic.FloorDivision` -- quotient and remainder of the division that rounds down. There is one
  pair of them (`floorDivision_iff`), and the corrections of the machine's quotient and of its
  remainder lead to it together (`floorDivision_of_differ`, `floorDivision_of_agree`);
* `Arithmetic.floorDivSteps`, `Arithmetic.floorModSteps` -- the two functions on a machine whose steps
  may go wrong. They never do (`floorDivSteps_eq`, `floorModSteps_eq`).

`library_arithmetic` and `division_law` say what follows for the functions of the library.
-/

namespace Offside

namespace Arithmetic

/-! ## 1. Integers of 64 bits -/

/-- The integers that 64 bits hold. -/
def Fits (n : Int) : Prop :=
  Int64.minValue.toInt ≤ n ∧ n ≤ Int64.maxValue.toInt

instance (n : Int) : Decidable (Fits n) :=
  inferInstanceAs (Decidable (_ ∧ _))

/-- The integer of 64 bits that is `n`, if there is one. -/
def ofInt? (n : Int) : Option Int64 :=
  if Fits n then some (Int64.ofInt n) else none

theorem fits_iff {n : Int} : Fits n ↔ -9223372036854775808 ≤ n ∧ n < 9223372036854775808 := by
  rw [Fits, Int64.toInt_minValue, Int64.toInt_maxValue]
  omega

theorem fits_toInt (a : Int64) : Fits a.toInt :=
  fits_iff.2 ⟨a.le_toInt, a.toInt_lt⟩

theorem ofInt?_toInt (a : Int64) : ofInt? a.toInt = some a := by
  rw [ofInt?, if_pos (fits_toInt a), Int64.ofInt_toInt]

/-- What the machine computes modulo `2 ^ 64` is the true result where that fits. -/
theorem toInt_eq_of_fits {n : Int} {r : Int64} (hr : r.toInt = n.bmod Int64.size) (h : Fits n) :
    r.toInt = n := by
  obtain ⟨hlow, hhigh⟩ := fits_iff.1 h
  rw [hr]
  exact Int.bmod_eq_of_le hlow hhigh

theorem exact_eq_ofInt? {n : Int} {r : Int64} (hr : r.toInt = n.bmod Int64.size) :
    (if r.toInt = n then some r else none) = ofInt? n := by
  split
  · rename_i h
    rw [← h, ofInt?_toInt]
  · rename_i h
    exact (if_neg fun hfits => h (toInt_eq_of_fits hr hfits)).symm

/-- A difference that fits is there. -/
theorem sub?_of_fits {a b : Int64} (h : Fits (a.toInt - b.toInt)) : sub? a b = some (a - b) :=
  if_pos (toInt_eq_of_fits (Int64.toInt_sub a b) h)

theorem add?_eq (a b : Int64) : add? a b = ofInt? (a.toInt + b.toInt) :=
  exact_eq_ofInt? (Int64.toInt_add a b)

theorem sub?_eq (a b : Int64) : sub? a b = ofInt? (a.toInt - b.toInt) :=
  exact_eq_ofInt? (Int64.toInt_sub a b)

theorem mul?_eq (a b : Int64) : mul? a b = ofInt? (a.toInt * b.toInt) :=
  exact_eq_ofInt? (Int64.toInt_mul a b)

/-! ## 2. Division that rounds down -/

/-- `q` and `r` are quotient and remainder of a division that rounds down. -/
structure FloorDivision (a b q r : Int) : Prop where
  whole : a = b * q + r
  /-- in particular, there is no division by zero -/
  small : r.natAbs < b.natAbs
  sign : r = 0 ∨ r.sign = b.sign

/-- The remainder is on the side of the divisor. -/
theorem FloorDivision.of_bounds {a b q r : Int} (whole : a = b * q + r)
    (h : 0 ≤ r ∧ r < b ∨ b < r ∧ r ≤ 0) : FloorDivision a b q r := by
  refine ⟨whole, by omega, ?_⟩
  by_cases hr : r = 0
  · exact .inl hr
  · rcases h with ⟨hlow, hhigh⟩ | ⟨hlow, hhigh⟩
    · rw [Int.sign_eq_one_of_pos (by omega), Int.sign_eq_one_of_pos (by omega)]
      exact .inr rfl
    · rw [Int.sign_eq_neg_one_of_neg (by omega), Int.sign_eq_neg_one_of_neg (by omega)]
      exact .inr rfl

theorem FloorDivision.bounds {a b q r : Int} (h : FloorDivision a b q r) :
    0 ≤ r ∧ r < b ∨ b < r ∧ r ≤ 0 := by
  obtain ⟨_, hsmall, hzero | hsign⟩ := h
  · omega
  · rcases Int.lt_trichotomy b 0 with hb | rfl | hb
    · rw [Int.sign_eq_neg_one_of_neg hb, Int.sign_eq_neg_one_iff_neg] at hsign
      omega
    · omega
    · rw [Int.sign_eq_one_of_pos hb, Int.sign_eq_one_iff_pos] at hsign
      omega

/-- **There is one division that rounds down.** -/
theorem floorDivision_iff {a b q r : Int} :
    FloorDivision a b q r ↔ b ≠ 0 ∧ a.fdiv b = q ∧ a.fmod b = r := by
  rcases Int.lt_trichotomy b 0 with hb | rfl | hb
  · rw [Int.fdiv_fmod_unique' hb]
    refine ⟨fun h => ⟨by omega, ?_, ?_⟩, fun ⟨_, hwhole, hbounds⟩ => ?_⟩
    · rw [Int.add_comm, ← h.whole]
    · have := h.bounds
      omega
    · exact .of_bounds (by rw [Int.add_comm, hwhole]) (.inr hbounds)
  · refine ⟨fun h => ?_, fun h => absurd rfl h.1⟩
    have := h.bounds
    omega
  · rw [Int.fdiv_fmod_unique hb]
    refine ⟨fun h => ⟨by omega, ?_, ?_⟩, fun ⟨_, hwhole, hbounds⟩ => ?_⟩
    · rw [Int.add_comm, ← h.whole]
    · have := h.bounds
      omega
    · exact .of_bounds (by rw [Int.add_comm, hwhole]) (.inl hbounds)

theorem FloorDivision.fdiv_eq {a b q r : Int} (h : FloorDivision a b q r) : a.fdiv b = q :=
  (floorDivision_iff.1 h).2.1

theorem FloorDivision.fmod_eq {a b q r : Int} (h : FloorDivision a b q r) : a.fmod b = r :=
  (floorDivision_iff.1 h).2.2

/-- A remainder of the machine is small, and on the side of what is divided. -/
theorem tmod_bounds (a : Int) {b : Int} (hb : b ≠ 0) :
    (a.tmod b).natAbs < b.natAbs ∧ (0 ≤ a → 0 ≤ a.tmod b) ∧ (a < 0 → a.tmod b ≤ 0) := by
  refine ⟨?_, fun h => Int.tmod_nonneg b h, fun h => ?_⟩
  · rw [Int.natAbs_tmod]
    exact Nat.mod_lt _ (by omega)
  · have hneg : 0 ≤ (-a).tmod b := Int.tmod_nonneg b (by omega)
    rw [Int.neg_tmod] at hneg
    omega

variable {a b : Int}

/-- Where there is a remainder and the signs differ, both are corrected. -/
theorem floorDivision_of_differ (hb : b ≠ 0) (hr : a.tmod b ≠ 0) (hsigns : ¬(a < 0 ↔ b < 0)) :
    FloorDivision a b (a.tdiv b - 1) (a.tmod b + b) := by
  have hwhole := Int.mul_tdiv_add_tmod a b
  have hbounds := tmod_bounds a hb
  refine .of_bounds ?_ (by omega)
  rw [Int.mul_sub, Int.mul_one]
  omega

/-- Elsewhere, both are right. -/
theorem floorDivision_of_agree (hb : b ≠ 0) (h : ¬(a.tmod b ≠ 0 ∧ ¬(a < 0 ↔ b < 0))) :
    FloorDivision a b (a.tdiv b) (a.tmod b) := by
  have hwhole := Int.mul_tdiv_add_tmod a b
  have hbounds := tmod_bounds a hb
  exact .of_bounds (by omega) (by omega)

/-- The sign of a remainder tells as much as that of what is divided. -/
theorem tmod_neg_iff (hb : b ≠ 0) (hr : a.tmod b ≠ 0) : a.tmod b < 0 ↔ a < 0 := by
  have hbounds := tmod_bounds a hb
  omega

/-! ## 3. Division on the machine -/

section Machine

variable {a b : Int64}

theorem divides_iff : divides a b = true ↔ b ≠ 0 ∧ ¬(a = Int64.minValue ∧ b = -1) := by
  rw [divides, Bool.and_eq_true, Bool.not_eq_true', Bool.and_eq_false_iff, decide_eq_true_iff,
    decide_eq_false_iff_not, decide_eq_false_iff_not, Decidable.not_and_iff_not_or_not]

/-- The machine fails at one division that is not by zero. -/
theorem eq_of_not_divides (hb : b ≠ 0) (h : ¬divides a b = true) :
    a = Int64.minValue ∧ b = -1 :=
  Decidable.not_not.1 fun hleast => h (divides_iff.2 ⟨hb, hleast⟩)

theorem toInt_div_of_divides (h : divides a b = true) :
    (a / b).toInt = a.toInt.tdiv b.toInt := by
  obtain ⟨_, hleast⟩ := divides_iff.1 h
  by_cases ha : a = Int64.minValue
  · exact Int64.toInt_div_of_ne_right a b fun hb => hleast ⟨ha, hb⟩
  · exact Int64.toInt_div_of_ne_left a b ha

/-- The machine divides where there is a quotient and 64 bits hold it. -/
theorem divides_iff_fits :
    divides a b = true ↔ b ≠ 0 ∧ Fits (a.toInt.tdiv b.toInt) := by
  constructor
  · intro h
    rw [← toInt_div_of_divides h]
    exact ⟨(divides_iff.1 h).1, fits_toInt _⟩
  · rintro ⟨hb, hfits⟩
    refine divides_iff.2 ⟨hb, ?_⟩
    rintro ⟨rfl, rfl⟩
    revert hfits
    decide

theorem toInt_ne_zero_iff : a.toInt ≠ 0 ↔ a ≠ 0 := by
  rw [ne_eq, ← Int64.toInt_zero, Int64.toInt_inj]

theorem lt_zero_iff : a < 0 ↔ a.toInt < 0 := by
  rw [Int64.lt_iff_toInt_lt, Int64.toInt_zero]

/-- When a quotient is corrected. -/
theorem corrects_quotient_iff : (a % b ≠ 0 ∧ (a < 0) ≠ (b < 0)) ↔
    a.toInt.tmod b.toInt ≠ 0 ∧ ¬(a.toInt < 0 ↔ b.toInt < 0) := by
  rw [← toInt_ne_zero_iff, Int64.toInt_mod, ne_eq (a < 0), eq_iff_iff, lt_zero_iff, lt_zero_iff]

/-- A remainder is corrected with the quotient. -/
theorem corrects_remainder_iff (hb : b ≠ 0) : (a % b ≠ 0 ∧ (a % b < 0) ≠ (b < 0)) ↔
    a.toInt.tmod b.toInt ≠ 0 ∧ ¬(a.toInt < 0 ↔ b.toInt < 0) := by
  rw [← toInt_ne_zero_iff, Int64.toInt_mod, ne_eq (a % b < 0), eq_iff_iff, lt_zero_iff,
    lt_zero_iff, Int64.toInt_mod]
  refine and_congr_right fun hr => not_congr ?_
  rw [tmod_neg_iff (toInt_ne_zero_iff.2 hb) hr]

/-- A quotient that is corrected is far from the least integer: its divisor is at least two. -/
theorem fits_quotient_sub (h : divides a b = true) (hr : a.toInt.tmod b.toInt ≠ 0) :
    Fits ((a / b).toInt - 1) := by
  have hdivisor : 2 ≤ b.toInt.natAbs := by
    have hzero := toInt_ne_zero_iff.2 (divides_iff.1 h).1
    have hone : b.toInt.natAbs ≠ 1 := by
      intro hone
      rw [← Int.natAbs_ne_zero, Int.natAbs_tmod, hone, Nat.mod_one] at hr
      exact hr rfl
    omega
  have hquotient : (a.toInt.tdiv b.toInt).natAbs ≤ a.toInt.natAbs / 2 := by
    rw [Int.natAbs_tdiv]
    exact Nat.div_le_div_left hdivisor (by omega)
  have ha := fits_toInt a
  rw [toInt_div_of_divides h]
  rw [fits_iff] at ha ⊢
  omega

/-- A remainder that is corrected stays between itself and the divisor, which has the other sign. -/
theorem fits_remainder_add (hb : b ≠ 0) (hsigns : ¬(a.toInt < 0 ↔ b.toInt < 0)) :
    Fits ((a % b).toInt + b.toInt) := by
  have hbounds := tmod_bounds a.toInt (toInt_ne_zero_iff.2 hb)
  have hdivisor := fits_toInt b
  rw [Int64.toInt_mod]
  rw [fits_iff] at hdivisor ⊢
  omega

/-- **Where the machine divides, the quotient is the true one**, rounded down. -/
theorem floorDiv?_of_divides (h : divides a b = true) :
    ∃ q, floorDiv? a b = some q ∧ q.toInt = a.toInt.fdiv b.toInt := by
  have hb := toInt_ne_zero_iff.2 (divides_iff.1 h).1
  rw [floorDiv?, if_pos h]
  split
  · rename_i hcorrects
    obtain ⟨hr, hsigns⟩ := corrects_quotient_iff.1 hcorrects
    have hfits := fits_quotient_sub h hr
    refine ⟨a / b - 1, sub?_of_fits hfits, ?_⟩
    rw [(floorDivision_of_differ hb hr hsigns).fdiv_eq, ← toInt_div_of_divides h]
    exact toInt_eq_of_fits (Int64.toInt_sub _ _) hfits
  · rename_i hcorrects
    refine ⟨a / b, rfl, ?_⟩
    rw [(floorDivision_of_agree hb (mt corrects_quotient_iff.2 hcorrects)).fdiv_eq]
    exact toInt_div_of_divides h

/-- **Where the machine divides, the remainder is the true one.** -/
theorem floorMod?_of_divides (h : divides a b = true) :
    ∃ r, floorMod? a b = some r ∧ r.toInt = a.toInt.fmod b.toInt := by
  obtain ⟨hzero, _⟩ := divides_iff.1 h
  have hb := toInt_ne_zero_iff.2 hzero
  rw [floorMod?, if_pos h]
  dsimp only
  split
  · rename_i hcorrects
    obtain ⟨hr, hsigns⟩ := (corrects_remainder_iff hzero).1 hcorrects
    refine ⟨a % b + b, rfl, ?_⟩
    rw [(floorDivision_of_differ hb hr hsigns).fmod_eq, ← Int64.toInt_mod]
    exact toInt_eq_of_fits (Int64.toInt_add _ _) (fits_remainder_add hzero hsigns)
  · rename_i hcorrects
    refine ⟨a % b, rfl, ?_⟩
    rw [(floorDivision_of_agree hb (mt (corrects_remainder_iff hzero).2 hcorrects)).fmod_eq]
    exact Int64.toInt_mod a b

end Machine

/-! ## 4. Steps that may go wrong -/

/-- How a step of the machine goes wrong. -/
inductive StepFault
  | zeroDivisor
  | overflow

/-- A step of the machine, which goes wrong where 64 bits do not hold `n`. -/
def exactStep (n : Int) (result : Int64) : Except StepFault Int64 :=
  if Fits n then .ok result else .error .overflow

/-- The machine's remainder. It comes with the quotient, and goes wrong with it. -/
def remStep (a b : Int64) : Except StepFault Int64 :=
  if b = 0 then .error .zeroDivisor else exactStep (a.toInt.tdiv b.toInt) (a % b)

/-- `floorDiv?`, where the remainder and the difference may go wrong. -/
def floorDivSteps (a b : Int64) : Except StepFault (Option Int64) :=
  if divides a b then do
    let remainder ← remStep a b
    if remainder ≠ 0 ∧ (a < 0) ≠ (b < 0) then do
      let quotient ← exactStep ((a / b).toInt - 1) (a / b - 1)
      pure (some quotient)
    else pure (some (a / b))
  else pure none

/-- `floorMod?`, where the remainder and the sum may go wrong. -/
def floorModSteps (a b : Int64) : Except StepFault (Option Int64) :=
  if divides a b then do
    let remainder ← remStep a b
    if remainder ≠ 0 ∧ (remainder < 0) ≠ (b < 0) then do
      let corrected ← exactStep (remainder.toInt + b.toInt) (remainder + b)
      pure (some corrected)
    else pure (some remainder)
  else pure none

theorem exactStep_of_fits {n : Int} (h : Fits n) (result : Int64) :
    exactStep n result = .ok result :=
  if_pos h

/-- A quotient that the machine has comes with a remainder. -/
theorem remStep_of_divides {a b : Int64} (h : divides a b = true) : remStep a b = .ok (a % b) := by
  obtain ⟨hb, hfits⟩ := divides_iff_fits.1 h
  rw [remStep, if_neg hb, exactStep_of_fits hfits]

/-- **No step of the quotient goes wrong**, and the difference is there. -/
theorem floorDivSteps_eq (a b : Int64) : floorDivSteps a b = .ok (floorDiv? a b) := by
  unfold floorDivSteps floorDiv?
  by_cases h : divides a b = true
  · rw [if_pos h, if_pos h, remStep_of_divides h]
    change (if a % b ≠ 0 ∧ (a < 0) ≠ (b < 0) then _ else _) = _
    by_cases hcorrects : a % b ≠ 0 ∧ (a < 0) ≠ (b < 0)
    · have hfits := fits_quotient_sub h (corrects_quotient_iff.1 hcorrects).1
      rw [if_pos hcorrects, if_pos hcorrects, exactStep_of_fits hfits, sub?_of_fits hfits]
      rfl
    · rw [if_neg hcorrects, if_neg hcorrects]
      rfl
  · rw [if_neg h, if_neg h]
    rfl

/-- **No step of the remainder goes wrong.** -/
theorem floorModSteps_eq (a b : Int64) : floorModSteps a b = .ok (floorMod? a b) := by
  unfold floorModSteps floorMod?
  by_cases h : divides a b = true
  · obtain ⟨hb, _⟩ := divides_iff.1 h
    rw [if_pos h, if_pos h, remStep_of_divides h]
    change (if a % b ≠ 0 ∧ (a % b < 0) ≠ (b < 0) then _ else _) = _
    dsimp only
    by_cases hcorrects : a % b ≠ 0 ∧ (a % b < 0) ≠ (b < 0)
    · have hfits := fits_remainder_add hb ((corrects_remainder_iff hb).1 hcorrects).2
      rw [if_pos hcorrects, if_pos hcorrects, exactStep_of_fits hfits]
      rfl
    · rw [if_neg hcorrects, if_neg hcorrects]
      rfl
  · rw [if_neg h, if_neg h]
    rfl

end Arithmetic

/-! ## 5. The functions of the library -/

open Arithmetic (Fits ofInt? divides FloorDivision)

/-- A computation gives the integer `n` where 64 bits hold it, and the error of an overflow where they
do not. It changes nothing in the world. -/
structure Computes (m : EvalM Expr) (callee : String) (n : Int) : Prop where
  value : Fits n → ∃ value : Int64, value.toInt = n ∧
    ∀ world, m.run world = (.ok (.lit (.int value)), world)
  overflow : ¬Fits n → ∀ world, m.run world = (.error (.overflow callee), world)

/-- A result that is exact or missing is given so. -/
theorem Operation.computes_exactly (operation : Operation) {result : Option Int64} {n : Int}
    (h : result = ofInt? n) : Computes (operation.exactly result) operation.name n := by
  subst h
  constructor
  · intro hfits
    rw [ofInt?, if_pos hfits]
    obtain ⟨hlow, hhigh⟩ := Arithmetic.fits_iff.1 hfits
    exact ⟨Int64.ofInt n, Int64.toInt_ofInt_of_le hlow hhigh, fun _ => rfl⟩
  · intro hfits world
    rw [ofInt?, if_neg hfits]
    rfl

/-- An integer of 64 bits computes itself. -/
theorem Computes.integer (value : Int64) (callee : String) :
    Computes (pure (.lit (.int value))) callee value.toInt where
  value _ := ⟨value, rfl, fun _ => rfl⟩
  overflow hfits := absurd (Arithmetic.fits_toInt value) hfits

theorem Operation.dividing_integers (operation : Operation) (f : Int64 → Int64 → Option Int64)
    (a b : Int64) : operation.dividing (.lit (.int a)) (.lit (.int b)) f =
      if b = 0 then throw (.zeroDivisor operation.name) else operation.exactly (f a b) := rfl

/-- A division says that the divisor is zero exactly if it is. -/
theorem Operation.dividing_eq_zeroDivisor_iff (operation : Operation)
    (f : Int64 → Int64 → Option Int64) (a b : Int64) (world : World) :
    ((operation.dividing (.lit (.int a)) (.lit (.int b)) f).run world).1 =
      .error (.zeroDivisor operation.name) ↔ b = 0 := by
  rw [Operation.dividing_integers]
  by_cases hb : b = 0
  · rw [if_pos hb]
    exact iff_of_true rfl hb
  · rw [if_neg hb]
    refine iff_of_false ?_ hb
    cases f a b with
    | none => exact nofun
    | some value => exact nofun

namespace Library

/-- Calls the function of the library with the name on two integers. -/
def onPair (origin : Nat) (outlet : Outlet) (name : String) (a b : Int64) : EvalM Expr :=
  Definitions.call (definitions origin outlet) name [.lit (.int a), .lit (.int b)]

variable (origin : Nat) (outlet : Outlet) {a b : Int64}

theorem divide_eq : onPair origin outlet "divide" a b =
    if b = 0 then throw (.zeroDivisor "divide")
    else Operation.divide.exactly (Arithmetic.floorDiv? a b) :=
  Operation.divide.dividing_integers Arithmetic.floorDiv? a b

theorem modulo_eq : onPair origin outlet "modulo" a b =
    if b = 0 then throw (.zeroDivisor "modulo")
    else Operation.modulo.exactly (Arithmetic.floorMod? a b) :=
  Operation.modulo.dividing_integers Arithmetic.floorMod? a b

/-- `divide` gives the quotient of integers that the machine divides. -/
theorem divide_of_divides (h : divides a b = true) : ∃ q : Int64, q.toInt = a.toInt.fdiv b.toInt ∧
    onPair origin outlet "divide" a b = pure (.lit (.int q)) := by
  obtain ⟨q, hquotient, hq⟩ := Arithmetic.floorDiv?_of_divides h
  refine ⟨q, hq, ?_⟩
  rw [divide_eq, if_neg (Arithmetic.divides_iff.1 h).1, hquotient]
  rfl

/-- `modulo` gives the remainder of integers that the machine divides. -/
theorem modulo_of_divides (h : divides a b = true) : ∃ r : Int64, r.toInt = a.toInt.fmod b.toInt ∧
    onPair origin outlet "modulo" a b = pure (.lit (.int r)) := by
  obtain ⟨r, hremainder, hr⟩ := Arithmetic.floorMod?_of_divides h
  refine ⟨r, hr, ?_⟩
  rw [modulo_eq, if_neg (Arithmetic.divides_iff.1 h).1, hremainder]
  rfl

/-- A quotient is only given where the machine divides. -/
theorem divides_of_divide_eq_ok {world : World} {value : Expr}
    (h : ((onPair origin outlet "divide" a b).run world).1 = .ok value) : divides a b = true := by
  refine Decidable.byContradiction fun hnot => ?_
  rw [divide_eq, Arithmetic.floorDiv?, if_neg hnot] at h
  split at h
  · cases h
  · cases h

/-- **The quotient is the true one**, rounded down, or an overflow. -/
theorem computes_divide (hb : b ≠ 0) :
    Computes (onPair origin outlet "divide" a b) "divide" (a.toInt.fdiv b.toInt) := by
  by_cases h : divides a b = true
  · obtain ⟨q, hq, hquotient⟩ := divide_of_divides origin outlet h
    rw [hquotient, ← hq]
    exact .integer q "divide"
  · -- the quotient is the integer after the greatest one
    obtain ⟨rfl, rfl⟩ := Arithmetic.eq_of_not_divides hb h
    exact ⟨fun hfits => absurd hfits (by decide), fun _ _ => rfl⟩

end Library

/-- **Overflow is reported where it happens.** For all integers of 64 bits, the functions `plus`,
`minus` and `multiply` of the library give the exact sum, difference and product where 64 bits hold
it, and the error of an overflow where they do not. `divide` and `modulo` report a zero divisor
exactly if the divisor is zero. Otherwise `divide` gives the quotient rounded down, and `modulo` the
remainder that belongs to it, each with an overflow where 64 bits do not hold it; for `modulo` this
leaves out the one pair of integers whose quotient is no integer of 64 bits. -/
theorem library_arithmetic (origin : Nat) (outlet : Outlet) (a b : Int64) :
    Computes (Library.onPair origin outlet "plus" a b) "plus" (a.toInt + b.toInt) ∧
    Computes (Library.onPair origin outlet "minus" a b) "minus" (a.toInt - b.toInt) ∧
    Computes (Library.onPair origin outlet "multiply" a b) "multiply" (a.toInt * b.toInt) ∧
    (∀ name ∈ ["divide", "modulo"], ∀ world,
      ((Library.onPair origin outlet name a b).run world).1 = .error (.zeroDivisor name) ↔ b = 0) ∧
    (b ≠ 0 → FloorDivision a.toInt b.toInt (a.toInt.fdiv b.toInt) (a.toInt.fmod b.toInt) ∧
      Computes (Library.onPair origin outlet "divide" a b) "divide" (a.toInt.fdiv b.toInt)) ∧
    (b ≠ 0 → ¬(a = Int64.minValue ∧ b = -1) →
      Computes (Library.onPair origin outlet "modulo" a b) "modulo" (a.toInt.fmod b.toInt)) := by
  refine ⟨?_, ?_, ?_, ?_, ?_, ?_⟩
  · exact Operation.plus.computes_exactly (Arithmetic.add?_eq a b)
  · exact Operation.minus.computes_exactly (Arithmetic.sub?_eq a b)
  · exact Operation.multiply.computes_exactly (Arithmetic.mul?_eq a b)
  · intro name hname world
    simp only [List.mem_cons, List.not_mem_nil, or_false] at hname
    rcases hname with rfl | rfl
    · exact Operation.divide.dividing_eq_zeroDivisor_iff Arithmetic.floorDiv? a b world
    · exact Operation.modulo.dividing_eq_zeroDivisor_iff Arithmetic.floorMod? a b world
  · intro hb
    have hzero := Arithmetic.toInt_ne_zero_iff.2 hb
    exact ⟨Arithmetic.floorDivision_iff.2 ⟨hzero, rfl, rfl⟩,
      Library.computes_divide origin outlet hb⟩
  · intro hb hleast
    obtain ⟨r, hr, hremainder⟩ :=
      Library.modulo_of_divides origin outlet (Arithmetic.divides_iff.2 ⟨hb, hleast⟩)
    rw [hremainder, ← hr]
    exact .integer r "modulo"

/-- The least integer leaves no remainder when it is divided by minus one, but `modulo` reports an
overflow. -/
theorem modulo_least_overflows :
    Int64.minValue.toInt.fmod (-1 : Int64).toInt = 0 ∧ Fits 0 ∧
      (∀ world, (Library.onPair libraryOrigin .console "modulo" Int64.minValue (-1)).run world =
        (.error (.overflow "modulo"), world)) ∧
      ¬Computes (Library.onPair libraryOrigin .console "modulo" Int64.minValue (-1)) "modulo"
        (Int64.minValue.toInt.fmod (-1 : Int64).toInt) := by
  have hoverflow : ∀ world,
      (Library.onPair libraryOrigin .console "modulo" Int64.minValue (-1)).run world =
        (.error (.overflow "modulo"), world) := fun _ => rfl
  refine ⟨by decide, by decide, hoverflow, fun h => ?_⟩
  obtain ⟨value, _, hvalue⟩ := h.value (by decide)
  cases (hoverflow (World.initial .accepting 0)).symm.trans (hvalue _)

/-- **Division law.** Whenever `divide` gives a quotient, `modulo` gives the remainder that belongs to
it: the two make up the divided integer, and the remainder is smaller than the divisor and zero or of
its sign. A division by another integer than zero fails only for the least integer and minus one. On
the way to either result no step of the machine goes wrong: no remainder is taken of a division that
the machine does not have, and neither the sum nor the difference of a correction leaves 64 bits. -/
theorem division_law (origin : Nat) (outlet : Outlet) (a b : Int64) :
    (∀ world value, ((Library.onPair origin outlet "divide" a b).run world).1 = .ok value →
      ∃ q r : Int64, value = .lit (.int q) ∧
        ((Library.onPair origin outlet "modulo" a b).run world).1 = .ok (.lit (.int r)) ∧
        FloorDivision a.toInt b.toInt q.toInt r.toInt) ∧
    (b ≠ 0 → ∀ world error,
      ((Library.onPair origin outlet "divide" a b).run world).1 = .error error →
        a = Int64.minValue ∧ b = -1) ∧
    Arithmetic.floorDivSteps a b = .ok (Arithmetic.floorDiv? a b) ∧
    Arithmetic.floorModSteps a b = .ok (Arithmetic.floorMod? a b) := by
  refine ⟨fun world value hvalue => ?_, fun hb world error herror => ?_,
    Arithmetic.floorDivSteps_eq a b, Arithmetic.floorModSteps_eq a b⟩
  · have h := Library.divides_of_divide_eq_ok origin outlet hvalue
    have hzero := Arithmetic.toInt_ne_zero_iff.2 (Arithmetic.divides_iff.1 h).1
    obtain ⟨q, hq, hquotient⟩ := Library.divide_of_divides origin outlet h
    obtain ⟨r, hr, hremainder⟩ := Library.modulo_of_divides origin outlet h
    rw [hquotient] at hvalue
    cases hvalue
    refine ⟨q, r, rfl, ?_, Arithmetic.floorDivision_iff.2 ⟨hzero, hq.symm, hr.symm⟩⟩
    rw [hremainder]
    rfl
  · refine Arithmetic.eq_of_not_divides hb fun h => ?_
    obtain ⟨q, _, hquotient⟩ := Library.divide_of_divides origin outlet h
    rw [hquotient] at herror
    cases herror

end Offside
