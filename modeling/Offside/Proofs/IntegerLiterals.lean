import Mathlib.Data.Nat.Digits.Defs
import Offside.Proofs.Spacing
import Offside.Run

/-!
# Integer literals

A run of digits is one literal, whatever its length: the word goes on as long as digits follow, and
only where it ends is its value compared with the largest integer.

* `Text.Decimal.placeValue` -- the number that a run of digits stands for, each digit by its place;
* `Text.Decimal.value_eq_placeValue` -- the reader, which takes the digits from the left, finds it;
* `Token.read_digits` -- what is read of a text of digits: an integer, or an error about all of them;
* `Token.read_ofInt` -- the numeral of an integer is read as this integer.

`integer_literals` says this of all texts of digits, and of what the library's `intToStr` gives.
-/

namespace Offside

/-! ## 1. The value of digits -/

namespace Text.Decimal

/-- The number that digits stand for: the last one counts once, the one before it ten times, and so
on. -/
def placeValue (digits : List Char) : Nat :=
  Nat.ofDigits 10 (digits.reverse.map fun c => c.toNat - '0'.toNat)

theorem value_concat (digits : List Char) (c : Char) :
    value (digits ++ [c]) = 10 * value digits + (c.toNat - 48) := by
  rw [value, List.foldl_append]
  rfl

theorem placeValue_concat (digits : List Char) (c : Char) :
    placeValue (digits ++ [c]) = c.toNat - 48 + 10 * placeValue digits := by
  rw [placeValue, List.reverse_concat, List.map_cons, Nat.ofDigits_cons]
  rfl

/-- **The digits taken from the left have the value that their places give them.** -/
theorem value_eq_placeValue (digits : List Char) : value digits = placeValue digits := by
  induction digits using List.reverseRecOn with
  | nil => rfl
  | append_singleton digits c ih =>
      rw [value_concat, placeValue_concat, ih, Nat.add_comm]

end Text.Decimal

/-! ## 2. Texts of digits -/

namespace Token

/-- **What is read of digits**: their value if it is an integer of 64 bits, else an error about all of
them. -/
theorem read_digits {digits : List Char} (hne : digits ≠ [])
    (hdigits : ∀ c ∈ digits, c.isDigit = true) :
    read (String.ofList digits) =
      if Text.Decimal.placeValue digits ≤ Pending.maxInteger then
        .ok [⟨.int (Int64.ofNat (Text.Decimal.placeValue digits)), ⟨0, Text.size digits⟩⟩]
      else .error ⟨String.ofList digits, ⟨0, Text.size digits⟩⟩ := by
  obtain ⟨c, rest, rfl⟩ := List.exists_cons_of_ne_nil hne
  obtain ⟨hc, hrest⟩ := List.forall_mem_cons.1 hdigits
  -- one word to the end of the text, which nothing follows
  have hscan := (Pending.Spells.number hc rest hrest).scan 0 []
  rw [List.append_nil, Nat.zero_add] at hscan
  rw [read, String.toList_ofList, hscan, Lexer.scan, Lexer.finish]
  dsimp only
  rw [Pending.finish]
  dsimp only
  rw [List.reverse_reverse, Text.Decimal.value_eq_placeValue]
  split <;> rfl

/-- The numeral of an integer that is not negative is read as the integer. -/
theorem read_ofInt {n : Int64} (h : 0 ≤ n) :
    read (Text.Decimal.ofInt n.toInt) =
      .ok [⟨.int n, ⟨0, (Text.Decimal.ofInt n.toInt).utf8ByteSize⟩⟩] := by
  have hnonneg : ¬n.toInt < 0 := Int.not_lt.2 (Int64.le_iff_toInt_le.1 h)
  have hnat : n.toInt.natAbs = n.toNatClampNeg :=
    (Int.toNat_of_nonneg (Int.not_lt.1 hnonneg)).symm ▸ rfl
  have hvalue : Text.Decimal.placeValue (Text.Decimal.digits n.toNatClampNeg) = n.toNatClampNeg := by
    rw [← Text.Decimal.value_eq_placeValue, Text.Decimal.value_digits]
  have hmax : n.toNatClampNeg ≤ Pending.maxInteger := Nat.le_of_lt_succ n.toNatClampNeg_lt
  rw [Text.Decimal.ofInt, if_neg hnonneg, hnat, Text.Decimal.ofNat,
    read_digits (Text.Decimal.digits_ne_nil _) (Text.Decimal.isDigit_of_mem_digits _), hvalue,
    if_pos hmax, Int64.ofNat_toNatClampNeg n h, ← Text.size_toList, String.toList_ofList]

end Token

/-! ## 3. The literals of the language -/

/-- The library's function `intToStr` on an integer. -/
def Library.intToStr (origin : Nat) (outlet : Outlet) (n : Int64) : EvalM Expr :=
  Definitions.call (definitions origin outlet) "intToStr" [.lit (.int n)]

/-- **Integer literals.** A text of decimal digits, at least one and any number of them, with whatever
zeros in front, is read as one token, the integer that the digits stand for, if this is at most
2^63 - 1. If it is greater, reading fails, and the error is about all the digits. For every integer of
64 bits that is not negative, `intToStr` gives a text that is read as exactly this integer. -/
theorem integer_literals (origin : Nat) (outlet : Outlet) :
    (∀ source : String, source ≠ "" → (∀ c ∈ source.toList, c.isDigit = true) →
      (Text.Decimal.placeValue source.toList ≤ 2 ^ 63 - 1 →
        ∃ n : Int64, n.toInt = Text.Decimal.placeValue source.toList ∧
          Token.read source = .ok [⟨.int n, ⟨0, source.utf8ByteSize⟩⟩]) ∧
      (2 ^ 63 - 1 < Text.Decimal.placeValue source.toList →
        Token.read source = .error ⟨source, ⟨0, source.utf8ByteSize⟩⟩)) ∧
    ∀ n : Int64, 0 ≤ n → ∃ text : String,
      (∀ world, (Library.intToStr origin outlet n).run world = (.ok (.lit (.str text)), world)) ∧
      Token.read text = .ok [⟨.int n, ⟨0, text.utf8ByteSize⟩⟩] := by
  refine ⟨fun source hne hdigits => ?_, fun n hn => ⟨_, fun _ => rfl, Token.read_ofInt hn⟩⟩
  have hread := Token.read_digits (mt String.toList_eq_nil_iff.1 hne) hdigits
  rw [String.ofList_toList, Text.size_toList] at hread
  constructor
  · intro hle
    refine ⟨Int64.ofNat (Text.Decimal.placeValue source.toList), ?_, ?_⟩
    · exact Int64.toInt_ofNat_of_lt (Nat.lt_succ_of_le hle)
    · exact hread.trans (if_pos hle)
  · intro hlt
    exact hread.trans (if_neg (Nat.not_le.2 hlt))

/-- The greatest literal with zeros in front of it, the number after it, and the greatest integer as
`intToStr` writes it. -/
theorem integer_literals_cutoff :
    (∃ n : Int64, n.toInt = 9223372036854775807 ∧
      Token.read "0009223372036854775807" = .ok [⟨.int n, ⟨0, 22⟩⟩]) ∧
    Token.read "0009223372036854775808" = .error ⟨"0009223372036854775808", ⟨0, 22⟩⟩ ∧
    ∃ text, (∀ world, (Library.intToStr libraryOrigin .console Int64.maxValue).run world =
        (.ok (.lit (.str text)), world)) ∧
      Token.read text = .ok [⟨.int Int64.maxValue, ⟨0, text.utf8ByteSize⟩⟩] := by
  obtain ⟨hread, hwritten⟩ := integer_literals libraryOrigin .console
  have hgreatest := hread "0009223372036854775807" (by decide) (List.all_eq_true.1 (by decide))
  have hnext := hread "0009223372036854775808" (by decide) (List.all_eq_true.1 (by decide))
  refine ⟨?_, hnext.2 (by decide +kernel), hwritten Int64.maxValue (by decide)⟩
  obtain ⟨n, hn, hlexed⟩ := hgreatest.1 (by decide +kernel)
  exact ⟨n, hn, hlexed⟩

end Offside
