import Offside.Text.Decimal

/-!
# Painted words

Labels and notes of reports set single words in bold and in a colour, by the control sequences of
terminals.
-/

namespace Offside.Text

/-- The colours that reports use. -/
inductive Colour
  | red
  | yellow
  | blue
  | rgb (r g b : Nat)
  deriving DecidableEq

namespace Colour

/-- The parameter of the control sequence that selects the colour. -/
def code : Colour → String
  | red => "31"
  | yellow => "33"
  | blue => "34"
  | rgb r g b =>
    "38;2;" ++ Decimal.ofNat r ++ ";" ++ Decimal.ofNat g ++ ";" ++ Decimal.ofNat b

/-- A word in bold and in the colour. -/
def bold (colour : Colour) (word : String) : String :=
  "\x1b[1m\x1b[" ++ colour.code ++ "m" ++ word ++ "\x1b[0m\x1b[0m"

end Colour

end Offside.Text
