import Offside.Grammar.Error

/-!
# Readings

A reader takes tokens from the front of a list. Its answer, a `Reading`, is what it read or why it
could not, together with the tokens that it left; the tokens before those are used up in either
case.
-/

namespace Offside

/-- What was read, or the error, and the tokens left. -/
abbrev Reading (α : Type) := Except ParseError α × List Lexeme

namespace Reading

variable {α β : Type}

/-- Goes on with what was read; an error ends the reading with the tokens left there. -/
def andThen (reading : Reading α) (next : α → List Lexeme → Reading β) : Reading β :=
  match reading with
  | (.ok value, rest) => next value rest
  | (.error error, rest) => (.error error, rest)

theorem andThen_eq_ok_iff {reading : Reading α} {next : α → List Lexeme → Reading β} {b : β}
    {rest : List Lexeme} :
    reading.andThen next = (.ok b, rest) ↔
      ∃ a mid, reading = (.ok a, mid) ∧ next a mid = (.ok b, rest) := by
  obtain ⟨outcome, mid⟩ := reading
  cases outcome with
  | error error => simp [andThen]
  | ok a =>
    constructor
    · exact fun h => ⟨a, mid, rfl, h⟩
    · rintro ⟨_, _, h, h'⟩
      cases h
      exact h'

end Reading

/-- The empty span after the last token, or at the start if there is none. -/
def endSpan (tokens : List Lexeme) : Span :=
  match tokens.getLast? with
  | some last => ⟨last.span.stop, last.span.stop⟩
  | none => ⟨0, 0⟩

/-- Reads one particular token. `stop` is the end of the input. -/
def expect (stop : Span) (wanted : Token) (place : Place) : List Lexeme → Reading Span
  | [] => (.error ⟨stop, .endOfInput (.token wanted)⟩, [])
  | ⟨found, span⟩ :: rest =>
    if found = wanted then (.ok span, rest)
    else (.error ⟨span, .unexpected wanted found place⟩, rest)

theorem length_expect {stop : Span} {wanted : Token} {place : Place} {tokens rest : List Lexeme}
    {span : Span} (h : expect stop wanted place tokens = (.ok span, rest)) :
    rest.length < tokens.length := by
  match tokens with
  | [] => simp [expect] at h
  | ⟨found, at_⟩ :: tail =>
    rw [expect] at h
    split at h
    · cases h
      simp
    · simp at h

/-- The tokens after any statement terminators. -/
def skipTerminators : List Lexeme → List Lexeme
  | ⟨.semicolon, _⟩ :: rest => skipTerminators rest
  | tokens => tokens

theorem length_skipTerminators (tokens : List Lexeme) :
    (skipTerminators tokens).length ≤ tokens.length := by
  fun_induction skipTerminators tokens with
  | case1 _ rest ih =>
    simp only [List.length_cons]
    omega
  | case2 => exact Nat.le_refl _

end Offside
