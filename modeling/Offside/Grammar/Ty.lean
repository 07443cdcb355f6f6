import Offside.Grammar.Reading
import Offside.Ty.Basic

/-!
# Reading types

    type  =  Name  |  "(" [ type { "," type } ] "->" type ")"

The function types whose closing parenthesis is still to come are kept on a stack. `Ty.shift` reads
where a type has to start, and `Ty.reduce` goes on after a complete one; each step takes a token.
-/

namespace Offside

namespace Ty

/-- A function type that is being read. -/
structure Unfinished where
  /-- its opening parenthesis -/
  paren : Span
  /-- the parameters read so far -/
  params : List Ty
  /-- whether its arrow has been read, so that its result comes next -/
  arrow : Bool

mutual

/-- Reads a type inside the function types of `stack`, innermost first. -/
def shift (stop : Span) (stack : List Unfinished) : List Lexeme → Reading Ty
  | [] => (.error ⟨stop, .endOfInput .type⟩, [])
  | ⟨.name name, _⟩ :: rest => reduce stop (named name) stack rest
  | ⟨.lparen, paren⟩ :: ⟨.arrow, _⟩ :: rest => shift stop (⟨paren, [], true⟩ :: stack) rest
  | ⟨.lparen, paren⟩ :: rest => shift stop (⟨paren, [], false⟩ :: stack) rest
  | ⟨found, span⟩ :: rest => (.error ⟨span, .notAType found⟩, rest)

/-- Goes on after `ty` has been read inside the function types of `stack`. -/
def reduce (stop : Span) (ty : Ty) (stack : List Unfinished) (tokens : List Lexeme) : Reading Ty :=
  match stack, tokens with
  | [], tokens => (.ok ty, tokens)
  | ⟨paren, _, false⟩ :: _, [] => (.error ⟨paren, .openFunctionType⟩, [])
  | ⟨paren, _, true⟩ :: _, [] => (.error ⟨paren, .openResult⟩, [])
  | ⟨paren, params, false⟩ :: outer, ⟨found, span⟩ :: rest =>
    if found = .comma then shift stop (⟨paren, params ++ [ty], false⟩ :: outer) rest
    else if found = .arrow then shift stop (⟨paren, params ++ [ty], true⟩ :: outer) rest
    else (.error ⟨span, .missingArrow found⟩, rest)
  | ⟨_, params, true⟩ :: outer, ⟨found, span⟩ :: rest =>
    if found = .rparen then reduce stop (func params ty) outer rest
    else (.error ⟨span, .unclosedFunctionType found⟩, rest)

end

/-- Reads a type. -/
def parse (stop : Span) (tokens : List Lexeme) : Reading Ty :=
  shift stop [] tokens

/-! ## Reading a type uses tokens up -/

mutual

theorem length_shift {stop : Span} {ty : Ty} {rest : List Lexeme} :
    ∀ (tokens : List Lexeme) (stack : List Unfinished),
      shift stop stack tokens = (.ok ty, rest) → rest.length < tokens.length
  | [], _, h => by simp [shift] at h
  | ⟨token, span⟩ :: tail, stack, h => by
    rw [shift.eq_def] at h
    split at h
    · simp at h
    · rename_i eq
      cases eq
      have := length_reduce _ _ _ h
      simp only [List.length_cons]
      omega
    · rename_i eq
      cases eq
      have := length_shift _ _ h
      simp only [List.length_cons]
      omega
    · rename_i eq
      cases eq
      have := length_shift _ _ h
      simp only [List.length_cons]
      omega
    · simp at h

theorem length_reduce {stop : Span} {ty : Ty} {rest : List Lexeme} :
    ∀ (tokens : List Lexeme) (stack : List Unfinished) (done : Ty),
      reduce stop done stack tokens = (.ok ty, rest) → rest.length ≤ tokens.length
  | tokens, stack, done, h => by
    rw [reduce.eq_def] at h
    split at h
    · cases h
      exact Nat.le_refl _
    · simp at h
    · simp at h
    · split at h
      · have := length_shift _ _ h
        simp only [List.length_cons]
        omega
      · split at h
        · have := length_shift _ _ h
          simp only [List.length_cons]
          omega
        · simp at h
    · split at h
      · have := length_reduce _ _ _ h
        simp only [List.length_cons]
        omega
      · simp at h

end

theorem length_parse {stop : Span} {ty : Ty} {tokens rest : List Lexeme}
    (h : parse stop tokens = (.ok ty, rest)) : rest.length < tokens.length :=
  length_shift tokens [] h

/-- Reads a colon and a type after it. -/
def parseAscription (stop : Span) (place : Place) (tokens : List Lexeme) : Reading Ty :=
  (expect stop .colon place tokens).andThen fun _ rest => parse stop rest

theorem length_parseAscription {stop : Span} {place : Place} {ty : Ty}
    {tokens rest : List Lexeme} (h : parseAscription stop place tokens = (.ok ty, rest)) :
    rest.length < tokens.length := by
  obtain ⟨_, mid, h₁, h₂⟩ := Reading.andThen_eq_ok_iff.1 h
  have := length_expect h₁
  have := length_parse h₂
  omega

end Ty

end Offside
