import Offside.Definition.Basic
import Offside.Grammar.Expr
import Offside.Grammar.Ty

/-!
# Reading the head of a definition

    header  =  ":" type { Name ":" type } "=" expression

The name of the definition stands before the header, and its nested definitions, if it has any,
stand after it. A header without parameters is that of a constant.
-/

namespace Offside

/-- A definition without its name and its nested definitions. -/
structure Header where
  /-- the type of the constant, or of the function's result -/
  ty : Ty
  params : List (String × Ty)
  body : Expr

namespace Header

/-- The names of the parameters. -/
def names (header : Header) : List String :=
  header.params.map (·.1)

/-- The definition that the header makes with the definitions nested in it. -/
def close (header : Header) (nested : Definitions) : Definition :=
  if header.params.isEmpty then .constant header.ty header.body nested
  else .function (.func (header.params.map (·.2)) header.ty) header.names header.body nested

/-- Reads the parameters of the definition of `owner` and the `=` after them; `params` have been
read already. -/
def parseParams (stop : Span) (owner : String) (params : List (String × Ty))
    (tokens : List Lexeme) : Reading (List (String × Ty)) :=
  match tokens with
  | [] => (.error ⟨stop, .missingBody owner⟩, [])
  | ⟨.assign, _⟩ :: rest => (.ok params, rest)
  | ⟨.name name, span⟩ :: rest =>
    if name ∈ params.map (·.1) then (.error ⟨span, .duplicate name⟩, rest)
    else
      match _h : Ty.parseAscription stop .afterParameter rest with
      | (.error error, rest) => (.error error, rest)
      | (.ok ty, rest) => parseParams stop owner (params ++ [(name, ty)]) rest
  | ⟨found, span⟩ :: _ => (.error ⟨span, .notAParameter owner found⟩, tokens)
termination_by tokens.length
decreasing_by
  have := Ty.length_parseAscription _h
  simp only [List.length_cons]
  omega

theorem length_parseParams {stop : Span} {owner : String} {params result : List (String × Ty)}
    {tokens rest : List Lexeme}
    (h : parseParams stop owner params tokens = (.ok result, rest)) :
    rest.length < tokens.length := by
  fun_induction parseParams stop owner params tokens with
  | case1 => simp at h
  | case2 =>
    cases h
    simp
  | case3 => simp at h
  | case4 => simp at h
  | case5 params name span tail _ ty mid hm ih =>
    have := Ty.length_parseAscription hm
    have := ih h
    simp only [List.length_cons]
    omega
  | case6 => simp at h

/-- Reads the header of the definition of `owner`. A parenthesis after the body closes nothing. -/
def parse (stop : Span) (owner : String) (tokens : List Lexeme) : Reading Header :=
  (Ty.parseAscription stop .afterDefinedName tokens).andThen fun ty rest =>
  (parseParams stop owner [] rest).andThen fun params rest =>
  (Expr.parse stop rest).andThen fun body rest =>
  match rest with
  | ⟨.rparen, span⟩ :: _ => (.error ⟨span, .strayParen⟩, rest)
  | _ => (.ok ⟨ty, params, body⟩, rest)

theorem length_parse {stop : Span} {owner : String} {header : Header} {tokens rest : List Lexeme}
    (h : parse stop owner tokens = (.ok header, rest)) : rest.length < tokens.length := by
  obtain ⟨ty, mid₁, h₁, h⟩ := Reading.andThen_eq_ok_iff.1 h
  obtain ⟨params, mid₂, h₂, h⟩ := Reading.andThen_eq_ok_iff.1 h
  obtain ⟨body, mid₃, h₃, h⟩ := Reading.andThen_eq_ok_iff.1 h
  have := Ty.length_parseAscription h₁
  have := length_parseParams h₂
  have := Expr.length_parse h₃
  split at h
  · simp at h
  · cases h
    omega

end Header

end Offside
