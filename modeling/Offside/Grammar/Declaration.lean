import Offside.Definition.Struct
import Offside.Grammar.Ty

/-!
# Reading declarations of types

    declaration  =  ":=" ( "struct" Name ":" type { Name ":" type }
                         |  "union" Name { "|" Name } )

The declared name stands before the declaration. The fields of a struct are distinct; an option of
a union may be repeated, and counts once.

* `Declaration` -- the fields of a struct, or the options of a union;
* `Declared` -- the types and unions declared so far;
* `Declared.read`, `Declared.add` -- reads one more declaration, and takes it in.
-/

namespace Offside

/-- What a declared name stands for. -/
inductive Declaration
  | struct (fields : List (String × Ty))
  | union (options : List String)

namespace Declaration

/-- The definitions that come with a declaration of `name`. -/
def definitions (origin : Nat) (name : String) : Declaration → List (String × Definition)
  | struct fields => Definition.ofStruct origin name fields
  | union _ => []

/-- Reads fields up to a token that ends them; `fields` have been read already. -/
def parseFields (stop : Span) (fields : List (String × Ty)) (tokens : List Lexeme) :
    Reading (List (String × Ty)) :=
  match tokens with
  | [] => (.ok fields, [])
  | ⟨.name name, span⟩ :: rest =>
    if name ∈ fields.map (·.1) then (.error ⟨span, .duplicate name⟩, rest)
    else
      match _h : Ty.parseAscription stop .afterField rest with
      | (.error error, rest) => (.error error, rest)
      | (.ok ty, rest) => parseFields stop (fields ++ [(name, ty)]) rest
  | ⟨found, span⟩ :: rest =>
    if found.endsExpression then (.ok fields, tokens)
    else (.error ⟨span, .notAName found .inStruct⟩, rest)
termination_by tokens.length
decreasing_by
  have := Ty.length_parseAscription _h
  simp only [List.length_cons]
  omega

theorem length_parseFields {stop : Span} {fields result : List (String × Ty)}
    {tokens rest : List Lexeme} (h : parseFields stop fields tokens = (.ok result, rest)) :
    rest.length ≤ tokens.length := by
  fun_induction parseFields stop fields tokens with
  | case1 =>
    cases h
    exact Nat.le_refl _
  | case2 => simp at h
  | case3 => simp at h
  | case4 fields name span tail _ ty mid hm ih =>
    have := Ty.length_parseAscription hm
    have := ih h
    simp only [List.length_cons]
    omega
  | case5 =>
    cases h
    exact Nat.le_refl _
  | case6 => simp at h

/-- Reads options up to a token that ends them, starting with an option; `options` have been read
already. -/
def parseOptions (stop : Span) (options : List String) : List Lexeme → Reading (List String)
  | [] => (.error ⟨stop, .endOfInput .name⟩, [])
  | ⟨.name name, _⟩ :: rest =>
    let options := if name ∈ options then options else options ++ [name]
    match rest with
    | [] => (.ok options, [])
    | ⟨.bar, _⟩ :: rest => parseOptions stop options rest
    | ⟨found, span⟩ :: after =>
      if found.endsExpression then (.ok options, rest)
      else (.error ⟨span, .notAnOption found⟩, after)
  | ⟨found, span⟩ :: rest => (.error ⟨span, .notAName found .inUnion⟩, rest)

theorem length_parseOptions {stop : Span} {options result : List String}
    {tokens rest : List Lexeme} (h : parseOptions stop options tokens = (.ok result, rest)) :
    rest.length ≤ tokens.length := by
  fun_induction parseOptions stop options tokens with
  | case1 => simp at h
  | case2 =>
    rw [← (Prod.mk.inj h).2]
    simp
  | case3 _ _ _ _ _ _ ih =>
    have := ih h
    simp only [List.length_cons]
    omega
  | case4 =>
    rw [← (Prod.mk.inj h).2]
    simp
  | case5 => simp at h
  | case6 => simp at h

/-- Reads what `name` is declared as. -/
def parse (stop : Span) (name : String) : List Lexeme → Reading Declaration
  | [] => (.error ⟨stop, .endOfInput .declaration⟩, [])
  | ⟨.structWord, word⟩ :: rest =>
    (parseFields stop [] rest).andThen fun fields rest =>
      if fields.isEmpty then (.error ⟨word, .emptyStruct name⟩, rest)
      else (.ok (.struct fields), rest)
  | ⟨.unionWord, _⟩ :: rest =>
    (parseOptions stop [] rest).andThen fun options rest => (.ok (.union options), rest)
  | ⟨found, span⟩ :: rest => (.error ⟨span, .unknownDeclaration found⟩, rest)

theorem length_parse {stop : Span} {name : String} {declaration : Declaration}
    {tokens rest : List Lexeme} (h : parse stop name tokens = (.ok declaration, rest)) :
    rest.length < tokens.length := by
  match tokens with
  | [] => simp [parse] at h
  | ⟨token, span⟩ :: tail =>
    rw [parse.eq_def] at h
    split at h
    · simp at h
    · rename_i eq
      cases eq
      obtain ⟨fields, mid, h₁, h₂⟩ := Reading.andThen_eq_ok_iff.1 h
      have := length_parseFields h₁
      split at h₂
      · simp at h₂
      · cases h₂
        simp only [List.length_cons]
        omega
    · rename_i eq
      cases eq
      obtain ⟨options, mid, h₁, h₂⟩ := Reading.andThen_eq_ok_iff.1 h
      have := length_parseOptions h₁
      cases h₂
      simp only [List.length_cons]
      omega
    · simp at h

end Declaration

/-- The types and unions that have been declared. -/
structure Declared where
  types : Table Ty
  aliases : Aliases

namespace Declared

/-- Nothing is declared. -/
def empty : Declared := ⟨[], []⟩

/-- Takes a declaration in. -/
def add (declared : Declared) (name : String) : Declaration → Declared
  | .struct fields => { declared with types := Table.insert declared.types name (.struct fields) }
  | .union options =>
    { types := Table.insert declared.types name (.union (options.map .named))
      aliases := Table.insert declared.aliases name (NameSet.ofList options) }

/-- Reads the declaration of `name`, which stands at `span` and must not be declared yet. -/
def read (declared : Declared) (stop : Span) (name : String) (span : Span)
    (tokens : List Lexeme) : Reading Declaration :=
  (expect stop .colonEqual .inDeclaration tokens).andThen fun _ rest =>
    if Table.contains declared.types name then (.error ⟨span, .duplicate name⟩, rest)
    else Declaration.parse stop name rest

theorem length_read {declared : Declared} {stop : Span} {name : String} {span : Span}
    {declaration : Declaration} {tokens rest : List Lexeme}
    (h : declared.read stop name span tokens = (.ok declaration, rest)) :
    rest.length < tokens.length := by
  obtain ⟨_, mid, h₁, h₂⟩ := Reading.andThen_eq_ok_iff.1 h
  have := length_expect h₁
  split at h₂
  · simp at h₂
  · have := Declaration.length_parse h₂
    omega

end Declared

end Offside
