import Offside.Run

/-!
# Texts as lists of characters

Layout and tokens are read character by character, and between the two stages the text is only
packed into a string and unpacked again. `compileChars` leaves that out; it is the same as `compile`
(`compile_ofList`) and the form in which a text is taken apart in proofs, and in which what becomes of
one text can be evaluated (`exists_of_compiles`).
-/

namespace Offside

/-- The program of a text that is given by its characters. -/
def compileChars (origin : Nat) (source : List Char) : Except Error Program := do
  let rows ← (Layout.readRows 1 ((Text.pieces '\n' source).map Layout.withoutReturn)).mapError
    .layout
  let tokens ← (Lexer.scan ⟨0, none⟩ (Layout.write 0 rows)).mapError .lex
  (Program.ofTokens origin tokens).mapError .parse

theorem compile_ofList (origin : Nat) (source : List Char) :
    compile origin (String.ofList source) = compileChars origin source := by
  rw [compile, compileChars, Layout.mark, Layout.lines, String.toList_ofList]
  cases Layout.readRows 1 ((Text.pieces '\n' source).map Layout.withoutReturn) with
  | error error => rfl
  | ok rows =>
      change ((Token.read (String.ofList (Layout.write 0 rows))).mapError Error.lex >>= _) = _
      rw [Token.read, String.toList_ofList]
      rfl

/-- Whether a text that is given by its characters has a program, and one with the property. -/
def compiles (origin : Nat) (source : List Char) (p : Program → Bool) : Bool :=
  match compileChars origin source with
  | .error _ => false
  | .ok program => p program

theorem exists_of_compiles {text : String} {source : List Char}
    (htext : text = String.ofList source) {origin : Nat} {p : Program → Bool}
    (h : compiles origin source p = true) :
    ∃ program, compile origin text = .ok program ∧ p program = true := by
  rw [htext, compile_ofList]
  rw [compiles] at h
  split at h
  · cases h
  · exact ⟨_, ‹_›, h⟩

/-- Whether a text that is given by its characters has an expression, and one with the property. -/
def compilesExpr (source : List Char) (p : Expr → Bool) : Bool :=
  match Lexer.scan ⟨0, none⟩ source with
  | .error _ => false
  | .ok lexemes =>
    match Expr.ofTokens lexemes with
    | .error _ => false
    | .ok expr => p expr

theorem exists_of_compilesExpr {text : String} {source : List Char}
    (htext : text = String.ofList source) {p : Expr → Bool} (h : compilesExpr source p = true) :
    ∃ expr, compileExpr text = .ok expr ∧ p expr = true := by
  rw [htext, compileExpr, Token.read, String.toList_ofList]
  rw [compilesExpr] at h
  split at h
  · cases h
  · rename_i lexemes hlexemes
    split at h
    · cases h
    · rename_i expr hexpr
      refine ⟨expr, ?_, h⟩
      rw [hlexemes]
      exact congrArg (Except.mapError Error.parse) hexpr

/-- Whether a text that is given by its characters has a type after so many lexemes, and one with the
property. -/
def readsTy (source : List Char) (skip : Nat) (p : Ty → Bool) : Bool :=
  match Lexer.scan ⟨0, none⟩ source with
  | .error _ => false
  | .ok lexemes =>
    match Ty.parse (endSpan lexemes) (lexemes.drop skip) with
    | (.error _, _) => false
    | (.ok ty, _) => p ty

theorem exists_of_readsTy {text : String} {source : List Char}
    (htext : text = String.ofList source) {skip : Nat} {p : Ty → Bool}
    (h : readsTy source skip p = true) :
    ∃ before tokens after stop ty, Token.read text = .ok (before ++ tokens) ∧
      Ty.parse stop tokens = (.ok ty, after) ∧ p ty = true := by
  rw [htext, Token.read, String.toList_ofList]
  rw [readsTy] at h
  split at h
  · cases h
  · rename_i lexemes hlexemes
    split at h
    · cases h
    · rename_i ty after hty
      refine ⟨lexemes.take skip, lexemes.drop skip, after, _, ty, ?_, hty, h⟩
      rw [List.take_append_drop, hlexemes]

/-- Lexemes with the tokens; where they stand does not matter. -/
def lexemesOf (tokens : List Token) : List Lexeme :=
  tokens.map (⟨·, 0, 0⟩)

/-- Whether lexemes are read as a program, and as one with the property. -/
def reads (origin : Nat) (lexemes : List Lexeme) (p : Program → Bool) : Bool :=
  match Program.ofTokens origin lexemes with
  | .error _ => false
  | .ok program => p program

theorem exists_of_reads {origin : Nat} {lexemes : List Lexeme} {p : Program → Bool}
    (h : reads origin lexemes p = true) :
    ∃ program, Program.ofTokens origin lexemes = .ok program ∧ p program = true := by
  rw [reads] at h
  split at h
  · cases h
  · exact ⟨_, ‹_›, h⟩

/-- The error that a run of the program ends in, if it fails. -/
def Program.fault? (program : Program) (limit : Nat) (world : World) : Option EvalError :=
  match ((program.interpret (Library.definitions libraryOrigin .console) limit).run world).1 with
  | .ok _ => none
  | .error error => some error

theorem Program.run_of_fault? {program : Program} {limit : Nat} {world : World} {error : EvalError}
    (h : program.fault? limit world = some error) :
    ((program.interpret (Library.definitions libraryOrigin .console) limit).run world).1 =
      .error error := by
  rw [Program.fault?] at h
  split at h
  · cases h
  · cases h
    assumption

end Offside
