import Offside.Grammar.Declaration
import Offside.Grammar.Header

/-!
# Reading scopes and programs

    scope    =  { ";" | item }
    item     =  Name header [ "{" scope "}" ]  |  Name declaration

The terminators between the header of a definition and its nested scope belong to the definition.
Types are declared in the outermost scope only. A scope has each name once, and the scope of a
function none of the function's parameters.

* `Nesting` -- the scope that is being read, with the definitions around it;
* `Nesting.step` -- reads one item, or one token between items;
* `Program.ofTokens` -- the program of a list of tokens;
* `Reader` -- a list of tokens that is read piece by piece.
-/

namespace Offside

/-! ## 1. Scopes -/

/-- A scope that is being read. -/
structure OpenScope where
  /-- its opening brace; the outermost scope has none, and ends with the input -/
  opening : Option Span
  /-- names that it must not define -/
  reserved : List String
  definitions : Definitions

namespace OpenScope

/-- Adds a definition; `span` is where its name stands. -/
def add (scope : OpenScope) (name : String) (span : Span) (definition : Definition) :
    Except ParseError OpenScope :=
  if Table.contains scope.definitions name || scope.reserved.contains name then
    .error ⟨span, .duplicate name⟩
  else .ok { scope with definitions := Table.insert scope.definitions name definition }

/-- Adds several definitions of a name that stands at `span`, up to the first that is not new. -/
def addAll (scope : OpenScope) (span : Span) :
    List (String × Definition) → Except ParseError OpenScope
  | [] => .ok scope
  | (name, definition) :: rest =>
    match scope.add name span definition with
    | .error error => .error error
    | .ok scope => scope.addAll span rest

end OpenScope

/-- A definition whose nested scope is being read. -/
structure Enclosing where
  name : String
  span : Span
  header : Header
  /-- the scope that the definition belongs to -/
  scope : OpenScope

/-- The scope that is being read, the definitions around it, innermost first, and what has been
declared. -/
structure Nesting where
  declared : Declared
  scope : OpenScope
  outer : List Enclosing

/-- What an item does to a scope that is being read. -/
inductive Progress
  /-- the reading goes on -/
  | next (nesting : Nesting) (rest : List Lexeme)
  /-- the reading ends -/
  | done (outcome : Except ParseError Definitions) (declared : Declared) (rest : List Lexeme)

namespace Nesting

/-- Ends with an error. -/
def fail (nesting : Nesting) (error : ParseError) (rest : List Lexeme) : Progress :=
  .done (.error error) nesting.declared rest

/-- Goes on with the scope that an addition has given. -/
def resume (nesting : Nesting) (scope : Except ParseError OpenScope) (rest : List Lexeme) :
    Progress :=
  match scope with
  | .error error => nesting.fail error rest
  | .ok scope => .next { nesting with scope := scope } rest

/-- Goes on after the header of a definition: with its nested scope if a brace follows. -/
def define (nesting : Nesting) (name : String) (span : Span) (reading : Reading Header) :
    Progress :=
  match reading with
  | (.error error, rest) => nesting.fail error rest
  | (.ok header, rest) =>
    match skipTerminators rest with
    | ⟨.scopeOpen, brace⟩ :: rest =>
      .next
        { nesting with
          scope := ⟨some brace, header.names, []⟩
          outer := ⟨name, span, header, nesting.scope⟩ :: nesting.outer } rest
    | rest => nesting.resume (nesting.scope.add name span (header.close [])) rest

/-- Goes on after a declaration, with the definitions that come with it. -/
def declare (nesting : Nesting) (origin : Nat) (name : String) (span : Span)
    (reading : Reading Declaration) : Progress :=
  match reading with
  | (.error error, rest) => nesting.fail error rest
  | (.ok declaration, rest) =>
    let nesting := { nesting with declared := nesting.declared.add name declaration }
    nesting.resume (nesting.scope.addAll span (declaration.definitions origin name)) rest

/-- Goes on after the brace that closes the scope: in the scope of the definition around it, if
there is one. -/
def close (nesting : Nesting) (rest : List Lexeme) : Progress :=
  match nesting.outer with
  | [] => .done (.ok nesting.scope.definitions) nesting.declared rest
  | ⟨name, span, header, scope⟩ :: outer =>
    let definition := header.close nesting.scope.definitions
    { nesting with outer := outer }.resume (scope.add name span definition) rest

/-- Reads an item whose name has been read. -/
def item (nesting : Nesting) (stop : Span) (origin : Nat) (name : String) (span : Span)
    (tokens : List Lexeme) : Progress :=
  match tokens with
  | [] => nesting.fail ⟨span, .bareName⟩ []
  | ⟨.colon, _⟩ :: _ => nesting.define name span (Header.parse stop name tokens)
  | ⟨.colonEqual, mark⟩ :: _ =>
    if nesting.scope.opening.isSome then nesting.fail ⟨mark, .nestedDeclaration name⟩ tokens
    else nesting.declare origin name span (nesting.declared.read stop name span tokens)
  | ⟨found, mark⟩ :: _ => nesting.fail ⟨mark, .notADeclaration name found⟩ tokens

/-- Reads an item, a terminator, or the end of the scope. -/
def step (nesting : Nesting) (stop : Span) (origin : Nat) : List Lexeme → Progress
  | [] =>
    match nesting.scope.opening with
    | some brace => nesting.fail ⟨brace, .openScope⟩ []
    | none => .done (.ok nesting.scope.definitions) nesting.declared []
  | ⟨.semicolon, _⟩ :: rest => .next nesting rest
  | ⟨.name name, span⟩ :: rest => nesting.item stop origin name span rest
  | ⟨found, span⟩ :: rest =>
    if found = .scopeClose && nesting.scope.opening.isSome then nesting.close rest
    else nesting.fail ⟨span, .notADefinition found⟩ rest

/-! ## 2. Every step uses tokens up -/

theorem rest_of_resume {nesting next : Nesting} {scope : Except ParseError OpenScope}
    {rest after : List Lexeme} (h : nesting.resume scope rest = .next next after) :
    after = rest := by
  cases scope <;> simp [resume, fail] at h
  exact h.2.symm

theorem length_define {nesting next : Nesting} {name : String} {span : Span}
    {reading : Reading Header} {after : List Lexeme}
    (h : nesting.define name span reading = .next next after) :
    ∃ header rest, reading = (.ok header, rest) ∧ after.length ≤ rest.length := by
  obtain ⟨outcome, rest⟩ := reading
  cases outcome with
  | error error => simp [define, fail] at h
  | ok header =>
    refine ⟨header, rest, rfl, ?_⟩
    have hs := length_skipTerminators rest
    rw [define] at h
    split at h
    · rename_i brace tail eq
      rw [eq, List.length_cons] at hs
      simp only [Progress.next.injEq] at h
      rw [← h.2]
      omega
    · rw [rest_of_resume h]
      exact hs

theorem length_declare {nesting next : Nesting} {origin : Nat} {name : String} {span : Span}
    {reading : Reading Declaration} {after : List Lexeme}
    (h : nesting.declare origin name span reading = .next next after) :
    ∃ declaration, reading = (.ok declaration, after) := by
  obtain ⟨outcome, rest⟩ := reading
  cases outcome with
  | error error => simp [declare, fail] at h
  | ok declaration =>
    rw [rest_of_resume h]
    exact ⟨declaration, rfl⟩

theorem length_item {nesting next : Nesting} {stop : Span} {origin : Nat} {name : String}
    {span : Span} {tokens after : List Lexeme}
    (h : nesting.item stop origin name span tokens = .next next after) :
    after.length < tokens.length := by
  rw [item.eq_def] at h
  split at h
  · simp [fail] at h
  · obtain ⟨header, rest, hr, hl⟩ := length_define h
    have := Header.length_parse hr
    omega
  · split at h
    · simp [fail] at h
    · obtain ⟨declaration, hr⟩ := length_declare h
      exact Declared.length_read hr
  · simp [fail] at h

theorem length_step {nesting next : Nesting} {stop : Span} {origin : Nat}
    {tokens after : List Lexeme} (h : nesting.step stop origin tokens = .next next after) :
    after.length < tokens.length := by
  match tokens with
  | [] =>
    rw [step] at h
    split at h <;> simp [fail] at h
  | ⟨token, span⟩ :: tail =>
    rw [step.eq_def] at h
    split at h
    · simp at *
    · rename_i eq
      cases eq
      simp only [Progress.next.injEq] at h
      simp [← h.2]
    · rename_i eq
      cases eq
      have := length_item h
      simp only [List.length_cons]
      omega
    · rename_i eq
      cases eq
      split at h
      · rw [close] at h
        split at h
        · simp at h
        · rw [rest_of_resume h]
          simp
      · simp [fail] at h

/-- Reads a scope to its end. -/
def run (nesting : Nesting) (stop : Span) (origin : Nat) (tokens : List Lexeme) :
    Reading Definitions × Declared :=
  match _h : nesting.step stop origin tokens with
  | .next next rest => next.run stop origin rest
  | .done outcome declared rest => ((outcome, rest), declared)
termination_by tokens.length
decreasing_by exact length_step _h

end Nesting

/-! ## 3. Readers -/

/-- A list of tokens that is read piece by piece. -/
structure Reader where
  /-- the tokens that are left -/
  tokens : List Lexeme
  /-- the end of the input -/
  stop : Span
  /-- the origin of the native functions that declarations define -/
  origin : Nat
  declared : Declared

namespace Reader

/-- A reader of all of the tokens. -/
def ofTokens (origin : Nat) (tokens : List Lexeme) : Reader :=
  ⟨tokens, endSpan tokens, origin, .empty⟩

/-- The reader after a reading. -/
def after {α : Type} (reader : Reader) (reading : Reading α) : Except ParseError α × Reader :=
  (reading.1, { reader with tokens := reading.2 })

/-- Reads an expression. -/
def expression (reader : Reader) : Except ParseError Expr × Reader :=
  reader.after (Expr.parse reader.stop reader.tokens)

/-- Reads a type. -/
def type (reader : Reader) : Except ParseError Ty × Reader :=
  reader.after (Ty.parse reader.stop reader.tokens)

/-- Skips terminators. -/
def skip (reader : Reader) : Reader :=
  { reader with tokens := skipTerminators reader.tokens }

/-- Reads a scope: up to the brace that closes the one at `opening`, or to the end of the input. -/
def scope (reader : Reader) (opening : Option Span) (reserved : List String) :
    Except ParseError Definitions × Reader :=
  let ((outcome, rest), declared) :=
    Nesting.run ⟨reader.declared, ⟨opening, reserved, []⟩, []⟩ reader.stop reader.origin
      reader.tokens
  (outcome, { reader with tokens := rest, declared := declared })

/-- Reads the definition of a name that has been read. -/
def definition (reader : Reader) (name : String) : Except ParseError Definition × Reader :=
  match reader.after (Header.parse reader.stop name reader.tokens) with
  | (.error error, reader) => (.error error, reader)
  | (.ok header, reader) =>
    let reader := reader.skip
    match reader.tokens with
    | ⟨.scopeOpen, brace⟩ :: rest =>
      let (outcome, reader) := { reader with tokens := rest }.scope (some brace) header.names
      (outcome.map header.close, reader)
    | _ => (.ok (header.close []), reader)

/-- Reads the declaration of a name that has been read, and gives the definitions that come with
it. -/
def declaration (reader : Reader) (name : String) (span : Span) :
    Except ParseError (List (String × Definition)) × Reader :=
  match reader.after (reader.declared.read reader.stop name span reader.tokens) with
  | (.error error, reader) => (.error error, reader)
  | (.ok declaration, reader) =>
    (.ok (declaration.definitions reader.origin name),
      { reader with declared := reader.declared.add name declaration })

/-- Reads all that is left as the definitions of a program. -/
def program (reader : Reader) : Except ParseError Program :=
  match reader.scope none [] with
  | (.error error, _) => .error error
  | (.ok definitions, reader) =>
    .ok ⟨definitions, reader.declared.aliases, reader.declared.types⟩

end Reader

/-- The program of a list of tokens. -/
def Program.ofTokens (origin : Nat) (tokens : List Lexeme) : Except ParseError Program :=
  (Reader.ofTokens origin tokens).program

end Offside
