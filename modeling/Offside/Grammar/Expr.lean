import Offside.Grammar.Reading

/-!
# Reading expressions

    expression  =  atom { atom }
    atom        =  literal  |  Name  |  "(" expression ")"

An expression is one atom, or an operator with its operands. It ends before a terminator, a closing
parenthesis or a brace. A literal cannot be an operator.

* `Expr.Atoms` -- the atoms read so far, with the open parentheses around them;
* `Expr.Atoms.step` -- what becomes of them with one more token;
* `Expr.parse`, `Expr.ofTokens` -- the expression at the front of the tokens, and of all of them.
-/

namespace Offside

namespace Expr

/-! ## 1. Atoms -/

/-- The atoms of an expression that is being read. -/
inductive Group
  | empty
  /-- the first atom, where it stands, and the atoms after it -/
  | headed (head : Expr) (span : Span) (operands : List Expr)

namespace Group

/-- Adds an atom that stands at `span`. -/
def push (group : Group) (atom : Expr) (span : Span) : Group :=
  match group with
  | empty => headed atom span []
  | headed head headSpan operands => headed head headSpan (operands ++ [atom])

end Group

/-- The expression of a first atom with the atoms after it; a literal is no operator. -/
def ofAtoms (head : Expr) (span : Span) (operands : List Expr) : Except ParseError Expr :=
  match operands, head with
  | [], head => .ok head
  | _ :: _, lit value => .error ⟨span, .appliedLiteral value operands.length⟩
  | _ :: _, head => .ok (call head operands)

/-- The atom that a token is by itself. -/
def ofToken? : Token → Option Expr
  | .int value => some (lit (.int value))
  | .string value => some (lit (.str value))
  | .bool value => some (lit (.bool value))
  | .nothing => some (lit .nothing)
  | .name name => some (var name)
  | _ => none

/-- The innermost group, and the open parentheses, innermost first, each with the group around
it. -/
structure Atoms where
  group : Group
  stack : List (Span × Group)

/-- What a token does to an expression that is being read. -/
inductive Move
  /-- it is taken, and the reading goes on -/
  | next (atoms : Atoms)
  /-- it is left, and the reading ends before it -/
  | leave (outcome : Except ParseError Expr)
  /-- it is taken, and wrong -/
  | wrong (error : ParseError)

namespace Atoms

/-- Takes a token as an atom, or as the start of one. -/
def take (atoms : Atoms) (token : Token) (span : Span) : Move :=
  match ofToken? token with
  | some atom => .next ⟨atoms.group.push atom span, atoms.stack⟩
  | none =>
    if token = .lparen then .next ⟨.empty, (span, atoms.group) :: atoms.stack⟩
    else .wrong ⟨span, .notAnExpression token⟩

/-- Ends the innermost group, which has become `outcome`, at a token: outside of all parentheses
the reading is over, inside them the token has to close one. -/
def close (outcome : Except ParseError Expr) (stack : List (Span × Group)) (token : Token)
    (span : Span) : Move :=
  match outcome, stack with
  | .error error, _ => .leave (.error error)
  | .ok expr, [] => .leave (.ok expr)
  | .ok expr, (paren, outer) :: stack =>
    if token = .rparen then .next ⟨outer.push expr ⟨paren.start, span.stop⟩, stack⟩
    else .wrong ⟨span, .unclosedParen token⟩

/-- Goes on with a token. -/
def step (atoms : Atoms) (token : Token) (span : Span) : Move :=
  match atoms.group with
  | .empty => atoms.take token span
  | .headed head headSpan operands =>
    if token.endsExpression then close (ofAtoms head headSpan operands) atoms.stack token span
    else atoms.take token span

/-- Ends the reading where the input ends. -/
def finish (stop : Span) (atoms : Atoms) : Except ParseError Expr :=
  match atoms.group, atoms.stack with
  | .empty, _ => .error ⟨stop, .endOfInput .expression⟩
  | .headed head span operands, [] => ofAtoms head span operands
  | .headed head span operands, (paren, _) :: _ => do
    let _ ← ofAtoms head span operands
    .error ⟨paren, .openParen⟩

end Atoms

/-! ## 2. Expressions -/

/-- Reads on from the atoms read so far. -/
def readAtoms (stop : Span) (atoms : Atoms) : List Lexeme → Reading Expr
  | [] => (atoms.finish stop, [])
  | ⟨token, span⟩ :: rest =>
    match atoms.step token span with
    | .next atoms => readAtoms stop atoms rest
    | .leave outcome => (outcome, ⟨token, span⟩ :: rest)
    | .wrong error => (.error error, rest)

/-- Reads an expression. -/
def parse (stop : Span) (tokens : List Lexeme) : Reading Expr :=
  readAtoms stop ⟨.empty, []⟩ tokens

theorem length_readAtoms (stop : Span) (tokens : List Lexeme) (atoms : Atoms) :
    (readAtoms stop atoms tokens).2.length ≤ tokens.length := by
  induction tokens generalizing atoms with
  | nil => simp [readAtoms]
  | cons lexeme rest ih =>
    obtain ⟨token, span⟩ := lexeme
    rw [readAtoms]
    split
    · exact Nat.le_succ_of_le (ih _)
    · exact Nat.le_refl _
    · exact Nat.le_succ _

theorem length_parse {stop : Span} {outcome : Except ParseError Expr}
    {tokens rest : List Lexeme} (h : parse stop tokens = (outcome, rest)) :
    rest.length ≤ tokens.length := by
  have := length_readAtoms stop tokens ⟨.empty, []⟩
  rwa [← parse, h] at this

/-- The expression that a whole list of tokens makes, apart from terminators at its end. -/
def ofTokens (tokens : List Lexeme) : Except ParseError Expr :=
  match parse (endSpan tokens) tokens with
  | (.error error, _) => .error error
  | (.ok expr, rest) =>
    match skipTerminators rest with
    | [] => .ok expr
    | ⟨found, span⟩ :: _ => .error ⟨span, .trailing found⟩

end Expr

end Offside
