import Offside.Proofs.Characters
import Offside.Proofs.Except
import Offside.Proofs.Legible
import Offside.Proofs.Written

/-!
# Expressions are read as they are printed

The text of an expression that was read is read as this expression, if the strings in it are shown
with no other escapes than those of the language. Redundant parentheses, terminators, leading zeros
and blanks are gone, so texts that are read as one expression have one printed form.

* `Expr.isReadable` -- whether the strings of an expression are shown in such a way;
* `Expr.Plain.spelt` -- the text of a plain expression spells its tokens;
* `Expr.Derives.forall_tokens` -- the tokens of an expression are among those that it was read from,
  parentheses apart;
* `compileExpr_text` -- printing is undone by reading.
-/

namespace Offside

namespace Expr

/-! ## 1. The text of an expression spells its tokens -/

/-- Each operand stands after a blank, so that nothing joins. -/
theorem spelt_operandsText {operands : List Expr}
    (h : ∀ operand ∈ operands, Spelt operand.text.toList operand.tokens) :
    Spelt (operandsText operands).toList (operandTokens operands) ∧
      ∀ c ∈ (operandsText operands).toList.head?, Token.joins c = false := by
  induction operands with
  | nil =>
      rw [operandsText, operandTokens]
      refine ⟨.nil, ?_⟩
      intro c hc
      cases hc
  | cons operand operands ih =>
      obtain ⟨hoperand, hoperands⟩ := List.forall_mem_cons.1 h
      obtain ⟨hrest, hjoins⟩ := ih hoperands
      have htext : (operandsText (operand :: operands)).toList =
          ' ' :: (operand.text.toList ++ (operandsText operands).toList) := by
        rw [operandsText, String.toList_append, String.toList_append, List.append_assoc]
        rfl
      rw [htext, operandTokens]
      exact ⟨.gap (by decide) (hoperand.append hjoins hrest), Token.joins_cons (by decide) _⟩

theorem operandTokens_eq_flatMap (operands : List Expr) :
    operandTokens operands = operands.flatMap tokens := by
  induction operands with
  | nil => rw [operandTokens, List.flatMap_nil]
  | cons operand operands ih => rw [operandTokens, List.flatMap_cons, ih]

/-- **The text of a plain expression spells its tokens** if all of them are legible. -/
theorem Plain.spelt {expr : Expr} (h : expr.Plain)
    (hlegible : ∀ token ∈ expr.tokens, token.isLegible = true) :
    Spelt expr.text.toList expr.tokens := by
  induction h with
  | lit value =>
      rw [tokens] at hlegible ⊢
      rw [text]
      exact .lit (hlegible _ (List.mem_singleton_self _))
  | var name =>
      rw [tokens] at hlegible ⊢
      rw [text]
      exact .name (hlegible _ (List.mem_singleton_self _))
  | @call operator operands _ _ _ _ hoperator hoperands =>
      rw [tokens] at hlegible ⊢
      obtain ⟨_, hinside⟩ := List.forall_mem_cons.1 hlegible
      obtain ⟨hfront, hback⟩ := List.forall_mem_append.1 hinside
      obtain ⟨hback, _⟩ := List.forall_mem_append.1 hback
      have heach : ∀ operand ∈ operands, Spelt operand.text.toList operand.tokens := by
        rw [operandTokens_eq_flatMap] at hback
        exact fun operand hmem => hoperands operand hmem fun token htoken =>
          hback token (List.mem_flatMap.2 ⟨operand, hmem, htoken⟩)
      obtain ⟨hrest, hjoins⟩ := spelt_operandsText heach
      have htext : (Expr.call operator operands).text.toList =
          '(' :: (operator.text.toList ++ (operandsText operands).toList ++ [')']) := by
        rw [text, String.toList_append, String.toList_append, String.toList_append]
        rfl
      rw [htext, ← List.append_assoc]
      exact ((hoperator hfront).append hjoins hrest).paren

/-! ## 2. Where the tokens of an expression come from -/

mutual

/-- What holds of the tokens that an expression was read from, and of parentheses, holds of the
tokens of the expression. -/
theorem Derives.forall_tokens {P : Token → Prop} (hopen : P .lparen) (hclose : P .rparen)
    {tokens : List Token} {expr : Expr} :
    Derives tokens expr → (∀ token ∈ tokens, P token) → ∀ token ∈ expr.tokens, P token
  | .atom h, hall => h.forall_tokens hopen hclose hall
  | .call hoperator _ hoperands _, hall => by
      obtain ⟨hfront, hback⟩ := List.forall_mem_append.1 hall
      have hclosed : ∀ token ∈ [Token.rparen], P token := List.forall_mem_singleton.2 hclose
      rw [Expr.tokens]
      refine List.forall_mem_cons.2 ⟨hopen, List.forall_mem_append.2 ⟨?_, ?_⟩⟩
      · exact hoperator.forall_tokens hopen hclose hfront
      · exact List.forall_mem_append.2 ⟨hoperands.forall_tokens hopen hclose hback, hclosed⟩

theorem DerivesAtom.forall_tokens {P : Token → Prop} (hopen : P .lparen) (hclose : P .rparen)
    {tokens : List Token} {expr : Expr} :
    DerivesAtom tokens expr → (∀ token ∈ tokens, P token) → ∀ token ∈ expr.tokens, P token
  | .literal value, hall => by
      rw [Expr.tokens]
      exact hall
  | .name name, hall => by
      rw [Expr.tokens]
      exact hall
  | .paren h, hall =>
      h.forall_tokens hopen hclose (List.forall_mem_append.1 (List.forall_mem_cons.1 hall).2).1

theorem DerivesAtoms.forall_tokens {P : Token → Prop} (hopen : P .lparen) (hclose : P .rparen)
    {tokens : List Token} {exprs : List Expr} :
    DerivesAtoms tokens exprs → (∀ token ∈ tokens, P token) →
      ∀ token ∈ operandTokens exprs, P token
  | .nil, hall => by
      rw [operandTokens]
      exact hall
  | .cons h rest, hall => by
      obtain ⟨hfront, hback⟩ := List.forall_mem_append.1 hall
      rw [operandTokens]
      exact List.forall_mem_append.2
        ⟨h.forall_tokens hopen hclose hfront, rest.forall_tokens hopen hclose hback⟩

end

/-- An expression that was read is plain, and strings apart its tokens are legible. -/
theorem plain_and_legible {source : String} {expr : Expr} (h : compileExpr source = .ok expr) :
    expr.Plain ∧ ∀ token ∈ expr.tokens, token.string? = none → token.isLegible = true := by
  obtain ⟨lexemes, hread, h⟩ := except_bind_eq_ok h
  obtain ⟨front, rest, rfl, hderives, _⟩ := ofTokens_iff_derives.1 (mapError_eq_ok h)
  have htiled := (Token.read_eq_ok_iff.1 (mapError_eq_ok hread)).isLegible
  rw [List.map_append] at htiled
  have hfront := (List.forall_mem_append.1 htiled).1
  exact ⟨hderives.plain, hderives.forall_tokens (fun _ => rfl) (fun _ => rfl) hfront⟩

/-- Whether the characters of the strings in an expression are shown as they are, or by an escape
that a literal may use. -/
def isReadable (expr : Expr) : Bool :=
  (Token.literals expr.tokens).all fun text => text.toList.all Text.isReadable

theorem isLegible_of_isReadable {expr : Expr} (hreadable : expr.isReadable = true) {text : String}
    (h : .string text ∈ expr.tokens) : (Token.string text).isLegible = true :=
  List.all_eq_true.1 hreadable text (List.mem_filterMap.2 ⟨.string text, h, rfl⟩)

end Expr

/-! ## 3. Printing and reading -/

/-- A plain expression with legible tokens is read as it is printed. -/
theorem Expr.Plain.compileExpr_eq {expr : Expr} (h : expr.Plain)
    (hlegible : ∀ token ∈ expr.tokens, token.isLegible = true) :
    compileExpr expr.text = .ok expr := by
  obtain ⟨lexemes, hscan, htokens⟩ := (h.spelt hlegible).scan 0
  have hread : Token.read expr.text = .ok lexemes := hscan
  have hderives : Derives (tokensOf lexemes) expr := by
    rw [tokensOf, htokens]
    exact .atom h.derivesAtom
  have hnone : ∀ lexeme ∈ ([] : List Lexeme), lexeme.token = .semicolon :=
    fun _ hmem => absurd hmem List.not_mem_nil
  have hall : ofTokens lexemes = .ok expr :=
    ofTokens_iff_derives.2 ⟨lexemes, [], (List.append_nil _).symm, hderives, hnone⟩
  rw [compileExpr, hread]
  exact congrArg (Except.mapError Error.parse) hall

/-- An expression that was read and whose strings are readable is read as it is printed. -/
theorem compileExpr_of_isReadable {source : String} {expr : Expr} (h : compileExpr source = .ok expr)
    (hreadable : expr.isReadable = true) : compileExpr expr.text = .ok expr := by
  obtain ⟨hplain, hlegible⟩ := Expr.plain_and_legible h
  refine hplain.compileExpr_eq fun token htoken => ?_
  cases token with
  | string text => exact Expr.isLegible_of_isReadable hreadable htoken
  | _ => exact hlegible _ htoken rfl

/-- **Reading undoes printing.** An expression that was read, with readable strings, is read from its
own text; and there is no other such expression with that text. -/
theorem compileExpr_text {source : String} {expr : Expr} (h : compileExpr source = .ok expr)
    (hreadable : expr.isReadable = true) :
    compileExpr expr.text = .ok expr ∧
      ∀ (otherSource : String) (other : Expr), compileExpr otherSource = .ok other →
        other.isReadable = true → other.text = expr.text → other = expr := by
  have hself := compileExpr_of_isReadable h hreadable
  refine ⟨hself, fun otherSource other hother hotherReadable htext => ?_⟩
  have hagain := compileExpr_of_isReadable hother hotherReadable
  rw [htext, hself] at hagain
  exact (Except.ok.inj hagain).symm

/-- Operators as operands and next to parentheses, calls as operators, and every escape. -/
def knot : String :=
  "(((- > ==) 7 \"a#\\n\\t\\r\\\"\\\\(\" -) (Point.x true none))"

/-- The same with other blanks, parentheses, zeros and terminators. -/
def looseKnot : String :=
  "(((- >(==)))((007))(\"a#\\n\\t\\r\\\"\\\\(\")-)\n(Point.x (true) none) ;;"

theorem compileExpr_text_knot :
    ∃ expr, compileExpr looseKnot = .ok expr ∧ expr.isReadable = true ∧ expr.text = knot ∧
      compileExpr knot = .ok expr := by
  have hloose : ∃ source, looseKnot = String.ofList source ∧
      compilesExpr source fun expr => expr.isReadable = true ∧ expr.text = knot :=
    ⟨_, rfl, by decide +kernel⟩
  obtain ⟨source, hsource, hcompiles⟩ := hloose
  obtain ⟨expr, hexpr, hp⟩ := exists_of_compilesExpr hsource hcompiles
  obtain ⟨hreadable, htext⟩ := of_decide_eq_true hp
  have hself := (compileExpr_text hexpr hreadable).1
  rw [htext] at hself
  exact ⟨expr, hexpr, hreadable, htext, hself⟩

end Offside
