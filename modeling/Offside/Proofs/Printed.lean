import Offside.Expr.Printer
import Offside.Proofs.Spelling
import Offside.Ty.Basic

/-!
# Types and expressions as tokens

The text of a type or expression of the language is a piece of a line that spells certain tokens,
whatever stands after it, as long as that does not go on with a name or number:

* `Fragment` -- a piece of a line, and the tokens that it spells;
* `Ty.tokens`, `Expr.tokens` -- the tokens of a type and of an expression;
* `Ty.isWritten`, `Expr.isWritten` -- whether it is one that a text can write;
* `Ty.fragment`, `Expr.fragment` -- the text of such a one spells its tokens.
-/

namespace Offside

/-! ## 1. Fragments -/

/-- Neither the end of a line nor a tab. -/
def Text.Inline (text : List Char) : Prop :=
  ∀ c ∈ text, c ≠ '\n' ∧ c ≠ '\t'

instance (text : List Char) : Decidable (Text.Inline text) :=
  List.decidableBAll _ text

theorem Text.Inline.append {a b : List Char} (ha : Inline a) (hb : Inline b) : Inline (a ++ b) :=
  fun c hc => (List.mem_append.1 hc).elim (ha c) (hb c)

/-- A piece of a line that spells the tokens. It starts and ends with characters that are not blank,
and not with a `=`. -/
structure Fragment (text : String) (tokens : List Token) : Prop where
  inline : Text.Inline text.toList
  head : ∃ first rest, text.toList = first :: rest ∧ Text.isBlank first = false ∧ first ≠ '='
  ink : ∃ start last, text.toList = start ++ [last] ∧ Text.isBlank last = false
  spelt : ∀ {rest : List Char} {more : List Token}, Token.Ends rest → Spelt rest more →
    Spelt (text.toList ++ rest) (tokens ++ more)

namespace Fragment

/-- A piece of a line spells its tokens on its own too. -/
theorem spelt_self {text : String} {tokens : List Token} (h : Fragment text tokens) :
    Spelt text.toList tokens := by
  have hend := h.spelt Token.ends_nil .nil
  rwa [List.append_nil, List.append_nil] at hend

theorem inline_of_isBlank {c : Char} (h : Text.isBlank c = false) : c ≠ '\n' ∧ c ≠ '\t' := by
  constructor <;> rintro rfl <;> exact absurd h (by decide)

/-- Characters of names, one at least, are a piece of a line. -/
theorem ofNameChars {text : String} {tokens : List Token} (hne : text.toList ≠ [])
    (hchars : ∀ c ∈ text.toList, Token.continuesName c = true)
    (hspelt : ∀ {rest : List Char} {more : List Token}, Token.Ends rest → Spelt rest more →
      Spelt (text.toList ++ rest) (tokens ++ more)) : Fragment text tokens := by
  have hink : ∀ c ∈ text.toList, Text.isBlank c = false :=
    fun c hc => Token.isBlank_of_continuesName (hchars c hc)
  obtain ⟨first, rest, htext⟩ := List.exists_cons_of_ne_nil hne
  have hfirst : first ∈ text.toList := htext ▸ List.mem_cons_self ..
  refine ⟨fun c hc => inline_of_isBlank (hink c hc), ⟨first, rest, htext, hink first hfirst, ?_⟩,
    ?_, hspelt⟩
  · rintro rfl
    exact absurd (hchars '=' hfirst) (by decide)
  · exact ⟨_, _, (List.dropLast_concat_getLast hne).symm, hink _ (List.getLast_mem hne)⟩

/-- An identifier or keyword. -/
theorem word {text : String} {c : Char} {rest : List Char} (htext : text.toList = c :: rest)
    (hc : Token.startsName c = true) (h : rest.all Token.continuesName = true) :
    Fragment text [Token.ofWord text] := by
  have hrest : ∀ d ∈ rest, Token.continuesName d = true := List.all_eq_true.1 h
  refine ofNameChars ?_ ?_ fun ends tail => ?_
  · rw [htext]
    exact List.cons_ne_nil c rest
  · rw [htext]
    intro d hd
    rcases List.mem_cons.1 hd with rfl | hd
    · exact Token.continuesName_of_startsName hc
    · exact hrest d hd
  · have hspelt := Spelt.ofWord hc hrest ends tail
    rwa [← htext, String.ofList_toList] at hspelt

theorem name {text : String} (h : Token.isName text = true) : Fragment text [.name text] := by
  obtain ⟨c, rest, htext, hc, hrest, hword⟩ := Token.exists_of_isName h
  rw [← hword]
  exact word htext hc (List.all_eq_true.2 hrest)

theorem inline_of_writes {body text : List Char} (h : Text.Writes body text) :
    Text.Inline body := by
  induction h with
  | nil => exact nofun
  | char plain _ ih =>
      simp only [List.mem_cons, not_or] at plain
      obtain ⟨_, _, hline, htab, _⟩ := plain
      exact List.forall_mem_cons.2 ⟨⟨hline, htab⟩, ih⟩
  | escape inline _ _ ih =>
      exact List.forall_mem_cons.2 ⟨by decide, List.forall_mem_cons.2 ⟨inline, ih⟩⟩

/-- A string literal. -/
theorem literal {body : List Char} {value : String} (h : Text.Writes body value.toList) :
    Fragment (String.ofList ('\"' :: (body ++ ['\"']))) [.string value] := by
  have htext : (String.ofList ('\"' :: (body ++ ['\"']))).toList = '\"' :: (body ++ ['\"']) :=
    String.toList_ofList
  refine ⟨?_, ⟨'\"', _, htext, by decide, by decide⟩, ?_, fun _ tail => ?_⟩
  · have hquote : Text.Inline ['\"'] := by decide
    rw [htext]
    exact hquote.append ((inline_of_writes h).append hquote)
  · exact ⟨'\"' :: body, '\"', htext, by decide⟩
  · rw [htext]
    exact .literal h tail

/-- What follows a colon and a piece of a line is not a `:=`. -/
theorem spelt_colon {text : String} {tokens : List Token} (h : Fragment text tokens)
    {rest : List Char} {more : List Token} (ends : Token.Ends rest) (tail : Spelt rest more) :
    Spelt (':' :: (text.toList ++ rest)) (.colon :: (tokens ++ more)) := by
  refine .colon (fun c hc => ?_) (h.spelt ends tail)
  obtain ⟨first, others, htext, _, hfirst⟩ := h.head
  rw [htext] at hc
  cases hc
  exact hfirst

end Fragment

/-- A text that stands between pieces of a line, and the tokens that it spells. -/
structure Separator (text : String) (tokens : List Token) : Prop where
  inline : Text.Inline text.toList
  ends : ∀ rest, Token.Ends (text.toList ++ rest)
  spelt : ∀ {rest : List Char} {more : List Token}, Spelt rest more →
    Spelt (text.toList ++ rest) (tokens ++ more)

namespace Separator

theorem blank : Separator " " [] where
  inline := by decide
  ends _ := Token.ends_cons (by decide)
  spelt tail := .gap (by decide) tail

theorem comma : Separator ", " [.comma] where
  inline := by decide
  ends _ := Token.ends_cons (by decide)
  spelt tail := .mark (by decide) (by decide) (.gap (by decide) tail)

theorem bar : Separator " | " [.bar] where
  inline := by decide
  ends _ := Token.ends_cons (by decide)
  spelt tail := .gap (by decide) (.mark (by decide) (by decide) (.gap (by decide) tail))

theorem arrow : Separator " -> " [.arrow] where
  inline := by decide
  ends _ := Token.ends_cons (by decide)
  spelt tail := by
    have hstart : Pending.start '-' = some .minus := by decide
    exact .gap (by decide) (.pair (by decide) hstart (by decide) (.gap (by decide) tail))

theorem assign : Separator " = " [.assign] where
  inline := by decide
  ends _ := Token.ends_cons (by decide)
  spelt {rest _} tail := by
    change Spelt (' ' :: '=' :: ' ' :: rest) _
    exact .gap (by decide) (.assign (by simp) (.gap (by decide) tail))

theorem colonEqual : Separator " := " [.colonEqual] where
  inline := by decide
  ends _ := Token.ends_cons (by decide)
  spelt tail := by
    have hstart : Pending.start ':' = some .colon := by decide
    exact .gap (by decide) (.pair (by decide) hstart (by decide) (.gap (by decide) tail))

end Separator

namespace Fragment

variable {a b middle : String} {as bs between : List Token}

/-- Text from the start of one piece of a line to the end of another. -/
theorem ofEnds (ha : Fragment a as) (hb : Fragment b bs) {tokens : List Token}
    (hmiddle : Text.Inline middle.toList)
    (hspelt : ∀ {rest : List Char} {more : List Token}, Token.Ends rest → Spelt rest more →
      Spelt (a.toList ++ (middle.toList ++ (b.toList ++ rest))) (tokens ++ more)) :
    Fragment (a ++ middle ++ b) tokens := by
  have htext : (a ++ middle ++ b).toList = a.toList ++ (middle.toList ++ b.toList) := by
    rw [String.toList_append, String.toList_append, List.append_assoc]
  refine ⟨?_, ?_, ?_, fun ends tail => ?_⟩
  · rw [htext]
    exact ha.inline.append (hmiddle.append hb.inline)
  · obtain ⟨first, rest, hhead, hfirst⟩ := ha.head
    refine ⟨first, rest ++ (middle.toList ++ b.toList), ?_, hfirst⟩
    rw [htext, hhead, List.cons_append]
  · obtain ⟨start, last, hink, hlast⟩ := hb.ink
    refine ⟨a.toList ++ (middle.toList ++ start), last, ?_, hlast⟩
    rw [htext, hink, List.append_assoc, List.append_assoc]
  · rw [htext, List.append_assoc, List.append_assoc]
    exact hspelt ends tail

/-- Two pieces of a line with a separator between them. -/
theorem join (ha : Fragment a as) (hmiddle : Separator middle between) (hb : Fragment b bs) :
    Fragment (a ++ middle ++ b) (as ++ (between ++ bs)) := by
  refine ofEnds ha hb hmiddle.inline fun ends tail => ?_
  have hall := ha.spelt (hmiddle.ends _) (hmiddle.spelt (hb.spelt ends tail))
  simpa only [List.append_assoc] using hall

/-- Two pieces of a line with a colon between them. -/
theorem ascribe (ha : Fragment a as) (hb : Fragment b bs) :
    Fragment (a ++ ":" ++ b) (as ++ .colon :: bs) := by
  have hcolon : Text.Inline ":".toList := by decide
  refine ofEnds ha hb hcolon fun ends tail => ?_
  have hall := ha.spelt (Token.ends_cons (by decide)) (hb.spelt_colon ends tail)
  rw [List.append_assoc]
  exact hall

/-- A text in parentheses. -/
theorem paren (hinline : Text.Inline a.toList)
    (hspelt : ∀ {rest : List Char} {more : List Token}, Token.Ends rest → Spelt rest more →
      Spelt (a.toList ++ rest) (as ++ more)) :
    Fragment ("(" ++ a ++ ")") (.lparen :: (as ++ [.rparen])) := by
  have hopen : Text.Inline ['('] := by decide
  have hclose : Text.Inline [')'] := by decide
  have htext : ("(" ++ a ++ ")").toList = '(' :: (a.toList ++ [')']) := by
    rw [String.toList_append, String.toList_append, List.append_assoc]
    rfl
  refine ⟨?_, ⟨'(', _, htext, by decide, by decide⟩, ⟨'(' :: a.toList, ')', htext, by decide⟩,
    fun {rest more} _ tail => ?_⟩
  · rw [htext]
    exact hopen.append (hinline.append hclose)
  · have hlast : Spelt (')' :: rest) (.rparen :: more) := .mark (by decide) (by decide) tail
    have hinside := hspelt (Token.ends_cons (by decide)) hlast
    have hall : Spelt ('(' :: _) (.lparen :: _) := .mark (by decide) (by decide) hinside
    rw [htext]
    simpa only [List.cons_append, List.append_assoc, List.nil_append] using hall

end Fragment

/-! ## 2. Types -/

namespace Ty

mutual

/-- The tokens of a type. -/
def tokens : Ty → List Token
  | named name => [.name name]
  | func params result =>
    .lparen :: (joinedTokens .comma params ++ .arrow :: (tokens result ++ [.rparen]))
  | struct fields => .structWord :: fieldTokens fields
  | union options => .unionWord :: joinedTokens .bar options

/-- The tokens of several types with a token between them. -/
def joinedTokens (separator : Token) : List Ty → List Token
  | [] => []
  | ty :: rest => tokens ty ++ moreTokens separator rest

/-- The tokens of several types, each after a token. -/
def moreTokens (separator : Token) : List Ty → List Token
  | [] => []
  | ty :: rest => separator :: (tokens ty ++ moreTokens separator rest)

/-- The tokens of fields. -/
def fieldTokens : List (String × Ty) → List Token
  | [] => []
  | (field, ty) :: rest => .name field :: .colon :: (tokens ty ++ fieldTokens rest)

end

mutual

/-- Whether a type is one that a definition can be declared with in a text. -/
def isWritten : Ty → Bool
  | named name => Token.isName name
  | func params result => areWritten params && isWritten result
  | struct _ | union _ => false

/-- Whether several types are. -/
def areWritten : List Ty → Bool
  | [] => true
  | ty :: rest => isWritten ty && areWritten rest

end

/-- Types with a separator between them, one at least, spell their tokens with a token between. -/
theorem fragment_joined {separator : String} {token : Token} (hs : Separator separator [token]) :
    ∀ (ty : Ty) (rest : List Ty), (∀ t ∈ ty :: rest, Fragment t.text t.tokens) →
      Fragment (separator.intercalate (texts (ty :: rest))) (joinedTokens token (ty :: rest))
  | ty, [], h => by
      rw [texts, texts, String.intercalate_singleton, joinedTokens, moreTokens, List.append_nil]
      exact h ty (List.mem_cons_self ..)
  | ty, next :: rest, h => by
      have hty := h ty (List.mem_cons_self ..)
      have hrest := fragment_joined hs next rest fun t ht => h t (List.mem_cons_of_mem ty ht)
      rw [texts, texts, String.intercalate_cons_cons, joinedTokens, moreTokens]
      exact hty.join hs hrest

/-- A function type spells its tokens if its parameters and its result do. -/
theorem fragment_func {params : List Ty} {result : Ty}
    (hparams : ∀ ty ∈ params, Fragment ty.text ty.tokens)
    (hresult : Fragment result.text result.tokens) :
    Fragment (func params result).text (func params result).tokens := by
  have htext : (func params result).text =
      "(" ++ (String.intercalate ", " (texts params) ++ " -> " ++ result.text) ++ ")" := by
    rw [text]
    simp only [String.append_assoc]
  have htokens : (func params result).tokens =
      .lparen :: ((joinedTokens .comma params ++ ([.arrow] ++ result.tokens)) ++ [.rparen]) := by
    rw [tokens, List.append_assoc]
    rfl
  rw [htext, htokens]
  cases params with
  | nil =>
      -- nothing stands before the arrow, so that the inside is no piece of a line
      have hinside : (String.intercalate ", " (texts []) ++ " -> " ++ result.text).toList =
          " -> ".toList ++ result.text.toList := by
        rw [texts, String.intercalate_nil, String.empty_append, String.toList_append]
      refine .paren ?_ fun {rest more} ends tail => ?_
      · rw [hinside]
        exact Separator.arrow.inline.append hresult.inline
      · rw [hinside, List.append_assoc]
        exact Separator.arrow.spelt (hresult.spelt ends tail)
  | cons ty rest =>
      have hinside := (fragment_joined Separator.comma ty rest hparams).join Separator.arrow hresult
      exact .paren hinside.inline hinside.spelt

mutual

/-- **The text of a type spells its tokens.** -/
theorem fragment : ∀ ty : Ty, ty.isWritten = true → Fragment ty.text ty.tokens
  | named _, h => .name h
  | func params result, h => by
      rw [isWritten, Bool.and_eq_true] at h
      exact fragment_func (fragments params h.1) (fragment result h.2)
  | struct _, h | union _, h => by
      rw [isWritten] at h
      cases h

theorem fragments : ∀ tys : List Ty, areWritten tys = true →
    ∀ ty ∈ tys, Fragment ty.text ty.tokens
  | [], _, _, hmem => absurd hmem List.not_mem_nil
  | first :: rest, h, ty, hmem => by
      rw [areWritten, Bool.and_eq_true] at h
      rcases List.mem_cons.1 hmem with hfirst | hmem
      · rw [hfirst]
        exact fragment first h.1
      · exact fragments rest h.2 ty hmem

end

/-- Whether fields or parameters are such as a text can write. -/
def fieldsWritten (fields : List (String × Ty)) : Bool :=
  fields.all fun field => Token.isName field.1 && field.2.isWritten

/-- Fields may follow a piece of a line. -/
theorem fragment_fieldsText : ∀ (fields : List (String × Ty)), fieldsWritten fields = true →
    ∀ {front : String} {frontTokens : List Token}, Fragment front frontTokens →
      Fragment (front ++ fieldsText fields) (frontTokens ++ fieldTokens fields)
  | [], _, front, frontTokens, hfront => by
      rw [fieldsText, fieldTokens, String.append_empty, List.append_nil]
      exact hfront
  | (field, ty) :: fields, h, front, frontTokens, hfront => by
      rw [fieldsWritten, List.all_cons, Bool.and_eq_true, Bool.and_eq_true] at h
      obtain ⟨⟨hname, hty⟩, hfields⟩ := h
      have hfield := (hfront.join Separator.blank (.name hname)).ascribe (fragment ty hty)
      have hall := fragment_fieldsText fields hfields hfield
      rw [fieldsText, fieldTokens]
      simpa only [String.append_assoc, List.append_assoc, List.cons_append, List.nil_append]
        using hall

end Ty

/-! ## 3. Expressions -/

namespace Literal

/-- The token of a literal. -/
def token : Literal → Token
  | int value => .int value
  | str value => .string value
  | bool value => .bool value
  | nothing => .nothing

/-- Whether a text can write the literal: a number without a sign, or a string whose characters are
shown as they are or by an escape of the language. -/
def isWritten : Literal → Bool
  | int value => decide (0 ≤ value)
  | str value => value.toList.all Text.isReadable
  | bool _ | nothing => true

theorem fragment_int {value : Int64} (h : 0 ≤ value) :
    Fragment (Literal.int value).text [.int value] := by
  have hpos : ¬value.toInt < 0 := Int.not_lt.2 (Int64.le_iff_toInt_le.1 h)
  have hnat : value.toInt.natAbs = value.toNatClampNeg :=
    (Int.toNat_of_nonneg (Int.not_lt.1 hpos)).symm ▸ rfl
  have htext : (Literal.int value).text.toList = Text.Decimal.digits value.toNatClampNeg := by
    rw [text, Text.Decimal.ofInt, if_neg hpos, Text.Decimal.ofNat, String.toList_ofList, hnat]
  have hmax : value.toNatClampNeg ≤ Pending.maxInteger := Nat.le_of_lt_succ value.toNatClampNeg_lt
  refine .ofNameChars ?_ ?_ fun ends tail => ?_
  · rw [htext]
    exact Text.Decimal.digits_ne_nil _
  · rw [htext]
    exact fun c hc => Token.continuesName_of_isDigit (Text.Decimal.isDigit_of_mem_digits _ c hc)
  · have hspelt := Spelt.number hmax ends tail
    rwa [Int64.ofNat_toNatClampNeg value h, ← htext] at hspelt

theorem fragment_str {value : String} (h : ∀ c ∈ value.toList, Text.isReadable c = true) :
    Fragment (Literal.str value).text [.string value] := by
  rw [text, Text.quoted]
  exact .literal (.flatMap value.toList fun c hc => Text.writes_shown (h c hc))

/-- The text of a literal spells its token. -/
theorem fragment (literal : Literal) (h : literal.isWritten = true) :
    Fragment literal.text [literal.token] := by
  cases literal with
  | int value => exact fragment_int (of_decide_eq_true h)
  | str value => exact fragment_str (List.all_eq_true.1 h)
  | bool value =>
      cases value with
      | true => exact Fragment.word (rfl : "true".toList = 't' :: _) (by decide) (by decide)
      | false => exact Fragment.word (rfl : "false".toList = 'f' :: _) (by decide) (by decide)
  | nothing => exact Fragment.word (rfl : "none".toList = 'n' :: _) (by decide) (by decide)

end Literal

namespace Expr

mutual

/-- The tokens of an expression. -/
def tokens : Expr → List Token
  | lit value => [value.token]
  | var name => [.name name]
  | call operator operands => .lparen :: (tokens operator ++ (operandTokens operands ++ [.rparen]))
  | record .. | function .. | scope .. | closure _ => []

/-- The tokens of operands. -/
def operandTokens : List Expr → List Token
  | [] => []
  | operand :: rest => tokens operand ++ operandTokens rest

end

mutual

/-- Whether a text can write the expression: variables, literals and calls, each of these with an
operand at least and with an operator that is no literal. -/
def isWritten : Expr → Bool
  | lit value => value.isWritten
  | var name => Token.isName name
  | call operator operands =>
    !operator.isPrimitive && isWritten operator && !operands.isEmpty && areWritten operands
  | record .. | function .. | scope .. | closure _ => false

/-- Whether a text can write the operands. -/
def areWritten : List Expr → Bool
  | [] => true
  | operand :: rest => isWritten operand && areWritten rest

end

/-- Operands may follow a piece of a line. -/
theorem fragment_operandsText : ∀ operands : List Expr,
    (∀ operand ∈ operands, Fragment operand.text operand.tokens) →
      ∀ {front : String} {frontTokens : List Token}, Fragment front frontTokens →
        Fragment (front ++ operandsText operands) (frontTokens ++ operandTokens operands)
  | [], _, front, frontTokens, hfront => by
      rw [operandsText, operandTokens, String.append_empty, List.append_nil]
      exact hfront
  | operand :: operands, h, front, frontTokens, hfront => by
      have hfirst := hfront.join Separator.blank (h operand (List.mem_cons_self ..))
      have hall := fragment_operandsText operands
        (fun other hother => h other (List.mem_cons_of_mem operand hother)) hfirst
      rw [operandsText, operandTokens]
      simpa only [String.append_assoc, List.append_assoc, List.nil_append] using hall

/-- A call spells its tokens if its operator and its operands do. -/
theorem fragment_call {operator : Expr} {operands : List Expr}
    (hoperator : Fragment operator.text operator.tokens)
    (hoperands : ∀ operand ∈ operands, Fragment operand.text operand.tokens) :
    Fragment (call operator operands).text (call operator operands).tokens := by
  have hinside := fragment_operandsText operands hoperands hoperator
  have hall := Fragment.paren hinside.inline hinside.spelt
  rw [text, tokens]
  simpa only [String.append_assoc, List.append_assoc] using hall

mutual

/-- **The text of an expression spells its tokens.** -/
theorem fragment : ∀ expr : Expr, expr.isWritten = true → Fragment expr.text expr.tokens
  | lit value, h => value.fragment h
  | var _, h => .name h
  | call operator operands, h => by
      simp only [isWritten, Bool.and_eq_true] at h
      obtain ⟨⟨⟨_, hoperator⟩, _⟩, hoperands⟩ := h
      exact fragment_call (fragment operator hoperator) (fragments operands hoperands)
  | record .., h | function .., h | scope .., h | closure _, h => by
      rw [isWritten] at h
      cases h

theorem fragments : ∀ operands : List Expr, areWritten operands = true →
    ∀ operand ∈ operands, Fragment operand.text operand.tokens
  | [], _, _, hmem => absurd hmem List.not_mem_nil
  | first :: rest, h, operand, hmem => by
      rw [areWritten, Bool.and_eq_true] at h
      rcases List.mem_cons.1 hmem with hfirst | hmem
      · rw [hfirst]
        exact fragment first h.1
      · exact fragments rest h.2 operand hmem

end

end Expr

end Offside
