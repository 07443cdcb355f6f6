import Offside.Proofs.Grammar

/-!
# Readers of types and expressions

A reader takes from the front of the lexemes what the grammar allows, and nothing else. Both
directions are proved: tokens that derive a type or an expression are read, inside of all that may
stand around them, and what is read is derived by the tokens that are used up
(`Ty.parse_eq_ok_iff`, `Expr.parse_eq_ok_iff`). Where the tokens stand does not matter: `Carries`
relates lexemes to their tokens.
-/

namespace Offside

/-! ## 1. Lexemes and their tokens -/

/-- The tokens of lexemes. -/
abbrev tokensOf (lexemes : List Lexeme) : List Token :=
  lexemes.map (·.token)

/-- The lexemes have the tokens. -/
def Carries (lexemes : List Lexeme) (tokens : List Token) : Prop :=
  tokensOf lexemes = tokens

namespace Carries

variable {lexemes : List Lexeme} {token : Token} {tokens more : List Token}

theorem eq_nil (h : Carries lexemes []) : lexemes = [] :=
  List.map_eq_nil_iff.1 h

theorem uncons (h : Carries lexemes (token :: tokens)) :
    ∃ span rest, lexemes = ⟨token, span⟩ :: rest ∧ Carries rest tokens := by
  obtain ⟨⟨found, span⟩, rest, rfl, rfl, hrest⟩ := List.map_eq_cons_iff.1 h
  exact ⟨span, rest, rfl, hrest⟩

theorem unappend (h : Carries lexemes (tokens ++ more)) :
    ∃ front back, lexemes = front ++ back ∧ Carries front tokens ∧ Carries back more :=
  List.map_eq_append_iff.1 h

end Carries

theorem expect_eq_ok_iff {stop span : Span} {wanted : Token} {place : Place}
    {lexemes rest : List Lexeme} :
    expect stop wanted place lexemes = (.ok span, rest) ↔ lexemes = ⟨wanted, span⟩ :: rest := by
  constructor
  · intro h
    cases lexemes with
    | nil => cases h
    | cons lexeme tail =>
        obtain ⟨found, at_⟩ := lexeme
        rw [expect] at h
        split at h
        · subst found
          cases h
          rfl
        · cases h
  · rintro rfl
    rw [expect, if_pos rfl]

/-! ## 2. Types -/

namespace Ty

variable {stop : Span} {ty : Ty} {rest : List Lexeme}

/-- What a reader meets where a type has to start. -/
theorem shift_eq_ok {stack : List Unfinished} {lexemes : List Lexeme}
    (h : shift stop stack lexemes = (.ok ty, rest)) :
    (∃ name span tail, lexemes = ⟨.name name, span⟩ :: tail ∧
      reduce stop (named name) stack tail = (.ok ty, rest)) ∨
    (∃ paren arrow tail, lexemes = ⟨.lparen, paren⟩ :: ⟨.arrow, arrow⟩ :: tail ∧
      shift stop (⟨paren, [], true⟩ :: stack) tail = (.ok ty, rest)) ∨
    (∃ paren tail, lexemes = ⟨.lparen, paren⟩ :: tail ∧
      shift stop (⟨paren, [], false⟩ :: stack) tail = (.ok ty, rest)) := by
  rw [shift.eq_def] at h
  split at h
  · cases h
  · exact .inl ⟨_, _, _, rfl, h⟩
  · exact .inr (.inl ⟨_, _, _, rfl, h⟩)
  · exact .inr (.inr ⟨_, _, rfl, h⟩)
  · cases h

/-- A parenthesis opens a function type with parameters unless an arrow follows. -/
theorem shift_lparen (stop paren : Span) (stack : List Unfinished) {tokens : List Lexeme}
    (h : ∀ span rest, tokens ≠ ⟨.arrow, span⟩ :: rest) :
    shift stop stack (⟨.lparen, paren⟩ :: tokens) =
      shift stop (⟨paren, [], false⟩ :: stack) tokens := by
  rw [shift]
  exact h

/-- What a reader meets after a parameter. -/
theorem reduce_param_eq_ok {paren : Span} {param : Ty} {params : List Ty} {stack : List Unfinished}
    {lexemes : List Lexeme}
    (h : reduce stop param (⟨paren, params, false⟩ :: stack) lexemes = (.ok ty, rest)) :
    (∃ span tail, lexemes = ⟨.comma, span⟩ :: tail ∧
      shift stop (⟨paren, params ++ [param], false⟩ :: stack) tail = (.ok ty, rest)) ∨
    (∃ span tail, lexemes = ⟨.arrow, span⟩ :: tail ∧
      shift stop (⟨paren, params ++ [param], true⟩ :: stack) tail = (.ok ty, rest)) := by
  cases lexemes with
  | nil =>
      rw [reduce] at h
      cases h
  | cons lexeme tail =>
      obtain ⟨found, span⟩ := lexeme
      rw [reduce] at h
      split at h
      · subst found
        exact .inl ⟨span, tail, rfl, h⟩
      · split at h
        · subst found
          exact .inr ⟨span, tail, rfl, h⟩
        · cases h

/-- What a reader meets after the result of a function type. -/
theorem reduce_result_eq_ok {paren : Span} {result : Ty} {params : List Ty}
    {stack : List Unfinished} {lexemes : List Lexeme}
    (h : reduce stop result (⟨paren, params, true⟩ :: stack) lexemes = (.ok ty, rest)) :
    ∃ span tail, lexemes = ⟨.rparen, span⟩ :: tail ∧
      reduce stop (func params result) stack tail = (.ok ty, rest) := by
  cases lexemes with
  | nil =>
      rw [reduce] at h
      cases h
  | cons lexeme tail =>
      obtain ⟨found, span⟩ := lexeme
      rw [reduce] at h
      split at h
      · subst found
        exact ⟨span, tail, rfl, h⟩
      · cases h

/-- A reader that has to start a type at the lexemes takes the tokens of one, and goes on. -/
def Shifts (stop : Span) (lexemes : List Lexeme) : Prop :=
  ∀ (stack : List Unfinished) (ty : Ty) (rest : List Lexeme),
    shift stop stack lexemes = (.ok ty, rest) →
      ∃ front back read, lexemes = front ++ back ∧ Derives (tokensOf front) read ∧
        reduce stop read stack back = (.ok ty, rest)

/-- The parameters of a function type, from the next one on. -/
theorem shift_params (lexemes : List Lexeme)
    (hshifts : ∀ other, other.length ≤ lexemes.length → Shifts stop other) {paren : Span}
    {params : List Ty} {stack : List Unfinished}
    (h : shift stop (⟨paren, params, false⟩ :: stack) lexemes = (.ok ty, rest)) :
    ∃ inside arrow back param more, lexemes = inside ++ ⟨.arrow, arrow⟩ :: back ∧
      DerivesAll (tokensOf inside) (param :: more) ∧
      shift stop (⟨paren, params ++ param :: more, true⟩ :: stack) back = (.ok ty, rest) := by
  obtain ⟨front, back, param, hlexemes, hparam, hback⟩ := hshifts lexemes (Nat.le_refl _) _ _ _ h
  rcases reduce_param_eq_ok hback with ⟨comma, tail, rfl, htail⟩ | ⟨arrow, tail, rfl, htail⟩
  · have hshorter : tail.length < lexemes.length := by
      rw [hlexemes, List.length_append, List.length_cons]
      omega
    obtain ⟨inside, arrow, back, next, more, rfl, hmore, hresult⟩ :=
      shift_params tail (fun other hother => hshifts other (by omega)) htail
    refine ⟨front ++ ⟨.comma, comma⟩ :: inside, arrow, back, param, next :: more, ?_, ?_, ?_⟩
    · rw [hlexemes, List.append_assoc]
      rfl
    · rw [tokensOf, List.map_append]
      exact .cons hparam hmore
    · rwa [List.append_assoc] at hresult
  · exact ⟨front, arrow, tail, param, [], hlexemes, .one hparam, htail⟩
termination_by lexemes.length

/-- The result of a function type, and the parenthesis after it. -/
theorem shift_result {lexemes : List Lexeme} (hshifts : Shifts stop lexemes) {paren : Span}
    {params : List Ty} {stack : List Unfinished}
    (h : shift stop (⟨paren, params, true⟩ :: stack) lexemes = (.ok ty, rest)) :
    ∃ front closing back result, lexemes = front ++ ⟨.rparen, closing⟩ :: back ∧
      Derives (tokensOf front) result ∧
      reduce stop (func params result) stack back = (.ok ty, rest) := by
  obtain ⟨front, back, result, rfl, hresult, hback⟩ := hshifts _ _ _ h
  obtain ⟨closing, tail, rfl, htail⟩ := reduce_result_eq_ok hback
  exact ⟨front, closing, tail, result, rfl, hresult, htail⟩

theorem shifts (lexemes : List Lexeme) : Shifts stop lexemes := by
  induction hlength : lexemes.length using Nat.strongRecOn generalizing lexemes with
  | ind n ih =>
      have hshorter : ∀ other, other.length < lexemes.length → Shifts stop other :=
        fun other hother => ih other.length (hlength ▸ hother) other rfl
      intro stack ty rest h
      rcases shift_eq_ok h with ⟨name, span, tail, rfl, htail⟩ | ⟨paren, arrow, tail, rfl, htail⟩ |
        ⟨paren, tail, rfl, htail⟩
      · exact ⟨[⟨.name name, span⟩], tail, named name, rfl, .named name, htail⟩
      · have htailShifts := hshorter tail (by simp only [List.length_cons]; omega)
        obtain ⟨front, closing, back, result, rfl, hresult, hback⟩ := shift_result htailShifts htail
        have hread : Derives _ (func [] result) := .func .nil hresult
        refine ⟨⟨.lparen, paren⟩ :: ⟨.arrow, arrow⟩ :: (front ++ [⟨.rparen, closing⟩]), back, _, ?_,
          ?_, hback⟩
        · simp only [List.cons_append, List.append_assoc, List.nil_append]
        · simpa only [tokensOf, List.map_cons, List.map_append, List.map_nil, List.nil_append]
            using hread
      · have htailShifts : ∀ other, other.length ≤ tail.length → Shifts stop other :=
          fun other hother => hshorter other (by simp only [List.length_cons]; omega)
        obtain ⟨inside, arrow, right, param, more, rfl, hparams, hright⟩ :=
          shift_params tail htailShifts htail
        have hrightShifts := htailShifts right
          (by simp only [List.length_append, List.length_cons]; omega)
        obtain ⟨front, closing, back, result, rfl, hresult, hback⟩ := shift_result hrightShifts hright
        rw [List.nil_append] at hback
        have hread : Derives _ (func (param :: more) result) := .func hparams hresult
        refine ⟨⟨.lparen, paren⟩ :: (inside ++ ⟨.arrow, arrow⟩ :: (front ++ [⟨.rparen, closing⟩])),
          back, _, ?_, ?_, hback⟩
        · simp only [List.cons_append, List.append_assoc, List.nil_append]
        · simpa only [tokensOf, List.map_cons, List.map_append, List.map_nil] using hread

/-! The other direction: the tokens of a type are read, inside all function types that are being
read. -/

theorem reduce_comma (stop paren span : Span) (ty : Ty) (params : List Ty)
    (stack : List Unfinished) (rest : List Lexeme) :
    reduce stop ty (⟨paren, params, false⟩ :: stack) (⟨.comma, span⟩ :: rest) =
      shift stop (⟨paren, params ++ [ty], false⟩ :: stack) rest := by
  rw [reduce, if_pos rfl]

theorem reduce_arrow (stop paren span : Span) (ty : Ty) (params : List Ty)
    (stack : List Unfinished) (rest : List Lexeme) :
    reduce stop ty (⟨paren, params, false⟩ :: stack) (⟨.arrow, span⟩ :: rest) =
      shift stop (⟨paren, params ++ [ty], true⟩ :: stack) rest := by
  rw [reduce, if_neg (by decide), if_pos rfl]

theorem reduce_rparen (stop paren span : Span) (ty : Ty) (params : List Ty)
    (stack : List Unfinished) (rest : List Lexeme) :
    reduce stop ty (⟨paren, params, true⟩ :: stack) (⟨.rparen, span⟩ :: rest) =
      reduce stop (func params ty) stack rest := by
  rw [reduce, if_pos rfl]

/-- The tokens are read as the type. -/
def IsRead (stop : Span) (tokens : List Token) (ty : Ty) : Prop :=
  ∀ (stack : List Unfinished) (lexemes rest : List Lexeme), Carries lexemes tokens →
    shift stop stack (lexemes ++ rest) = reduce stop ty stack rest

/-- The tokens are read as parameters, up to the arrow after them. -/
def AreRead (stop : Span) (tokens : List Token) (tys : List Ty) : Prop :=
  ∀ (paren arrow : Span) (params : List Ty) (stack : List Unfinished) (lexemes rest : List Lexeme),
    Carries lexemes tokens →
      shift stop (⟨paren, params, false⟩ :: stack) (lexemes ++ ⟨.arrow, arrow⟩ :: rest) =
        shift stop (⟨paren, params ++ tys, true⟩ :: stack) rest

/-- No type starts with an arrow. -/
theorem Derives.head {tokens : List Token} (h : Derives tokens ty) :
    ∃ first more, tokens = first :: more ∧ first ≠ .arrow := by
  cases h with
  | named name => exact ⟨.name name, [], rfl, nofun⟩
  | func _ _ => exact ⟨.lparen, _, rfl, nofun⟩

theorem DerivesAll.head {tokens : List Token} {tys : List Ty} (h : DerivesAll tokens tys)
    (hsome : tys ≠ []) : ∃ first more, tokens = first :: more ∧ first ≠ .arrow := by
  cases h with
  | nil => exact absurd rfl hsome
  | one h => exact h.head
  | cons h _ =>
      obtain ⟨first, more, rfl, hfirst⟩ := h.head
      exact ⟨first, _, rfl, hfirst⟩

/-- A function type is read if its parameters and its result are. -/
theorem isRead_func {inside back : List Token} {params : List Ty} {result : Ty}
    (hderives : DerivesAll inside params) (hparams : params ≠ [] → AreRead stop inside params)
    (hresult : IsRead stop back result) :
    IsRead stop (.lparen :: (inside ++ .arrow :: (back ++ [.rparen]))) (func params result) := by
  intro stack lexemes rest hc
  obtain ⟨paren, _, rfl, hopen⟩ := hc.uncons
  obtain ⟨left, _, rfl, hleft, hafter⟩ := hopen.unappend
  obtain ⟨arrow, _, rfl, hback⟩ := hafter.uncons
  obtain ⟨right, last, rfl, hright, hlast⟩ := hback.unappend
  obtain ⟨closing, _, rfl, hnil⟩ := hlast.uncons
  rw [hnil.eq_nil]
  have hend : shift stop (⟨paren, params, true⟩ :: stack) (right ++ [⟨.rparen, closing⟩] ++ rest) =
      reduce stop (func params result) stack rest := by
    rw [List.append_assoc, hresult _ right _ hright, List.singleton_append, reduce_rparen]
  rw [List.cons_append, List.append_assoc, List.cons_append]
  by_cases hsome : params = []
  · subst hsome
    cases hderives with
    | nil =>
        rw [hleft.eq_nil, List.nil_append, shift]
        exact hend
  · obtain ⟨first, more, rfl, hfirst⟩ := hderives.head hsome
    have hopened : shift stop stack (⟨.lparen, paren⟩ :: (left ++ ⟨.arrow, arrow⟩ ::
        (right ++ [⟨.rparen, closing⟩] ++ rest))) = shift stop (⟨paren, [], false⟩ :: stack)
          (left ++ ⟨.arrow, arrow⟩ :: (right ++ [⟨.rparen, closing⟩] ++ rest)) := by
      obtain ⟨span, others, rfl, _⟩ := hleft.uncons
      refine shift_lparen stop paren stack fun at_ tail e => hfirst ?_
      exact congrArg Lexeme.token (List.cons.inj e).1
    rw [hopened, hparams hsome paren arrow [] stack left _ hleft]
    exact hend

/-- Parameters are read if the first one and the others are. -/
theorem areRead_cons {tokens more : List Token} {first : Ty} {others : List Ty}
    (hfirst : IsRead stop tokens first) (hothers : AreRead stop more others) :
    AreRead stop (tokens ++ .comma :: more) (first :: others) := by
  intro paren arrow params stack lexemes rest hc
  obtain ⟨front, _, rfl, hfront, hafter⟩ := hc.unappend
  obtain ⟨comma, back, rfl, hback⟩ := hafter.uncons
  rw [List.append_assoc, hfirst _ front _ hfront, List.cons_append, reduce_comma,
    hothers paren arrow _ stack back rest hback, List.append_assoc]
  rfl

mutual

theorem Derives.isRead {tokens : List Token} {ty : Ty} : Derives tokens ty → IsRead stop tokens ty
  | .named name => by
      intro stack lexemes rest hc
      obtain ⟨span, _, rfl, hnil⟩ := hc.uncons
      rw [hnil.eq_nil, List.singleton_append, shift]
  | .func hparams hresult => isRead_func hparams hparams.areRead hresult.isRead

theorem DerivesAll.areRead {tokens : List Token} {tys : List Ty} :
    DerivesAll tokens tys → tys ≠ [] → AreRead stop tokens tys
  | .nil, hsome => absurd rfl hsome
  | .one h, _ => by
      intro paren arrow params stack lexemes rest hc
      rw [h.isRead _ lexemes _ hc, reduce_arrow]
  | .cons h rest, _ => areRead_cons h.isRead (rest.areRead nofun)

end

/-- **A reader reads a type exactly if the tokens that it takes derive the type.** -/
theorem parse_eq_ok_iff {lexemes : List Lexeme} :
    parse stop lexemes = (.ok ty, rest) ↔
      ∃ front, lexemes = front ++ rest ∧ Derives (tokensOf front) ty := by
  constructor
  · intro h
    obtain ⟨front, back, read, rfl, hread, hback⟩ := shifts lexemes _ _ _ h
    rw [reduce] at hback
    cases hback
    exact ⟨front, rfl, hread⟩
  · rintro ⟨front, rfl, hfront⟩
    rw [parse, hfront.isRead [] front rest rfl, reduce]

theorem parseAscription_eq_ok_iff {place : Place} {lexemes : List Lexeme} :
    parseAscription stop place lexemes = (.ok ty, rest) ↔
      ∃ colon front, lexemes = ⟨.colon, colon⟩ :: (front ++ rest) ∧ Derives (tokensOf front) ty := by
  rw [parseAscription, Reading.andThen_eq_ok_iff]
  constructor
  · rintro ⟨colon, tail, hcolon, htail⟩
    obtain ⟨front, rfl, hfront⟩ := parse_eq_ok_iff.1 htail
    exact ⟨colon, front, expect_eq_ok_iff.1 hcolon, hfront⟩
  · rintro ⟨colon, front, rfl, hfront⟩
    exact ⟨colon, front ++ rest, expect_eq_ok_iff.2 rfl, parse_eq_ok_iff.2 ⟨front, rfl, hfront⟩⟩

end Ty

/-! ## 3. Expressions -/

namespace Expr

variable {stop : Span} {expr : Expr} {rest : List Lexeme}

/-- The atoms of a group. -/
def Group.atoms : Group → List Expr
  | empty => []
  | headed head _ operands => head :: operands

theorem Group.atoms_push (group : Group) (atom : Expr) (span : Span) :
    (group.push atom span).atoms = group.atoms ++ [atom] := by
  cases group <;> rfl

theorem ofAtoms_eq_ok_iff {head : Expr} {span : Span} {operands : List Expr} :
    ofAtoms head span operands = .ok expr ↔
      (operands = [] ∧ expr = head) ∨
        (operands ≠ [] ∧ (∀ value, head ≠ lit value) ∧ expr = call head operands) := by
  cases operands with
  | nil =>
      rw [ofAtoms]
      constructor
      · intro h
        cases h
        exact .inl ⟨rfl, rfl⟩
      · rintro (⟨_, rfl⟩ | ⟨hsome, _⟩)
        · rfl
        · exact absurd rfl hsome
  | cons operand operands =>
      constructor
      · intro h
        cases head with
        | lit value => cases h
        | var _ | record _ _ | call _ _ | function _ _ _ | scope _ _ | closure _ =>
            cases h
            exact .inr ⟨nofun, nofun, rfl⟩
      · rintro (⟨hnone, _⟩ | ⟨_, hliteral, rfl⟩)
        · cases hnone
        · cases head with
          | lit value => exact absurd rfl (hliteral value)
          | var _ | record _ _ | call _ _ | function _ _ _ | scope _ _ | closure _ => rfl

/-- The tokens of atoms derive the expression that the atoms make. -/
theorem DerivesAtoms.derives {tokens : List Token} {head : Expr} {operands : List Expr}
    (h : DerivesAtoms tokens (head :: operands)) {span : Span}
    (hatoms : ofAtoms head span operands = .ok expr) : Derives tokens expr := by
  cases h with
  | @cons front back _ _ hhead hoperands =>
      rcases ofAtoms_eq_ok_iff.1 hatoms with ⟨rfl, rfl⟩ | ⟨hsome, hliteral, rfl⟩
      · cases hoperands
        rw [List.append_nil]
        exact .atom hhead
      · exact .call hhead hliteral hoperands hsome

theorem derivesAtom_of_ofToken? {token : Token} (h : ofToken? token = some expr) :
    DerivesAtom [token] expr := by
  cases token with
  | int value =>
      cases h
      exact .literal (.int value)
  | string value =>
      cases h
      exact .literal (.str value)
  | bool value =>
      cases h
      exact .literal (.bool value)
  | nothing =>
      cases h
      exact .literal .nothing
  | name name =>
      cases h
      exact .name name
  | structWord | unionWord | lparen | rparen | comma | colon | colonEqual | arrow | assign
  | semicolon | scopeOpen | scopeClose | bar => cases h

/-- A token that ends no expression is taken as an atom or as the start of one. -/
theorem Atoms.step_eq_take (atoms : Atoms) {token : Token} (h : token.endsExpression = false)
    (span : Span) : atoms.step token span = atoms.take token span := by
  unfold Atoms.step
  cases atoms.group with
  | empty => rfl
  | headed head headSpan operands =>
      simp only [h, Bool.false_eq_true, if_false]

/-- The end of the input, or a token that ends an expression. -/
def Stops (lexemes : List Lexeme) : Prop :=
  ∀ lexeme ∈ lexemes.head?, lexeme.token.endsExpression = true

theorem stops_nil : Stops [] := nofun

theorem stops_cons {token : Token} (h : token.endsExpression = true) (span : Span)
    (tail : List Lexeme) : Stops (⟨token, span⟩ :: tail) := by
  intro lexeme hlexeme
  cases hlexeme
  exact h

/-- What a reader meets inside an expression. -/
theorem readAtoms_eq_ok {group : Group} {stack : List (Span × Group)} {lexemes : List Lexeme}
    (h : readAtoms stop ⟨group, stack⟩ lexemes = (.ok expr, rest)) :
    (group.atoms ≠ [] ∧ Stops lexemes) ∨
    (∃ token span tail atom, lexemes = ⟨token, span⟩ :: tail ∧ ofToken? token = some atom ∧
      readAtoms stop ⟨group.push atom span, stack⟩ tail = (.ok expr, rest)) ∨
    (∃ span tail, lexemes = ⟨.lparen, span⟩ :: tail ∧
      readAtoms stop ⟨.empty, (span, group) :: stack⟩ tail = (.ok expr, rest)) := by
  cases lexemes with
  | nil =>
      cases group with
      | empty => cases h
      | headed head span operands => exact .inl ⟨nofun, stops_nil⟩
  | cons lexeme tail =>
      obtain ⟨token, span⟩ := lexeme
      by_cases hend : group.atoms ≠ [] ∧ token.endsExpression = true
      · exact .inl ⟨hend.1, stops_cons hend.2 span tail⟩
      · right
        have hstep : Atoms.step ⟨group, stack⟩ token span = Atoms.take ⟨group, stack⟩ token span := by
          cases group with
          | empty => rfl
          | headed head at_ operands =>
              refine Atoms.step_eq_take _ ?_ span
              rw [← Bool.not_eq_true]
              exact fun htoken => hend ⟨nofun, htoken⟩
        rw [readAtoms, hstep, Atoms.take] at h
        cases hatom : ofToken? token with
        | some atom =>
            rw [hatom] at h
            exact .inl ⟨token, span, tail, atom, rfl, hatom, h⟩
        | none =>
            rw [hatom] at h
            by_cases htoken : token = .lparen
            · subst htoken
              exact .inr ⟨span, tail, rfl, h⟩
            · simp only [if_neg htoken] at h
              cases h

/-- What becomes of the atoms of a group where it ends. -/
theorem readAtoms_stops {head : Expr} {span : Span} {operands : List Expr}
    {stack : List (Span × Group)} {lexemes : List Lexeme} (hstops : Stops lexemes)
    (h : readAtoms stop ⟨.headed head span operands, stack⟩ lexemes = (.ok expr, rest)) :
    ∃ read, ofAtoms head span operands = .ok read ∧
      ((stack = [] ∧ read = expr ∧ lexemes = rest) ∨
        ∃ paren outer others closing tail at_, stack = (paren, outer) :: others ∧
          lexemes = ⟨.rparen, closing⟩ :: tail ∧
          readAtoms stop ⟨outer.push read at_, others⟩ tail = (.ok expr, rest)) := by
  cases lexemes with
  | nil =>
      rw [readAtoms, Atoms.finish.eq_def] at h
      cases stack with
      | nil =>
          obtain ⟨hread, hrest⟩ := Prod.mk.inj h
          exact ⟨expr, hread, .inl ⟨rfl, rfl, hrest⟩⟩
      | cons open_ stack =>
          have hread := (Prod.mk.inj h).1
          dsimp only at hread
          cases hatoms : ofAtoms head span operands with
          | error error =>
              rw [hatoms] at hread
              cases hread
          | ok read =>
              rw [hatoms] at hread
              cases hread
  | cons lexeme tail =>
      obtain ⟨token, closing⟩ := lexeme
      have htoken : token.endsExpression = true := hstops _ rfl
      have hstep : Atoms.step ⟨.headed head span operands, stack⟩ token closing =
          Atoms.close (ofAtoms head span operands) stack token closing := if_pos htoken
      rw [readAtoms, hstep] at h
      cases hatoms : ofAtoms head span operands with
      | error error =>
          rw [hatoms, Atoms.close] at h
          cases h
      | ok read =>
          refine ⟨read, rfl, ?_⟩
          rw [hatoms] at h
          cases stack with
          | nil =>
              rw [Atoms.close] at h
              cases h
              exact .inl ⟨rfl, rfl, rfl⟩
          | cons open_ stack =>
              obtain ⟨paren, outer⟩ := open_
              rw [Atoms.close] at h
              by_cases hparen : token = .rparen
              · subst hparen
                exact .inr ⟨paren, outer, stack, closing, tail, _, rfl, rfl, h⟩
              · rw [if_neg hparen] at h
                cases h

/-- Outside of all parentheses the atoms of a group that ends make the expression. -/
theorem readAtoms_of_stops {head : Expr} {span : Span} {operands : List Expr}
    (hatoms : ofAtoms head span operands = .ok expr) (hstops : Stops rest) :
    readAtoms stop ⟨.headed head span operands, []⟩ rest = (.ok expr, rest) := by
  cases rest with
  | nil =>
      show (ofAtoms head span operands, []) = _
      rw [hatoms]
  | cons lexeme tail =>
      obtain ⟨token, closing⟩ := lexeme
      have htoken : token.endsExpression = true := hstops _ rfl
      have hstep : Atoms.step ⟨.headed head span operands, []⟩ token closing = .leave (.ok expr) := by
        simp only [Atoms.step, htoken, if_true, hatoms, Atoms.close]
      rw [readAtoms, hstep]

/-- **What is read inside an expression is atoms**, up to where their group ends. -/
theorem reads (lexemes : List Lexeme) {group : Group} {stack : List (Span × Group)}
    (h : readAtoms stop ⟨group, stack⟩ lexemes = (.ok expr, rest)) :
    ∃ front back read head span operands, lexemes = front ++ back ∧ Stops back ∧
      DerivesAtoms (tokensOf front) read ∧ group.atoms ++ read = head :: operands ∧
      readAtoms stop ⟨.headed head span operands, stack⟩ back = (.ok expr, rest) := by
  induction hlength : lexemes.length using Nat.strongRecOn generalizing lexemes group stack with
  | ind n ih =>
      rcases readAtoms_eq_ok h with ⟨hsome, hstops⟩ | ⟨token, span, tail, atom, rfl, hatom, htail⟩ |
        ⟨paren, tail, rfl, htail⟩
      · cases group with
        | empty => exact absurd rfl hsome
        | headed head span operands =>
            exact ⟨[], lexemes, [], head, span, operands, rfl, hstops, .nil, List.append_nil _, h⟩
      · have hshorter : tail.length < n := by
          rw [← hlength, List.length_cons]
          omega
        obtain ⟨front, back, read, head, at_, operands, rfl, hstops, hread, hatoms, hback⟩ :=
          ih _ hshorter tail htail rfl
        refine ⟨⟨token, span⟩ :: front, back, atom :: read, head, at_, operands, rfl, hstops,
          .cons (derivesAtom_of_ofToken? hatom) hread, ?_, hback⟩
        rwa [Group.atoms_push, List.append_assoc] at hatoms
      · have hshorter : tail.length < n := by
          rw [← hlength, List.length_cons]
          omega
        obtain ⟨inside, after, _, head, at_, operands, rfl, hstops, hinside, rfl, hafter⟩ :=
          ih _ hshorter tail htail rfl
        obtain ⟨atom, hatom, ⟨hnone, _⟩ | ⟨_, _, _, closing, tail, span, hstack, rfl, htail⟩⟩ :=
          readAtoms_stops hstops hafter
        · cases hnone
        cases hstack
        have hshorter : tail.length < n := by
          simp only [← hlength, List.length_cons, List.length_append]
          omega
        obtain ⟨front, back, read, head, at_, operands, rfl, hstops, hread, hatoms, hback⟩ :=
          ih _ hshorter tail htail rfl
        have hparen := DerivesAtom.paren (hinside.derives hatom)
        have hall := DerivesAtoms.cons hparen hread
        refine ⟨⟨.lparen, paren⟩ :: (inside ++ ⟨.rparen, closing⟩ :: front), back, atom :: read, head,
          at_, operands, ?_, hstops, ?_, ?_, hback⟩
        · simp only [List.cons_append, List.append_assoc]
        · simpa only [tokensOf, List.map_cons, List.map_append, List.cons_append, List.append_assoc,
            List.nil_append] using hall
        · rwa [Group.atoms_push, List.append_assoc] at hatoms

/-! The other direction: the tokens of atoms are read, in every group. -/

/-- The tokens are read as the atoms. -/
def AreRead (stop : Span) (tokens : List Token) (exprs : List Expr) : Prop :=
  ∀ (group : Group) (stack : List (Span × Group)) (lexemes rest : List Lexeme),
    Carries lexemes tokens →
      ∃ group', group'.atoms = group.atoms ++ exprs ∧
        readAtoms stop ⟨group, stack⟩ (lexemes ++ rest) = readAtoms stop ⟨group', stack⟩ rest

/-- The tokens are read as the atoms of an expression. -/
def IsRead (stop : Span) (tokens : List Token) (expr : Expr) : Prop :=
  ∃ head operands, (∀ span, ofAtoms head span operands = .ok expr) ∧
    AreRead stop tokens (head :: operands)

theorem areRead_token {token : Token} (hends : token.endsExpression = false)
    (hatom : ofToken? token = some expr) : AreRead stop [token] [expr] := by
  intro group stack lexemes rest hc
  obtain ⟨span, _, rfl, hnil⟩ := hc.uncons
  have hstep : Atoms.step ⟨group, stack⟩ token span = .next ⟨group.push expr span, stack⟩ := by
    rw [Atoms.step_eq_take _ hends, Atoms.take, hatom]
  refine ⟨group.push expr span, group.atoms_push expr span, ?_⟩
  rw [hnil.eq_nil, List.singleton_append, readAtoms, hstep]

theorem areRead_append {front back : List Token} {first others : List Expr}
    (hfirst : AreRead stop front first) (hothers : AreRead stop back others) :
    AreRead stop (front ++ back) (first ++ others) := by
  intro group stack lexemes rest hc
  obtain ⟨left, right, rfl, hleft, hright⟩ := hc.unappend
  obtain ⟨middle, hmiddle, hread⟩ := hfirst group stack left (right ++ rest) hleft
  obtain ⟨last, hlast, hall⟩ := hothers middle stack right rest hright
  refine ⟨last, ?_, ?_⟩
  · rw [hlast, hmiddle, List.append_assoc]
  · rw [List.append_assoc, hread, hall]

/-- An expression in parentheses is read if the expression is. -/
theorem areRead_paren {tokens : List Token} (h : IsRead stop tokens expr) :
    AreRead stop (.lparen :: (tokens ++ [.rparen])) [expr] := by
  intro group stack lexemes rest hc
  obtain ⟨paren, _, rfl, hopen⟩ := hc.uncons
  obtain ⟨inside, last, rfl, hinside, hlast⟩ := hopen.unappend
  obtain ⟨closing, _, rfl, hnil⟩ := hlast.uncons
  obtain ⟨head, operands, hatoms, hread⟩ := h
  obtain ⟨read, hgroup, hall⟩ := hread .empty ((paren, group) :: stack) inside
    (⟨.rparen, closing⟩ :: rest) hinside
  have hstart : Atoms.step ⟨group, stack⟩ .lparen paren =
      .next ⟨.empty, (paren, group) :: stack⟩ := Atoms.step_eq_take _ rfl paren
  cases read with
  | empty => cases hgroup
  | headed first span others =>
      cases hgroup
      have hclose : Atoms.step ⟨.headed head span operands, (paren, group) :: stack⟩ .rparen closing =
          .next ⟨group.push expr ⟨paren.start, closing.stop⟩, stack⟩ := by
        simp only [Atoms.step, Token.endsExpression, if_true, hatoms, Atoms.close]
      refine ⟨_, group.atoms_push expr ⟨paren.start, closing.stop⟩, ?_⟩
      rw [hnil.eq_nil, List.cons_append, readAtoms, hstart]
      simp only [List.append_assoc, List.singleton_append]
      rw [hall, readAtoms, hclose]

mutual

theorem Derives.isRead {tokens : List Token} {expr : Expr} :
    Derives tokens expr → IsRead stop tokens expr
  | .atom h => ⟨expr, [], fun _ => ofAtoms_eq_ok_iff.2 (.inl ⟨rfl, rfl⟩), h.areRead⟩
  | .call hoperator hliteral hoperands hsome =>
      ⟨_, _, fun _ => ofAtoms_eq_ok_iff.2 (.inr ⟨hsome, hliteral, rfl⟩),
        areRead_append hoperator.areRead hoperands.areRead⟩

theorem DerivesAtom.areRead {tokens : List Token} {expr : Expr} :
    DerivesAtom tokens expr → AreRead stop tokens [expr]
  | .literal value => by
      cases value <;> exact areRead_token rfl rfl
  | .name name => areRead_token rfl rfl
  | .paren h => areRead_paren h.isRead

theorem DerivesAtoms.areRead {tokens : List Token} {exprs : List Expr} :
    DerivesAtoms tokens exprs → AreRead stop tokens exprs
  | .nil => by
      intro group stack lexemes rest hc
      rw [hc.eq_nil]
      exact ⟨group, (List.append_nil _).symm, rfl⟩
  | .cons h rest => areRead_append h.areRead rest.areRead

end

/-- **A reader reads an expression exactly if the tokens that it takes derive the expression**, and
a token follows that ends it, or nothing. -/
theorem parse_eq_ok_iff {lexemes : List Lexeme} :
    parse stop lexemes = (.ok expr, rest) ↔
      ∃ front, lexemes = front ++ rest ∧ Derives (tokensOf front) expr ∧ Stops rest := by
  constructor
  · intro h
    obtain ⟨front, back, read, head, span, operands, rfl, hstops, hread, rfl, hback⟩ :=
      reads lexemes h
    obtain ⟨_, hatoms, ⟨_, rfl, rfl⟩ | ⟨_, _, _, _, _, _, hstack, _⟩⟩ := readAtoms_stops hstops hback
    · exact ⟨front, rfl, hread.derives hatoms, hstops⟩
    · cases hstack
  · rintro ⟨front, rfl, hfront, hstops⟩
    have hread : IsRead stop (tokensOf front) expr := hfront.isRead
    obtain ⟨head, operands, hatoms, hread⟩ := hread
    obtain ⟨group, hgroup, hall⟩ := hread .empty [] front rest rfl
    cases group with
    | empty => cases hgroup
    | headed _ span _ =>
        cases hgroup
        rw [parse, hall, readAtoms_of_stops (hatoms span) hstops]

end Expr

theorem skipTerminators_eq_nil_iff {lexemes : List Lexeme} :
    skipTerminators lexemes = [] ↔ ∀ lexeme ∈ lexemes, lexeme.token = .semicolon := by
  fun_induction skipTerminators lexemes with
  | case1 span rest ih =>
      rw [ih, List.forall_mem_cons]
      exact ⟨fun h => ⟨rfl, h⟩, fun h => h.2⟩
  | case2 lexemes hother =>
      cases lexemes with
      | nil => exact ⟨fun _ _ hmem => absurd hmem List.not_mem_nil, fun _ => rfl⟩
      | cons lexeme rest =>
          obtain ⟨token, span⟩ := lexeme
          refine ⟨fun h => absurd h (List.cons_ne_nil _ _), fun h => ?_⟩
          obtain rfl : token = .semicolon := h _ List.mem_cons_self
          exact absurd rfl (hother span rest)

/-- **A whole list of tokens makes an expression exactly if it derives the expression**, up to
terminators at its end. -/
theorem Expr.ofTokens_iff_derives {expr : Expr} {lexemes : List Lexeme} :
    ofTokens lexemes = .ok expr ↔
      ∃ front rest, lexemes = front ++ rest ∧ Derives (tokensOf front) expr ∧
        ∀ lexeme ∈ rest, lexeme.token = .semicolon := by
  rw [ofTokens]
  constructor
  · intro h
    split at h
    · cases h
    · rename_i found rest hparse
      split at h
      · rename_i hend
        cases h
        obtain ⟨front, rfl, hfront, _⟩ := parse_eq_ok_iff.1 hparse
        exact ⟨front, rest, rfl, hfront, skipTerminators_eq_nil_iff.1 hend⟩
      · cases h
  · rintro ⟨front, rest, rfl, hfront, hend⟩
    have hstops : Stops rest := by
      intro lexeme hlexeme
      rw [hend lexeme (List.mem_of_mem_head? hlexeme)]
      rfl
    rw [parse_eq_ok_iff.2 ⟨front, rfl, hfront, hstops⟩]
    simp only [skipTerminators_eq_nil_iff.2 hend]

end Offside
