import Offside.Proofs.Scopes
import Offside.Proofs.Written

/-!
# Written outlines are read back

The tokens of an outline are those of its heads, with a terminator after each and braces around what
is nested:

* `Outline.tokens`, `Item.tokens` -- the tokens;
* `Outline.isWritten`, `Item.isWritten` -- whether a text can write it.

What a text can write is derived from its tokens, part by part, so that the reader reads it back
(`Program.ofTokens_items`).
-/

namespace Offside

/-! ## 1. Types -/

namespace Ty

theorem derivesAll_joinedTokens : ∀ tys : List Ty, (∀ ty ∈ tys, Derives ty.tokens ty) →
    DerivesAll (joinedTokens .comma tys) tys
  | [], _ => by
      rw [joinedTokens]
      exact .nil
  | [ty], h => by
      rw [joinedTokens, moreTokens, List.append_nil]
      exact .one (h ty (List.mem_singleton_self ty))
  | ty :: next :: tys, h => by
      have hrest := derivesAll_joinedTokens (next :: tys) fun t ht => h t (List.mem_cons_of_mem ty ht)
      rw [joinedTokens] at hrest
      rw [joinedTokens, moreTokens]
      exact .cons (h ty List.mem_cons_self) hrest

mutual

theorem derives_tokens : ∀ ty : Ty, ty.isWritten = true → Derives ty.tokens ty
  | named name, _ => by
      rw [tokens]
      exact .named name
  | func params result, h => by
      rw [isWritten, Bool.and_eq_true] at h
      rw [tokens]
      exact .func (derivesAll_joinedTokens params (derives_tokens_of_mem params h.1))
        (derives_tokens result h.2)
  | struct _, h | union _, h => by
      rw [isWritten] at h
      cases h

theorem derives_tokens_of_mem : ∀ tys : List Ty, areWritten tys = true →
    ∀ ty ∈ tys, Derives ty.tokens ty
  | [], _, _, hmem => absurd hmem List.not_mem_nil
  | first :: rest, h, ty, hmem => by
      rw [areWritten, Bool.and_eq_true] at h
      rcases List.mem_cons.1 hmem with hfirst | hmem
      · rw [hfirst]
        exact derives_tokens first h.1
      · exact derives_tokens_of_mem rest h.2 ty hmem

end

theorem derivesFields_fieldTokens : ∀ fields : List (String × Ty), fieldsWritten fields = true →
    DerivesFields (fieldTokens fields) fields
  | [], _ => by
      rw [fieldTokens]
      exact .nil
  | (name, ty) :: fields, h => by
      rw [fieldsWritten, List.all_cons, Bool.and_eq_true, Bool.and_eq_true] at h
      obtain ⟨⟨_, hty⟩, hfields⟩ := h
      rw [fieldTokens]
      exact .cons name (derives_tokens ty hty) (derivesFields_fieldTokens fields hfields)

end Ty

/-! ## 2. Expressions -/

namespace Expr

mutual

theorem plain_of_isWritten : ∀ expr : Expr, expr.isWritten = true → expr.Plain
  | lit value, _ => .lit value
  | var name, _ => .var name
  | call operator operands, h => by
      simp only [isWritten, Bool.and_eq_true, Bool.not_eq_true'] at h
      obtain ⟨⟨⟨hprimitive, hoperator⟩, hsome⟩, hoperands⟩ := h
      exact .call hprimitive (List.isEmpty_eq_false_iff.1 hsome)
        (plain_of_isWritten operator hoperator) (plain_of_areWritten operands hoperands)
  | record .., h | function .., h | scope .., h | closure _, h => by
      rw [isWritten] at h
      cases h

theorem plain_of_areWritten : ∀ operands : List Expr, areWritten operands = true →
    ∀ operand ∈ operands, operand.Plain
  | [], _, _, hmem => absurd hmem List.not_mem_nil
  | first :: rest, h, operand, hmem => by
      rw [areWritten, Bool.and_eq_true] at h
      rcases List.mem_cons.1 hmem with hfirst | hmem
      · rw [hfirst]
        exact plain_of_isWritten first h.1
      · exact plain_of_areWritten rest h.2 operand hmem

end

end Expr

/-! ## 3. Headers and declarations -/

namespace Header

/-- The tokens of a header. -/
def tokens (header : Header) : List Token :=
  .colon :: (header.ty.tokens ++ (Ty.fieldTokens header.params ++ .assign :: header.body.tokens))

/-- Whether a text can write the header: its parts, and each parameter once. -/
def isWritten (header : Header) : Bool :=
  header.ty.isWritten && Ty.fieldsWritten header.params && header.body.isWritten &&
    decide header.names.Nodup

theorem derives_tokens {header : Header} (h : header.isWritten = true) :
    header.Derives header.tokens := by
  simp only [isWritten, Bool.and_eq_true] at h
  obtain ⟨⟨⟨hty, hparams⟩, hbody⟩, hnames⟩ := h
  exact .mk (Ty.derives_tokens _ hty) (Ty.derivesFields_fieldTokens _ hparams)
    (of_decide_eq_true hnames) (.atom (Expr.plain_of_isWritten _ hbody).derivesAtom)

end Header

namespace Declaration

/-- The tokens of a declaration, after the declared name. -/
def tokens (declaration : Declaration) : List Token :=
  .colonEqual :: declaration.ty.tokens

/-- Whether a text can write the declaration: a field or an option at least, and each once. -/
def isWritten : Declaration → Bool
  | struct fields =>
    !fields.isEmpty && Ty.fieldsWritten fields && decide (fields.map (·.1)).Nodup
  | union options => !options.isEmpty && options.all Token.isName && decide options.Nodup

theorem joinedTokens_bar : ∀ options : List String,
    Ty.joinedTokens .bar (options.map .named) = (options.map Token.name).intersperse .bar
  | [] => by
      rw [List.map_nil, Ty.joinedTokens]
      rfl
  | [option] => by
      rw [List.map_singleton, Ty.joinedTokens, Ty.moreTokens, Ty.tokens]
      rfl
  | option :: next :: options => by
      have hrest := joinedTokens_bar (next :: options)
      rw [List.map_cons, Ty.joinedTokens] at hrest
      rw [List.map_cons, List.map_cons, Ty.joinedTokens, Ty.moreTokens, hrest, Ty.tokens]
      rfl

theorem eraseDups_of_nodup : ∀ {options : List String}, options.Nodup → options.eraseDups = options
  | [], _ => rfl
  | option :: options, h => by
      obtain ⟨hnew, hnodup⟩ := List.nodup_cons.1 h
      have hfilter : options.filter (fun other => !other == option) = options := by
        rw [List.filter_eq_self]
        intro other hother
        simp only [Bool.not_eq_true', beq_eq_false_iff_ne]
        rintro rfl
        exact hnew hother
      rw [List.eraseDups_cons, hfilter, eraseDups_of_nodup hnodup]

theorem derives_tokens {declaration : Declaration} (h : declaration.isWritten = true) :
    declaration.Derives declaration.tokens := by
  cases declaration with
  | struct fields =>
      simp only [isWritten, Bool.and_eq_true, Bool.not_eq_true'] at h
      obtain ⟨⟨hsome, hfields⟩, hnames⟩ := h
      rw [tokens, ty, Ty.tokens]
      exact .struct (Ty.derivesFields_fieldTokens fields hfields) (List.isEmpty_eq_false_iff.1 hsome)
        (of_decide_eq_true hnames)
  | union options =>
      simp only [isWritten, Bool.and_eq_true, Bool.not_eq_true'] at h
      obtain ⟨⟨hsome, _⟩, hnames⟩ := h
      have hunion := Derives.union (List.isEmpty_eq_false_iff.1 hsome)
      rw [eraseDups_of_nodup (of_decide_eq_true hnames)] at hunion
      rwa [tokens, ty, Ty.tokens, joinedTokens_bar]

end Declaration

/-! ## 4. Outlines and items -/

namespace Outline

mutual

/-- The tokens of a definition: those of its head, a terminator, and what is nested in braces. -/
def tokens : Outline → List Token
  | mk name header nested => .name name :: (header.tokens ++ .semicolon :: scopeTokens nested)

/-- The tokens of nested definitions with their braces; there are none without definitions. -/
def scopeTokens : List Outline → List Token
  | [] => []
  | outline :: rest => .scopeOpen :: (tokens outline ++ (listTokens rest ++ [.scopeClose]))

/-- The tokens of definitions one after the other. -/
def listTokens : List Outline → List Token
  | [] => []
  | outline :: rest => tokens outline ++ listTokens rest

end

mutual

/-- Whether a text can write the definition: names, headers, and in every scope each name once and
none of the parameters of the definition around it. -/
def isWritten : Outline → Bool
  | mk name header nested =>
    Token.isName name && header.isWritten && areWritten nested &&
      decide (nested.map Outline.name).Nodup &&
        (nested.map Outline.name).all fun inner => !header.names.contains inner

/-- Whether a text can write the definitions. -/
def areWritten : List Outline → Bool
  | [] => true
  | outline :: rest => isWritten outline && areWritten rest

end

/-- Items with one more definition at the front, if what is nested in it is derived. -/
theorem derives_mk {outermost : Bool} {rest : List Token} {items : List Item} {name : String}
    {header : Header} {nested : List Outline} (hheader : header.isWritten = true)
    (hnodup : (nested.map Outline.name).Nodup)
    (hfree : ∀ inner ∈ nested.map Outline.name, inner ∉ header.names)
    (hnested : Item.Derives false (listTokens nested) (nested.map .define))
    (hrest : Item.Derives outermost rest items) :
    Item.Derives outermost ((mk name header nested).tokens ++ rest)
      (.define (mk name header nested) :: items) := by
  have hhead := Header.derives_tokens hheader
  rw [tokens, List.cons_append, List.append_assoc, List.cons_append]
  cases nested with
  | nil =>
      rw [scopeTokens]
      refine .plain hhead ?_ (.terminator hrest)
      intro token htoken
      cases htoken
      rfl
  | cons outline others =>
      have hblock : Item.Derives outermost _ (.define (mk name header (outline :: others)) :: items) :=
        .block hhead 1 hnested hnodup hfree hrest
      simpa only [scopeTokens, listTokens, List.replicate_one, List.cons_append, List.append_assoc,
        List.nil_append] using hblock

mutual

theorem derives_tokens : ∀ outline : Outline, outline.isWritten = true →
    ∀ {outermost : Bool} {rest : List Token} {items : List Item},
      Item.Derives outermost rest items →
        Item.Derives outermost (outline.tokens ++ rest) (.define outline :: items)
  | mk name header nested, h, _, _, _, hrest => by
      simp only [isWritten, Bool.and_eq_true, List.all_eq_true, Bool.not_eq_true',
        List.contains_eq_mem, decide_eq_false_iff_not, decide_eq_true_eq] at h
      obtain ⟨⟨⟨⟨_, hheader⟩, hnested⟩, hnodup⟩, hfree⟩ := h
      exact derives_mk hheader hnodup hfree (derives_listTokens nested hnested) hrest

theorem derives_listTokens : ∀ outlines : List Outline, areWritten outlines = true →
    ∀ {outermost : Bool}, Item.Derives outermost (listTokens outlines) (outlines.map .define)
  | [], _, _ => by
      rw [listTokens]
      exact .nil
  | outline :: outlines, h, _ => by
      rw [areWritten, Bool.and_eq_true] at h
      rw [listTokens]
      exact derives_tokens outline h.1 (derives_listTokens outlines h.2)

end

end Outline

namespace Item

/-- The tokens of an item. -/
def tokens : Item → List Token
  | define outline => outline.tokens
  | declare name declaration => .name name :: (declaration.tokens ++ [.semicolon])

/-- Whether a text can write the item. -/
def isWritten : Item → Bool
  | define outline => outline.isWritten
  | declare name declaration => Token.isName name && declaration.isWritten

theorem derives_tokens : ∀ items : List Item, (∀ item ∈ items, item.isWritten = true) →
    Derives true (items.flatMap tokens) items
  | [], _ => .nil
  | item :: items, h => by
      have hitem := h item List.mem_cons_self
      have hrest := derives_tokens items fun other hother => h other (List.mem_cons_of_mem item hother)
      rw [List.flatMap_cons]
      cases item with
      | define outline => exact outline.derives_tokens hitem hrest
      | declare name declaration =>
          rw [isWritten, Bool.and_eq_true] at hitem
          rw [tokens, List.cons_append, List.append_assoc]
          refine .declare (Declaration.derives_tokens hitem.2) ?_ (.terminator hrest)
          intro token htoken
          cases htoken
          rfl

end Item

/-- **The tokens of items are read back as the program with these items.** -/
theorem Program.ofTokens_items (origin : Nat) {items : List Item}
    (hwritten : ∀ item ∈ items, item.isWritten = true) (hdistinct : Item.Distinct items)
    {lexemes : List Lexeme} (hc : Carries lexemes (items.flatMap Item.tokens)) :
    Program.ofTokens origin lexemes = .ok (Program.ofItems origin items) := by
  refine Derives.ofTokens_eq_ok ⟨items, ?_, hdistinct, rfl⟩
  rw [hc]
  exact Item.derives_tokens items hwritten

end Offside
