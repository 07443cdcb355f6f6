import Mathlib.Data.List.Flatten
import Offside.Proofs.Except
import Offside.Proofs.Legible
import Offside.Proofs.RoundTrip

/-!
# Types are read as they are printed

The text of a type that was read is read as this type: operators that stand as names are kept apart
from the arrow and from each other by the blanks, commas and parentheses of the text. A declared type
is printed as it is declared, so that its text after the name and a `:=` declares it again.

* `Ty.Derives.spelt` -- the text of a type spells the tokens that the type was read from;
* `Declaration.Derives.isWritten` -- a declaration with identifiers only is one that a line can write;
* `Layout.Clause.declare` -- the line of a declaration, whose name may be an operator;
* `ty_text_reread` -- both kinds of types are read again.

After a colon an operator may join it, as in `x:==`; so fields of such types are left out.
-/

namespace Offside

/-! ## 1. Types of definitions -/

namespace Ty

mutual

/-- **The text of a type spells the tokens that the type was read from**, if these are legible. -/
theorem Derives.spelt {tokens : List Token} {ty : Ty} :
    Derives tokens ty → (∀ token ∈ tokens, token.string? = none → token.isLegible = true) →
      Spelt ty.text.toList tokens
  | .named name, hlegible => by
      rw [text]
      exact .name (hlegible _ (List.mem_singleton_self _) rfl)
  | @Derives.func inside back params result hparams hresult, hlegible => by
      obtain ⟨_, hlegible⟩ := List.forall_mem_cons.1 hlegible
      obtain ⟨hinside, hlegible⟩ := List.forall_mem_append.1 hlegible
      obtain ⟨_, hlegible⟩ := List.forall_mem_cons.1 hlegible
      obtain ⟨hback, _⟩ := List.forall_mem_append.1 hlegible
      -- the arrow stands between blanks, whatever the types on both sides are
      have harrow : Spelt (' ' :: '-' :: '>' :: ' ' :: result.text.toList) (.arrow :: back) :=
        Separator.arrow.spelt (hresult.spelt hback)
      have hall := ((hparams.spelt hinside).append (Token.joins_cons (by decide) _) harrow).paren
      have htext : (func params result).text.toList =
          '(' :: (((", ".intercalate (texts params)).toList ++
            ' ' :: '-' :: '>' :: ' ' :: result.text.toList) ++ [')']) := by
        rw [text]
        simp only [String.toList_append, List.append_assoc]
        rfl
      rw [htext]
      rwa [List.append_assoc inside] at hall

theorem DerivesAll.spelt {tokens : List Token} {tys : List Ty} :
    DerivesAll tokens tys → (∀ token ∈ tokens, token.string? = none → token.isLegible = true) →
      Spelt (", ".intercalate (texts tys)).toList tokens
  | .nil, _ => by
      rw [texts, String.intercalate_nil]
      exact .nil
  | .one h, hlegible => by
      rw [texts, texts, String.intercalate_singleton]
      exact h.spelt hlegible
  | .cons h rest, hlegible => by
      obtain ⟨hfirst, hlegible⟩ := List.forall_mem_append.1 hlegible
      obtain ⟨_, hmore⟩ := List.forall_mem_cons.1 hlegible
      have hcomma := Separator.comma.spelt (rest.spelt hmore)
      rw [texts, texts, String.intercalate_cons_cons, ← texts, String.toList_append,
        String.toList_append, List.append_assoc]
      exact (h.spelt hfirst).append (Token.joins_cons (by decide) _) hcomma

end

/-- **The text of a type that was read is read as the type**, to its end. -/
theorem parse_text {source : String} {before tokens after : List Lexeme} {stop : Span} {ty : Ty}
    (hread : Token.read source = .ok (before ++ tokens)) (h : parse stop tokens = (.ok ty, after)) :
    ∃ reread, Token.read ty.text = .ok reread ∧ ∀ stop, parse stop reread = (.ok ty, []) := by
  obtain ⟨front, rfl, hderives⟩ := parse_eq_ok_iff.1 h
  have hlegible := (Token.read_eq_ok_iff.1 hread).isLegible
  rw [List.map_append, List.map_append] at hlegible
  have hfront := (List.forall_mem_append.1 (List.forall_mem_append.1 hlegible).2).1
  obtain ⟨reread, hscan, htokens⟩ := (hderives.spelt hfront).scan 0
  refine ⟨reread, hscan, fun stop => parse_eq_ok_iff.2 ⟨reread, (List.append_nil _).symm, ?_⟩⟩
  rw [tokensOf, htokens]
  exact hderives

/-! ## 2. Declared types -/

mutual

/-- A type that was read can be written if the names in it are identifiers. -/
theorem Derives.isWritten {tokens : List Token} {ty : Ty} :
    Derives tokens ty → (∀ name, .name name ∈ ty.tokens → Token.isName name = true) →
      ty.isWritten = true
  | .named name, hnames => by
      rw [Ty.tokens] at hnames
      rw [Ty.isWritten]
      exact hnames name (List.mem_singleton_self _)
  | .func hparams hresult, hnames => by
      rw [Ty.tokens] at hnames
      rw [Ty.isWritten, Bool.and_eq_true]
      constructor
      · refine hparams.areWritten fun name hname => hnames name (List.mem_cons_of_mem _ ?_)
        exact List.mem_append_left _ hname
      · refine hresult.isWritten fun name hname => hnames name (List.mem_cons_of_mem _ ?_)
        exact List.mem_append_right _ (List.mem_cons_of_mem _ (List.mem_append_left _ hname))

theorem DerivesAll.areWritten {tokens : List Token} {tys : List Ty} :
    DerivesAll tokens tys → (∀ name, .name name ∈ joinedTokens .comma tys → Token.isName name = true) →
      areWritten tys = true
  | .nil, _ => by rw [Ty.areWritten]
  | .one h, hnames => by
      rw [joinedTokens, moreTokens, List.append_nil] at hnames
      rw [Ty.areWritten, Ty.areWritten, Bool.and_true]
      exact h.isWritten hnames
  | .cons h rest, hnames => by
      rw [joinedTokens, moreTokens, ← joinedTokens] at hnames
      rw [Ty.areWritten, Bool.and_eq_true]
      constructor
      · exact h.isWritten fun name hname => hnames name (List.mem_append_left _ hname)
      · refine rest.areWritten fun name hname => hnames name (List.mem_append_right _ ?_)
        exact List.mem_cons_of_mem _ hname

end

theorem DerivesFields.isWritten {tokens : List Token} {fields : List (String × Ty)}
    (h : DerivesFields tokens fields)
    (hnames : ∀ name, .name name ∈ fieldTokens fields → Token.isName name = true) :
    fieldsWritten fields = true := by
  induction h with
  | nil => rfl
  | cons name hty _ ih =>
      rw [fieldTokens] at hnames
      have hname := hnames name List.mem_cons_self
      have hwritten := hty.isWritten fun other hother => hnames other
        (List.mem_cons_of_mem _ (List.mem_cons_of_mem _ (List.mem_append_left _ hother)))
      have hrest := ih fun other hother => hnames other
        (List.mem_cons_of_mem _ (List.mem_cons_of_mem _ (List.mem_append_right _ hother)))
      rw [fieldsWritten] at hrest ⊢
      rw [List.all_cons, hname, hwritten, hrest]
      rfl

theorem mem_moreTokens {separator token : Token} {ty : Ty} {tys : List Ty} (hty : ty ∈ tys)
    (htoken : token ∈ ty.tokens) : token ∈ moreTokens separator tys := by
  induction tys with
  | nil => cases hty
  | cons first rest ih =>
      rw [moreTokens]
      refine List.mem_cons_of_mem _ (List.mem_append.2 ?_)
      rcases List.mem_cons.1 hty with rfl | hty
      · exact .inl htoken
      · exact .inr (ih hty)

theorem mem_joinedTokens {separator token : Token} {ty : Ty} {tys : List Ty} (hty : ty ∈ tys)
    (htoken : token ∈ ty.tokens) : token ∈ joinedTokens separator tys := by
  cases hty with
  | head rest =>
      rw [joinedTokens]
      exact List.mem_append_left _ htoken
  | tail first hty =>
      rw [joinedTokens]
      exact List.mem_append_right _ (mem_moreTokens hty htoken)

end Ty

namespace Declaration

theorem ty_injective {declaration other : Declaration} (h : declaration.ty = other.ty) :
    declaration = other := by
  cases declaration with
  | struct fields =>
      cases other with
      | struct otherFields =>
          cases h
          rfl
      | union _ => cases h
  | union options =>
      cases other with
      | struct _ => cases h
      | union otherOptions =>
          have hinj : Function.Injective Ty.named := fun _ _ => Ty.named.inj
          exact congrArg union (hinj.list_map (Ty.union.inj h))

/-- A declaration that was read can be written if the names in it are identifiers. -/
theorem Derives.isWritten {tokens : List Token} {declaration : Declaration}
    (h : declaration.Derives tokens)
    (hnames : ∀ name, .name name ∈ declaration.ty.tokens → Token.isName name = true) :
    declaration.isWritten = true := by
  have hsound := h.sound
  cases h with
  | struct hfields _ _ =>
      rw [ty, Ty.tokens] at hnames
      have hwritten := hfields.isWritten fun name hname => hnames name (List.mem_cons_of_mem _ hname)
      rw [Declaration.isWritten, hwritten, decide_eq_true hsound.2,
        List.isEmpty_eq_false_iff.2 hsound.1]
      rfl
  | @union options _ =>
      rw [ty, Ty.tokens] at hnames
      have hwritten : options.eraseDups.all Token.isName = true := by
        refine List.all_eq_true.2 fun name hname => hnames name (List.mem_cons_of_mem _ ?_)
        refine Ty.mem_joinedTokens (List.mem_map_of_mem hname) ?_
        rw [Ty.tokens]
        exact List.mem_singleton_self _
      rw [Declaration.isWritten, hwritten, decide_eq_true hsound.2,
        List.isEmpty_eq_false_iff.2 hsound.1]
      rfl

end Declaration

namespace Layout.Clause

/-- A name is an identifier or an operator; a line may start with either. -/
theorem name {text : String} (h : (Token.name text).isLegible = true) :
    Clause text [.name text] := by
  have hspelt := Spelt.name h
  rw [Token.isLegible, Bool.or_eq_true, List.contains_iff_mem] at h
  rcases h with hname | hoperator
  · exact .ofFragment (.name hname)
  · have hink : (Token.operators.all fun operator => !operator.toList.isEmpty &&
        operator.toList.all fun c => !Text.isBlank c) = true := by decide
    have htext := List.all_eq_true.1 hink text hoperator
    simp only [Bool.and_eq_true, Bool.not_eq_true', List.isEmpty_eq_false_iff,
      List.all_eq_true] at htext
    obtain ⟨hne, hchars⟩ := htext
    obtain ⟨first, rest, htext⟩ := List.exists_cons_of_ne_nil hne
    refine ⟨fun c hc => Fragment.inline_of_isBlank (hchars c hc), ⟨first, rest, htext, ?_⟩,
      ⟨_, _, (List.dropLast_concat_getLast hne).symm, hchars _ (List.getLast_mem hne)⟩, hspelt⟩
    exact hchars first (htext ▸ List.mem_cons_self)

/-- A declaration after the declared name. -/
theorem declare {name type : String} {tokens : List Token} (hname : Clause name [.name name])
    (htype : Fragment type tokens) :
    Clause (name ++ " := " ++ type) (.name name :: .colonEqual :: tokens) := by
  have htext : (name ++ " := " ++ type).toList =
      name.toList ++ ' ' :: ':' :: '=' :: ' ' :: type.toList := by
    rw [String.toList_append, String.toList_append, List.append_assoc]
    rfl
  have hmark : Text.Inline [' ', ':', '=', ' '] := by decide
  have hspelt : Spelt (' ' :: ':' :: '=' :: ' ' :: type.toList) (.colonEqual :: tokens) :=
    Separator.colonEqual.spelt htype.spelt_self
  obtain ⟨first, rest, hhead, hfirst⟩ := hname.head
  obtain ⟨start, last, hink, hlast⟩ := htype.ink
  refine ⟨?_, ⟨first, rest ++ ' ' :: ':' :: '=' :: ' ' :: type.toList, ?_, hfirst⟩,
    ⟨name.toList ++ ' ' :: ':' :: '=' :: ' ' :: start, last, ?_, hlast⟩, ?_⟩
  · rw [htext]
    exact hname.inline.append (hmark.append htype.inline)
  · rw [htext, hhead, List.cons_append]
  · rw [htext, hink, List.append_assoc]
    rfl
  · rw [htext]
    exact hname.spelt.append (Token.joins_cons (by decide) _) hspelt

end Layout.Clause

namespace Item

/-- A declared name and its declaration are among the tokens that items were read from. -/
theorem Derives.of_mem {outermost : Bool} {tokens : List Token} {items : List Item}
    (h : Derives outermost tokens items) {name : String} {declaration : Declaration}
    (hmem : .declare name declaration ∈ items) :
    .name name ∈ tokens ∧ ∃ head, declaration.Derives head := by
  induction h with
  | nil => cases hmem
  | terminator _ ih =>
      obtain ⟨hname, hhead⟩ := ih hmem
      exact ⟨List.mem_cons_of_mem _ hname, hhead⟩
  | plain _ _ _ ih =>
      cases hmem with
      | tail _ hmem =>
          obtain ⟨hname, hhead⟩ := ih hmem
          exact ⟨List.mem_cons_of_mem _ (List.mem_append_right _ hname), hhead⟩
  | block _ _ _ _ _ _ _ ih =>
      cases hmem with
      | tail _ hmem =>
          obtain ⟨hname, hhead⟩ := ih hmem
          refine ⟨?_, hhead⟩
          simp only [List.mem_cons, List.mem_append, hname, or_true]
  | declare hdeclaration _ _ ih =>
      cases hmem with
      | head => exact ⟨List.mem_cons_self, _, hdeclaration⟩
      | tail _ hmem =>
          obtain ⟨hname, hhead⟩ := ih hmem
          exact ⟨List.mem_cons_of_mem _ (List.mem_append_right _ hname), hhead⟩

theorem Distinct.sublist {items part : List Item} (h : Distinct items)
    (hpart : part.Sublist items) : Distinct part :=
  ⟨h.1.sublist (hpart.flatMap _), h.2.sublist ((hpart.flatMap _).map _)⟩

/-- The type that a table of declared types gives a name is that of a declaration. -/
theorem exists_of_find?_types {items : List Item} {name : String} {ty : Ty}
    (h : Table.find? (Table.ofList (items.flatMap types)) name = some ty) :
    ∃ declaration : Declaration, .declare name declaration ∈ items ∧ ty = declaration.ty := by
  obtain ⟨item, hitem, hentry⟩ := List.mem_flatMap.1 (Table.mem_of_find?_ofList h)
  cases item with
  | define _ => cases hentry
  | declare other declaration =>
      cases List.mem_singleton.1 hentry
      exact ⟨declaration, hitem, rfl⟩

end Item

/-- What a program with one declaration declares. -/
theorem Program.find?_ofItems_declare (origin : Nat) (name : String) (declaration : Declaration) :
    Table.find? (ofItems origin [.declare name declaration]).types name = some declaration.ty ∧
      Table.find? (ofItems origin [.declare name declaration]).aliases name =
        declaration.options? := by
  constructor
  · rw [ofItems, Table.find?_ofList]
    exact if_pos rfl
  · cases declaration with
    | struct fields => rfl
    | union options =>
        rw [ofItems, Table.find?_ofList]
        exact if_pos rfl

/-- **The text of a declared type declares it**, if the names in it are identifiers. -/
theorem compile_declared {origin : Nat} {source : String} {program : Program}
    (h : compile origin source = .ok program) {name : String} {ty : Ty}
    (hty : Table.find? program.types name = some ty)
    (hnames : ∀ other, .name other ∈ ty.tokens → Token.isName other = true) :
    ∃ again, compile origin (name ++ " := " ++ ty.text) = .ok again ∧
      Table.find? again.types name = some ty ∧
        Table.find? again.aliases name = Table.find? program.aliases name := by
  obtain ⟨marked, _, h⟩ := except_bind_eq_ok h
  obtain ⟨lexemes, hread, h⟩ := except_bind_eq_ok h
  have hlegible := (Token.read_eq_ok_iff.1 (mapError_eq_ok hread)).isLegible
  have hwell := (Program.wellFormed_ofTokens (mapError_eq_ok h)).declared
  obtain ⟨items, hitems, hdistinct, rfl⟩ := Program.derives_of_ofTokens (mapError_eq_ok h)
  obtain ⟨declaration, hmem, rfl⟩ := Item.exists_of_find?_types hty
  obtain ⟨hname, head, hhead⟩ := hitems.of_mem hmem
  have hwritten := hhead.isWritten hnames
  have hstart := Layout.Clause.name (hlegible _ hname rfl)
  have hclause := hstart.declare (declaration.fragment_ty hwritten)
  have hitem : Item.Derives true ((.name name :: declaration.tokens) ++ [.semicolon])
      [.declare name declaration] :=
    .declare (Declaration.derives_tokens hwritten) (fun _ h => by cases h; rfl) (.terminator .nil)
  have hone : Item.Distinct [.declare name declaration] :=
    hdistinct.sublist (List.singleton_sublist.2 hmem)
  have hcompile := hclause.compile origin (by decide : Layout.isFiller "" = true) hitem hone
  rw [String.append_empty] at hcompile
  obtain ⟨htypes, haliases⟩ := Program.find?_ofItems_declare origin name declaration
  refine ⟨_, hcompile, htypes, ?_⟩
  obtain ⟨other, _, hother, hoptions⟩ := hwell.each name _ hty
  rw [haliases, Declaration.ty_injective hother]
  exact hoptions.symm

/-- **Types are read as they are printed.** A type that was read from lexemes of a text, anywhere in
it, is read again from its own text, to the end of it. A declared type whose names are identifiers is
declared again by its text, with the same options if it is a union. -/
theorem ty_text_reread :
    (∀ (source : String) (before tokens after : List Lexeme) (stop : Span) (ty : Ty),
      Token.read source = .ok (before ++ tokens) → Ty.parse stop tokens = (.ok ty, after) →
        ∃ reread, Token.read ty.text = .ok reread ∧
          ∀ stop, Ty.parse stop reread = (.ok ty, [])) ∧
    ∀ (origin : Nat) (source : String) (program : Program) (name : String) (ty : Ty),
      compile origin source = .ok program → Table.find? program.types name = some ty →
        (∀ other, .name other ∈ ty.tokens → Token.isName other = true) →
          ∃ again, compile origin (name ++ " := " ++ ty.text) = .ok again ∧
            Table.find? again.types name = some ty ∧
              Table.find? again.aliases name = Table.find? program.aliases name :=
  ⟨fun _ _ _ _ _ _ hread h => Ty.parse_text hread h,
    fun _ _ _ _ _ h hty hnames => compile_declared h hty hnames⟩

/-- A type with operators as names next to arrows, and functions without parameters. -/
def tangle : Ty :=
  .func [.func [] (.named "-"), .named "=="] (.func [.named ">", .integer] (.func [] (.named "%")))

/-- A struct with functions as fields, and a union under the name of an operator. -/
def slotSource : String :=
  "Cell := struct size:Integer next:( -> (Integer, Boolean -> Cell))\n== := union None|Cell | None"

theorem ty_text_reread_tangle :
    (∃ before tokens after stop,
      Token.read "f:(( -> -),== ->(>,Integer -> (->%))) = g" = .ok (before ++ tokens) ∧
        Ty.parse stop tokens = (.ok tangle, after) ∧
          ∃ reread, Token.read tangle.text = .ok reread ∧
            ∀ stop, Ty.parse stop reread = (.ok tangle, [])) ∧
    ∃ program again, compile programOrigin slotSource = .ok program ∧
      compile programOrigin "== := union None | Cell" = .ok again ∧
        Table.find? again.types "==" = some (.union [.named "None", .named "Cell"]) ∧
          Table.find? again.aliases "==" = Table.find? program.aliases "==" := by
  constructor
  · have hreads : ∃ source, "f:(( -> -),== ->(>,Integer -> (->%))) = g" = String.ofList source ∧
        readsTy source 2 fun ty => ty = tangle := ⟨_, rfl, by decide +kernel⟩
    obtain ⟨source, hsource, hreads⟩ := hreads
    obtain ⟨before, tokens, after, stop, ty, hread, hty, hp⟩ := exists_of_readsTy hsource hreads
    obtain rfl : ty = tangle := of_decide_eq_true hp
    exact ⟨before, tokens, after, stop, hread, hty, ty_text_reread.1 _ _ _ _ _ _ hread hty⟩
  · have hcompiles : ∃ source, slotSource = String.ofList source ∧
        compiles programOrigin source fun program =>
          Table.find? program.types "==" = some (.union [.named "None", .named "Cell"]) :=
      ⟨_, rfl, by decide +kernel⟩
    obtain ⟨source, hsource, hcompiles⟩ := hcompiles
    obtain ⟨program, hcompile, hp⟩ := exists_of_compiles hsource hcompiles
    have hnames : ∀ other, Token.name other ∈ (Ty.union [.named "None", .named "Cell"]).tokens →
        Token.isName other = true := by
      intro other hother
      simp [Ty.tokens, Ty.joinedTokens, Ty.moreTokens] at hother
      rcases hother with rfl | rfl <;> decide
    obtain ⟨again, hagain⟩ := ty_text_reread.2 _ _ _ _ _ hcompile (of_decide_eq_true hp) hnames
    exact ⟨program, again, hcompile, hagain⟩

end Offside
