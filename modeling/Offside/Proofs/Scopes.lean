import Offside.Proofs.Heads

/-!
# The reader reads exactly the grammar

A list of lexemes is read as a program exactly if its tokens derive the program
(`Program.ofTokens_eq_ok_iff`).

* `Item.Derives.run_eq` -- the tokens of items are read, in every scope that admits the items;
* `Nesting.splits_of_run` -- what is read in a scope is items, up to the end of the scope.

The first is an induction on the derivation. The second follows the reader, and goes on twice where
a scope opens: inside of the scope, and after the brace that closes it.
-/

namespace Offside

variable {stop : Span} {origin : Nat} {outermost : Bool} {tokens : List Token} {items : List Item}

/-! ## 1. Terminators -/

theorem skipTerminators_scopeOpen {count : Nat} {front : List Lexeme}
    (hc : Carries front (List.replicate count .semicolon)) (brace : Span) (rest : List Lexeme) :
    skipTerminators (front ++ ⟨.scopeOpen, brace⟩ :: rest) = ⟨.scopeOpen, brace⟩ :: rest := by
  induction count generalizing front with
  | zero =>
      rw [hc.eq_nil]
      rfl
  | succ count ih =>
      obtain ⟨span, tail, rfl, htail⟩ := hc.uncons
      rw [List.cons_append, skipTerminators, ih htail]

theorem exists_of_skipTerminators (lexemes : List Lexeme) :
    ∃ count front, lexemes = front ++ skipTerminators lexemes ∧
      tokensOf front = List.replicate count .semicolon := by
  fun_induction skipTerminators lexemes with
  | case1 span rest ih =>
      obtain ⟨count, front, hrest, hfront⟩ := ih
      refine ⟨count + 1, ⟨.semicolon, span⟩ :: front, congrArg (_ :: ·) hrest, ?_⟩
      rw [tokensOf, List.map_cons, ← tokensOf, hfront, List.replicate_succ]
  | case2 => exact ⟨0, [], rfl, rfl⟩

/-- Terminators between items make no difference. -/
theorem Nesting.run_skipTerminators (nesting : Nesting) (lexemes : List Lexeme) :
    nesting.run stop origin (skipTerminators lexemes) = nesting.run stop origin lexemes := by
  fun_induction skipTerminators lexemes with
  | case1 span rest ih => rw [ih, (Takes.terminator span rest).run_eq]
  | case2 => rfl

/-! ## 2. Items are read -/

/-- Where a scope can end: at the end of the input, or before a brace that closes it. -/
def Closes (lexemes : List Lexeme) : Prop :=
  ∀ lexeme ∈ lexemes.head?, lexeme.token = .scopeClose

theorem closes_cons (brace : Span) (tail : List Lexeme) : Closes (⟨.scopeClose, brace⟩ :: tail) := by
  intro lexeme hlexeme
  cases hlexeme
  rfl

theorem Closes.noScope {lexemes : List Lexeme} (h : Closes lexemes) :
    NoScope (skipTerminators lexemes) := by
  rintro brace tail e
  unfold skipTerminators at e
  split at e
  · cases h _ rfl
  · subst e
    cases h _ rfl

namespace Item

/-- A head that is ended in its scope is ended for its reader. -/
theorem Ended.stops {lexemes rest : List Lexeme} (h : Ended (tokensOf lexemes))
    (hrest : Closes rest) : Header.Stops (lexemes ++ rest) := by
  cases lexemes with
  | nil =>
      intro lexeme hlexeme
      rw [hrest lexeme hlexeme]
      decide
  | cons first tail =>
      intro lexeme hlexeme
      cases hlexeme
      rw [h first.token rfl]
      decide

end Item

namespace Header

theorem stops_cons {token : Token} (h : token ∈ [.semicolon, .scopeOpen, .scopeClose]) (span : Span)
    (tail : List Lexeme) : Stops (⟨token, span⟩ :: tail) := by
  intro lexeme hlexeme
  cases hlexeme
  exact h

/-- Terminators may follow a header. -/
theorem stops_terminators {count : Nat} {front rest : List Lexeme}
    (hc : Carries front (List.replicate count .semicolon)) (hrest : Stops rest) :
    Stops (front ++ rest) := by
  cases count with
  | zero =>
      rw [hc.eq_nil]
      exact hrest
  | succ count =>
      obtain ⟨span, tail, rfl, _⟩ := hc.uncons
      exact stops_cons (by decide) span _

end Header

namespace Item

/-- No brace follows that would open a scope where items stand. -/
theorem Derives.noScope (h : Derives outermost tokens items) {lexemes rest : List Lexeme}
    (hc : Carries lexemes tokens) (hrest : Closes rest) :
    NoScope (skipTerminators (lexemes ++ rest)) := by
  have hname : ∀ (name : String) (span : Span) (tail : List Lexeme),
      NoScope (skipTerminators (⟨.name name, span⟩ :: tail)) := by
    intro name span tail brace after e
    cases e
  induction h generalizing lexemes with
  | nil =>
      rw [hc.eq_nil]
      exact hrest.noScope
  | terminator _ ih =>
      obtain ⟨span, tail, rfl, htail⟩ := hc.uncons
      rw [List.cons_append, skipTerminators]
      exact ih htail
  | plain _ _ _ | block _ _ _ _ _ _ | declare _ _ _ =>
      obtain ⟨span, tail, rfl, _⟩ := hc.uncons
      exact hname _ span _

end Item

/-- The lexemes of a header start with a colon, and are read. -/
theorem Header.Derives.parse_eq {header : Header} {front after : List Lexeme}
    (h : header.Derives (tokensOf front)) (hstops : Header.Stops after) (stop : Span)
    (owner : String) :
    ∃ colon tail, front = ⟨.colon, colon⟩ :: tail ∧
      Header.parse stop owner (⟨.colon, colon⟩ :: (tail ++ after)) = (.ok header, after) := by
  have hread : Header.parse stop owner (front ++ after) = (.ok header, after) :=
    Header.parse_eq_ok_iff.2 ⟨front, rfl, h, hstops⟩
  generalize htokens : tokensOf front = tokens at h
  cases h with
  | mk _ _ _ _ =>
      have hc : Carries front _ := htokens
      obtain ⟨colon, tail, rfl, _⟩ := hc.uncons
      exact ⟨colon, tail, rfl, hread⟩

namespace Nesting

variable {nesting : Nesting} {name : String} {header : Header} {declaration : Declaration}
  {front after : List Lexeme}

/-- The step over a definition without a scope of its own. -/
theorem takes_define (stop : Span) (origin : Nat) (hheader : header.Derives (tokensOf front))
    (hstops : Header.Stops after) (hscope : NoScope (skipTerminators after))
    (hnew : nesting.Admits [.define (.mk name header [])]) (span : Span) :
    Takes stop origin nesting (⟨.name name, span⟩ :: (front ++ after))
      (nesting.extend origin [.define (.mk name header [])]) (skipTerminators after) := by
  obtain ⟨colon, tail, rfl, hread⟩ := hheader.parse_eq hstops stop name
  rw [extend_define, Outline.definition_mk]
  exact .define hread hscope (admits_define_iff.1 hnew)

/-- The step into the scope of a definition. -/
theorem takes_enter (stop : Span) (origin : Nat) (hheader : header.Derives (tokensOf front))
    (hstops : Header.Stops after) {brace : Span} {rest : List Lexeme}
    (hscope : skipTerminators after = ⟨.scopeOpen, brace⟩ :: rest) (span : Span) :
    Takes stop origin nesting (⟨.name name, span⟩ :: (front ++ after))
      (nesting.enter name span brace header) rest := by
  obtain ⟨colon, tail, rfl, hread⟩ := hheader.parse_eq hstops stop name
  exact .enter hread hscope

/-- Definitions may stand in a scope if they have distinct names, and none of those of the
parameters around them. -/
theorem admits_enter_iff {span brace : Span} {nested : List Outline} :
    (nesting.enter name span brace header).Admits (nested.map .define) ↔
      (nested.map Outline.name).Nodup ∧ ∀ inner ∈ nested.map Outline.name, inner ∉ header.names := by
  rw [admits_map_define_iff]
  exact ⟨fun h => ⟨h.new.nodup, h.unreserved⟩, fun h => ⟨⟨h.1, fun _ _ => rfl⟩, h.2⟩⟩

/-- The step out of the scope of a definition. -/
theorem takes_leave (stop : Span) (origin : Nat) {nested : List Outline}
    (hnew : nesting.Admits [.define (.mk name header nested)]) (span brace closing : Span)
    (rest : List Lexeme) :
    Takes stop origin ((nesting.enter name span brace header).extend origin (nested.map .define))
      (⟨.scopeClose, closing⟩ :: rest)
      (nesting.extend origin [.define (.mk name header nested)]) rest := by
  rw [extend_map_define, extend_define, Outline.definition_mk]
  exact .leave closing rest rfl rfl (admits_define_iff.1 hnew)

/-- The step over a declaration. -/
theorem takes_declare (stop : Span) (origin : Nat)
    (hdeclaration : declaration.Derives (tokensOf front)) (hstops : Expr.Stops after)
    (hopening : nesting.scope.opening = none) (hnew : nesting.Admits [.declare name declaration])
    (span : Span) :
    Takes stop origin nesting (⟨.name name, span⟩ :: (front ++ after))
      (nesting.extend origin [.declare name declaration]) after := by
  obtain ⟨hdefinitions, hname⟩ := (admits_declare_iff origin).1 hnew
  have hread : nesting.declared.read stop name span (front ++ after) = (.ok declaration, after) :=
    Declared.read_eq_ok_iff.2 ⟨hname, front, rfl, hdeclaration, hstops⟩
  obtain ⟨more, hmore⟩ := hdeclaration.uncons
  have hc : Carries front (.colonEqual :: more) := hmore
  obtain ⟨mark, tail, rfl, _⟩ := hc.uncons
  rw [extend_declare]
  exact .declare hopening hread hdefinitions

end Nesting

namespace Item

/-- **The tokens of items are read**, and the reading goes on with what they define and declare. -/
theorem Derives.run_eq (h : Derives outermost tokens items) {nesting : Nesting}
    (hnew : nesting.Admits items) (hopening : outermost = nesting.scope.opening.isNone)
    {lexemes rest : List Lexeme} (hc : Carries lexemes tokens) (hrest : Closes rest) :
    nesting.run stop origin (lexemes ++ rest) =
      (nesting.extend origin items).run stop origin rest := by
  induction h generalizing nesting lexemes rest with
  | nil =>
      rw [hc.eq_nil]
      rfl
  | terminator _ ih =>
      obtain ⟨span, tail, rfl, htail⟩ := hc.uncons
      rw [List.cons_append, (Nesting.Takes.terminator span _).run_eq]
      exact ih hnew hopening htail hrest
  | @plain _ name header head tokens items hheader hended hitems ih =>
      obtain ⟨span, _, rfl, hafter⟩ := hc.uncons
      obtain ⟨front, back, rfl, rfl, rfl⟩ := hafter.unappend
      obtain ⟨hfirst, hothers⟩ := (Nesting.admits_cons_iff origin).1 hnew
      have htakes := Nesting.takes_define stop origin hheader (hended.stops hrest)
        (hitems.noScope rfl hrest) hfirst span
      rw [List.cons_append, List.append_assoc, htakes.run_eq, Nesting.run_skipTerminators,
        nesting.extend_cons origin _ items]
      exact ih hothers hopening rfl hrest
  | @block _ name header nested head inside tokens items hheader count _ hnodup hfree _ ihInside
      ihAfter =>
      obtain ⟨span, _, rfl, hafter⟩ := hc.uncons
      obtain ⟨front, _, rfl, rfl, hright⟩ := hafter.unappend
      obtain ⟨terminators, _, rfl, hterminators, hopen⟩ := hright.unappend
      obtain ⟨brace, _, rfl, hscope⟩ := hopen.uncons
      obtain ⟨middle, _, rfl, hmiddle, hclose⟩ := hscope.unappend
      obtain ⟨closing, back, rfl, hback⟩ := hclose.uncons
      obtain ⟨hfirst, hothers⟩ := (Nesting.admits_cons_iff origin).1 hnew
      simp only [List.cons_append, List.append_assoc]
      have hstops : Header.Stops (terminators ++ ⟨.scopeOpen, brace⟩ ::
          (middle ++ ⟨.scopeClose, closing⟩ :: (back ++ rest))) :=
        Header.stops_terminators hterminators (Header.stops_cons (by decide) brace _)
      have hopened := skipTerminators_scopeOpen hterminators brace
        (middle ++ ⟨.scopeClose, closing⟩ :: (back ++ rest))
      -- into the scope, over what is nested in it, and out again
      rw [(Nesting.takes_enter stop origin hheader hstops hopened span).run_eq,
        ihInside (Nesting.admits_enter_iff.2 ⟨hnodup, hfree⟩) rfl hmiddle (closes_cons closing _),
        (Nesting.takes_leave stop origin hfirst span brace closing _).run_eq,
        nesting.extend_cons origin _ items]
      exact ihAfter hothers hopening hback hrest
  | @declare name declaration head tokens items hdeclaration hended _ ih =>
      obtain ⟨span, _, rfl, hafter⟩ := hc.uncons
      obtain ⟨front, back, rfl, rfl, rfl⟩ := hafter.unappend
      obtain ⟨hfirst, hothers⟩ := (Nesting.admits_cons_iff origin).1 hnew
      have hstops := (Header.stops_iff.1 (hended.stops hrest)).1
      have htakes := Nesting.takes_declare stop origin hdeclaration hstops
        (Option.isNone_iff_eq_none.1 hopening.symm) hfirst span
      rw [List.cons_append, List.append_assoc, htakes.run_eq,
        nesting.extend_cons origin _ items]
      exact ih hothers hopening rfl hrest

end Item

/-! ## 3. What is read is items -/

namespace Item

/-- The tokens of items start with a name or a terminator. -/
theorem Derives.head (h : Derives outermost tokens items) :
    ∀ token ∈ tokens.head?, token = .semicolon ∨ ∃ name, token = .name name := by
  intro token htoken
  cases h with
  | nil => cases htoken
  | terminator _ =>
      cases htoken
      exact .inl rfl
  | plain _ _ _ | block _ _ _ _ _ _ | declare _ _ _ =>
      cases htoken
      exact .inr ⟨_, rfl⟩

/-- A head that its reader has ended before items is ended in its scope. -/
theorem Derives.ended {front last : List Lexeme} (h : Derives outermost (tokensOf front) items)
    (hstops : Expr.Stops (front ++ last)) : Ended (tokensOf front) := by
  intro token htoken
  cases front with
  | nil => cases htoken
  | cons first tail =>
      cases htoken
      have hends : first.token.endsExpression = true := hstops first rfl
      rcases h.head first.token rfl with hsemicolon | ⟨name, hname⟩
      · exact hsemicolon
      · rw [hname] at hends
        cases hends

/-- A nested scope has no declarations. -/
theorem Derives.exists_map_define (h : Derives outermost tokens items) (hnested : outermost = false) :
    ∃ nested : List Outline, items = nested.map .define := by
  induction h with
  | nil => exact ⟨[], rfl⟩
  | terminator _ ih => exact ih hnested
  | @plain _ name header _ _ _ _ _ _ ih =>
      obtain ⟨nested, rfl⟩ := ih hnested
      exact ⟨.mk name header [] :: nested, rfl⟩
  | @block _ name header inner _ _ _ _ _ _ _ _ _ _ _ ih =>
      obtain ⟨nested, rfl⟩ := ih hnested
      exact ⟨.mk name header inner :: nested, rfl⟩
  | declare _ _ _ => cases hnested

end Item

namespace Nesting

variable {nesting : Nesting} {lexemes : List Lexeme} {result : Reading Definitions × Declared}

/-- The scope that is being read ends before the lexemes. -/
def AtEnd (nesting : Nesting) (lexemes : List Lexeme) : Prop :=
  if nesting.scope.opening.isNone then lexemes = []
  else ∃ brace tail, lexemes = ⟨.scopeClose, brace⟩ :: tail

theorem atEnd_nil (hopening : nesting.scope.opening = none) : nesting.AtEnd [] := by
  rw [AtEnd, hopening]
  rfl

theorem atEnd_brace (hopening : nesting.scope.opening.isSome) (brace : Span) (tail : List Lexeme) :
    nesting.AtEnd (⟨.scopeClose, brace⟩ :: tail) := by
  obtain ⟨opening, hopening⟩ := Option.isSome_iff_exists.1 hopening
  rw [AtEnd, hopening]
  exact ⟨brace, tail, rfl⟩

/-- The lexemes are items that the scope admits, up to its end, and the reading goes on to a result
with what they define and declare. -/
def Splits (stop : Span) (origin : Nat) (nesting : Nesting) (lexemes : List Lexeme)
    (result : Reading Definitions × Declared) : Prop :=
  ∃ front last items, lexemes = front ++ last ∧
    Item.Derives nesting.scope.opening.isNone (tokensOf front) items ∧ nesting.Admits items ∧
      nesting.AtEnd last ∧ (nesting.extend origin items).run stop origin last = result

theorem splits_of_atEnd (hend : nesting.AtEnd lexemes)
    (hrun : nesting.run stop origin lexemes = result) : Splits stop origin nesting lexemes result :=
  ⟨[], lexemes, [], rfl, .nil, nesting.admits_nil, hend, hrun⟩

theorem Splits.terminator (h : Splits stop origin nesting lexemes result) (span : Span) :
    Splits stop origin nesting (⟨.semicolon, span⟩ :: lexemes) result := by
  obtain ⟨front, last, items, rfl, hitems, hrest⟩ := h
  exact ⟨⟨.semicolon, span⟩ :: front, last, items, rfl, .terminator hitems, hrest⟩

theorem Splits.skipTerminators (h : Splits stop origin nesting (skipTerminators lexemes) result) :
    Splits stop origin nesting lexemes result := by
  fun_induction Offside.skipTerminators lexemes with
  | case1 span rest ih => exact (ih h).terminator span
  | case2 => exact h

/-- One more item at the front. -/
theorem Splits.cons {item : Item} (head : List Lexeme) (hnew : nesting.Admits [item])
    (h : Splits stop origin (nesting.extend origin [item]) lexemes result)
    (hitem : ∀ front last items, lexemes = front ++ last →
      Item.Derives nesting.scope.opening.isNone (tokensOf front) items →
        Item.Derives nesting.scope.opening.isNone (tokensOf (head ++ front)) (item :: items)) :
    Splits stop origin nesting (head ++ lexemes) result := by
  obtain ⟨front, last, items, hlexemes, hitems, hothers, hend, hrun⟩ := h
  refine ⟨head ++ front, last, item :: items, ?_, hitem front last items hlexemes hitems,
    (admits_cons_iff origin).2 ⟨hnew, hothers⟩, hend, ?_⟩
  · rw [hlexemes, List.append_assoc]
  · rwa [nesting.extend_cons origin item items]

variable {name : String} {header : Header} {declaration : Declaration} {front after : List Lexeme}

theorem Splits.define (hheader : header.Derives (tokensOf front)) (hstops : Header.Stops after)
    (hnew : nesting.Admits [.define (.mk name header [])])
    (h : Splits stop origin (nesting.extend origin [.define (.mk name header [])]) after result)
    (span : Span) : Splits stop origin nesting (⟨.name name, span⟩ :: (front ++ after)) result := by
  refine Splits.cons (⟨.name name, span⟩ :: front) hnew h fun back last items hafter hitems => ?_
  subst hafter
  have hended := hitems.ended (Header.stops_iff.1 hstops).1
  rw [tokensOf, List.cons_append, List.map_cons, List.map_append]
  exact .plain hheader hended hitems

theorem Splits.declare (hopening : nesting.scope.opening = none)
    (hdeclaration : declaration.Derives (tokensOf front)) (hstops : Expr.Stops after)
    (hnew : nesting.Admits [.declare name declaration])
    (h : Splits stop origin (nesting.extend origin [.declare name declaration]) after result)
    (span : Span) : Splits stop origin nesting (⟨.name name, span⟩ :: (front ++ after)) result := by
  refine Splits.cons (⟨.name name, span⟩ :: front) hnew h fun back last items hafter hitems => ?_
  subst hafter
  have hended := hitems.ended hstops
  rw [hopening] at hitems ⊢
  rw [tokensOf, List.cons_append, List.map_cons, List.map_append]
  exact .declare hdeclaration hended hitems

theorem Splits.block {nested : List Outline} {inside tail : List Lexeme} {span brace closing : Span}
    (hheader : header.Derives (tokensOf front))
    (hscope : Offside.skipTerminators after =
      ⟨.scopeOpen, brace⟩ :: (inside ++ ⟨.scopeClose, closing⟩ :: tail))
    (hinside : Item.Derives false (tokensOf inside) (nested.map .define))
    (hadmits : (nesting.enter name span brace header).Admits (nested.map .define))
    (hnew : nesting.Admits [.define (.mk name header nested)])
    (h : Splits stop origin (nesting.extend origin [.define (.mk name header nested)]) tail result) :
    Splits stop origin nesting (⟨.name name, span⟩ :: (front ++ after)) result := by
  obtain ⟨hnodup, hfree⟩ := admits_enter_iff.1 hadmits
  obtain ⟨count, terminators, hafter, hterminators⟩ := exists_of_skipTerminators after
  have hall : ⟨.name name, span⟩ :: (front ++ after) =
      ⟨.name name, span⟩ :: (front ++ (terminators ++ ⟨.scopeOpen, brace⟩ ::
        (inside ++ [⟨.scopeClose, closing⟩]))) ++ tail := by
    rw [hafter, hscope]
    simp only [List.cons_append, List.append_assoc, List.nil_append]
  rw [hall]
  refine Splits.cons _ hnew h fun back last items _ hitems => ?_
  simp only [tokensOf, List.map_cons, List.map_append, List.cons_append, List.append_assoc,
    List.nil_append] at hterminators ⊢
  rw [hterminators]
  exact .block hheader count hinside hnodup hfree hitems

/-- After the brace that closes the scope of a definition the reading goes on around it. -/
theorem run_leave {nested : List Outline} {span brace closing : Span} {tail rest : List Lexeme}
    {definitions : Definitions} {declared : Declared}
    (h : ((nesting.enter name span brace header).extend origin (nested.map .define)).run stop origin
      (⟨.scopeClose, closing⟩ :: tail) = ((.ok definitions, rest), declared)) :
    nesting.Admits [.define (.mk name header nested)] ∧
      (nesting.extend origin [.define (.mk name header nested)]).run stop origin tail =
        ((.ok definitions, rest), declared) := by
  rcases takes_or_ends h with ⟨next, after, htakes, _⟩ | ⟨hends, _, _⟩
  · have hnew : nesting.Admits [.define (.mk name header nested)] := by
      cases htakes with
      | leave _ _ _ houter hnew =>
          cases houter
          exact admits_define_iff.2 hnew
    exact ⟨hnew, (takes_leave stop origin hnew span brace closing tail).run_eq ▸ h⟩
  · cases hends with
    | brace _ _ _ houter => cases houter

/-- **What is read in a scope is items, up to the end of the scope.** -/
theorem splits_of_run {rest : List Lexeme} {definitions : Definitions} {declared : Declared}
    (lexemes : List Lexeme)
    (h : nesting.run stop origin lexemes = ((.ok definitions, rest), declared)) :
    Splits stop origin nesting lexemes ((.ok definitions, rest), declared) := by
  induction hlength : lexemes.length using Nat.strongRecOn generalizing nesting lexemes with
  | ind n ih =>
      rcases takes_or_ends h with ⟨next, after, htakes, hafter⟩ | ⟨hends, _, _⟩
      · have hshorter : after.length < n := hlength ▸ length_step (step_eq_next_iff.2 htakes)
        have hnext := ih _ hshorter after hafter rfl
        cases htakes with
        | terminator span => exact hnext.terminator span
        | @define name span colon tail after header hread hscope hnew =>
            obtain ⟨front, hfront, hheader, hstops⟩ := Header.parse_eq_ok_iff.1 hread
            rw [hfront]
            have hadmits : nesting.Admits [.define (.mk name header [])] := admits_define_iff.2 hnew
            refine .define hheader hstops hadmits ?_ span
            rw [extend_define, Outline.definition_mk]
            exact hnext.skipTerminators
        | @enter name span colon brace tail after _ header hread hscope =>
            -- `hnext` is about what is nested; the induction is used again after the closing brace
            obtain ⟨front, hfront, hheader, _⟩ := Header.parse_eq_ok_iff.1 hread
            obtain ⟨inside, last, items, rfl, hinside, hadmits, hend, hlast⟩ := hnext
            obtain ⟨nested, rfl⟩ := hinside.exists_map_define rfl
            obtain ⟨closing, tail, rfl⟩ : ∃ closing tail, last = ⟨.scopeClose, closing⟩ :: tail := hend
            obtain ⟨hnew, htail⟩ := run_leave hlast
            have hshorter : tail.length < n := by
              rw [List.length_append, List.length_cons] at hshorter
              omega
            rw [hfront]
            exact .block hheader hscope hinside hadmits hnew (ih _ hshorter tail htail rfl)
        | @declare name span mark tail after declaration hopening hread hnew =>
            obtain ⟨hname, front, hfront, hdeclaration, hstops⟩ := Declared.read_eq_ok_iff.1 hread
            rw [hfront]
            have hadmits : nesting.Admits [.declare name declaration] :=
              (admits_declare_iff origin).2 ⟨hnew, hname⟩
            refine .declare hopening hdeclaration hstops hadmits ?_ span
            rw [extend_declare]
            exact hnext
        | leave brace _ hopening _ _ => exact splits_of_atEnd (atEnd_brace hopening brace _) h
      · cases hends with
        | input hopening => exact splits_of_atEnd (atEnd_nil hopening) h
        | brace brace _ hopening _ => exact splits_of_atEnd (atEnd_brace hopening brace _) h

end Nesting

/-! ## 4. Programs -/

theorem Nesting.admits_start_iff : Nesting.start.Admits items ↔ Item.Distinct items := by
  constructor
  · exact fun h => ⟨h.scope.new.nodup, h.types.nodup⟩
  · rintro ⟨hnames, htypes⟩
    exact ⟨⟨⟨hnames, fun _ _ => rfl⟩, fun _ _ => List.not_mem_nil⟩, htypes, fun _ _ => rfl⟩

theorem Nesting.run_extend_start (items : List Item) :
    (Nesting.start.extend origin items).run stop origin [] =
      ((.ok (Program.ofItems origin items).definitions, []),
        ⟨(Program.ofItems origin items).types, (Program.ofItems origin items).aliases⟩) :=
  Ends.run_eq (.input rfl) stop origin

namespace Program

variable {program : Program} {lexemes : List Lexeme}

/-- The tokens of a program are read as the program. -/
theorem Derives.ofTokens_eq_ok (h : program.Derives origin (tokensOf lexemes)) :
    ofTokens origin lexemes = .ok program := by
  obtain ⟨items, hitems, hdistinct, rfl⟩ := h
  refine ofTokens_eq_ok_iff_run.2 ⟨[], ?_⟩
  have hadmits := Nesting.admits_start_iff.2 hdistinct
  have hclosed : Closes [] := nofun
  rw [← List.append_nil lexemes, hitems.run_eq hadmits rfl rfl hclosed, Nesting.run_extend_start]

/-- What is read as a program is the tokens of the program. -/
theorem derives_of_ofTokens (h : ofTokens origin lexemes = .ok program) :
    program.Derives origin (tokensOf lexemes) := by
  obtain ⟨rest, hrun⟩ := ofTokens_eq_ok_iff_run.1 h
  obtain ⟨front, last, items, rfl, hitems, hadmits, hend, hlast⟩ := Nesting.splits_of_run lexemes hrun
  obtain rfl : last = [] := hend
  rw [Nesting.run_extend_start] at hlast
  refine ⟨items, ?_, Nesting.admits_start_iff.1 hadmits, ?_⟩
  · rwa [List.append_nil]
  · cases program
    cases hlast
    rfl

/-- **Lexemes are read as a program exactly if their tokens derive the program**: the reader accepts
all that the grammar allows, and nothing else. -/
theorem ofTokens_eq_ok_iff (origin : Nat) (lexemes : List Lexeme) (program : Program) :
    ofTokens origin lexemes = .ok program ↔
      program.Derives origin (lexemes.map (·.token)) :=
  ⟨derives_of_ofTokens, fun h => h.ofTokens_eq_ok⟩

end Program

end Offside
