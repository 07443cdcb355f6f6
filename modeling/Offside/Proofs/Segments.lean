import Mathlib.Data.List.Perm.Basic
import Offside.Proofs.Characters
import Offside.Proofs.Scopes

/-!
# Programs in segments

A program may be put together from segments, each a program by itself that ends with a terminator.
The order of the segments does not matter.

* `Item.Derives.append` -- the items of two segments, one after the other, are the items of both;
* `Item.Derives.run_duplicates` -- items that are not new are refused, because of a duplicate name,
  so that the reader has just two answers for the tokens of items (`Item.Derives.ofTokens_eq`);
* `Program.ofItems_perm` -- the order of items with distinct names does not matter;
* `Program.union_ofItems` -- the union of the programs of segments is the program of all items.

`ofTokens_segments` puts these together for any number of segments.
-/

namespace Offside

variable {stop : Span} {origin : Nat} {outermost : Bool} {tokens more : List Token}
  {items others : List Item}

/-! ## 1. There is no terminator in a head -/

mutual

theorem Ty.Derives.not_mem_semicolon {tokens : List Token} {ty : Ty} :
    Ty.Derives tokens ty → .semicolon ∉ tokens
  | .named _ => by simp
  | .func hparams hresult => by
      simp [hparams.not_mem_semicolon, hresult.not_mem_semicolon]

theorem Ty.DerivesAll.not_mem_semicolon {tokens : List Token} {tys : List Ty} :
    Ty.DerivesAll tokens tys → .semicolon ∉ tokens
  | .nil => by simp
  | .one h => h.not_mem_semicolon
  | .cons h rest => by simp [h.not_mem_semicolon, rest.not_mem_semicolon]

end

theorem Ty.DerivesFields.not_mem_semicolon {tokens : List Token} {fields : List (String × Ty)}
    (h : Ty.DerivesFields tokens fields) : .semicolon ∉ tokens := by
  induction h with
  | nil => simp
  | cons name hty _ ih => simp [hty.not_mem_semicolon, ih]

mutual

theorem Expr.Derives.not_mem_semicolon {tokens : List Token} {expr : Expr} :
    Expr.Derives tokens expr → .semicolon ∉ tokens
  | .atom h => h.not_mem_semicolon
  | .call hoperator _ hoperands _ => by
      simp [hoperator.not_mem_semicolon, hoperands.not_mem_semicolon]

theorem Expr.DerivesAtom.not_mem_semicolon {tokens : List Token} {expr : Expr} :
    Expr.DerivesAtom tokens expr → .semicolon ∉ tokens
  | .literal value => by cases value <;> simp [Literal.token]
  | .name _ => by simp
  | .paren h => by simp [h.not_mem_semicolon]

theorem Expr.DerivesAtoms.not_mem_semicolon {tokens : List Token} {exprs : List Expr} :
    Expr.DerivesAtoms tokens exprs → .semicolon ∉ tokens
  | .nil => by simp
  | .cons h rest => by simp [h.not_mem_semicolon, rest.not_mem_semicolon]

end

theorem Header.Derives.not_mem_semicolon {header : Header} (h : header.Derives tokens) :
    .semicolon ∉ tokens := by
  cases h with
  | mk hty hparams _ hbody =>
      simp [hty.not_mem_semicolon, hparams.not_mem_semicolon, hbody.not_mem_semicolon]

theorem Declaration.Derives.not_mem_semicolon {declaration : Declaration}
    (h : declaration.Derives tokens) : .semicolon ∉ tokens := by
  cases h with
  | struct hfields _ _ => simp [hfields.not_mem_semicolon]
  | @union options _ =>
      have hoptions : .semicolon ∉ (options.map Token.name).intersperse .bar := by
        induction options with
        | nil => simp
        | cons option rest ih =>
            cases rest with
            | nil => simp
            | cons next rest => simpa using ih
      simp [hoptions]

/-! ## 2. Items of two segments -/

namespace Item

/-- The tokens end with a terminator, or there are none. -/
def Closed (tokens : List Token) : Prop :=
  ∀ token ∈ tokens.getLast?, token = .semicolon

theorem Closed.of_append {front back : List Token} (h : Closed (front ++ back)) : Closed back := by
  intro token htoken
  refine h token ?_
  rw [List.getLast?_append, Option.mem_def.1 htoken]
  rfl

theorem Closed.of_cons {token : Token} (h : Closed (token :: tokens)) : Closed tokens := by
  rw [← List.singleton_append] at h
  exact h.of_append

/-- A closed segment does not end with a head. -/
theorem Closed.ne_nil {name : String} {head back : List Token} (hhead : .semicolon ∉ head)
    (h : Closed (.name name :: (head ++ back))) : back ≠ [] := by
  intro hnil
  rw [hnil, List.append_nil] at h
  have hlast := List.getLast?_eq_some_getLast (List.cons_ne_nil (Token.name name) head)
  have hmem := List.mem_of_getLast? hlast
  rw [h _ hlast] at hmem
  rcases List.mem_cons.1 hmem with heq | hmem
  · cases heq
  · exact hhead hmem

theorem Ended.append {front back : List Token} (h : Ended front) (hne : front ≠ []) :
    Ended (front ++ back) := by
  cases front with
  | nil => exact absurd rfl hne
  | cons token rest => exact h

/-- **The items of a closed segment and of what follows** are the items of both. -/
theorem Derives.append (h : Derives outermost tokens items) (hclosed : Closed tokens)
    (hothers : Derives outermost more others) :
    Derives outermost (tokens ++ more) (items ++ others) := by
  induction h with
  | nil => exact hothers
  | @terminator _ tokens items _ ih =>
      exact .terminator (ih hclosed.of_cons hothers)
  | @plain _ name header head tokens items hheader hended _ ih =>
      have hne := hclosed.ne_nil hheader.not_mem_semicolon
      rw [List.cons_append, List.append_assoc]
      exact .plain hheader (hended.append hne) (ih hclosed.of_cons.of_append hothers)
  | @block _ name header nested head inside tokens items hheader count hnested hnodup hfree _ _ ih =>
      have hscope : Closed (inside ++ .scopeClose :: tokens) :=
        hclosed.of_cons.of_append.of_append.of_cons
      simp only [List.cons_append, List.append_assoc]
      exact .block hheader count hnested hnodup hfree (ih hscope.of_append.of_cons hothers)
  | @declare name declaration head tokens items hdeclaration hended _ ih =>
      have hne := hclosed.ne_nil hdeclaration.not_mem_semicolon
      rw [List.cons_append, List.append_assoc]
      exact .declare hdeclaration (hended.append hne) (ih hclosed.of_cons.of_append hothers)

/-- The items of any number of closed segments. -/
theorem derives_flatMap {α : Type} {parts : List α} {tokens : α → List Token}
    {items : α → List Item} (hclosed : ∀ part ∈ parts, Closed (tokens part))
    (h : ∀ part ∈ parts, Derives outermost (tokens part) (items part)) :
    Derives outermost (parts.flatMap tokens) (parts.flatMap items) := by
  induction parts with
  | nil => exact .nil
  | cons part parts ih =>
      obtain ⟨hfirst, hrest⟩ := List.forall_mem_cons.1 h
      obtain ⟨hclosedFirst, hclosedRest⟩ := List.forall_mem_cons.1 hclosed
      rw [List.flatMap_cons, List.flatMap_cons]
      exact hfirst.append hclosedFirst (ih hclosedRest hrest)

end Item

/-! ## 3. Items that are not new -/

namespace OpenScope

variable {scope : OpenScope} {name : String} {span : Span} {definition : Definition}
  {entries : List (String × Definition)}

theorem add_eq_error (h : ¬scope.Admits [name]) :
    scope.add name span definition = .error ⟨span, .duplicate name⟩ := by
  cases hadd : scope.add name span definition with
  | ok next => exact absurd (add_eq_ok_iff.1 hadd).1 h
  | error error =>
      rw [add] at hadd
      split at hadd
      · exact hadd.symm
      · cases hadd

theorem addAll_eq_error (h : ¬scope.Admits (entries.map (·.1))) (span : Span) :
    ∃ name, scope.addAll span entries = .error ⟨span, .duplicate name⟩ := by
  induction entries generalizing scope with
  | nil => exact absurd scope.admits_nil h
  | cons entry rest ih =>
      obtain ⟨name, definition⟩ := entry
      rw [List.map_cons, admits_cons_iff definition, not_and_or] at h
      rw [addAll]
      by_cases hfirst : scope.Admits [name]
      · have hrest := h.resolve_left (not_not_intro hfirst)
        rw [add_eq_ok_iff.2 ⟨hfirst, rfl⟩]
        exact ih hrest
      · rw [add_eq_error hfirst]
        exact ⟨name, rfl⟩

end OpenScope

namespace Nesting

variable {nesting : Nesting} {name : String} {header : Header} {declaration : Declaration}
  {lexemes front after rest : List Lexeme} {span : Span}

/-- A run is refused because a name is given twice. -/
def Duplicates (result : Reading Definitions × Declared) : Prop :=
  ∃ span name, result.1.1 = .error ⟨span, .duplicate name⟩

theorem run_eq_of_done {outcome : Except ParseError Definitions} {declared : Declared}
    (h : nesting.step stop origin lexemes = .done outcome declared rest) :
    nesting.run stop origin lexemes = ((outcome, rest), declared) := by
  rw [run]
  split
  · rename_i hnext
    rw [h] at hnext
    cases hnext
  · rename_i hdone
    rw [h] at hdone
    cases hdone
    rfl

/-- A definition without a scope of its own, of a name that is not new. -/
theorem duplicates_define (stop : Span) (origin : Nat) (hheader : header.Derives (tokensOf front))
    (hstops : Header.Stops after) (hscope : NoScope (skipTerminators after))
    (hold : ¬nesting.Admits [.define (.mk name header [])]) (span : Span) :
    Duplicates (nesting.run stop origin (⟨.name name, span⟩ :: (front ++ after))) := by
  obtain ⟨colon, tail, rfl, hread⟩ := hheader.parse_eq hstops stop name
  have hname : ¬nesting.scope.Admits [name] := fun h => hold (admits_define_iff.2 h)
  have hstep : nesting.step stop origin (⟨.name name, span⟩ :: (⟨.colon, colon⟩ :: tail ++ after)) =
      .done (.error ⟨span, .duplicate name⟩) nesting.declared (skipTerminators after) := by
    rw [step, List.cons_append, item, hread, define.eq_def]
    dsimp only
    split
    · rename_i brace rest hopens
      exact absurd hopens (hscope brace rest)
    · rw [OpenScope.add_eq_error hname]
      rfl
  rw [run_eq_of_done hstep]
  exact ⟨span, name, rfl⟩

/-- The end of a definition with a scope of its own, of a name that is not new. -/
theorem duplicates_leave (stop : Span) (origin : Nat) {nested : List Outline}
    (hold : ¬nesting.Admits [.define (.mk name header nested)]) (span brace closing : Span)
    (rest : List Lexeme) :
    Duplicates (((nesting.enter name span brace header).extend origin
      (nested.map .define)).run stop origin (⟨.scopeClose, closing⟩ :: rest)) := by
  have hname : ¬nesting.scope.Admits [name] := fun h => hold (admits_define_iff.2 h)
  rw [extend_map_define]
  have hstep : Nesting.step { nesting.enter name span brace header with
        scope := (nesting.enter name span brace header).scope.extend (Outline.entries nested) }
      stop origin (⟨.scopeClose, closing⟩ :: rest) =
      .done (.error ⟨span, .duplicate name⟩) nesting.declared rest := by
    rw [step_scopeClose rfl, close]
    dsimp only [enter]
    rw [OpenScope.add_eq_error hname]
    rfl
  rw [run_eq_of_done hstep]
  exact ⟨span, name, rfl⟩

/-- A declaration of a name that is declared already, or with definitions of names that are not
new. -/
theorem duplicates_declare (stop : Span) (origin : Nat)
    (hdeclaration : declaration.Derives (tokensOf front)) (hstops : Expr.Stops after)
    (hopening : nesting.scope.opening = none) (hold : ¬nesting.Admits [.declare name declaration])
    (span : Span) :
    Duplicates (nesting.run stop origin (⟨.name name, span⟩ :: (front ++ after))) := by
  rw [admits_declare_iff origin, not_and_or] at hold
  obtain ⟨more, hmore⟩ := hdeclaration.uncons
  have hc : Carries front (.colonEqual :: more) := hmore
  obtain ⟨mark, tail, rfl, _⟩ := hc.uncons
  have hstep : nesting.step stop origin (⟨.name name, span⟩ :: (⟨.colonEqual, mark⟩ :: tail ++ after)) =
      nesting.declare origin name span
        (nesting.declared.read stop name span (⟨.colonEqual, mark⟩ :: tail ++ after)) := by
    rw [step, List.cons_append, item, hopening]
    rfl
  by_cases hname : Table.find? nesting.declared.types name = none
  · have hread : nesting.declared.read stop name span (⟨.colonEqual, mark⟩ :: tail ++ after) =
        (.ok declaration, after) :=
      Declared.read_eq_ok_iff.2 ⟨hname, _, rfl, hdeclaration, hstops⟩
    have hdefinitions := hold.resolve_right (not_not_intro hname)
    obtain ⟨taken, htaken⟩ := OpenScope.addAll_eq_error hdefinitions span
    rw [hread, declare, htaken] at hstep
    rw [run_eq_of_done hstep]
    exact ⟨span, taken, rfl⟩
  · have hdeclared : Table.contains nesting.declared.types name = true := by
      rw [← Bool.not_eq_false, Table.contains_eq_false]
      exact hname
    have hread : nesting.declared.read stop name span (⟨.colonEqual, mark⟩ :: tail ++ after) =
        (.error ⟨span, .duplicate name⟩, tail ++ after) := by
      rw [Declared.read, List.cons_append, expect_eq_ok_iff.2 rfl]
      exact if_pos hdeclared
    rw [hread, declare] at hstep
    rw [run_eq_of_done hstep]
    exact ⟨span, name, rfl⟩

end Nesting

namespace Item

/-- **Items that are not new are refused**, because of a name that is given twice. -/
theorem Derives.run_duplicates (h : Derives outermost tokens items) {nesting : Nesting}
    (hold : ¬nesting.Admits items) (hopening : outermost = nesting.scope.opening.isNone)
    {lexemes rest : List Lexeme} (hc : Carries lexemes tokens) (hrest : Closes rest) :
    Nesting.Duplicates (nesting.run stop origin (lexemes ++ rest)) := by
  induction h generalizing nesting lexemes rest with
  | nil => exact absurd nesting.admits_nil hold
  | terminator _ ih =>
      obtain ⟨span, tail, rfl, htail⟩ := hc.uncons
      rw [List.cons_append, (Nesting.Takes.terminator span _).run_eq]
      exact ih hold hopening htail hrest
  | @plain _ name header head tokens items hheader hended hitems ih =>
      obtain ⟨span, _, rfl, hafter⟩ := hc.uncons
      obtain ⟨front, back, rfl, rfl, rfl⟩ := hafter.unappend
      rw [Nesting.admits_cons_iff origin, not_and_or] at hold
      rw [List.cons_append, List.append_assoc]
      by_cases hfirst : nesting.Admits [.define (.mk name header [])]
      · have htakes := Nesting.takes_define stop origin hheader (hended.stops hrest)
          (hitems.noScope rfl hrest) hfirst span
        rw [htakes.run_eq, Nesting.run_skipTerminators]
        exact ih (hold.resolve_left (not_not_intro hfirst)) hopening rfl hrest
      · exact Nesting.duplicates_define stop origin hheader (hended.stops hrest)
          (hitems.noScope rfl hrest) hfirst span
  | @block _ name header nested head inside tokens items hheader count hnested hnodup hfree _ _ ih =>
      obtain ⟨span, _, rfl, hafter⟩ := hc.uncons
      obtain ⟨front, _, rfl, rfl, hright⟩ := hafter.unappend
      obtain ⟨terminators, _, rfl, hterminators, hopen⟩ := hright.unappend
      obtain ⟨brace, _, rfl, hscope⟩ := hopen.uncons
      obtain ⟨middle, _, rfl, hmiddle, hclose⟩ := hscope.unappend
      obtain ⟨closing, back, rfl, hback⟩ := hclose.uncons
      rw [Nesting.admits_cons_iff origin, not_and_or] at hold
      simp only [List.cons_append, List.append_assoc]
      have hstops : Header.Stops (terminators ++ ⟨.scopeOpen, brace⟩ ::
          (middle ++ ⟨.scopeClose, closing⟩ :: (back ++ rest))) :=
        Header.stops_terminators hterminators (Header.stops_cons (by decide) brace _)
      have hopened := skipTerminators_scopeOpen hterminators brace
        (middle ++ ⟨.scopeClose, closing⟩ :: (back ++ rest))
      -- what is nested is new to its own scope; the name is added behind it
      rw [(Nesting.takes_enter stop origin hheader hstops hopened span).run_eq,
        hnested.run_eq (Nesting.admits_enter_iff.2 ⟨hnodup, hfree⟩) rfl hmiddle
          (closes_cons closing _)]
      by_cases hfirst : nesting.Admits [.define (.mk name header nested)]
      · rw [(Nesting.takes_leave stop origin hfirst span brace closing _).run_eq]
        exact ih (hold.resolve_left (not_not_intro hfirst)) hopening hback hrest
      · exact Nesting.duplicates_leave stop origin hfirst span brace closing _
  | @declare name declaration head tokens items hdeclaration hended _ ih =>
      obtain ⟨span, _, rfl, hafter⟩ := hc.uncons
      obtain ⟨front, back, rfl, rfl, rfl⟩ := hafter.unappend
      rw [Nesting.admits_cons_iff origin, not_and_or] at hold
      have hstops := (Header.stops_iff.1 (hended.stops hrest)).1
      have hnone := Option.isNone_iff_eq_none.1 hopening.symm
      rw [List.cons_append, List.append_assoc]
      by_cases hfirst : nesting.Admits [.declare name declaration]
      · rw [(Nesting.takes_declare stop origin hdeclaration hstops hnone hfirst span).run_eq]
        exact ih (hold.resolve_left (not_not_intro hfirst)) hopening rfl hrest
      · exact Nesting.duplicates_declare stop origin hdeclaration hstops hnone hfirst span

end Item

theorem Program.ofTokens_eq_error {lexemes : List Lexeme} {error : ParseError}
    (h : (Nesting.start.run (endSpan lexemes) origin lexemes).1.1 = .error error) :
    Program.ofTokens origin lexemes = .error error := by
  rw [Nesting.start] at h
  rw [Program.ofTokens, Reader.program, Reader.scope, Reader.ofTokens]
  dsimp only
  rw [h]

/-- The tokens of items are read as the program of the items if no name is given twice, and refused
as a duplicate otherwise. -/
theorem Item.Derives.ofTokens_eq {lexemes : List Lexeme}
    (h : Item.Derives true (tokensOf lexemes) items) (origin : Nat) :
    (Item.Distinct items → Program.ofTokens origin lexemes = .ok (Program.ofItems origin items)) ∧
      (¬Item.Distinct items → ∃ error, Program.ofTokens origin lexemes = .error error ∧
        error.fault.code = "Duplicate") := by
  refine ⟨fun hdistinct => ?_, fun hold => ?_⟩
  · exact Program.Derives.ofTokens_eq_ok ⟨items, h, hdistinct, rfl⟩
  · rw [← Nesting.admits_start_iff] at hold
    have hclosed : Closes [] := nofun
    have hrun : Nesting.Duplicates
        (Nesting.start.run (endSpan lexemes) origin (lexemes ++ [])) :=
      h.run_duplicates hold rfl rfl hclosed
    rw [List.append_nil] at hrun
    obtain ⟨span, name, herror⟩ := hrun
    exact ⟨_, Program.ofTokens_eq_error herror, rfl⟩

/-! ## 4. Origins -/

/-- The definition, made for another origin. -/
def Definition.madeFor (origin : Nat) : Definition → Definition
  | .native ty params made => .native ty params { made with origin := origin }
  | definition => definition

/-- The program, with native functions that are made for another origin. -/
def Program.madeFor (program : Program) (origin : Nat) : Program :=
  { program with
    definitions := Table.mapEntries (fun _ => Definition.madeFor origin) program.definitions }

theorem Item.mapEntries_definitions (made origin : Nat) (item : Item) :
    Table.mapEntries (fun _ => Definition.madeFor origin) (item.definitions made) =
      item.definitions origin := by
  cases item with
  | define outline =>
      obtain ⟨name, ⟨ty, params, body⟩, nested⟩ := outline
      cases params with
      | nil => rfl
      | cons param params => rfl
  | declare name declaration =>
      cases declaration with
      | union options => rfl
      | struct fields =>
          simp only [Item.definitions, Definition.ofStruct, Table.mapEntries, List.map_cons,
            List.map_map]
          rfl

theorem Program.madeFor_ofItems (made origin : Nat) (items : List Item) :
    (Program.ofItems made items).madeFor origin = Program.ofItems origin items := by
  have hdefinitions : Table.mapEntries (fun _ => Definition.madeFor origin)
      (items.flatMap (Item.definitions made)) = items.flatMap (Item.definitions origin) := by
    rw [Table.mapEntries, List.map_flatMap]
    exact List.flatMap_congr fun item _ => item.mapEntries_definitions made origin
  rw [Program.madeFor, Program.ofItems, Table.mapEntries_ofList, hdefinitions, Program.ofItems]

/-! ## 5. Unions -/

namespace Program

/-- All that the programs define and declare. -/
def union (programs : List Program) : Program where
  definitions := Table.ofList (programs.flatMap definitions)
  aliases := Table.ofList (programs.flatMap aliases)
  types := Table.ofList (programs.flatMap types)

/-- No name is defined in both programs, and none is declared in both. -/
def Apart (program program' : Program) : Prop :=
  List.Disjoint (Table.names program.definitions) (Table.names program'.definitions) ∧
    List.Disjoint (Table.names program.types) (Table.names program'.types)

theorem madeFor_union (programs : List Program) (origin : Nat) :
    (union programs).madeFor origin = union (programs.map (madeFor · origin)) := by
  simp only [union, List.flatMap_map]
  rw [madeFor, Table.mapEntries_ofList, Table.mapEntries, List.map_flatMap]
  rfl

variable {α : Type} {parts : List α} {itemsOf : α → List Item}

/-- **The union of the programs of segments is the program of all their items.** -/
theorem union_ofItems (origin : Nat) (parts : List α) (itemsOf : α → List Item) :
    union (parts.map fun part => ofItems origin (itemsOf part)) =
      ofItems origin (parts.flatMap itemsOf) := by
  have hpart : ∀ {β : Type} (f : Item → List (String × β)),
      Table.ofList (parts.flatMap fun part => Table.ofList ((itemsOf part).flatMap f)) =
        Table.ofList ((parts.flatMap itemsOf).flatMap f) := by
    intro β f
    have hparts := Table.ofList_flatMap_ofList (parts.map fun part => (itemsOf part).flatMap f)
    rw [List.flatMap_map] at hparts
    rw [hparts, List.flatMap_assoc]
    rfl
  simp only [union, ofItems, List.flatMap_map, hpart]

theorem names_definitions (origin : Nat) (items : List Item) :
    Table.names (items.flatMap (Item.definitions origin)) = items.flatMap Item.names := by
  rw [Table.names, List.map_flatMap]
  exact List.flatMap_congr fun item _ => item.map_fst_definitions origin

theorem mem_names_ofItems {name : String} :
    name ∈ Table.names (ofItems origin items).definitions ↔ name ∈ items.flatMap Item.names := by
  rw [ofItems, Table.mem_names_ofList, names_definitions]

theorem mem_types_ofItems {name : String} :
    name ∈ Table.names (ofItems origin items).types ↔
      name ∈ (items.flatMap Item.types).map (·.1) := by
  rw [ofItems, Table.mem_names_ofList, Table.names]

/-- Programs of items are apart if the items have nothing in common. -/
theorem apart_ofItems_iff {made : Nat} :
    (ofItems made items).Apart (ofItems origin others) ↔
      List.Disjoint (items.flatMap Item.names) (others.flatMap Item.names) ∧
        List.Disjoint ((items.flatMap Item.types).map (·.1))
          ((others.flatMap Item.types).map (·.1)) := by
  simp only [Apart, List.Disjoint, mem_names_ofItems, mem_types_ofItems]

/-- **Items of segments have distinct names** if those of each segment have, and the programs of the
segments are pairwise apart. -/
theorem distinct_flatMap_iff {programOf : α → Program}
    (hdistinct : ∀ part ∈ parts, Item.Distinct (itemsOf part))
    (hprogram : ∀ part ∈ parts, ∃ made, programOf part = ofItems made (itemsOf part)) :
    Item.Distinct (parts.flatMap itemsOf) ↔ (parts.map programOf).Pairwise Apart := by
  have happart : (parts.map programOf).Pairwise Apart ↔ parts.Pairwise fun part part' =>
      List.Disjoint ((itemsOf part).flatMap Item.names) ((itemsOf part').flatMap Item.names) ∧
        List.Disjoint (((itemsOf part).flatMap Item.types).map (·.1))
          (((itemsOf part').flatMap Item.types).map (·.1)) := by
    rw [List.pairwise_map]
    refine List.Pairwise.iff_of_mem fun {part part'} hpart hpart' => ?_
    obtain ⟨made, hmade⟩ := hprogram part hpart
    obtain ⟨made', hmade'⟩ := hprogram part' hpart'
    rw [hmade, hmade', apart_ofItems_iff]
  rw [happart, List.pairwise_and_iff, Item.Distinct, List.flatMap_assoc, List.flatMap_assoc,
    List.map_flatMap, List.nodup_flatMap, List.nodup_flatMap]
  constructor
  · intro h
    exact ⟨h.1.2, h.2.2⟩
  · intro h
    exact ⟨⟨fun part hpart => (hdistinct part hpart).1, h.1⟩,
      fun part hpart => (hdistinct part hpart).2, h.2⟩

/-- The order of items does not matter to their names. -/
theorem distinct_perm_iff (hperm : items.Perm others) :
    Item.Distinct items ↔ Item.Distinct others :=
  and_congr (hperm.flatMap_right _).nodup_iff ((hperm.flatMap_right _).map _).nodup_iff

/-- A union is declared under a name of its own. -/
theorem names_aliases_sublist (items : List Item) :
    (Table.names (items.flatMap Item.aliases)).Sublist ((items.flatMap Item.types).map (·.1)) := by
  induction items with
  | nil => exact List.Sublist.slnil
  | cons item items ih =>
      have hitem : (item.aliases.map (·.1)).Sublist (item.types.map (·.1)) := by
        cases item with
        | define outline => exact List.Sublist.slnil
        | declare name declaration =>
            cases declaration with
            | struct fields => exact List.nil_sublist _
            | union options => exact List.Sublist.refl _
      simp only [Table.names, List.flatMap_cons, List.map_append]
      exact hitem.append ih

/-- **The order of items with distinct names does not matter.** -/
theorem ofItems_perm (origin : Nat) (hperm : items.Perm others) (hdistinct : Item.Distinct items) :
    ofItems origin items = ofItems origin others := by
  obtain ⟨hnames, htypes⟩ := hdistinct
  have hdefinitions := Table.ofList_perm (hperm.flatMap_right (Item.definitions origin))
    ((names_definitions origin items).symm ▸ hnames)
  have haliases := Table.ofList_perm (hperm.flatMap_right Item.aliases)
    (htypes.sublist (names_aliases_sublist items))
  have htypes' := Table.ofList_perm (hperm.flatMap_right Item.types) htypes
  rw [ofItems, ofItems, hdefinitions, haliases, htypes']

end Program

/-! ## 6. Segments -/

/-- **A program may be read in segments, in any order.** Each of the parts is a segment that is read
as a program by itself, and is empty or ends with a terminator. If the programs are pairwise apart,
the segments one after the other are read as their union, and otherwise they are refused because of
a duplicate. Any other order of the segments gives the same program, or is refused as a duplicate as
well. Programs are the same up to the origin that native functions are made for. -/
theorem ofTokens_segments (parts : List (List Lexeme × Program))
    (hread : ∀ part ∈ parts, ∃ made, Program.ofTokens made part.1 = .ok part.2)
    (hclosed : ∀ part ∈ parts, Item.Closed (tokensOf part.1)) (origin : Nat) :
    ((parts.map (·.2)).Pairwise Program.Apart →
      Program.ofTokens origin (parts.flatMap (·.1)) =
        .ok ((Program.union (parts.map (·.2))).madeFor origin)) ∧
    (¬(parts.map (·.2)).Pairwise Program.Apart →
      ∃ error, Program.ofTokens origin (parts.flatMap (·.1)) = .error error ∧
        error.fault.code = "Duplicate") ∧
    ∀ parts', parts.Perm parts' → ∀ origin',
      (∃ program, Program.ofTokens origin (parts.flatMap (·.1)) = .ok program ∧
        Program.ofTokens origin' (parts'.flatMap (·.1)) = .ok (program.madeFor origin')) ∨
      ∃ error error', Program.ofTokens origin (parts.flatMap (·.1)) = .error error ∧
        Program.ofTokens origin' (parts'.flatMap (·.1)) = .error error' ∧
        error.fault.code = "Duplicate" ∧ error'.fault.code = "Duplicate" := by
  have hitems : ∀ part ∈ parts, ∃ items, Item.Derives true (tokensOf part.1) items ∧
      Item.Distinct items ∧ ∃ made, part.2 = Program.ofItems made items := by
    intro part hpart
    obtain ⟨made, hmade⟩ := hread part hpart
    obtain ⟨items, hderives, hdistinct, hprogram⟩ := Program.derives_of_ofTokens hmade
    exact ⟨items, hderives, hdistinct, made, hprogram⟩
  choose! itemsOf hderives hdistinct hprogram using hitems
  have hall : ∀ parts', parts.Perm parts' →
      Item.Derives true (tokensOf (parts'.flatMap (·.1))) (parts'.flatMap itemsOf) := by
    intro parts' hperm
    rw [tokensOf, List.map_flatMap]
    exact Item.derives_flatMap (fun part hpart => hclosed part (hperm.mem_iff.2 hpart))
      fun part hpart => hderives part (hperm.mem_iff.2 hpart)
  have hapart := Program.distinct_flatMap_iff hdistinct hprogram
  have hunion : (Program.union (parts.map (·.2))).madeFor origin =
      Program.ofItems origin (parts.flatMap itemsOf) := by
    rw [Program.madeFor_union, List.map_map, ← Program.union_ofItems]
    refine congrArg Program.union (List.map_congr_left fun part hpart => ?_)
    obtain ⟨made, hmade⟩ := hprogram part hpart
    rw [Function.comp_apply, hmade, Program.madeFor_ofItems]
  obtain ⟨hok, herror⟩ := (hall parts (.refl parts)).ofTokens_eq origin
  refine ⟨fun h => ?_, fun h => herror (mt hapart.1 h), fun parts' hperm origin' => ?_⟩
  · rw [hunion]
    exact hok (hapart.2 h)
  · obtain ⟨hok', herror'⟩ := (hall parts' hperm).ofTokens_eq origin'
    have hitems := hperm.flatMap_right itemsOf
    rw [← Program.distinct_perm_iff hitems] at hok' herror'
    by_cases h : Item.Distinct (parts.flatMap itemsOf)
    · refine .inl ⟨_, hok h, ?_⟩
      rw [Program.madeFor_ofItems, Program.ofItems_perm origin' hitems h]
      exact hok' h
    · obtain ⟨error, hfails, hcode⟩ := herror h
      obtain ⟨error', hfails', hcode'⟩ := herror' h
      exact .inr ⟨error, error', hfails, hfails', hcode, hcode'⟩

/-- The declaration of a struct. -/
def pointSegment : List Lexeme :=
  lexemesOf [.name "Point", .colonEqual, .structWord, .name "x", .colon, .name "Integer", .semicolon]

/-- A constant that makes use of the struct. -/
def startSegment : List Lexeme :=
  lexemesOf [.name "start", .colon, .name "Point", .assign, .name "Point", .int 0, .semicolon]

theorem ofTokens_pointSegment_startSegment :
    ∃ point start, Program.ofTokens 1 pointSegment = .ok point ∧
      Program.ofTokens 2 startSegment = .ok start ∧
      Program.ofTokens 3 (pointSegment ++ startSegment) =
        .ok ((Program.union [point, start]).madeFor 3) ∧
      (∃ error, Program.ofTokens 3 (pointSegment ++ pointSegment) = .error error ∧
        error.fault.code = "Duplicate") := by
  obtain ⟨point, hpoint, hp⟩ := exists_of_reads (by decide +kernel : reads 1 pointSegment
    fun program => Table.names program.definitions = ["Point", "Point.x"] ∧
      Table.names program.types = ["Point"])
  obtain ⟨start, hstart, hp'⟩ := exists_of_reads (by decide +kernel : reads 2 startSegment
    fun program => Table.names program.definitions = ["start"] ∧ Table.names program.types = [])
  obtain ⟨hdefined, hdeclared⟩ := of_decide_eq_true hp
  obtain ⟨hdefined', hdeclared'⟩ := of_decide_eq_true hp'
  have hclosed : Item.Closed (tokensOf pointSegment) ∧ Item.Closed (tokensOf startSegment) := by
    unfold Item.Closed
    decide
  have happart : point.Apart start := by
    rw [Program.Apart, hdefined, hdeclared, hdefined', hdeclared']
    simp
  have hsame : ¬point.Apart point := by
    rw [Program.Apart, hdefined]
    simp
  have hboth := ofTokens_segments [(pointSegment, point), (startSegment, start)]
    (by simpa using ⟨⟨1, hpoint⟩, ⟨2, hstart⟩⟩) (by simpa using hclosed) 3
  have htwice := ofTokens_segments [(pointSegment, point), (pointSegment, point)]
    (by simpa using ⟨1, hpoint⟩) (by simpa using hclosed.1) 3
  refine ⟨point, start, hpoint, hstart, ?_, ?_⟩
  · simpa using hboth.1 (by simpa using happart)
  · simpa using htwice.2.1 (by simpa using hsame)

end Offside
