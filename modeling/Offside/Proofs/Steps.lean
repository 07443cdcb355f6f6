import Offside.Grammar.Scope
import Offside.Proofs.Table

/-!
# Steps of the reader of scopes

What the reader of scopes does with an item, said once for all that is proved about it:

* `OpenScope.Admits`, `OpenScope.extend` -- names that may be added to a scope, and the scope with
  their definitions;
* `Declared.find?_types_add`, `Declared.find?_aliases_add` -- what a declaration adds;
* `Nesting.Takes` -- all that a step can do while the reading goes on (`Nesting.step_eq_next_iff`);
* `Nesting.Ends` -- where it ends (`Nesting.step_eq_done_iff`);
* `Program.ofTokens_eq_ok_iff_run` -- a program is what a run makes of nothing (`Nesting.start`).
-/

namespace Offside

/-! ## 1. Additions to a scope -/

namespace OpenScope

variable {scope next : OpenScope} {name : String} {names : List String} {span : Span}
  {definition : Definition} {entries : List (String × Definition)}

/-- The scope with more definitions. -/
def extend (scope : OpenScope) (entries : List (String × Definition)) : OpenScope :=
  { scope with definitions := Table.merge scope.definitions entries }

theorem extend_append (scope : OpenScope) (first second : List (String × Definition)) :
    scope.extend (first ++ second) = (scope.extend first).extend second := by
  simp only [extend, Table.merge, List.foldl_append]

/-- The names are new to the scope, none is reserved, and each stands once. -/
structure Admits (scope : OpenScope) (names : List String) : Prop where
  new : Table.Admits scope.definitions names
  unreserved : ∀ name ∈ names, name ∉ scope.reserved

theorem admits_nil (scope : OpenScope) : scope.Admits [] :=
  ⟨Table.admits_nil _, fun _ h => absurd h List.not_mem_nil⟩

theorem admits_singleton_iff :
    scope.Admits [name] ↔ Table.find? scope.definitions name = none ∧ name ∉ scope.reserved := by
  constructor
  · rintro ⟨hnew, hunreserved⟩
    exact ⟨Table.admits_singleton_iff.1 hnew, hunreserved name (List.mem_singleton_self name)⟩
  · rintro ⟨hnew, hunreserved⟩
    refine ⟨Table.admits_singleton_iff.2 hnew, fun other hother => ?_⟩
    rw [List.mem_singleton.1 hother]
    exact hunreserved

theorem admits_append_iff (entries : List (String × Definition)) :
    scope.Admits (entries.map (·.1) ++ names) ↔
      scope.Admits (entries.map (·.1)) ∧ (scope.extend entries).Admits names := by
  constructor
  · rintro ⟨hnew, hunreserved⟩
    obtain ⟨hentries, hnames⟩ := (Table.admits_append_iff entries).1 hnew
    obtain ⟨hfirst, hsecond⟩ := List.forall_mem_append.1 hunreserved
    exact ⟨⟨hentries, hfirst⟩, hnames, hsecond⟩
  · rintro ⟨⟨hentries, hfirst⟩, hnames, hsecond⟩
    exact ⟨(Table.admits_append_iff entries).2 ⟨hentries, hnames⟩,
      List.forall_mem_append.2 ⟨hfirst, hsecond⟩⟩

theorem admits_cons_iff (definition : Definition) :
    scope.Admits (name :: names) ↔
      scope.Admits [name] ∧ (scope.extend [(name, definition)]).Admits names :=
  admits_append_iff [(name, definition)]

theorem add_eq_ok_iff :
    scope.add name span definition = .ok next ↔
      scope.Admits [name] ∧ next = scope.extend [(name, definition)] := by
  rw [admits_singleton_iff, add, ← Table.contains_eq_false, List.contains_eq_mem]
  by_cases hold : Table.contains scope.definitions name = true
  · simp [hold]
  · by_cases hreserved : name ∈ scope.reserved
    · simp [hreserved]
    · simp [hold, hreserved, extend, Table.merge, eq_comm]

theorem addAll_eq_ok_iff :
    scope.addAll span entries = .ok next ↔
      scope.Admits (entries.map (·.1)) ∧ next = scope.extend entries := by
  induction entries generalizing scope with
  | nil =>
      constructor
      · intro h
        cases h
        exact ⟨admits_nil _, rfl⟩
      · rintro ⟨_, rfl⟩
        rfl
  | cons entry rest ih =>
      obtain ⟨name, definition⟩ := entry
      have hextend : scope.extend ((name, definition) :: rest) =
          (scope.extend [(name, definition)]).extend rest :=
        extend_append scope [(name, definition)] rest
      rw [addAll, List.map_cons, admits_cons_iff definition, hextend]
      cases hadd : scope.add name span definition with
      | error error =>
          constructor
          · nofun
          · rintro ⟨⟨hnew, _⟩, _⟩
            rw [add_eq_ok_iff.2 ⟨hnew, rfl⟩] at hadd
            cases hadd
      | ok added =>
          obtain ⟨hnew, rfl⟩ := add_eq_ok_iff.1 hadd
          refine ih.trans ⟨fun h => ⟨⟨hnew, h.1⟩, h.2⟩, fun h => ⟨h.1.2, h.2⟩⟩

end OpenScope

/-! ## 2. Additions to what is declared -/

namespace Declaration

/-- The type that a declaration gives its name. -/
def ty : Declaration → Ty
  | struct fields => .struct fields
  | union options => .union (options.map .named)

/-- The options that a union gives its name; a struct gives none. -/
def options? : Declaration → Option NameSet
  | struct _ => none
  | union options => some (NameSet.ofList options)

end Declaration

namespace Declared

theorem find?_types_add (declared : Declared) (name other : String) (declaration : Declaration) :
    Table.find? (declared.add name declaration).types other =
      if name = other then some declaration.ty else Table.find? declared.types other := by
  cases declaration <;> exact Table.find?_insert _ _ _ _

theorem find?_aliases_add {declared : Declared} {name : String} (declaration : Declaration)
    (hnew : Table.find? declared.aliases name = none) (other : String) :
    Table.find? (declared.add name declaration).aliases other =
      if name = other then declaration.options? else Table.find? declared.aliases other := by
  cases declaration with
  | struct fields =>
      split
      · rename_i h
        subst h
        exact hnew
      · rfl
  | union options => exact Table.find?_insert _ _ _ _

end Declared

/-! ## 3. Steps -/

/-- No brace follows that would open a scope. -/
def NoScope (lexemes : List Lexeme) : Prop :=
  ∀ brace tail, lexemes ≠ ⟨.scopeOpen, brace⟩ :: tail

namespace Nesting

variable {nesting next : Nesting} {stop : Span} {origin : Nat} {lexemes rest : List Lexeme}

/-- The nesting inside of the scope of a definition, before anything of the scope has been read. -/
def enter (nesting : Nesting) (name : String) (span brace : Span) (header : Header) : Nesting :=
  { nesting with
    scope := ⟨some brace, header.names, []⟩
    outer := ⟨name, span, header, nesting.scope⟩ :: nesting.outer }

/-- What a step does while the reading goes on: from the lexemes to a nesting and the lexemes that
are left. -/
inductive Takes (stop : Span) (origin : Nat) (nesting : Nesting) :
    List Lexeme → Nesting → List Lexeme → Prop
  | terminator (span : Span) (rest : List Lexeme) :
      Takes stop origin nesting (⟨.semicolon, span⟩ :: rest) nesting rest
  | define {name : String} {span colon : Span} {tail after : List Lexeme} {header : Header}
      (hread : Header.parse stop name (⟨.colon, colon⟩ :: tail) = (.ok header, after))
      (hscope : NoScope (skipTerminators after)) (hnew : nesting.scope.Admits [name]) :
      Takes stop origin nesting (⟨.name name, span⟩ :: ⟨.colon, colon⟩ :: tail)
        { nesting with scope := nesting.scope.extend [(name, header.close [])] }
        (skipTerminators after)
  | enter {name : String} {span colon brace : Span} {tail after rest : List Lexeme} {header : Header}
      (hread : Header.parse stop name (⟨.colon, colon⟩ :: tail) = (.ok header, after))
      (hscope : skipTerminators after = ⟨.scopeOpen, brace⟩ :: rest) :
      Takes stop origin nesting (⟨.name name, span⟩ :: ⟨.colon, colon⟩ :: tail)
        (nesting.enter name span brace header) rest
  | declare {name : String} {span mark : Span} {tail rest : List Lexeme} {declaration : Declaration}
      (hopening : nesting.scope.opening = none)
      (hread : nesting.declared.read stop name span (⟨.colonEqual, mark⟩ :: tail) =
        (.ok declaration, rest))
      (hnew : nesting.scope.Admits ((declaration.definitions origin name).map (·.1))) :
      Takes stop origin nesting (⟨.name name, span⟩ :: ⟨.colonEqual, mark⟩ :: tail)
        { nesting with
          declared := nesting.declared.add name declaration
          scope := nesting.scope.extend (declaration.definitions origin name) } rest
  | leave {name : String} {span : Span} {header : Header} {scope : OpenScope}
      {outer : List Enclosing} (brace : Span) (rest : List Lexeme)
      (hopening : nesting.scope.opening.isSome)
      (houter : nesting.outer = ⟨name, span, header, scope⟩ :: outer) (hnew : scope.Admits [name]) :
      Takes stop origin nesting (⟨.scopeClose, brace⟩ :: rest)
        { nesting with
          scope := scope.extend [(name, header.close nesting.scope.definitions)]
          outer := outer } rest

/-- Where the reading ends: the outermost scope with the input, a scope that belongs to no
definition with its brace. -/
inductive Ends (nesting : Nesting) : List Lexeme → List Lexeme → Prop
  | input (hopening : nesting.scope.opening = none) : Ends nesting [] []
  | brace (brace : Span) (rest : List Lexeme) (hopening : nesting.scope.opening.isSome)
      (houter : nesting.outer = []) : Ends nesting (⟨.scopeClose, brace⟩ :: rest) rest

theorem resume_eq_next_iff {scope : Except ParseError OpenScope} :
    nesting.resume scope lexemes = .next next rest ↔
      ∃ added, scope = .ok added ∧ next = { nesting with scope := added } ∧ rest = lexemes := by
  cases scope with
  | error error => exact ⟨nofun, nofun⟩
  | ok added =>
      constructor
      · intro h
        cases h
        exact ⟨added, rfl, rfl, rfl⟩
      · rintro ⟨_, hadded, rfl, rfl⟩
        cases hadded
        rfl

theorem resume_ne_done {scope : Except ParseError OpenScope} {definitions : Definitions}
    {declared : Declared} : nesting.resume scope lexemes ≠ .done (.ok definitions) declared rest := by
  cases scope <;> nofun

/-- After a header the definition is added to its scope, or its own scope opens. -/
theorem define_ok_eq {name : String} {span : Span} {header : Header} :
    nesting.define name span (.ok header, lexemes) = .next next rest ↔
      (∃ brace, skipTerminators lexemes = ⟨.scopeOpen, brace⟩ :: rest ∧
        next = nesting.enter name span brace header) ∨
      (NoScope (skipTerminators lexemes) ∧ nesting.scope.Admits [name] ∧
        next = { nesting with scope := nesting.scope.extend [(name, header.close [])] } ∧
          rest = skipTerminators lexemes) := by
  rw [define.eq_def]
  dsimp only
  split
  · rename_i brace tail hskip
    rw [hskip]
    constructor
    · intro h
      cases h
      exact .inl ⟨brace, rfl, rfl⟩
    · rintro (⟨_, hbrace, rfl⟩ | ⟨hscope, _⟩)
      · cases hbrace
        rfl
      · exact absurd rfl (hscope brace tail)
  · rename_i hscope
    rw [resume_eq_next_iff]
    constructor
    · rintro ⟨_, hadd, rfl, rfl⟩
      obtain ⟨hnew, rfl⟩ := OpenScope.add_eq_ok_iff.1 hadd
      exact .inr ⟨hscope, hnew, rfl, rfl⟩
    · rintro (⟨brace, hbrace, _⟩ | ⟨_, hnew, rfl, rfl⟩)
      · exact absurd hbrace (hscope brace _)
      · exact ⟨_, OpenScope.add_eq_ok_iff.2 ⟨hnew, rfl⟩, rfl, rfl⟩

theorem takes_of_item {name : String} {span : Span}
    (h : nesting.item stop origin name span lexemes = .next next rest) :
    Takes stop origin nesting (⟨.name name, span⟩ :: lexemes) next rest := by
  rw [item.eq_def] at h
  split at h
  · cases h
  · rename_i colon tail
    generalize hread : Header.parse stop name (⟨.colon, colon⟩ :: tail) = reading at h
    obtain ⟨outcome, after⟩ := reading
    cases outcome with
    | error error => cases h
    | ok header =>
        rcases define_ok_eq.1 h with ⟨brace, hscope, rfl⟩ | ⟨hscope, hnew, rfl, rfl⟩
        · exact .enter hread hscope
        · exact .define hread hscope hnew
  · rename_i mark tail
    split at h
    · cases h
    · rename_i hopening
      rw [Option.not_isSome_iff_eq_none] at hopening
      generalize hread : nesting.declared.read stop name span (⟨.colonEqual, mark⟩ :: tail) =
        reading at h
      obtain ⟨outcome, after⟩ := reading
      cases outcome with
      | error error => cases h
      | ok declaration =>
          obtain ⟨_, hadd, rfl, rfl⟩ := resume_eq_next_iff.1 h
          obtain ⟨hnew, rfl⟩ := OpenScope.addAll_eq_ok_iff.1 hadd
          exact .declare hopening hread hnew
  · cases h

/-- A brace closes the scope that is being read. -/
theorem step_scopeClose (hopening : nesting.scope.opening.isSome) (brace : Span)
    (rest : List Lexeme) :
    nesting.step stop origin (⟨.scopeClose, brace⟩ :: rest) = nesting.close rest :=
  if_pos hopening

/-- **All that a step can do while the reading goes on.** -/
theorem step_eq_next_iff :
    nesting.step stop origin lexemes = .next next rest ↔
      Takes stop origin nesting lexemes next rest := by
  constructor
  · intro h
    rw [step.eq_def] at h
    split at h
    · split at h <;> cases h
    · cases h
      exact .terminator _ _
    · exact takes_of_item h
    · rename_i found span tail _ _
      split at h
      · rename_i hclose
        rw [Bool.and_eq_true, decide_eq_true_eq] at hclose
        obtain ⟨rfl, hopening⟩ := hclose
        rw [close] at h
        split at h
        · cases h
        · rename_i houter
          obtain ⟨_, hadd, rfl, rfl⟩ := resume_eq_next_iff.1 h
          obtain ⟨hnew, rfl⟩ := OpenScope.add_eq_ok_iff.1 hadd
          exact .leave span _ hopening houter hnew
      · cases h
  · intro h
    cases h with
    | terminator span => rw [step]
    | define hread hscope hnew =>
        rw [step, item, hread]
        exact define_ok_eq.2 (.inr ⟨hscope, hnew, rfl, rfl⟩)
    | enter hread hscope =>
        rw [step, item, hread]
        exact define_ok_eq.2 (.inl ⟨_, hscope, rfl⟩)
    | declare hopening hread hnew =>
        rw [step, item, hopening, hread]
        exact resume_eq_next_iff.2 ⟨_, OpenScope.addAll_eq_ok_iff.2 ⟨hnew, rfl⟩, rfl, rfl⟩
    | leave brace rest hopening houter hnew =>
        rw [step_scopeClose hopening, close, houter]
        exact resume_eq_next_iff.2 ⟨_, OpenScope.add_eq_ok_iff.2 ⟨hnew, rfl⟩, rfl, rfl⟩

/-- **Where the reading ends, the definitions of the scope are what has been read.** -/
theorem step_eq_done_iff {definitions : Definitions} {declared : Declared} :
    nesting.step stop origin lexemes = .done (.ok definitions) declared rest ↔
      Ends nesting lexemes rest ∧ definitions = nesting.scope.definitions ∧
        declared = nesting.declared := by
  constructor
  · intro h
    rw [step.eq_def] at h
    split at h
    · split at h
      · cases h
      · cases h
        exact ⟨.input ‹_›, rfl, rfl⟩
    · cases h
    · rw [item.eq_def] at h
      split at h
      · cases h
      · rw [define.eq_def] at h
        split at h
        · cases h
        · split at h
          · cases h
          · exact absurd h resume_ne_done
      · split at h
        · cases h
        · rw [declare.eq_def] at h
          split at h
          · cases h
          · exact absurd h resume_ne_done
      · cases h
    · rename_i found span tail _ _
      split at h
      · rename_i hclose
        rw [Bool.and_eq_true, decide_eq_true_eq] at hclose
        obtain ⟨rfl, hopening⟩ := hclose
        rw [close] at h
        split at h
        · cases h
          exact ⟨.brace span _ hopening ‹_›, rfl, rfl⟩
        · exact absurd h resume_ne_done
      · cases h
  · rintro ⟨hends, rfl, rfl⟩
    cases hends with
    | input hopening => rw [step, hopening]
    | brace brace rest hopening houter =>
        rw [step_scopeClose hopening, close, houter]

/-! ## 4. Runs -/

theorem Takes.run_eq (h : Takes stop origin nesting lexemes next rest) :
    nesting.run stop origin lexemes = next.run stop origin rest := by
  have hstep := step_eq_next_iff.2 h
  rw [run]
  split
  · rename_i hnext
    rw [hstep] at hnext
    cases hnext
    rfl
  · rename_i hdone
    rw [hstep] at hdone
    cases hdone

theorem Ends.run_eq (h : Ends nesting lexemes rest) (stop : Span) (origin : Nat) :
    nesting.run stop origin lexemes = ((.ok nesting.scope.definitions, rest), nesting.declared) := by
  have hstep : nesting.step stop origin lexemes = _ := step_eq_done_iff.2 ⟨h, rfl, rfl⟩
  rw [run]
  split
  · rename_i hnext
    rw [hstep] at hnext
    cases hnext
  · rename_i hdone
    rw [hstep] at hdone
    cases hdone
    rfl

/-- A run that reads definitions goes on or ends. -/
theorem takes_or_ends {definitions : Definitions} {declared : Declared}
    (h : nesting.run stop origin lexemes = ((.ok definitions, rest), declared)) :
    (∃ next after, Takes stop origin nesting lexemes next after ∧
      next.run stop origin after = ((.ok definitions, rest), declared)) ∨
    (Ends nesting lexemes rest ∧ definitions = nesting.scope.definitions ∧
      declared = nesting.declared) := by
  rw [run] at h
  split at h
  · rename_i next after hstep
    exact .inl ⟨next, after, step_eq_next_iff.1 hstep, h⟩
  · rename_i hstep
    cases h
    exact .inr (step_eq_done_iff.1 hstep)

end Nesting

/-! ## 5. Programs -/

/-- Nothing has been read. -/
def Nesting.start : Nesting :=
  ⟨.empty, ⟨none, [], []⟩, []⟩

/-- What is read as a program is what a run reads to the end of the input. -/
theorem Program.ofTokens_eq_ok_iff_run {origin : Nat} {lexemes : List Lexeme} {program : Program} :
    Program.ofTokens origin lexemes = .ok program ↔
      ∃ rest, Nesting.start.run (endSpan lexemes) origin lexemes =
        ((.ok program.definitions, rest), ⟨program.types, program.aliases⟩) := by
  rw [Program.ofTokens, Reader.program, Reader.scope, Reader.ofTokens, Nesting.start]
  dsimp only
  generalize Nesting.run _ _ _ _ = result
  obtain ⟨⟨outcome, rest⟩, declared⟩ := result
  cases outcome with
  | error error => exact ⟨nofun, nofun⟩
  | ok definitions =>
      constructor
      · intro h
        cases h
        exact ⟨rest, rfl⟩
      · rintro ⟨_, h⟩
        cases h
        rfl

end Offside
