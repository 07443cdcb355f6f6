import Mathlib.Data.List.Induction
import Offside.Proofs.Heads

/-!
# What reading guarantees

A program that was read from tokens is well formed, whatever the tokens are:

* `Expr.Plain` -- a body consists of variables, literals and calls, each call with an operand and
  with an operator that is no literal;
* `Definition.Written` -- a definition of a text, with all that is nested in it: a function has
  parameters, each once and none of them defined again inside it, and a type for each of them;
* `Declared.Sound` -- a declared struct has distinct fields, and the unions are the declared ones;
* `Program.WellFormed` -- the definitions of a program are written ones, and those that its
  structs come with.

The reader of scopes is a machine that reads one item at a time (`Nesting.Takes`), so there is an
invariant (`Nesting.Sound`), what a step keeps of it (`Nesting.Sound.takes`), and what a run makes of
it (`Nesting.Sound.run`). What holds of the heads of items is read off the grammar.
-/

namespace Offside

/-! ## 1. Plain expressions -/

/-- Variables, literals and calls, as a text can write them. -/
inductive Expr.Plain : Expr → Prop
  | lit (value : Literal) : Plain (.lit value)
  | var (name : String) : Plain (.var name)
  | call {operator : Expr} {operands : List Expr} (head : operator.isPrimitive = false)
      (some : operands ≠ []) (callee : Plain operator)
      (each : ∀ operand ∈ operands, Plain operand) : Plain (.call operator operands)

namespace Expr

theorem Plain.isPrimitive {expr : Expr} (h : expr.Plain) (hliteral : ∀ value, expr ≠ .lit value) :
    expr.isPrimitive = false := by
  cases h with
  | lit value => exact absurd rfl (hliteral value)
  | var _ | call _ _ _ _ => rfl

mutual

theorem Derives.plain {tokens : List Token} {expr : Expr} : Derives tokens expr → expr.Plain
  | .atom h => h.plain
  | .call hoperator hliteral hoperands hsome =>
      .call (hoperator.plain.isPrimitive hliteral) hsome hoperator.plain hoperands.plain

theorem DerivesAtom.plain {tokens : List Token} {expr : Expr} : DerivesAtom tokens expr → expr.Plain
  | .literal value => .lit value
  | .name name => .var name
  | .paren h => h.plain

theorem DerivesAtoms.plain {tokens : List Token} {exprs : List Expr} :
    DerivesAtoms tokens exprs → ∀ expr ∈ exprs, expr.Plain
  | .nil => fun _ hmem => absurd hmem List.not_mem_nil
  | .cons h rest => List.forall_mem_cons.2 ⟨h.plain, rest.plain⟩

end

theorem derivesAtoms_operandTokens {operands : List Expr}
    (h : ∀ operand ∈ operands, DerivesAtom operand.tokens operand) :
    DerivesAtoms (operandTokens operands) operands := by
  induction operands with
  | nil =>
      rw [operandTokens]
      exact .nil
  | cons operand operands ih =>
      obtain ⟨hoperand, hoperands⟩ := List.forall_mem_cons.1 h
      rw [operandTokens]
      exact .cons hoperand (ih hoperands)

/-- The tokens of a plain expression derive it. -/
theorem Plain.derivesAtom {expr : Expr} (h : expr.Plain) : DerivesAtom expr.tokens expr := by
  induction h with
  | lit value =>
      rw [tokens]
      exact .literal value
  | var name =>
      rw [tokens]
      exact .name name
  | @call operator operands head some _ _ hoperator hoperands =>
      have hliteral : ∀ value, operator ≠ .lit value := by
        rintro value rfl
        cases head
      have hcall : Derives (operator.tokens ++ operandTokens operands) (.call operator operands) :=
        .call hoperator hliteral (derivesAtoms_operandTokens hoperands) some
      rw [tokens, ← List.append_assoc]
      exact .paren hcall

end Expr

/-! ## 2. Headers and written definitions -/

/-- A definition as a text can write it, with all that is nested in it. -/
inductive Definition.Written : Definition → Prop
  | constant {ty : Ty} {body : Expr} {nested : Definitions} (plain : body.Plain)
      (ordered : Table.Ordered nested)
      (each : ∀ name definition, (name, definition) ∈ nested → Written definition) :
      Written (.constant ty body nested)
  | function {types : List Ty} {result : Ty} {params : List String} {body : Expr}
      {nested : Definitions} (plain : body.Plain) (some : params ≠ []) (distinct : params.Nodup)
      (typed : types.length = params.length)
      (fresh : ∀ param ∈ params, Table.find? nested param = none)
      (ordered : Table.Ordered nested)
      (each : ∀ name definition, (name, definition) ∈ nested → Written definition) :
      Written (.function (.func types result) params body nested)

/-- The definitions of a nested scope that must not define the names of `reserved`. -/
structure Definitions.Written (reserved : List String) (definitions : Definitions) : Prop where
  ordered : Table.Ordered definitions
  each : ∀ name definition, (name, definition) ∈ definitions → definition.Written
  fresh : ∀ name ∈ reserved, Table.find? definitions name = none

theorem Definitions.Written.nil (reserved : List String) : Definitions.Written reserved [] :=
  ⟨List.Pairwise.nil, fun _ _ h => absurd h List.not_mem_nil, fun _ _ => rfl⟩

/-- The header of a definition as a text can write it. -/
structure Header.Sound (header : Header) : Prop where
  plain : header.body.Plain
  distinct : header.names.Nodup

namespace Header

theorem Derives.sound {header : Header} {tokens : List Token} (h : header.Derives tokens) :
    header.Sound := by
  cases h with
  | mk _ _ hnodup hbody => exact ⟨hbody.plain, hnodup⟩

/-- A header and the definitions of its scope make a written definition. -/
theorem Sound.close {header : Header} (h : header.Sound) {nested : Definitions}
    (hn : Definitions.Written header.names nested) : (header.close nested).Written := by
  rw [Header.close]
  split
  · exact .constant h.plain hn.ordered hn.each
  · rename_i hparams
    refine .function h.plain (fun e => hparams ?_) h.distinct ?_ hn.fresh hn.ordered hn.each
    · rw [List.isEmpty_iff]
      exact List.map_eq_nil_iff.1 e
    · rw [List.length_map, names, List.length_map]

end Header

/-! ## 3. Declarations -/

namespace Declaration

/-- A declaration as a text can write it. -/
def Sound : Declaration → Prop
  | struct fields => fields ≠ [] ∧ (fields.map (·.1)).Nodup
  | union options => options ≠ [] ∧ options.Nodup

/-- Options that count once are distinct. -/
theorem nodup_eraseDups (options : List String) : options.eraseDups.Nodup := by
  induction options using List.reverseRecOn with
  | nil => exact List.nodup_nil
  | append_singleton options option ih =>
      rw [eraseDups_concat]
      split
      · exact ih
      · rename_i hnew
        exact List.nodup_append_comm.2 (List.nodup_cons.2 ⟨hnew, ih⟩)

theorem Derives.sound {declaration : Declaration} {tokens : List Token}
    (h : declaration.Derives tokens) : declaration.Sound := by
  cases h with
  | struct _ hsome hnodup => exact ⟨hsome, hnodup⟩
  | @union options hsome =>
      obtain ⟨option, hoption⟩ := List.exists_mem_of_ne_nil options hsome
      exact ⟨List.ne_nil_of_mem (List.mem_eraseDups.2 hoption), nodup_eraseDups options⟩

end Declaration

/-- What has been declared is what declarations declare: the names of the unions, and no others,
have options. -/
structure Declared.Sound (declared : Declared) : Prop where
  each : ∀ name ty, Table.find? declared.types name = some ty →
    ∃ declaration : Declaration, declaration.Sound ∧ ty = declaration.ty ∧
      Table.find? declared.aliases name = declaration.options?
  others : ∀ name, Table.find? declared.types name = none →
    Table.find? declared.aliases name = none

namespace Declared

theorem sound_empty : Declared.empty.Sound :=
  ⟨(fun _ _ h => by cases h), fun _ _ => rfl⟩

/-- One more declaration, of a name that is not declared yet. -/
theorem Sound.add {declared : Declared} (h : declared.Sound) {name : String}
    (hnew : Table.find? declared.types name = none) {declaration : Declaration}
    (hd : declaration.Sound) : (declared.add name declaration).Sound := by
  have hfree := h.others name hnew
  refine ⟨fun other ty hty => ?_, fun other hother => ?_⟩
  · rw [find?_types_add] at hty
    rw [find?_aliases_add declaration hfree]
    split at hty
    · rename_i heq
      cases hty
      exact ⟨declaration, hd, rfl, if_pos heq⟩
    · rename_i hne
      rw [if_neg hne]
      exact h.each other ty hty
  · rw [find?_types_add] at hother
    rw [find?_aliases_add declaration hfree]
    split at hother
    · cases hother
    · rename_i hne
      rw [if_neg hne]
      exact h.others other hother

end Declared

/-! ## 4. Scopes -/

/-- The definitions of the outermost scope: written ones, and the constructor and accessors of each
declared struct. -/
structure Declared.Defines (declared : Declared) (origin : Nat) (definitions : Definitions) :
    Prop where
  ordered : Table.Ordered definitions
  each : ∀ name definition, (name, definition) ∈ definitions →
    definition.Written ∨ ∃ type fields, Table.find? declared.types type = some (.struct fields) ∧
      (name, definition) ∈ Definition.ofStruct origin type fields
  generated : ∀ type fields, Table.find? declared.types type = some (.struct fields) →
    ∀ entry ∈ Definition.ofStruct origin type fields, entry ∈ definitions

namespace OpenScope

/-- More definitions keep all that were there, and add those given and no others. -/
theorem Admits.mem_extend {scope : OpenScope} {entries : List (String × Definition)}
    (h : scope.Admits (entries.map (·.1))) (ho : Table.Ordered scope.definitions) :
    Table.Ordered (scope.extend entries).definitions ∧
      ∀ entry, entry ∈ (scope.extend entries).definitions ↔
        entry ∈ entries ∨ entry ∈ scope.definitions := by
  induction entries generalizing scope with
  | nil => exact ⟨ho, fun entry => by simp [extend, Table.merge]⟩
  | cons first rest ih =>
      obtain ⟨name, definition⟩ := first
      obtain ⟨hfirst, hrest⟩ := (admits_cons_iff definition).1 h
      obtain ⟨hnew, _⟩ := admits_singleton_iff.1 hfirst
      obtain ⟨hord, hmem⟩ := ih hrest (ho.insert name definition)
      refine ⟨hord, fun entry => (hmem entry).trans ?_⟩
      rw [List.mem_cons]
      constructor
      · rintro (hm | hm)
        · exact Or.inl (Or.inr hm)
        · exact (Table.mem_insert hm).imp Or.inl id
      · rintro ((rfl | hm) | hm)
        · exact Or.inr (Table.mem_of_find? (Table.find?_insert_self _ _ _))
        · exact Or.inl hm
        · exact Or.inr (Table.mem_insert_of_mem hnew hm)

end OpenScope

/-- The scope that is being read and the definitions around it: the outermost scope has no brace,
and every other one belongs to the definition next to it. -/
def Scopes (origin : Nat) (declared : Declared) : OpenScope → List Enclosing → Prop
  | scope, [] => scope.opening = none ∧ declared.Defines origin scope.definitions
  | scope, around :: outer =>
    scope.opening.isSome ∧ scope.reserved = around.header.names ∧
      Definitions.Written scope.reserved scope.definitions ∧ around.header.Sound ∧
      Scopes origin declared around.scope outer

/-- The scope without a brace is the outermost one. -/
theorem Scopes.outermost {origin : Nat} {declared : Declared} {scope : OpenScope}
    {outer : List Enclosing} (h : Scopes origin declared scope outer)
    (hopen : scope.opening = none) : outer = [] ∧ declared.Defines origin scope.definitions := by
  cases outer with
  | nil => exact ⟨rfl, h.2⟩
  | cons around outer =>
      have hsome := h.1
      rw [hopen] at hsome
      cases hsome

/-- A written definition may be added to any scope. -/
theorem Scopes.add {origin : Nat} {declared : Declared} {scope : OpenScope} {outer : List Enclosing}
    (h : Scopes origin declared scope outer) {name : String} {definition : Definition}
    (hw : definition.Written) (hadmits : scope.Admits [name]) :
    Scopes origin declared (scope.extend [(name, definition)]) outer := by
  obtain ⟨hnew, hfree⟩ := OpenScope.admits_singleton_iff.1 hadmits
  cases outer with
  | nil =>
      obtain ⟨hopen, hord, heach, hgen⟩ := h
      refine ⟨hopen, hord.insert name definition, fun other d hm => ?_, fun type fields ht entry he =>
        Table.mem_insert_of_mem hnew (hgen type fields ht entry he)⟩
      rcases Table.mem_insert hm with e | hm
      · cases e
        exact Or.inl hw
      · exact heach other d hm
  | cons around outer =>
      obtain ⟨hopen, hres, hwritten, hheader, houter⟩ := h
      refine ⟨hopen, hres, ⟨hwritten.ordered.insert name definition, fun other d hm => ?_,
        fun other hm => ?_⟩, hheader, houter⟩
      · rcases Table.mem_insert hm with e | hm
        · cases e
          exact hw
        · exact hwritten.each other d hm
      · have hne : name ≠ other := by
          rintro rfl
          exact hfree hm
        exact (Table.find?_insert _ _ _ _).trans ((if_neg hne).trans (hwritten.fresh other hm))

/-- **The invariant of reading a program.** -/
structure Nesting.Sound (origin : Nat) (nesting : Nesting) : Prop where
  declared : nesting.declared.Sound
  scopes : Scopes origin nesting.declared nesting.scope nesting.outer

namespace Nesting

variable {nesting next : Nesting} {stop : Span} {origin : Nat} {name : String}
  {lexemes rest : List Lexeme}

/-- A declaration adds its struct or union to what is declared, and the definitions that come with
it to the outermost scope. -/
theorem Sound.declare (hs : nesting.Sound origin) (hopen : nesting.scope.opening = none)
    {declaration : Declaration} (hnew : Table.find? nesting.declared.types name = none)
    (hdecl : declaration.Sound)
    (hadmits : nesting.scope.Admits ((declaration.definitions origin name).map (·.1))) :
    Nesting.Sound origin
      { nesting with
        declared := nesting.declared.add name declaration
        scope := nesting.scope.extend (declaration.definitions origin name) } := by
  refine ⟨hs.declared.add hnew hdecl, ?_⟩
  obtain ⟨houter, hord, heach, hgen⟩ := hs.scopes.outermost hopen
  obtain ⟨hord', hmem⟩ := hadmits.mem_extend hord
  have hkeep : ∀ type fields, Table.find? nesting.declared.types type = some (.struct fields) →
      Table.find? (nesting.declared.add name declaration).types type = some (.struct fields) := by
    intro type fields ht
    rw [Declared.find?_types_add, if_neg, ht]
    rintro rfl
    rw [hnew] at ht
    cases ht
  simp only [houter]
  refine ⟨hopen, hord', fun other d hm => ?_, fun type fields ht entry he => ?_⟩
  · rcases (hmem _).1 hm with hm | hm
    · cases declaration with
      | struct fields =>
          exact Or.inr ⟨name, fields, by simp [Declared.find?_types_add, Declaration.ty], hm⟩
      | union options => cases hm
    · refine (heach other d hm).imp id ?_
      rintro ⟨type, fields, ht, he⟩
      exact ⟨type, fields, hkeep type fields ht, he⟩
  · rw [Declared.find?_types_add] at ht
    refine (hmem entry).2 ?_
    split at ht
    · rename_i heq
      subst heq
      cases declaration with
      | struct fields' =>
          cases ht
          exact Or.inl he
      | union options => cases ht
    · exact Or.inr (hgen type fields ht entry he)

/-- **An item keeps the invariant.** -/
theorem Sound.takes (hs : nesting.Sound origin) (h : Takes stop origin nesting lexemes next rest) :
    next.Sound origin := by
  cases h with
  | terminator _ _ => exact hs
  | define hread _ hnew =>
      obtain ⟨_, _, hheader, _⟩ := Header.parse_eq_ok_iff.1 hread
      exact ⟨hs.declared, hs.scopes.add (hheader.sound.close (.nil _)) hnew⟩
  | enter hread _ =>
      obtain ⟨_, _, hheader, _⟩ := Header.parse_eq_ok_iff.1 hread
      exact ⟨hs.declared, rfl, rfl, .nil _, hheader.sound, hs.scopes⟩
  | declare hopening hread hnew =>
      obtain ⟨hname, _, _, hdeclaration, _⟩ := Declared.read_eq_ok_iff.1 hread
      exact hs.declare hopening hname hdeclaration.sound hnew
  | leave _ _ _ houter hnew =>
      have hscopes := hs.scopes
      rw [houter] at hscopes
      obtain ⟨_, hres, hwritten, hheader, hbelow⟩ := hscopes
      exact ⟨hs.declared, hbelow.add (hheader.close (hres ▸ hwritten)) hnew⟩

/-- What has been read when the reading of a program ends. -/
theorem Sound.ends (hs : nesting.Sound origin) (h : Ends nesting lexemes rest) :
    nesting.declared.Sound ∧ nesting.declared.Defines origin nesting.scope.definitions := by
  have hscopes := hs.scopes
  cases h with
  | input hopening => exact ⟨hs.declared, (hscopes.outermost hopening).2⟩
  | brace _ _ hopening houter =>
      rw [houter] at hscopes
      rw [hscopes.1] at hopening
      cases hopening

theorem Sound.run (hs : nesting.Sound origin) {definitions : Definitions} {declared : Declared}
    (h : nesting.run stop origin lexemes = ((.ok definitions, rest), declared)) :
    declared.Sound ∧ declared.Defines origin definitions := by
  fun_induction Nesting.run nesting stop origin lexemes with
  | case1 nesting lexemes next after hstep ih => exact ih (hs.takes (step_eq_next_iff.1 hstep)) h
  | case2 nesting lexemes outcome declared after hstep =>
      cases h
      obtain ⟨hends, rfl, rfl⟩ := step_eq_done_iff.1 hstep
      exact hs.ends hends

end Nesting

/-! ## 5. Programs -/

/-- A program as a text can write it: what it declares is sound, and its definitions are written
ones and those of its structs. -/
structure Program.WellFormed (origin : Nat) (program : Program) : Prop where
  declared : Declared.Sound ⟨program.types, program.aliases⟩
  defines : Declared.Defines ⟨program.types, program.aliases⟩ origin program.definitions

/-- **A program that was read is well formed.** -/
theorem Program.wellFormed_ofTokens {origin : Nat} {tokens : List Lexeme} {program : Program}
    (h : Program.ofTokens origin tokens = .ok program) : program.WellFormed origin := by
  have hstart : Nesting.start.Sound origin :=
    ⟨Declared.sound_empty, rfl, List.Pairwise.nil, fun _ _ hm => absurd hm List.not_mem_nil,
      fun _ _ ht => by cases ht⟩
  obtain ⟨rest, hrun⟩ := Program.ofTokens_eq_ok_iff_run.1 h
  obtain ⟨hdeclared, hdefines⟩ := hstart.run hrun
  exact ⟨hdeclared, hdefines⟩

end Offside
