import Offside.Proofs.Meanings

/-!
# The tree of definitions

Definitions hold definitions, at any depth. A definition is found in the tree by its chain of names,
outermost first, and it has the definitions around it as surroundings:

* `Definitions.Holds` -- a definition with its chain of names and its surroundings;
* `Definitions.holds_concat_iff` -- one name more at the end of a chain is one step further inwards;
* `Definitions.Holds.unique` -- in a program that was read, a chain leads to one definition;
* `Program.globals` -- the outermost table: the definitions of a program, over those of a library.
-/

namespace Offside

namespace Definitions

/-- A definition of the tree, found by names that lead from a table inwards; `enclosing` are the
definitions around it, innermost first. -/
inductive Holds : Definitions → List String → List Definition → Definition → Prop
  | here {table : Definitions} {name : String} {definition : Definition}
      (mem : (name, definition) ∈ table) : Holds table [name] [] definition
  | inside {table nested : Definitions} {name : String} {outer definition : Definition}
      {chain : List String} {enclosing : List Definition} (mem : (name, outer) ∈ table)
      (nests : outer.nested? = some nested) (below : Holds nested chain enclosing definition) :
      Holds table (name :: chain) (enclosing ++ [outer]) definition

variable {table : Definitions} {chain : List String} {enclosing : List Definition}
  {definition : Definition}

/-- A chain starts with a name of the table. -/
theorem Holds.head (h : Holds table chain enclosing definition) :
    ∃ name rest, chain = name :: rest ∧ name ∈ Table.names table := by
  cases h with
  | here mem => exact ⟨_, _, rfl, List.mem_map_of_mem mem⟩
  | inside mem _ _ => exact ⟨_, _, rfl, List.mem_map_of_mem mem⟩

theorem holds_singleton_iff {name : String} :
    Holds table [name] enclosing definition ↔ (name, definition) ∈ table ∧ enclosing = [] := by
  constructor
  · intro h
    cases h with
    | here mem => exact ⟨mem, rfl⟩
    | inside _ _ below =>
        obtain ⟨_, _, hnil, _⟩ := below.head
        cases hnil
  · rintro ⟨hmem, rfl⟩
    exact .here hmem

theorem Holds.mono {table' : Definitions} (h : Holds table chain enclosing definition)
    (hsub : ∀ entry ∈ table, entry ∈ table') : Holds table' chain enclosing definition := by
  cases h with
  | here mem => exact .here (hsub _ mem)
  | inside mem nests below => exact .inside (hsub _ mem) nests below

theorem holds_cons_iff {entry : String × Definition} :
    Holds (entry :: table) chain enclosing definition ↔
      Holds [entry] chain enclosing definition ∨ Holds table chain enclosing definition := by
  constructor
  · intro h
    cases h with
    | here mem =>
        rcases List.mem_cons.1 mem with rfl | hmem
        · exact .inl (.here List.mem_cons_self)
        · exact .inr (.here hmem)
    | inside mem nests below =>
        rcases List.mem_cons.1 mem with rfl | hmem
        · exact .inl (.inside List.mem_cons_self nests below)
        · exact .inr (.inside hmem nests below)
  · rintro (h | h)
    · exact h.mono fun _ hmem => List.mem_cons.2 (.inl (List.mem_singleton.1 hmem))
    · exact h.mono fun _ hmem => List.mem_cons_of_mem _ hmem

/-- **One name more leads one definition further inwards.** -/
theorem holds_concat_iff (hchain : chain ≠ []) {name : String} :
    Holds table (chain ++ [name]) enclosing definition ↔
      ∃ outer around nested, Holds table chain around outer ∧ outer.nested? = some nested ∧
        (name, definition) ∈ nested ∧ enclosing = outer :: around := by
  constructor
  · intro h
    induction chain generalizing table enclosing with
    | nil => exact absurd rfl hchain
    | cons first chain ih =>
        cases chain with
        | nil =>
            cases h with
            | @inside _ nested _ outer _ _ _ mem nests below =>
                obtain ⟨inner, rfl⟩ := holds_singleton_iff.1 below
                exact ⟨outer, [], nested, .here mem, nests, inner, rfl⟩
        | cons second chain =>
            cases h with
            | inside mem nests below =>
                obtain ⟨inner, around, deepest, hholds, hnested, hmem, rfl⟩ :=
                  ih (List.cons_ne_nil _ _) below
                exact ⟨inner, _, deepest, .inside mem nests hholds, hnested, hmem, rfl⟩
  · rintro ⟨outer, around, nested, hholds, hnested, hmem, rfl⟩
    induction hholds with
    | here mem => exact .inside mem hnested (.here hmem)
    | inside mem nests below ih =>
        obtain ⟨_, _, rfl, _⟩ := below.head
        exact .inside mem nests (ih (List.cons_ne_nil _ _) hnested)

end Definitions

/-! ## Programs that were read -/

/-- What is nested in a definition that can be read can be read, too, and each name is there once. -/
theorem Definition.Readable.nested {definition : Definition} (h : definition.Readable)
    {nested : Definitions} (hnested : definition.nested? = some nested) :
    Table.Ordered nested ∧ ∀ entry ∈ nested, entry.2.Written := by
  rcases h with hw | ⟨_, _, _, rfl⟩
  · cases hw with
    | constant _ ordered each =>
        cases hnested
        exact ⟨ordered, fun entry hmem => each entry.1 entry.2 hmem⟩
    | function _ _ _ _ _ ordered each =>
        cases hnested
        exact ⟨ordered, fun entry hmem => each entry.1 entry.2 hmem⟩
  · cases hnested

/-- **A chain of names leads to one definition.** -/
theorem Definitions.Holds.unique {table : Definitions} {chain : List String}
    {enclosing enclosing' : List Definition} {definition definition' : Definition}
    (hordered : Table.Ordered table) (hread : ∀ entry ∈ table, entry.2.Readable)
    (h : Holds table chain enclosing definition) (h' : Holds table chain enclosing' definition') :
    enclosing = enclosing' ∧ definition = definition' := by
  induction h generalizing enclosing' with
  | here mem =>
      obtain ⟨mem', rfl⟩ := holds_singleton_iff.1 h'
      have hfind := Table.find?_of_mem hordered.nodup mem
      rw [Table.find?_of_mem hordered.nodup mem'] at hfind
      exact ⟨rfl, (Option.some.inj hfind).symm⟩
  | inside mem nests below ih =>
      cases h' with
      | here _ =>
          obtain ⟨_, _, hnil, _⟩ := below.head
          cases hnil
      | inside mem' nests' below' =>
          have hfind := Table.find?_of_mem hordered.nodup mem
          rw [Table.find?_of_mem hordered.nodup mem'] at hfind
          cases hfind
          rw [nests] at nests'
          cases nests'
          obtain ⟨hinner, heach⟩ := (hread _ mem).nested nests
          obtain ⟨rfl, rfl⟩ := ih hinner (fun entry hmem => .inl (heach entry hmem)) below'
          exact ⟨rfl, rfl⟩

namespace Program

/-- The outermost table: the definitions of a program, over those of a library. -/
def globals (program : Program) (library : Definitions) : Definitions :=
  Table.merge library program.definitions

variable {program : Program} {origin : Nat}

theorem WellFormed.find?_globals (h : program.WellFormed origin) (library : Definitions)
    (name : String) : Table.find? (program.globals library) name =
      (Table.find? program.definitions name).or (Table.find? library name) := by
  rw [globals, Table.find?_merge, Table.find?_reverse h.defines.ordered.nodup]

variable (libOrigin : Nat) (outlet : Outlet)

theorem ordered_globals (program : Program) :
    Table.Ordered (program.globals (Library.definitions libOrigin outlet)) := by
  refine Table.Ordered.merge ?_ _
  unfold Table.Ordered
  simp only [Library.definitions, Table.names, List.map_cons, List.map_nil]
  decide

theorem WellFormed.readable_globals (h : program.WellFormed origin) :
    ∀ entry ∈ program.globals (Library.definitions libOrigin outlet), entry.2.Readable := by
  intro entry hmem
  rcases Table.mem_merge hmem with hmem | hmem
  · exact (h.written_or_signed hmem).elim .inl Definition.Signed.readable
  · exact (Library.signed hmem : Definition.Signed program.types _).readable

end Program

end Offside
