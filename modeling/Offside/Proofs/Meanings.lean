import Offside.Proofs.Characters
import Offside.Proofs.Soundness

/-!
# What names stand for in the definition tree

The checker and evaluation come to a place in the tree of definitions each in its own way: the
checker has one frame for the library and the program, and one for each definition that it has
entered; an environment has two for the former, one for every portion of arguments and one for nested
definitions, and none for what is empty. What a name stands for is said once here, from the tree
alone, and both find just that:

* `Meaning` -- a parameter with its type and its value, or a definition with its own name;
* `Position`, `Position.Reached` -- a place in the tree, with the context and the environment there;
* `Position.meaning?` -- what a name stands for at a place;
* `Position.Reached.lookup_eq`, `Position.Reached.resolve_rel` -- what the checker and evaluation find.

Nothing is assumed about types: this holds for programs that are not accepted, too.
-/

namespace Offside

/-! ## 1. Meanings -/

/-- What a name stands for. -/
inductive Meaning
  | parameter (ty : Ty) (value : Expr)
  /-- a definition with the name that it has in its own scope -/
  | definition (name : String) (definition : Definition)

namespace Meaning

/-- What the checker knows of it. -/
def entry : Meaning → Entry
  | parameter ty _ => .parameter ty
  | definition _ found => .definition found

/-- What evaluation binds for it. -/
def bound : Meaning → Expr
  | parameter _ value => value
  | definition name found => found.toExpr name

/-- The definition nested in a constant under a name. -/
def member (meaning : Meaning) (name : String) : Option Meaning :=
  match meaning with
  | definition _ (.constant _ _ nested) => (Table.find? nested name).map (definition name)
  | _ => none

/-- The names of a scope with definitions. -/
def ofDefinitions (definitions : Definitions) : Table Meaning :=
  Table.mapEntries definition definitions

/-- Parameters with their types and values. -/
def ofParams (params : List String) (types : List Ty) (args : List Expr) : Table Meaning :=
  Table.mapEntries (fun _ declared => parameter declared.1 declared.2) (params.zip (types.zip args))

theorem find?_ofDefinitions (definitions : Definitions) (name : String) :
    Table.find? (ofDefinitions definitions) name =
      (Table.find? definitions name).map (definition name) :=
  Table.find?_mapEntries _ _ _

theorem find?_ofParams {params : List String} {types : List Ty} {args : List Expr}
    (htypes : types.length = params.length) (hargs : args.length = params.length) (name : String) :
    (Table.find? (ofParams params types args) name).map entry =
        (Table.find? (params.zip types) name).map .parameter ∧
      (Table.find? (ofParams params types args) name).map bound =
        Table.find? (params.zip args) name := by
  induction params generalizing types args with
  | nil => exact ⟨rfl, rfl⟩
  | cons param params ih =>
      obtain ⟨ty, types, rfl⟩ := List.exists_cons_of_length_eq_add_one htypes
      obtain ⟨arg, args, rfl⟩ := List.exists_cons_of_length_eq_add_one hargs
      simp only [ofParams, Table.mapEntries, List.zip_cons_cons, List.map_cons, Table.find?_cons]
      split
      · exact ⟨rfl, rfl⟩
      · exact ih (Nat.succ.inj htypes) (Nat.succ.inj hargs)

end Meaning

/-! ## 2. Places in the tree -/

/-- The environment with bindings added in portions, each in a frame of its own. -/
inductive Env.Grows : Env → List (String × Expr) → Env → Prop
  | done (env : Env) : Grows env [] env
  | portion {env inner : Env} {first rest : List (String × Expr)} (number : Nat)
      (more : Grows (env.extend number (Table.ofList first)) rest inner) :
      Grows env (first ++ rest) inner

/-- A place in the tree of definitions. -/
structure Position where
  /-- the definitions of the scope that was entered last -/
  definitions : Definitions
  /-- the names in scope, innermost scope first -/
  scopes : List (Table Meaning)
  /-- what the checker has in scope -/
  context : Context
  /-- where evaluation takes place -/
  env : Env

namespace Position

/-- The outermost place: the definitions of a program, over a library. -/
def globals (library : Definitions) (program : Program) : Position where
  definitions := program.definitions
  scopes := [Meaning.ofDefinitions program.definitions, Meaning.ofDefinitions library]
  context := ⟨program.aliases, [Frame.ofDefinitions (Table.merge library program.definitions)]⟩
  env := Program.baseEnv library program.definitions

/-- The place inside a constant. -/
def constant (position : Position) (number : Nat) (nested : Definitions) : Position where
  definitions := nested
  scopes := Meaning.ofDefinitions nested :: position.scopes
  context := position.context.push (Frame.ofDefinitions nested)
  env := position.env.extend number (Definitions.toBindings nested)

/-- The place inside a function; `bound` is where its parameters are bound. -/
def function (position : Position) (params : List String) (types : List Ty) (args : List Expr)
    (bound : Env) (number : Nat) (nested : Definitions) : Position where
  definitions := nested
  scopes :=
    (Meaning.ofParams params types args ++ Meaning.ofDefinitions nested) :: position.scopes
  context :=
    position.context.push ((Frame.ofDefinitions nested).withParams (params.zip types))
  env := bound.extend number (Definitions.toBindings nested)

/-- The places of a program: from the outermost one into constants, and into functions with any
values for their parameters. -/
inductive Reached (library : Definitions) (program : Program) : Position → Prop
  | globals : Reached library program (globals library program)
  | constant {position : Position} {name : String} {ty : Ty} {body : Expr} {nested : Definitions}
      (outer : Reached library program position)
      (mem : (name, .constant ty body nested) ∈ position.definitions) (number : Nat) :
      Reached library program (position.constant number nested)
  | function {position : Position} {name : String} {types : List Ty} {result : Ty}
      {params : List String} {body : Expr} {nested : Definitions} {args : List Expr} {bound : Env}
      (outer : Reached library program position)
      (mem : (name, .function (.func types result) params body nested) ∈ position.definitions)
      (values : ∀ arg ∈ args, arg.isNormal = true) (arity : args.length = params.length)
      (grows : position.env.Grows (params.zip args) bound) (number : Nat) :
      Reached library program (position.function params types args bound number nested)

/-- What a name by itself stands for, in the innermost scope that has it. -/
def direct (position : Position) (name : String) : Option Meaning :=
  position.scopes.findSome? fun scope => Table.find? scope name

/-- What a name stands for. -/
def meaning? (position : Position) (name : String) : Option Meaning :=
  Qualified.resolve position.direct Meaning.member name

end Position

/-! ## 3. What is in scope -/

/-- A definition as a text can write it, or a native function. -/
def Definition.Readable (definition : Definition) : Prop :=
  definition.Written ∨ ∃ ty params function, definition = .native ty params function

theorem Definition.Signed.readable {types : Table Ty} {definition : Definition}
    (h : definition.Signed types) : definition.Readable := by
  obtain ⟨params, result, names, function, rfl, _⟩ := h
  exact .inr ⟨_, _, _, rfl⟩

namespace Meaning

/-- A parameter has a value, and a definition is one that can be read, under its own name. -/
def Sound (name : String) : Meaning → Prop
  | parameter _ value => value.isNormal = true
  | definition key found => key = name ∧ found.Readable

theorem sound_ofDefinitions {definitions : Definitions}
    (h : ∀ entry ∈ definitions, entry.2.Readable) :
    ∀ entry ∈ ofDefinitions definitions, entry.2.Sound entry.1 := by
  intro entry hmem
  obtain ⟨source, hsource, rfl⟩ := List.mem_map.1 hmem
  exact ⟨rfl, h source hsource⟩

theorem sound_ofParams (params : List String) (types : List Ty) {args : List Expr}
    (h : ∀ arg ∈ args, arg.isNormal = true) :
    ∀ entry ∈ ofParams params types args, entry.2.Sound entry.1 := by
  intro entry hmem
  obtain ⟨⟨param, ty, arg⟩, hsource, rfl⟩ := List.mem_map.1 hmem
  exact h arg (List.of_mem_zip (List.of_mem_zip hsource).2).2

end Meaning

namespace Position

/-- What the tree guarantees of a place. -/
structure Sound (position : Position) : Prop where
  definitions : ∀ entry ∈ position.definitions, entry.2.Readable
  scopes : ∀ scope ∈ position.scopes, ∀ entry ∈ scope, entry.2.Sound entry.1

theorem Sound.direct {position : Position} (h : position.Sound) {name : String} {meaning : Meaning}
    (hdirect : position.direct name = some meaning) : meaning.Sound name := by
  obtain ⟨scope, hscope, hfind⟩ := List.exists_of_findSome?_eq_some hdirect
  exact h.scopes scope hscope _ (Table.mem_of_find? hfind)

theorem Sound.constant {position : Position} (h : position.Sound) {name : String} {ty : Ty}
    {body : Expr} {nested : Definitions}
    (mem : (name, .constant ty body nested) ∈ position.definitions) :
    ∀ entry ∈ nested, entry.2.Readable := by
  rcases h.definitions _ mem with hw | ⟨_, _, _, h⟩
  · cases hw with
    | constant plain ordered each => exact fun entry hmem => .inl (each _ _ hmem)
  · cases h

theorem Sound.function {position : Position} (h : position.Sound) {name : String} {types : List Ty}
    {result : Ty} {params : List String} {body : Expr} {nested : Definitions}
    (mem : (name, .function (.func types result) params body nested) ∈ position.definitions) :
    params.Nodup ∧ types.length = params.length ∧
      (∀ param ∈ params, Table.find? nested param = none) ∧
      ∀ entry ∈ nested, entry.2.Readable := by
  rcases h.definitions _ mem with hw | ⟨_, _, _, h⟩
  · cases hw with
    | function plain some distinct typed fresh ordered each =>
        exact ⟨distinct, typed, fresh, fun entry hmem => .inl (each _ _ hmem)⟩
  · cases h

namespace Reached

variable {origin : Nat} {program : Program} {library : Definitions} {position : Position}

theorem sound (hwf : program.WellFormed origin) (hlibrary : ∀ entry ∈ library, entry.2.Readable)
    (h : Reached library program position) : position.Sound := by
  induction h with
  | globals =>
      have hprogram : ∀ entry ∈ program.definitions, entry.2.Readable := fun entry hmem =>
        (hwf.written_or_signed hmem).elim .inl Definition.Signed.readable
      refine ⟨hprogram, ?_⟩
      refine List.forall_mem_cons.2 ⟨Meaning.sound_ofDefinitions hprogram, ?_⟩
      exact List.forall_mem_singleton.2 (Meaning.sound_ofDefinitions hlibrary)
  | constant outer mem number ih =>
      have hnested := ih.constant mem
      exact ⟨hnested, List.forall_mem_cons.2 ⟨Meaning.sound_ofDefinitions hnested, ih.scopes⟩⟩
  | function outer mem values arity grows number ih =>
      obtain ⟨-, -, -, hnested⟩ := ih.function mem
      refine ⟨hnested, List.forall_mem_cons.2 ⟨?_, ih.scopes⟩⟩
      refine List.forall_mem_append.2 ⟨Meaning.sound_ofParams _ _ values, ?_⟩
      exact Meaning.sound_ofDefinitions hnested

end Reached

end Position

/-! ## 4. What the checker finds -/

theorem Context.direct_push (context : Context) (frame : Frame) (name : String) :
    (context.push frame).direct name = (Table.find? frame name).or (context.direct name) :=
  Context.direct_cons context.aliases frame context.frames name

theorem Meaning.entry_member (meaning : Meaning) (name : String) :
    meaning.entry.member name = (meaning.member name).map entry := by
  cases meaning with
  | parameter ty value => rfl
  | definition key definition =>
      cases definition with
      | constant ty body nested =>
          rw [Meaning.entry, Entry.member, member, Option.map_map]
          rfl
      | function _ _ _ _ | native _ _ _ => rfl

namespace Position

theorem direct_of_scopes {position outer : Position} {scope : Table Meaning}
    (h : position.scopes = scope :: outer.scopes) (name : String) :
    position.direct name = (Table.find? scope name).or (outer.direct name) := by
  rw [direct, h, List.findSome?_cons]
  cases Table.find? scope name <;> rfl

theorem direct_globals (library : Definitions) (program : Program) (name : String) :
    (globals library program).direct name =
      ((Table.find? program.definitions name).or (Table.find? library name)).map
        (Meaning.definition name) := by
  rw [direct, globals, List.findSome?_cons, List.findSome?_cons, Meaning.find?_ofDefinitions,
    Meaning.find?_ofDefinitions]
  cases Table.find? program.definitions name <;> cases Table.find? library name <;> rfl

namespace Reached

variable {origin : Nat} {program : Program} {library : Definitions} {position : Position}

theorem context_direct (hwf : program.WellFormed origin)
    (hlibrary : ∀ entry ∈ library, entry.2.Readable) (h : Reached library program position)
    (name : String) : position.context.direct name = (position.direct name).map Meaning.entry := by
  induction h with
  | globals =>
      rw [direct_globals, Position.globals, Context.direct_cons, Frame.find?_ofDefinitions,
        Table.find?_merge, Table.find?_reverse hwf.defines.ordered.nodup, Option.map_map]
      exact Option.or_none
  | @constant position _ _ _ nested outer mem number ih =>
      rw [direct_of_scopes rfl, Position.constant, Context.direct_push, ih, Frame.find?_ofDefinitions,
        Meaning.find?_ofDefinitions, Option.map_or, Option.map_map]
      rfl
  | @function position _ types _ params _ nested args bound outer mem values arity grows number ih =>
      obtain ⟨distinct, typed, -, -⟩ := (outer.sound hwf hlibrary).function mem
      have hnames : (Table.names (params.zip types)).Nodup := by
        rw [Table.names, List.map_fst_zip (Nat.le_of_eq typed.symm)]
        exact distinct
      rw [direct_of_scopes rfl, Position.function, Context.direct_push, ih, Frame.find?_withParams,
        Table.find?_reverse hnames, Frame.find?_ofDefinitions, Table.find?_append, Option.map_or,
        Option.map_or, (Meaning.find?_ofParams typed arity name).1, Meaning.find?_ofDefinitions,
        Option.map_map]
      rfl

/-- **The checker finds what a name stands for.** -/
theorem lookup_eq (hwf : program.WellFormed origin)
    (hlibrary : ∀ entry ∈ library, entry.2.Readable) (h : Reached library program position)
    (name : String) : position.context.lookup name = (position.meaning? name).map Meaning.entry := by
  have hrel : Option.Rel (fun meaning entry => entry = meaning.entry) (position.meaning? name)
      (position.context.lookup name) := by
    refine Qualified.resolve_rel (fun plain => ?_) (fun meaning entry inner hentry => ?_) name
    · rw [h.context_direct hwf hlibrary plain]
      cases position.direct plain with
      | none => exact .none
      | some meaning => exact .some rfl
    · rw [hentry, Meaning.entry_member]
      cases meaning.member inner with
      | none => exact .none
      | some found => exact .some rfl
  generalize position.meaning? name = meaning at hrel ⊢
  generalize position.context.lookup name = entry at hrel ⊢
  cases hrel with
  | none => rfl
  | some hentry => exact congrArg some hentry

end Reached

end Position

/-! ## 5. What evaluation finds -/

namespace Env

theorem map_lookup_extend (env : Env) (number : Nat) (bindings : Bindings) (name : String) :
    ((env.extend number bindings).lookup name).map Prod.fst =
      (Table.find? bindings name).or ((env.lookup name).map Prod.fst) := by
  rw [lookup_extend]
  cases Table.find? bindings name <;> rfl

/-- It does not matter in which portions distinct names are bound. -/
theorem Grows.map_lookup {env inner : Env} {pairs : List (String × Expr)}
    (h : env.Grows pairs inner) (distinct : (Table.names pairs).Nodup) (name : String) :
    (inner.lookup name).map Prod.fst =
      (Table.find? pairs name).or ((env.lookup name).map Prod.fst) := by
  induction h with
  | done env => rfl
  | @portion env inner first rest number more ih =>
      have hnames : Table.names (first ++ rest) = Table.names first ++ Table.names rest :=
        List.map_append
      rw [hnames] at distinct
      obtain ⟨hfirst, hrest, hdisjoint⟩ := List.nodup_append.1 distinct
      rw [ih hrest, map_lookup_extend, Table.find?_ofList, Table.find?_reverse hfirst,
        Table.find?_append]
      cases hone : Table.find? first name with
      | none => rfl
      | some value =>
          have hnone : Table.find? rest name = none := by
            cases hother : Table.find? rest name with
            | none => rfl
            | some other =>
                have hleft := List.mem_map_of_mem (f := Prod.fst) (Table.mem_of_find? hone)
                have hright := List.mem_map_of_mem (f := Prod.fst) (Table.mem_of_find? hother)
                exact absurd rfl (hdisjoint _ hleft _ hright)
          rw [hnone]
          rfl

end Env

/-- What evaluation binds for a constant has the members of the constant. -/
theorem Meaning.Sound.member {meaning : Meaning} {key : String} (h : meaning.Sound key)
    {found : Env.Found} (hbound : found.bound = meaning.bound) (name : String) :
    Option.Rel
      (fun meaning (found : Env.Found) => found.bound = meaning.bound ∧ ∃ key, meaning.Sound key)
      (meaning.member name) (found.member name) := by
  obtain ⟨bound, scope, next⟩ := found
  subst hbound
  cases meaning with
  | parameter ty value =>
      cases value with
      | lit _ | record _ _ | closure _ => exact .none
      | var _ | call _ _ | function _ _ _ | scope _ _ => cases h
  | definition key definition =>
      cases definition with
      | native ty params function => exact .none
      | function ty params body nested => exact .none
      | constant ty body nested =>
          rcases h.2 with h | ⟨_, _, _, h⟩
          · cases h with
            | constant plain _ each =>
                rw [Meaning.member, Meaning.bound, Env.Found.member_constant plain]
                cases hfind : Table.find? nested name with
                | none => exact .none
                | some definition =>
                    have hmem := Table.mem_of_find? hfind
                    exact .some ⟨rfl, name, rfl, .inl (each name definition hmem)⟩
          · cases h

namespace Position.Reached

variable {origin : Nat} {program : Program} {library : Definitions} {position : Position}

theorem env_lookup (hwf : program.WellFormed origin)
    (hlibrary : ∀ entry ∈ library, entry.2.Readable) (h : Reached library program position)
    (name : String) :
    (position.env.lookup name).map Prod.fst = (position.direct name).map Meaning.bound := by
  induction h with
  | globals =>
      rw [direct_globals, Position.globals, Program.baseEnv, Env.map_lookup_extend,
        Env.map_lookup_extend, Definitions.find?_toBindings, Definitions.find?_toBindings,
        Option.map_map, Option.map_or]
      cases Table.find? program.definitions name with
      | none => exact congrArg _ Option.or_none
      | some definition => rfl
  | @constant position _ _ _ nested outer mem number ih =>
      rw [direct_of_scopes rfl, Position.constant, Env.map_lookup_extend, ih,
        Definitions.find?_toBindings, Meaning.find?_ofDefinitions, Option.map_or, Option.map_map]
      rfl
  | @function position _ types _ params _ nested args bound outer mem values arity grows number ih =>
      obtain ⟨distinct, typed, fresh, -⟩ := (outer.sound hwf hlibrary).function mem
      have hnames : (Table.names (params.zip args)).Nodup := by
        rw [Table.names, List.map_fst_zip (Nat.le_of_eq arity.symm)]
        exact distinct
      rw [direct_of_scopes rfl, Position.function, Env.map_lookup_extend,
        grows.map_lookup hnames, ih, Definitions.find?_toBindings, Table.find?_append,
        Option.map_or, Option.map_or, (Meaning.find?_ofParams typed arity name).2,
        Meaning.find?_ofDefinitions, Option.map_map]
      cases hparam : Table.find? (params.zip args) name with
      | none =>
          cases Table.find? nested name <;> rfl
      | some value =>
          -- a parameter is not defined again, so it does not matter that it is bound further out
          have hmem := (List.of_mem_zip (Table.mem_of_find? hparam)).1
          rw [fresh name hmem]
          rfl

/-- **Evaluation finds what a name stands for.** -/
theorem resolve_rel (hwf : program.WellFormed origin)
    (hlibrary : ∀ entry ∈ library, entry.2.Readable) (h : Reached library program position)
    (next : Nat) (name : String) :
    Option.Rel (fun meaning (found : Env.Found) => found.bound = meaning.bound)
      (position.meaning? name) (position.env.resolve next name) := by
  have hrel : Option.Rel
      (fun meaning (found : Env.Found) => found.bound = meaning.bound ∧ ∃ key, meaning.Sound key)
      (position.meaning? name) (position.env.resolve next name) := by
    refine Qualified.resolve_rel (fun plain => ?_) (fun meaning found inner hfound => ?_) name
    · have hplain := h.env_lookup hwf hlibrary plain
      cases hdirect : position.direct plain with
      | none =>
          rw [hdirect] at hplain
          rw [Option.map_eq_none_iff.1 hplain]
          exact .none
      | some meaning =>
          rw [hdirect] at hplain
          obtain ⟨found, hlookup, hbound⟩ := Option.map_eq_some_iff.1 hplain
          rw [hlookup]
          exact .some ⟨hbound, plain, (h.sound hwf hlibrary).direct hdirect⟩
    · obtain ⟨hbound, key, hsound⟩ := hfound
      exact hsound.member hbound inner
  generalize position.meaning? name = meaning at hrel ⊢
  generalize position.env.resolve next name = found at hrel ⊢
  cases hrel with
  | none => exact .none
  | some hfound => exact .some hfound.1

/-- A definition is found under its own name, or under this name behind a dot. -/
theorem name_of_meaning? (hwf : program.WellFormed origin)
    (hlibrary : ∀ entry ∈ library, entry.2.Readable) (h : Reached library program position)
    {name key : String} {definition : Definition}
    (hmeaning : position.meaning? name = some (.definition key definition)) :
    key = name ∨ ∃ outer, Qualified.cut? name = some (outer, key) := by
  rw [meaning?, Qualified.resolve_eq] at hmeaning
  cases hdirect : position.direct name with
  | some meaning =>
      rw [hdirect] at hmeaning
      cases hmeaning
      exact .inl ((h.sound hwf hlibrary).direct hdirect).1
  | none =>
      rw [hdirect, Option.none_or] at hmeaning
      obtain ⟨⟨outer, inner⟩, hcut, hmeaning⟩ := Option.bind_eq_some_iff.1 hmeaning
      obtain ⟨container, _, hmember⟩ := Option.bind_eq_some_iff.1 hmeaning
      unfold Meaning.member at hmember
      split at hmember
      · obtain ⟨found, _, hfound⟩ := Option.map_eq_some_iff.1 hmember
        cases hfound
        exact .inr ⟨outer, hcut⟩
      · cases hmember

end Position.Reached

/-! ## 6. The two agree -/

/-- **A name means the same to the checker and to evaluation**, at every place of a compiled program
and whatever values its parameters have. The checker finds a definition if and only if evaluation
finds what is bound for this definition under its own name, a parameter if and only if evaluation
finds the value of this parameter, and nothing if and only if evaluation finds nothing.

What is found is told apart by `meaning?` and not by the expression alone: two definitions that
differ in their types only are bound to the same expression, and a parameter may have the value that
a definition is bound to. -/
theorem lookup_iff_resolve {origin : Nat} {source : String} {program : Program}
    (hcompile : compile origin source = .ok program) {libOrigin : Nat} {outlet : Outlet}
    {position : Position}
    (h : position.Reached (Library.definitions libOrigin outlet) program) (next : Nat)
    (name : String) :
    (∀ definition, position.context.lookup name = some (.definition definition) ↔
      ∃ key found, position.meaning? name = some (.definition key definition) ∧
        (key = name ∨ ∃ outer, Qualified.cut? name = some (outer, key)) ∧
        position.env.resolve next name = some found ∧ found.bound = definition.toExpr key) ∧
    (∀ ty, position.context.lookup name = some (.parameter ty) ↔
      ∃ value found, position.meaning? name = some (.parameter ty value) ∧
        position.env.resolve next name = some found ∧ found.bound = value) ∧
    (position.context.lookup name = none ↔ position.env.resolve next name = none) := by
  have hwf := wellFormed_of_compile hcompile
  have hlibrary : ∀ entry ∈ Library.definitions libOrigin outlet, entry.2.Readable :=
    fun _ hmem => (Library.signed hmem : Definition.Signed program.types _).readable
  have hlookup := h.lookup_eq hwf hlibrary name
  have hresolve := h.resolve_rel hwf hlibrary next name
  have hname := @Position.Reached.name_of_meaning? _ _ _ _ hwf hlibrary h name
  rw [hlookup]
  generalize position.meaning? name = meaning at hresolve hname ⊢
  generalize position.env.resolve next name = found at hresolve ⊢
  cases hresolve with
  | none => simp
  | @some meaning found hbound =>
      cases meaning with
      | parameter ty value =>
          refine ⟨fun definition => ⟨fun hentry => ?_, ?_⟩, fun declared => ⟨fun hentry => ?_, ?_⟩,
            ⟨fun hnone => ?_, fun hnone => ?_⟩⟩
          · cases hentry
          · rintro ⟨_, _, hmeaning, _⟩
            cases hmeaning
          · cases hentry
            exact ⟨value, found, rfl, rfl, hbound⟩
          · rintro ⟨_, _, hmeaning, _⟩
            cases hmeaning
            rfl
          · cases hnone
          · cases hnone
      | definition key found' =>
          refine ⟨fun definition => ⟨fun hentry => ?_, ?_⟩, fun declared => ⟨fun hentry => ?_, ?_⟩,
            ⟨fun hnone => ?_, fun hnone => ?_⟩⟩
          · cases hentry
            exact ⟨key, found, rfl, hname rfl, rfl, hbound⟩
          · rintro ⟨_, _, hmeaning, _⟩
            cases hmeaning
            rfl
          · cases hentry
          · rintro ⟨_, _, hmeaning, _⟩
            cases hmeaning
          · cases hnone
          · cases hnone

/-- A function with a constant inside it that has a definition of its own. -/
def scaleSource : String :=
  "scale:Integer factor:Integer offset:Integer = unit.size\n" ++
    "    unit:Integer = size\n        size:Integer = factor"

/-- The place inside the only function of the program, with its arguments bound one by one. -/
def scalePosition? (program : Program) : Option Position :=
  let globals := Position.globals (Library.definitions libraryOrigin .console) program
  let bound := (globals.env.extend 2 [("factor", .lit (.int 5))]).extend 3
    [("offset", .lit (.int 7))]
  match program.definitions with
  | [("scale", .function (.func types _) ["factor", "offset"] _ nested)] =>
    some (globals.function ["factor", "offset"] types [.lit (.int 5), .lit (.int 7)] bound 4 nested)
  | _ => none

theorem reached_of_scalePosition? {program : Program} {position : Position}
    (h : scalePosition? program = some position) :
    position.Reached (Library.definitions libraryOrigin .console) program := by
  unfold scalePosition? at h
  split at h
  · rename_i types result body nested hdefinitions
    cases h
    refine .function .globals (hdefinitions ▸ List.mem_cons_self) ?_ rfl ?_ 4
    · exact List.forall_mem_cons.2 ⟨rfl, List.forall_mem_singleton.2 rfl⟩
    · exact @Env.Grows.portion _ _ [("factor", _)] [("offset", _)] 2
        (@Env.Grows.portion _ _ [("offset", _)] [] 3 (.done _))
  · cases h

/-- Whether a nested definition and a parameter are found there, by the checker and as meanings. -/
def scaleFound (position : Position) : Bool :=
  match position.context.lookup "unit.size", position.meaning? "unit.size",
    position.context.lookup "factor", position.meaning? "factor" with
  | some (.definition _), some (.definition "size" _), some (.parameter _),
    some (.parameter _ (.lit (.int value))) => value = 5
  | _, _, _, _ => false

theorem lookup_iff_resolve_scaleSource :
    ∃ (program : Program) (position : Position) (definition : Definition) (ty : Ty)
      (found value : Env.Found), compile programOrigin scaleSource = .ok program ∧
      position.Reached (Library.definitions libraryOrigin .console) program ∧
      position.context.lookup "unit.size" = some (.definition definition) ∧
      position.env.resolve 5 "unit.size" = some found ∧
      found.bound = definition.toExpr "size" ∧
      position.context.lookup "factor" = some (.parameter ty) ∧
      position.env.resolve 5 "factor" = some value ∧ value.bound = .lit (.int 5) := by
  have hsource : ∃ source, scaleSource = String.ofList source ∧
      compiles programOrigin source (fun program => (scalePosition? program).any scaleFound) :=
    ⟨_, String.ofList_toList.symm, by decide +kernel⟩
  obtain ⟨source, htext, hsource⟩ := hsource
  obtain ⟨program, hcompile, hp⟩ := exists_of_compiles htext hsource
  obtain ⟨position, hposition, hp⟩ := (Option.any_eq_true _ _).1 hp
  unfold scaleFound at hp
  split at hp
  · rename_i definition _ ty _ value hunit hsize hparam hfactor
    obtain rfl := of_decide_eq_true hp
    have hreached := reached_of_scalePosition? hposition
    obtain ⟨hdefinition, -, -⟩ := lookup_iff_resolve hcompile hreached 5 "unit.size"
    obtain ⟨-, hparameter, -⟩ := lookup_iff_resolve hcompile hreached 5 "factor"
    obtain ⟨key, found, hkey, -, hfound, hbound⟩ := (hdefinition definition).1 hunit
    obtain ⟨_, bound, hvalue, hresolved, hfive⟩ := (hparameter ty).1 hparam
    rw [hsize] at hkey
    rw [hfactor] at hvalue
    cases hkey
    cases hvalue
    exact ⟨program, position, definition, ty, found, bound, hcompile, hreached, hunit, hfound, hbound,
      hparam, hresolved, hfive⟩
  · cases hp

end Offside
