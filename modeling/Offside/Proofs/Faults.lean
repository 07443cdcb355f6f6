import Offside.Proofs.Characters
import Offside.Proofs.Soundness

/-!
# What the checker finds fault with

Some faults say that a definition is none that a text can write: a function without a function type,
or with another number of types than parameters, or an expression that is neither a variable nor a
literal nor a call (`TypeFault.isInternal`). No program that was read has such a fault.

* `Context.checkDefinition_mem_paths` -- a fault is located in the definition that is checked, or in
  one that is nested in it, at any depth;
* `Context.checkDefinition_isInternal` -- no written definition has an internal fault;
* `Program.WellFormed.native_mem_iff` -- the native functions of a program are those of its structs;
* `Program.WellFormed.find?_aliases_iff` -- its unions have the options that they list.

`ofTokens_regular` says all this of every program that was read.
-/

namespace Offside

/-! ## 1. Where the checker finds a fault -/

mutual

/-- The qualified names of a definition and of all that is nested in it. -/
def Definition.paths (path : String) : Definition → List String
  | .constant _ _ nested | .function _ _ _ nested => path :: Definitions.paths path nested
  | .native .. => [path]

/-- The qualified names of definitions nested in the one at `path`, at every depth. -/
def Definitions.paths (path : String) : List (String × Definition) → List String
  | [] => []
  | (name, definition) :: rest =>
    definition.paths (path ++ "." ++ name) ++ Definitions.paths path rest

end

namespace Context

theorem path_of_checkBody {context : Context} {path : String} {declared : Ty} {body : Expr}
    {error : TypeError} (h : context.checkBody path declared body = .error error) :
    error.definition = path := by
  rw [checkBody_eq] at h
  split at h
  · cases h
    rfl
  · split at h
    · cases h
    · cases h
      rfl

mutual

/-- **A fault is located** in the definition that is checked, or in one nested in it. -/
theorem checkDefinition_mem_paths : ∀ {definition : Definition} {context : Context} {path : String}
    {error : TypeError}, context.checkDefinition path definition = .error error →
    error.definition ∈ definition.paths path
  | .native .., _, _, _, h => by
      rw [checkDefinition_native] at h
      cases h
  | .constant ty body nested, context, path, error, h => by
      rw [checkDefinition_constant] at h
      rw [Definition.paths, List.mem_cons]
      rcases except_bind_eq_error h with hnested | ⟨_, _, hbody⟩
      · exact .inr (checkNested_mem_paths hnested)
      · exact .inl (path_of_checkBody hbody)
  | .function (.func types result) params body nested, context, path, error, h => by
      rw [checkDefinition_function] at h
      rw [Definition.paths, List.mem_cons]
      split at h
      · rcases except_bind_eq_error h with hnested | ⟨_, _, hbody⟩
        · exact .inr (checkNested_mem_paths hnested)
        · exact .inl (path_of_checkBody hbody)
      · cases h
        exact .inl rfl
  | .function (.named _) _ _ _, _, _, _, h | .function (.struct _) _ _ _, _, _, _, h
  | .function (.union _) _ _ _, _, _, _, h => by
      rw [checkDefinition_malformed] at h
      · cases h
        exact List.mem_cons_self
      · nofun

theorem checkNested_mem_paths : ∀ {nested : List (String × Definition)} {context : Context}
    {path : String} {error : TypeError}, context.checkNested path nested = .error error →
    error.definition ∈ Definitions.paths path nested
  | [], _, _, _, h => by
      rw [checkNested_nil] at h
      cases h
  | (name, definition) :: rest, context, path, error, h => by
      rw [checkNested_cons] at h
      rw [Definitions.paths, List.mem_append]
      rcases except_bind_eq_error h with hfirst | ⟨_, _, hrest⟩
      · exact .inl (checkDefinition_mem_paths hfirst)
      · exact .inr (checkNested_mem_paths hrest)

end

theorem exists_of_checkNested_eq_error {context : Context} {path : String} {nested : Definitions}
    {error : TypeError} (h : context.checkNested path nested = .error error) :
    ∃ name definition, (name, definition) ∈ nested ∧
      context.checkDefinition (path ++ "." ++ name) definition = .error error := by
  induction nested with
  | nil =>
      rw [checkNested_nil] at h
      cases h
  | cons first rest ih =>
      obtain ⟨key, head⟩ := first
      rw [checkNested_cons] at h
      rcases except_bind_eq_error h with hhead | ⟨_, _, hrest⟩
      · exact ⟨key, head, List.mem_cons_self, hhead⟩
      · obtain ⟨name, definition, hmem, hfault⟩ := ih hrest
        exact ⟨name, definition, List.mem_cons_of_mem _ hmem, hfault⟩

theorem exists_of_checkAll_eq_error {context : Context} {definitions : Definitions}
    {error : TypeError} (h : context.checkAll definitions = .error error) :
    ∃ name definition, (name, definition) ∈ definitions ∧
      context.checkDefinition name definition = .error error := by
  induction definitions with
  | nil => cases h
  | cons first rest ih =>
      obtain ⟨key, head⟩ := first
      rw [checkAll_cons] at h
      rcases except_bind_eq_error h with hhead | ⟨_, _, hrest⟩
      · exact ⟨key, head, List.mem_cons_self, hhead⟩
      · obtain ⟨name, definition, hmem, hfault⟩ := ih hrest
        exact ⟨name, definition, List.mem_cons_of_mem _ hmem, hfault⟩

end Context

/-- There is nothing to check in the library. -/
theorem Library.checkDefinition_eq_ok {libOrigin : Nat} {outlet : Outlet} {name : String}
    {definition : Definition} (h : (name, definition) ∈ Library.definitions libOrigin outlet)
    (context : Context) (path : String) : context.checkDefinition path definition = .ok () := by
  have hsigned : definition.Signed [] := Library.signed h
  obtain ⟨_, _, _, _, rfl, _⟩ := hsigned
  exact context.checkDefinition_native path _ _ _

/-! ## 2. Which faults it finds -/

namespace TypeFault

/-- The fault of a definition that no text can write. -/
def isInternal : TypeFault → Bool
  | malformedSignature _ | parameterCount .. | uncheckable _ => true
  | _ => false

end TypeFault

namespace Context

variable {context : Context} {fault : TypeFault} {error : TypeError}

/-- A fault in the comparison of operands with parameters is that of an operand, or is about a type. -/
theorem checkOperands_eq_error {callee : String} {position : Nat} {params : List Ty}
    {operands : List Expr}
    (h : context.checkOperands callee position params operands = .error fault) :
    fault.isInternal = false ∨ ∃ operand ∈ operands, context.derive operand = .error fault := by
  induction operands generalizing position params with
  | nil =>
      rw [checkOperands] at h
      cases h
  | cons operand operands ih =>
      cases params with
      | nil =>
          rw [checkOperands] at h
          cases h
      | cons param params =>
          rw [checkOperands] at h
          rcases except_bind_eq_error h with hoperand | ⟨found, _, h⟩
          · exact .inr ⟨operand, List.mem_cons_self, hoperand⟩
          · split at h
            · rcases ih h with hown | ⟨other, hmem, hother⟩
              · exact .inl hown
              · exact .inr ⟨other, List.mem_cons_of_mem _ hmem, hother⟩
            · cases h
              exact .inl rfl

/-- A fault of a call is that of its operator or of an operand, or is about a type or a number of
operands. -/
theorem derive_call_eq_error {operator : Expr} {operands : List Expr}
    (h : context.derive (.call operator operands) = .error fault) :
    fault.isInternal = false ∨ context.derive operator = .error fault ∨
      ∃ operand ∈ operands, context.derive operand = .error fault := by
  rw [derive.eq_def] at h
  simp only at h
  split at h
  · split at h
    · rename_i condition thenBranch elseBranch
      rcases except_bind_eq_error h with hcondition | ⟨found, _, h⟩
      · exact .inr (.inr ⟨condition, by simp, hcondition⟩)
      split at h
      · rcases except_bind_eq_error h with hthen | ⟨thenType, _, h⟩
        · exact .inr (.inr ⟨thenBranch, by simp, hthen⟩)
        rcases except_bind_eq_error h with helse | ⟨elseType, _, h⟩
        · exact .inr (.inr ⟨elseBranch, by simp, helse⟩)
        split at h
        · cases h
        · cases h
          exact .inl rfl
      · cases h
        exact .inl rfl
    · cases h
      exact .inl rfl
  · split at h
    · rename_i hoperator
      cases h
      exact .inr (.inl hoperator)
    · split at h
      · rcases except_bind_eq_error h with hoperands | ⟨_, _, h⟩
        · exact (checkOperands_eq_error hoperands).imp_right .inr
        · cases h
      · cases h
        exact .inl rfl
    · cases h
      exact .inl rfl

/-- **A plain expression has a type, or a fault that a text can show.** -/
theorem derive_isInternal {expr : Expr} (hplain : expr.Plain)
    (h : context.derive expr = .error fault) : fault.isInternal = false := by
  induction hplain with
  | lit value =>
      rw [derive] at h
      cases h
  | var name =>
      rw [derive] at h
      split at h
      · cases h
      · cases h
        rfl
  | call _ _ _ _ ihcallee iheach =>
      rcases derive_call_eq_error h with hown | hoperator | ⟨operand, hmem, hoperand⟩
      · exact hown
      · exact ihcallee hoperator
      · exact iheach operand hmem hoperand

theorem checkBody_isInternal {path : String} {declared : Ty} {body : Expr} (hplain : body.Plain)
    (h : context.checkBody path declared body = .error error) : error.fault.isInternal = false := by
  rw [checkBody_eq] at h
  split at h
  · rename_i fault hfault
    cases h
    exact derive_isInternal hplain hfault
  · split at h
    · cases h
    · cases h
      rfl

/-- **A written definition has no internal fault**, and neither has anything nested in it. -/
theorem checkDefinition_isInternal {definition : Definition} (hw : definition.Written)
    {path : String} (h : context.checkDefinition path definition = .error error) :
    error.fault.isInternal = false := by
  induction hw generalizing context path error with
  | constant plain _ _ ih =>
      rw [checkDefinition_constant] at h
      rcases except_bind_eq_error h with h | ⟨_, _, h⟩
      · obtain ⟨name, definition, hmem, hfault⟩ := exists_of_checkNested_eq_error h
        exact ih name definition hmem hfault
      · exact checkBody_isInternal plain h
  | function plain _ _ typed _ _ _ ih =>
      rw [checkDefinition_function, if_pos typed] at h
      rcases except_bind_eq_error h with h | ⟨_, _, h⟩
      · obtain ⟨name, definition, hmem, hfault⟩ := exists_of_checkNested_eq_error h
        exact ih name definition hmem hfault
      · exact checkBody_isInternal plain h

end Context

/-! ## 3. Programs that were read -/

namespace Program.WellFormed

variable {program : Program} {origin : Nat} (h : program.WellFormed origin)

include h

/-- **The native functions of a program are those of its structs**: for each a constructor, which
takes the fields and gives a value of the struct, and for each field an accessor, which takes a value
of the struct and gives the field. -/
theorem native_mem_iff {name : String} {ty : Ty} {params : List String} {function : Native} :
    (name, .native ty params function) ∈ program.definitions ↔
      ∃ type fields, Table.find? program.types type = some (.struct fields) ∧
        ((name = type ∧ ty = .func (fields.map (·.2)) (.named type) ∧ params = fields.map (·.1) ∧
            function = ⟨origin, .construct type (fields.map (·.1))⟩) ∨
          ∃ field fieldTy, (field, fieldTy) ∈ fields ∧ name = type ++ "." ++ field ∧
            ty = .func [.named type] fieldTy ∧ params = ["value"] ∧
            function = ⟨origin, .access type field⟩) := by
  constructor
  · intro hmem
    rcases h.defines.each name _ hmem with hw | ⟨type, fields, hdeclared, hmem⟩
    · cases hw
    · refine ⟨type, fields, hdeclared, ?_⟩
      rcases List.mem_cons.1 hmem with heq | hmem
      · cases heq
        exact .inl ⟨rfl, rfl, rfl, rfl⟩
      · obtain ⟨⟨field, fieldTy⟩, hfield, heq⟩ := List.mem_map.1 hmem
        cases heq
        exact .inr ⟨field, fieldTy, hfield, rfl, rfl, rfl, rfl⟩
  · rintro ⟨type, fields, hdeclared, ⟨rfl, rfl, rfl, rfl⟩ |
      ⟨field, fieldTy, hfield, rfl, rfl, rfl, rfl⟩⟩
    · exact h.defines.generated _ fields hdeclared _ List.mem_cons_self
    · refine h.defines.generated type fields hdeclared _ (List.mem_cons_of_mem _ ?_)
      exact List.mem_map.2 ⟨(field, fieldTy), hfield, rfl⟩

/-- A declared union has options, and it lists each of them once. -/
theorem find?_aliases_of_union {name : String} {tys : List Ty}
    (hunion : Table.find? program.types name = some (.union tys)) :
    ∃ listed : List String, tys = listed.map .named ∧ listed.Nodup ∧
      Table.find? program.aliases name = some (NameSet.ofList listed) := by
  obtain ⟨declaration, hsound, hty, hoptions⟩ := h.declared.each name _ hunion
  cases declaration with
  | struct fields => cases hty
  | union listed =>
      cases hty
      exact ⟨listed, rfl, hsound.2, hoptions⟩

/-- Nothing but a declared union has options. -/
theorem find?_aliases_iff {name : String} :
    (∃ options, Table.find? program.aliases name = some options) ↔
      ∃ tys, Table.find? program.types name = some (.union tys) := by
  constructor
  · rintro ⟨options, hoptions⟩
    cases htype : Table.find? program.types name with
    | none =>
        rw [h.declared.others name htype] at hoptions
        cases hoptions
    | some ty =>
        obtain ⟨declaration, _, rfl, hdeclared⟩ := h.declared.each name ty htype
        cases declaration with
        | struct fields =>
            rw [hdeclared] at hoptions
            cases hoptions
        | union listed => exact ⟨_, rfl⟩
  · rintro ⟨tys, hunion⟩
    obtain ⟨listed, _, _, hoptions⟩ := h.find?_aliases_of_union hunion
    exact ⟨_, hoptions⟩

/-- **The checker finds no internal fault in a program.** -/
theorem checkWith_isInternal {libOrigin : Nat} {outlet : Outlet} {error : TypeError}
    (hcheck : program.checkWith (Library.definitions libOrigin outlet) = .error error) :
    error.fault.isInternal = false := by
  obtain ⟨name, definition, hmem, hfault⟩ := Context.exists_of_checkAll_eq_error hcheck
  rcases Table.mem_merge hmem with hmem | hmem
  · rcases h.written_or_signed hmem with hw | ⟨_, _, _, _, rfl, _⟩
    · exact Context.checkDefinition_isInternal hw hfault
    · rw [Context.checkDefinition_native] at hfault
      cases hfault
  · rw [Library.checkDefinition_eq_ok hmem] at hfault
    cases hfault

end Program.WellFormed

/-- **Every program that was read is regular**, whatever the tokens are. Its definitions are written
ones, at every depth, and native functions; the latter are exactly the constructor and the accessors
of each declared struct. Its unions, and nothing else, have options, and these are the names that the
declaration lists, each once. Hence the checker reports no fault that is about the form of a
definition rather than its types. -/
theorem ofTokens_regular {origin : Nat} {tokens : List Lexeme} {program : Program}
    (h : Program.ofTokens origin tokens = .ok program) :
    (∀ name definition, (name, definition) ∈ program.definitions →
      definition.Written ∨ ∃ ty params function, definition = .native ty params function) ∧
    (∀ name ty params function, (name, .native ty params function) ∈ program.definitions ↔
      ∃ type fields, Table.find? program.types type = some (.struct fields) ∧
        ((name = type ∧ ty = .func (fields.map (·.2)) (.named type) ∧ params = fields.map (·.1) ∧
            function = ⟨origin, .construct type (fields.map (·.1))⟩) ∨
          ∃ field fieldTy, (field, fieldTy) ∈ fields ∧ name = type ++ "." ++ field ∧
            ty = .func [.named type] fieldTy ∧ params = ["value"] ∧
            function = ⟨origin, .access type field⟩)) ∧
    (∀ name, (∃ options, Table.find? program.aliases name = some options) ↔
      ∃ tys, Table.find? program.types name = some (.union tys)) ∧
    (∀ name tys, Table.find? program.types name = some (.union tys) →
      ∃ (listed : List String) (options : NameSet), tys = listed.map .named ∧ listed.Nodup ∧
        Table.find? program.aliases name = some options ∧ options.Pairwise (· < ·) ∧
        ∀ option, option ∈ options ↔ option ∈ listed) ∧
    ∀ error, program.check = .error error → error.fault.isInternal = false := by
  have hwf := Program.wellFormed_ofTokens h
  refine ⟨fun name definition hmem => ?_, fun _ _ _ _ => hwf.native_mem_iff,
    fun _ => hwf.find?_aliases_iff, fun name tys hunion => ?_,
    fun error hcheck => hwf.checkWith_isInternal hcheck⟩
  · rcases hwf.written_or_signed hmem with hw | ⟨_, _, _, _, rfl, _⟩
    · exact .inl hw
    · exact .inr ⟨_, _, _, rfl⟩
  · obtain ⟨listed, htys, hnodup, hoptions⟩ := hwf.find?_aliases_of_union hunion
    exact ⟨listed, _, htys, hnodup, hoptions, NameSet.pairwise_ofList listed,
      fun option => NameSet.mem_ofList⟩

/-- A struct, a union that repeats an option, and a definition with a fault. -/
def shapeTokens : List Lexeme :=
  lexemesOf [.name "Point", .colonEqual, .structWord, .name "x", .colon, .name "Integer", .semicolon,
    .name "Shape", .colonEqual, .unionWord, .name "Point", .bar, .name "Integer", .bar,
    .name "Point", .semicolon,
    .name "wrong", .colon, .name "Point", .assign, .int 5, .semicolon]

theorem ofTokens_shapeTokens_regular :
    ∃ program error, Program.ofTokens 1 shapeTokens = .ok program ∧
      ("Point.x", .native (.func [.named "Point"] .integer) ["value"] ⟨1, .access "Point" "x"⟩) ∈
        program.definitions ∧
      (∃ options, Table.find? program.aliases "Shape" = some options) ∧
      program.check = .error error ∧ error = ⟨"wrong", .mismatch (.named "Point") .integer⟩ ∧
      error.fault.isInternal = false := by
  obtain ⟨program, hread, hp⟩ := exists_of_reads (by decide +kernel : reads 1 shapeTokens
    fun program => Table.find? program.types "Point" = some (.struct [("x", .integer)]) ∧
      Table.find? program.types "Shape" = some (.union [.named "Point", .integer]) ∧
      program.check = .error ⟨"wrong", .mismatch (.named "Point") .integer⟩)
  obtain ⟨hpoint, hshape, hcheck⟩ := of_decide_eq_true hp
  obtain ⟨_, hnative, hunion, _, hfault⟩ := ofTokens_regular hread
  refine ⟨program, _, hread, ?_, (hunion "Shape").2 ⟨_, hshape⟩, hcheck, rfl, hfault _ hcheck⟩
  exact (hnative _ _ _ _).2 ⟨"Point", _, hpoint, .inr ⟨"x", .integer, by simp, rfl, rfl, rfl, rfl⟩⟩

end Offside
