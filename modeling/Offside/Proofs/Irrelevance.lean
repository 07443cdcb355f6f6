import Offside.Proofs.Characters
import Offside.Proofs.Faults
import Offside.Proofs.Simulation

/-!
# Definitions that nobody mentions

A program may get further definitions without a change to what it does, as long as none of its
variables leads to one of them.

* `Avoids` -- a variable leads to none of some names: it is not one of them, and none of them stands
  before a dot of it;
* `Program.variables` -- the variables of a program, at every depth;
* `unmentioned` -- the likeness of runs with and without the further definitions; alike environments
  agree on the variables that avoid them (`unmentioned_sound`);
* `Context.Agree` -- the same for the checker, which finds the same types
  (`Context.Agree.checkDefinition_eq`).

`adding_unmentioned` is what follows for runs and for the checker.
-/

namespace Offside

/-! ## 1. Names that lead nowhere near -/

/-- What is mentioned is none of the names, and none of them is in front of a dot of it. -/
def Avoids (names : List String) (mentioned : String) : Prop :=
  ∀ name ∈ names, mentioned ≠ name ∧ ∀ rest, mentioned ≠ name ++ "." ++ rest

/-- A name without a dot avoids all others. -/
theorem Avoids.of_undotted {names : List String} {mentioned : String} (hother : mentioned ∉ names)
    (hdot : '.' ∉ mentioned.toList) : Avoids names mentioned := by
  intro name hname
  refine ⟨fun heq => hother (heq ▸ hname), fun rest heq => hdot ?_⟩
  rw [heq]
  simp

theorem Qualified.eq_of_cut? {name outer inner : String}
    (h : Qualified.cut? name = some (outer, inner)) : name = outer ++ "." ++ inner := by
  obtain ⟨parts, hparts, heq⟩ := Option.map_eq_some_iff.1 h
  cases heq
  have htext := Text.eq_append_of_cutLast hparts
  apply String.ext
  rw [htext]
  simp

/-- What is in front of the last dot leads no further. -/
theorem Avoids.cut {names : List String} {name outer inner : String}
    (h : Qualified.cut? name = some (outer, inner)) (havoids : Avoids names name) :
    Avoids names outer := by
  intro added hadded
  have hname := Qualified.eq_of_cut? h
  obtain ⟨_, hdotted⟩ := havoids added hadded
  refine ⟨fun heq => hdotted inner (heq ▸ hname), fun rest heq => ?_⟩
  refine hdotted (rest ++ "." ++ inner) ?_
  rw [hname, heq]
  simp only [String.append_assoc]

/-! ## 2. The variables of a program -/

mutual

/-- The variables of an expression. -/
def Expr.variables : Expr → List String
  | .lit _ | .closure _ => []
  | .record _ fields => Expr.variablesOfEntries fields
  | .var name => [name]
  | .call operator operands => operator.variables ++ Expr.variablesOfAll operands
  | .function _ locals body | .scope locals body =>
    Expr.variablesOfEntries locals ++ body.variables

/-- The variables of some expressions. -/
def Expr.variablesOfAll : List Expr → List String
  | [] => []
  | expr :: rest => expr.variables ++ Expr.variablesOfAll rest

/-- The variables of named expressions. -/
def Expr.variablesOfEntries : List (String × Expr) → List String
  | [] => []
  | (_, expr) :: rest => expr.variables ++ Expr.variablesOfEntries rest

end

mutual

/-- The variables of a definition and of all that is nested in it. -/
def Definition.variables : Definition → List String
  | .constant _ body nested | .function _ _ body nested =>
    body.variables ++ Definitions.variables nested
  | .native .. => []

/-- The variables of the definitions of a scope. -/
def Definitions.variables : List (String × Definition) → List String
  | [] => []
  | (_, definition) :: rest => definition.variables ++ Definitions.variables rest

end

/-- The variables that occur anywhere in a program. -/
def Program.variables (program : Program) : List String :=
  Definitions.variables program.definitions

theorem Expr.variables_subset {operand : Expr} {operands : List Expr} (h : operand ∈ operands) :
    operand.variables ⊆ Expr.variablesOfAll operands := by
  induction operands with
  | nil => cases h
  | cons first rest ih =>
      rw [Expr.variablesOfAll]
      rcases List.mem_cons.1 h with rfl | h
      · exact List.subset_append_left _ _
      · exact List.Subset.trans (ih h) (List.subset_append_right _ _)

theorem Definition.variables_subset {name : String} {definition : Definition}
    {definitions : Definitions} (h : (name, definition) ∈ definitions) :
    definition.variables ⊆ Definitions.variables definitions := by
  induction definitions with
  | nil => cases h
  | cons first rest ih =>
      obtain ⟨key, head⟩ := first
      rw [Definitions.variables]
      rcases List.mem_cons.1 h with heq | h
      · cases heq
        exact List.subset_append_left _ _
      · exact List.Subset.trans (ih h) (List.subset_append_right _ _)

/-! ## 3. What mentions known names is like itself -/

variable {L : Likeness}

/-- A body that mentions known names only is like itself. -/
theorem Expr.Plain.alike {expr : Expr} (hplain : expr.Plain)
    (hknown : ∀ name ∈ expr.variables, L.Known name) : expr.Alike L expr := by
  induction hplain with
  | lit value => exact .lit value
  | var name => exact .var (hknown name (List.mem_singleton_self name))
  | @call operator operands _ _ _ _ ihcallee iheach =>
      rw [Expr.variables] at hknown
      have hoperator : ∀ name ∈ operator.variables, L.Known name :=
        fun name hname => hknown name (List.mem_append_left _ hname)
      refine .call (ihcallee hoperator) (List.forall₂_same.2 fun operand hmem => ?_)
      refine iheach operand hmem fun name hname => hknown name (List.mem_append_right _ ?_)
      exact Expr.variables_subset hmem hname

/-- What the definitions of a scope bind is like itself, if this holds of each definition that
mentions known names only, and they do. -/
theorem Definitions.toBindings_rel {definitions : Definitions}
    (hknown : ∀ name ∈ Definitions.variables definitions, L.Known name)
    (heach : ∀ name definition, (name, definition) ∈ definitions →
      (∀ name ∈ definition.variables, L.Known name) →
      ∀ name, (definition.toExpr name).Alike L (definition.toExpr name)) :
    Table.Rel (Expr.Alike L) (Definitions.toBindings definitions)
      (Definitions.toBindings definitions) := by
  induction definitions with
  | nil => exact .nil
  | cons first rest ih =>
      obtain ⟨name, definition⟩ := first
      rw [Definitions.variables, List.forall_mem_append] at hknown
      obtain ⟨hfirst, hrest⟩ := hknown
      exact .cons name (heach name definition List.mem_cons_self hfirst name)
        (ih hrest fun other other' hmem => heach other other' (List.mem_cons_of_mem _ hmem))

/-- What a written definition binds is like itself, if it mentions known names only. -/
theorem Definition.Written.alike {definition : Definition} (hw : definition.Written)
    (hknown : ∀ name ∈ definition.variables, L.Known name) (name : String) :
    (definition.toExpr name).Alike L (definition.toExpr name) := by
  induction hw generalizing name with
  | @constant ty body nested plain _ _ ih =>
      rw [Definition.variables, List.forall_mem_append] at hknown
      obtain ⟨hbody, hnested⟩ := hknown
      have hlocals := Definitions.toBindings_rel hnested ih
      rw [Definition.toExpr]
      split
      · exact plain.alike hbody
      · exact .scope hlocals (plain.alike hbody)
  | @function types result params body nested plain _ _ _ _ _ _ ih =>
      rw [Definition.variables, List.forall_mem_append] at hknown
      obtain ⟨hbody, hnested⟩ := hknown
      have hlocals := Definitions.toBindings_rel hnested ih
      rw [Definition.toExpr]
      exact .function hlocals (plain.alike hbody)

/-- What a definition of a program binds is like itself, if the program mentions known names only. -/
theorem Program.WellFormed.alike {program : Program} {origin : Nat} (h : program.WellFormed origin)
    (hknown : ∀ name ∈ program.variables, L.Known name) {name : String} {definition : Definition}
    (hmem : (name, definition) ∈ program.definitions) :
    (definition.toExpr name).Alike L (definition.toExpr name) := by
  rcases h.written_or_signed hmem with hw | ⟨_, _, _, _, rfl, _⟩
  · exact hw.alike (fun v hv => hknown v (Definition.variables_subset hmem hv)) name
  · exact .native .nil

/-! ## 4. Runs with further definitions -/

/-- The program with further definitions. -/
def Program.adding (program : Program) (added : Definitions) : Program :=
  { program with definitions := Table.merge program.definitions added }

theorem Program.find?_adding (program : Program) {added : Definitions} {name : String}
    (h : name ∉ Table.names added) :
    Table.find? (program.adding added).definitions name =
      Table.find? program.definitions name := by
  have habove : Table.find? added.reverse name = none := by
    rw [Table.find?_eq_none, Table.names, List.map_reverse, List.mem_reverse]
    exact h
  rw [Program.adding, Table.find?_merge, habove, Option.none_or]

/-- The two runs differ in the further definitions, and mention none of them. -/
def unmentioned (library : Definitions) (program : Program) (added : Definitions) : Likeness where
  Known := Avoids (Table.names added)
  Start env env' := env = Program.baseEnv library (program.adding added).definitions ∧
    env' = Program.baseEnv library program.definitions
  Regroups := False

variable {program : Program} {origin : Nat} {added : Definitions}

theorem Avoids.not_mem {names : List String} {name : String} (h : Avoids names name) :
    name ∉ names :=
  fun hmem => (h name hmem).1 rfl

/-- The environments of the two runs agree on all that is mentioned. -/
theorem unmentioned_sound (hwf : program.WellFormed origin)
    (havoids : ∀ name ∈ program.variables, Avoids (Table.names added) name) (libOrigin : Nat)
    (outlet : Outlet) :
    (unmentioned (Library.definitions libOrigin outlet) program added).Sound := by
  refine ⟨Avoids.cut, ?_⟩
  intro env env' hstart name hknown
  have hscopes : env.Alike (unmentioned (Library.definitions libOrigin outlet) program added) env' :=
    .start hstart
  obtain ⟨rfl, rfl⟩ := hstart
  have hsame := program.find?_adding hknown.not_mem
  rw [Program.lookup_baseEnv, Program.lookup_baseEnv, hsame]
  cases hfind : Table.find? program.definitions name with
  | some definition =>
      exact .some ⟨hwf.alike havoids (Table.mem_of_find? hfind), .inr hscopes⟩
  | none =>
      -- the library is the same in both, and has nothing but native functions
      cases hlibrary : Table.find? (Library.definitions libOrigin outlet) name with
      | none => exact .none
      | some definition =>
          have hsigned : definition.Signed program.types :=
            Library.signed (Table.mem_of_find? hlibrary)
          obtain ⟨_, _, _, _, rfl, _⟩ := hsigned
          exact .some ⟨.native .nil, .inl rfl⟩

/-- **A run does not notice definitions that nobody mentions.** -/
theorem Program.inStep_interpret_adding (hwf : program.WellFormed origin)
    (hmain : "main" ∉ Table.names added)
    (havoids : ∀ name ∈ program.variables, Avoids (Table.names added) name) (libOrigin : Nat)
    (outlet : Outlet) (limit : Nat) :
    InStep (Expr.Alike (unmentioned (Library.definitions libOrigin outlet) program added))
      ((program.adding added).interpret (Library.definitions libOrigin outlet) limit)
      (program.interpret (Library.definitions libOrigin outlet) limit) := by
  have hsound := unmentioned_sound hwf havoids libOrigin outlet
  let L := unmentioned (Library.definitions libOrigin outlet) program added
  unfold Program.interpret
  rw [program.find?_adding hmain]
  split
  · exact .throw _
  · rename_i ty operator operands nested hfind
    have hmem := Table.mem_of_find? hfind
    have hknown := fun v hv => havoids v (Definition.variables_subset hmem hv)
    rw [Definition.variables, List.forall_mem_append] at hknown
    obtain ⟨hbody, hnested⟩ := hknown
    rcases hwf.written_or_signed hmem with hw | ⟨_, _, _, _, heq, _⟩
    · cases hw with
      | constant plain _ each =>
          have hlocals := Definitions.toBindings_rel (L := L) hnested
            fun other definition hmem => (each other definition hmem).alike
          have hbase : (Program.baseEnv (Library.definitions libOrigin outlet)
              (program.adding added).definitions).Alike L
              (Program.baseEnv (Library.definitions libOrigin outlet) program.definitions) :=
            .start ⟨rfl, rfl⟩
          exact .bind (Env.inStep_extendM hbase hlocals) fun env env' henv =>
            (eval_inStep hsound limit limit henv (plain.alike hbody)).onStack limit
    · cases heq
  · exact .throw _

/-! ## 5. The checker with further definitions -/

/-- Two contexts with the same unions, in which the same stands for a name that avoids others. -/
structure Context.Agree (names : List String) (context context' : Context) : Prop where
  aliases : context.aliases = context'.aliases
  direct : ∀ name, Avoids names name → context.direct name = context'.direct name

namespace Context.Agree

variable {names : List String} {context context' : Context} (h : context.Agree names context')

include h

theorem push (frame : Frame) : (context.push frame).Agree names (context'.push frame) := by
  refine ⟨h.aliases, fun name hname => ?_⟩
  have hbelow := h.direct name hname
  obtain ⟨aliases, frames⟩ := context
  obtain ⟨aliases', frames'⟩ := context'
  rw [Context.push, Context.push, Context.direct_cons, Context.direct_cons, hbelow]

theorem lookup_eq {name : String} (hname : Avoids names name) :
    context.lookup name = context'.lookup name := by
  have hrel : Option.Rel Eq (context.lookup name) (context'.lookup name) := by
    refine Qualified.resolve_rel_of Avoids.cut (fun plain hplain => ?_) (fun a b inner hab => ?_)
      name hname
    · rw [h.direct plain hplain]
      cases context'.direct plain with
      | none => exact .none
      | some entry => exact .some rfl
    · subst hab
      cases a.member inner with
      | none => exact .none
      | some entry => exact .some rfl
  generalize context.lookup name = found at hrel ⊢
  generalize context'.lookup name = found' at hrel ⊢
  cases hrel with
  | none => rfl
  | some heq => rw [heq]

theorem sameType_eq : context.sameType = context'.sameType := by
  funext a b
  rw [Context.sameType, Context.sameType, h.aliases]

theorem checkOperands_eq {operands : List Expr}
    (heach : ∀ operand ∈ operands, context.derive operand = context'.derive operand)
    (callee : String) (position : Nat) (params : List Ty) :
    context.checkOperands callee position params operands =
      context'.checkOperands callee position params operands := by
  induction operands generalizing position params with
  | nil => rw [Context.checkOperands, Context.checkOperands]
  | cons operand operands ih =>
      obtain ⟨hfirst, hrest⟩ := List.forall_mem_cons.1 heach
      cases params with
      | nil => rw [Context.checkOperands, Context.checkOperands]
      | cons param params =>
          rw [Context.checkOperands, Context.checkOperands, hfirst, h.sameType_eq]
          simp only [ih hrest]

/-- **A body has the same type** in contexts that agree on all that it mentions. -/
theorem derive_eq {expr : Expr} (hplain : expr.Plain)
    (hknown : ∀ name ∈ expr.variables, Avoids names name) :
    context.derive expr = context'.derive expr := by
  induction hplain with
  | lit value => rw [Context.derive, Context.derive]
  | var name =>
      have hname := hknown name (List.mem_singleton_self name)
      rw [Context.derive, Context.derive, h.lookup_eq hname]
  | @call operator operands _ _ _ _ ihcallee iheach =>
      rw [Expr.variables, List.forall_mem_append] at hknown
      obtain ⟨hoperator, hoperands⟩ := hknown
      have heach : ∀ operand ∈ operands, context.derive operand = context'.derive operand :=
        fun operand hmem => iheach operand hmem fun name hname =>
          hoperands name (Expr.variables_subset hmem hname)
      rw [Context.derive.eq_def, Context.derive.eq_def context']
      simp only [ihcallee hoperator, h.sameType_eq, h.checkOperands_eq heach]
      split
      · split
        · rename_i condition thenBranch elseBranch
          simp only [List.forall_mem_cons] at heach
          obtain ⟨hcondition, hthen, helse, _⟩ := heach
          rw [hcondition, hthen, helse]
        · rfl
      · rfl

theorem checkBody_eq {body : Expr} (hplain : body.Plain)
    (hknown : ∀ name ∈ body.variables, Avoids names name) (path : String) (declared : Ty) :
    context.checkBody path declared body = context'.checkBody path declared body := by
  rw [Context.checkBody_eq, Context.checkBody_eq, h.derive_eq hplain hknown, h.sameType_eq]

end Context.Agree

namespace Context

variable {names : List String} {context context' : Context}

theorem checkNested_eq {nested : Definitions}
    (hknown : ∀ name ∈ Definitions.variables nested, Avoids names name)
    (heach : ∀ name definition, (name, definition) ∈ nested →
      (∀ name ∈ definition.variables, Avoids names name) → ∀ path,
      context.checkDefinition path definition = context'.checkDefinition path definition)
    (path : String) : context.checkNested path nested = context'.checkNested path nested := by
  induction nested with
  | nil => rw [checkNested_nil, checkNested_nil]
  | cons first rest ih =>
      obtain ⟨name, definition⟩ := first
      rw [Definitions.variables, List.forall_mem_append] at hknown
      obtain ⟨hfirst, hrest⟩ := hknown
      rw [checkNested_cons, checkNested_cons, heach name definition List.mem_cons_self hfirst,
        ih hrest fun other other' hmem => heach other other' (List.mem_cons_of_mem _ hmem)]

/-- **A written definition is accepted or refused alike** in contexts that agree on all that it
mentions. -/
theorem Agree.checkDefinition_eq (h : context.Agree names context') {definition : Definition}
    (hw : definition.Written) (hknown : ∀ name ∈ definition.variables, Avoids names name)
    (path : String) :
    context.checkDefinition path definition = context'.checkDefinition path definition := by
  induction hw generalizing context context' path with
  | @constant ty body nested plain _ _ ih =>
      rw [Definition.variables, List.forall_mem_append] at hknown
      obtain ⟨hbody, hnested⟩ := hknown
      have hinner := h.push (Frame.ofDefinitions nested)
      have heach := checkNested_eq hnested (fun name definition hmem => ih name definition hmem hinner)
        path
      simp only [checkDefinition_constant, heach, hinner.checkBody_eq plain hbody]
  | @function types result params body nested plain _ _ _ _ _ _ ih =>
      rw [Definition.variables, List.forall_mem_append] at hknown
      obtain ⟨hbody, hnested⟩ := hknown
      have hinner := h.push ((Frame.ofDefinitions nested).withParams (params.zip types))
      have heach := checkNested_eq hnested (fun name definition hmem => ih name definition hmem hinner)
        path
      simp only [checkDefinition_function, heach, hinner.checkBody_eq plain hbody]

end Context

/-! ## 6. Programs with further definitions -/

namespace Program

/-- The context that the definitions of a program are checked in. -/
def context (program : Program) : Context :=
  ⟨program.aliases, [Frame.ofDefinitions
    (Table.merge (Library.definitions libraryOrigin .void) program.definitions)]⟩

theorem check_eq (program : Program) :
    program.check = program.context.checkAll
      (Table.merge (Library.definitions libraryOrigin .void) program.definitions) := rfl

theorem mem_merge_of_find? {library definitions : Definitions}
    (hordered : Table.Ordered definitions) {name : String} {definition : Definition}
    (h : Table.find? definitions name = some definition) :
    (name, definition) ∈ Table.merge library definitions := by
  refine Table.mem_of_find? ?_
  rw [Table.find?_merge, Table.find?_reverse hordered.nodup, h]
  rfl

/-- With further definitions, names that avoid them stand for the same. -/
theorem agree_adding (hordered : Table.Ordered program.definitions) (added : Definitions) :
    (program.adding added).context.Agree (Table.names added) program.context := by
  refine ⟨rfl, fun name hname => ?_⟩
  have hordered' : Table.Ordered (program.adding added).definitions := hordered.merge added
  simp only [context, Context.direct_cons, Frame.find?_ofDefinitions, Table.find?_merge,
    Table.find?_reverse hordered.nodup, Table.find?_reverse hordered'.nodup,
    program.find?_adding hname.not_mem]
  rfl

variable (hwf : program.WellFormed origin)
  (havoids : ∀ name ∈ program.variables, Avoids (Table.names added) name)

include hwf havoids

/-- The definitions of a program are accepted or refused as without the further ones. -/
theorem checkDefinition_adding {name : String} {definition : Definition}
    (hmem : (name, definition) ∈ program.definitions) :
    (program.adding added).context.checkDefinition name definition =
      program.context.checkDefinition name definition := by
  rcases hwf.written_or_signed hmem with hw | ⟨_, _, _, _, rfl, _⟩
  · exact (agree_adding hwf.defines.ordered added).checkDefinition_eq hw
      (fun v hv => havoids v (Definition.variables_subset hmem hv)) name
  · rw [Context.checkDefinition_native, Context.checkDefinition_native]

/-- A program that is accepted with further definitions is accepted without them. -/
theorem check_of_check_adding
    (hnew : ∀ name ∈ Table.names added, Table.find? program.definitions name = none)
    (h : (program.adding added).check = .ok ()) : program.check = .ok () := by
  rw [check_eq, Context.checkAll_eq_ok_iff] at h ⊢
  intro name definition hmem
  rcases Table.mem_merge hmem with hmem | hmem
  · have hfind := Table.find?_of_mem hwf.defines.ordered.nodup hmem
    have hname : name ∉ Table.names added := by
      intro hadded
      rw [hnew name hadded] at hfind
      cases hfind
    rw [← checkDefinition_adding hwf havoids hmem]
    refine h name definition (mem_merge_of_find? (hwf.defines.ordered.merge added) ?_)
    exact (program.find?_adding hname).trans hfind
  · exact Library.checkDefinition_eq_ok hmem _ _

/-- A fault of an accepted program with further definitions is in one of these. -/
theorem mem_paths_of_check_adding (hcheck : program.check = .ok ()) {error : TypeError}
    (h : (program.adding added).check = .error error) :
    ∃ name definition, (name, definition) ∈ added ∧ error.definition ∈ definition.paths name := by
  rw [check_eq, Context.checkAll_eq_ok_iff] at hcheck
  rw [check_eq] at h
  obtain ⟨name, definition, hmem, hfault⟩ := Context.exists_of_checkAll_eq_error h
  rcases Table.mem_merge hmem with hmem | hmem
  · rcases Table.mem_merge hmem with hmem | hmem
    · exact ⟨name, definition, hmem, Context.checkDefinition_mem_paths hfault⟩
    · have hfind := Table.find?_of_mem hwf.defines.ordered.nodup hmem
      have haccepted := hcheck name definition (mem_merge_of_find? hwf.defines.ordered hfind)
      rw [checkDefinition_adding hwf havoids hmem, haccepted] at hfault
      cases hfault
  · rw [Library.checkDefinition_eq_ok hmem] at hfault
    cases hfault

end Program

/-- **Definitions that nobody mentions are irrelevant.** A program that was compiled gets further
definitions, of names that are new to it, are not `main`, and that none of its variables is or
reaches through. At every limit, and whatever they do and whichever functions of the library they
hide, a run with them writes the same and ends in the same error, or in the same value up to the
environments that closures captured. If the checker accepts the program with them, it accepts the
program without them; and if it accepts the program without them, it finds faults only in them and in
what is nested in them. -/
theorem adding_unmentioned {source : String} (hcompile : compile origin source = .ok program)
    (added : Definitions)
    (hnew : ∀ name ∈ Table.names added, Table.find? program.definitions name = none)
    (hmain : "main" ∉ Table.names added)
    (havoids : ∀ name ∈ program.variables, Avoids (Table.names added) name) :
    (∀ libOrigin outlet limit,
      InStep (fun value value' => value.bare = value'.bare)
        ((program.adding added).interpret (Library.definitions libOrigin outlet) limit)
        (program.interpret (Library.definitions libOrigin outlet) limit)) ∧
    ((program.adding added).check = .ok () → program.check = .ok ()) ∧
    (program.check = .ok () → ∀ error, (program.adding added).check = .error error →
      ∃ name definition, (name, definition) ∈ added ∧
        error.definition ∈ definition.paths name) := by
  have hwf := wellFormed_of_compile hcompile
  refine ⟨fun libOrigin outlet limit world world' hworlds => ?_, fun h => ?_,
    fun hcheck error h => ?_⟩
  · have hrun := program.inStep_interpret_adding hwf hmain havoids libOrigin outlet limit
    exact (hrun world world' hworlds).mono fun value value' halike => halike.bare_eq
  · exact Program.check_of_check_adding hwf havoids hnew h
  · exact Program.mem_paths_of_check_adding hwf havoids hcheck h

/-- A program that makes do with two functions of the library. -/
def greetingSource : String :=
  "main:None = printLine (join \"a\" \"b\")
join:String x:String y:String = concat x y"

/-- Definitions that hide a function of the library, and one with a fault nested in it. -/
def spareSource : String :=
  "plus:Integer a:Integer b:Integer = minus a b
spare:Integer = part
    part:Integer = missing"

set_option maxRecDepth 4000 in
theorem adding_spare :
    ∃ program spare, compile programOrigin greetingSource = .ok program ∧
      compile programOrigin spareSource = .ok spare ∧ program.check = .ok () ∧
      (program.adding spare.definitions).check =
        .error ⟨"spare.part", .unknownName "missing"⟩ ∧
      (∃ name definition, (name, definition) ∈ spare.definitions ∧
        "spare.part" ∈ definition.paths name) ∧
      InStep (fun value value' => value.bare = value'.bare)
        ((program.adding spare.definitions).interpret
          (Library.definitions libraryOrigin .console) 9)
        (program.interpret (Library.definitions libraryOrigin .console) 9) := by
  have hsources : ∃ source source', greetingSource = String.ofList source ∧
      spareSource = String.ofList source' ∧
      compiles programOrigin source fun program => compiles programOrigin source' fun spare =>
        program.check = .ok () ∧ (program.adding spare.definitions).check =
          .error ⟨"spare.part", .unknownName "missing"⟩ ∧
        (∀ name ∈ Table.names spare.definitions,
          Table.contains program.definitions name = false) ∧
        "main" ∉ Table.names spare.definitions ∧
        ∀ name ∈ program.variables, name ∉ Table.names spare.definitions ∧ '.' ∉ name.toList :=
    ⟨_, _, rfl, rfl, by decide +kernel⟩
  obtain ⟨source, source', htext, htext', hsources⟩ := hsources
  obtain ⟨program, hcompile, hsources⟩ := exists_of_compiles htext hsources
  obtain ⟨spare, hcompile', hp⟩ := exists_of_compiles htext' hsources
  obtain ⟨hcheck, hfault, hnew, hmain, hplain⟩ := of_decide_eq_true hp
  have hirrelevant := adding_unmentioned hcompile spare.definitions
    (fun name hname => Table.contains_eq_false.1 (hnew name hname)) hmain
    (fun name hname => .of_undotted (hplain name hname).1 (hplain name hname).2)
  exact ⟨program, spare, hcompile, hcompile', hcheck, hfault,
    hirrelevant.2.2 hcheck _ hfault, hirrelevant.1 libraryOrigin .console 9⟩

end Offside
