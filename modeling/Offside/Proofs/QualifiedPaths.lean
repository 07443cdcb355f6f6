import Mathlib.Data.List.Infix
import Offside.Proofs.DefinitionTree
import Offside.Proofs.Outcome

/-!
# Qualified names reach what is nested in constants

A qualified name is taken apart from its right end, while the frames that the definition behind it
needs are made from the left. Said over the tree of definitions instead:

* `Definitions.Reaches` -- a chain of names that leads to a definition through constants only;
* `Env.within`, `Env.enter` -- an environment with the nested definitions of others added in turn, and
  the steps that make it (`Env.run_enter`);
* `Leads` -- what a qualified name has to stand for: the definition that its parts reach, in the
  environment inside of the constants around it, or nothing;
* `Leads.member` -- one part more keeps this, so it holds of names with any number of parts
  (`Program.WellFormed.leads_resolve`).

`qualified_name_reaches` is what follows for evaluation.
-/

namespace Offside

/-! ## 1. Names with dots -/

theorem Text.cutLast_eq_none {separator : Char} {text : List Char} (h : separator ∉ text) :
    cutLast separator text = none := by
  induction text with
  | nil => rfl
  | cons c rest ih =>
      obtain ⟨hc, hrest⟩ := not_or.1 (mt List.mem_cons.2 h)
      rw [cutLast, ih hrest]
      exact if_neg (Ne.symm hc)

theorem Text.cutLast_append {separator : Char} (before : List Char) {after : List Char}
    (h : separator ∉ after) :
    cutLast separator (before ++ separator :: after) = some (before, after) := by
  induction before with
  | nil =>
      rw [List.nil_append, cutLast, cutLast_eq_none h]
      exact if_pos rfl
  | cons c rest ih => rw [List.cons_append, cutLast, ih]

namespace Qualified

theorem cut?_eq_none {name : String} (h : '.' ∉ name.toList) : cut? name = none := by
  rw [cut?, Text.cutLast_eq_none h, Option.map_none]

/-- The last part of a qualified name is what stands after its last dot. -/
theorem cut?_concat {front : List String} (hfront : front ≠ []) {name : String}
    (h : '.' ∉ name.toList) :
    cut? (".".intercalate (front ++ [name])) = some (".".intercalate front, name) := by
  have htext : (".".intercalate (front ++ [name])).toList =
      (".".intercalate front).toList ++ '.' :: name.toList := by
    rw [String.intercalate_append_of_ne_nil hfront (List.cons_ne_nil _ _),
      String.intercalate_singleton, String.toList_append, String.toList_append, List.append_assoc]
    rfl
  rw [cut?, htext, Text.cutLast_append _ h, Option.map_some, String.ofList_toList,
    String.ofList_toList]

end Qualified

/-! ## 2. Chains of constants -/

namespace Definition

/-- Whether the definition is a constant. -/
def isConstant : Definition → Bool
  | constant .. => true
  | _ => false

/-- The definition that a name leads to inside of a constant. -/
def member? (name : String) : Definition → Option Definition
  | constant _ _ nested => Table.find? nested name
  | _ => none

theorem isConstant_of_member? {name : String} {definition inner : Definition}
    (h : definition.member? name = some inner) : definition.isConstant = true := by
  cases definition with
  | constant => rfl
  | function => cases h
  | native => cases h

end Definition

namespace Definitions

/-- A definition of the tree that is nested in constants only. -/
structure Reaches (table : Definitions) (chain : List String) (enclosing : List Definition)
    (definition : Definition) : Prop where
  holds : Holds table chain enclosing definition
  constants : ∀ outer ∈ enclosing, outer.isConstant = true

variable {table : Definitions} {chain : List String} {enclosing : List Definition}
  {definition : Definition}

/-- **One name more leads into a constant.** -/
theorem reaches_concat_iff (hchain : chain ≠ []) {name : String} :
    Reaches table (chain ++ [name]) enclosing definition ↔
      ∃ ty body nested around, Reaches table chain around (.constant ty body nested) ∧
        (name, definition) ∈ nested ∧ enclosing = .constant ty body nested :: around := by
  constructor
  · rintro ⟨hholds, hconstants⟩
    obtain ⟨outer, around, nested, houter, hnested, hmem, rfl⟩ := (holds_concat_iff hchain).1 hholds
    obtain ⟨hconstant, haround⟩ := List.forall_mem_cons.1 hconstants
    cases outer with
    | constant ty body _ =>
        cases hnested
        exact ⟨ty, body, nested, around, ⟨houter, haround⟩, hmem, rfl⟩
    | function => cases hconstant
    | native => cases hconstant
  · rintro ⟨ty, body, nested, around, ⟨houter, haround⟩, hmem, rfl⟩
    exact ⟨(holds_concat_iff hchain).2 ⟨_, around, nested, houter, rfl, hmem, rfl⟩,
      List.forall_mem_cons.2 ⟨rfl, haround⟩⟩

/-- Before the end of a chain there are constants. -/
theorem Reaches.constant_of_append {initial rest : List String} (hinitial : initial ≠ [])
    (hrest : rest ≠ []) (h : Reaches table (initial ++ rest) enclosing definition) :
    ∃ around outer, Holds table initial around outer ∧ outer.isConstant = true := by
  induction rest using List.reverseRecOn generalizing enclosing definition with
  | nil => exact absurd rfl hrest
  | append_singleton rest name ih =>
      rw [← List.append_assoc] at h
      obtain ⟨ty, body, nested, around, houter, _, _⟩ :=
        (reaches_concat_iff (List.append_ne_nil_of_left_ne_nil hinitial rest)).1 h
      by_cases hlast : rest = []
      · subst hlast
        rw [List.append_nil] at houter
        exact ⟨around, _, houter.holds, rfl⟩
      · exact ih hlast houter

/-- What is in a tree that can be read can be read. -/
theorem Holds.readable (hread : ∀ entry ∈ table, entry.2.Readable)
    (h : Holds table chain enclosing definition) : definition.Readable := by
  induction h with
  | here mem => exact hread _ mem
  | inside mem nests _ ih =>
      exact ih fun entry hmem => .inl (((hread _ mem).nested nests).2 entry hmem)

/-- Behind a definition that a chain of a read program reaches, one name more reaches its member. -/
theorem Reaches.concat_iff (hordered : Table.Ordered table)
    (hread : ∀ entry ∈ table, entry.2.Readable) (h : Reaches table chain enclosing definition)
    {name : String} {around : List Definition} {inner : Definition} :
    Reaches table (chain ++ [name]) around inner ↔
      definition.member? name = some inner ∧ around = definition :: enclosing := by
  have hchain : chain ≠ [] := by
    obtain ⟨_, _, rfl, _⟩ := h.holds.head
    exact List.cons_ne_nil _ _
  rw [reaches_concat_iff hchain]
  constructor
  · rintro ⟨ty, body, nested, _, houter, hmem, rfl⟩
    obtain ⟨rfl, rfl⟩ := h.holds.unique hordered hread houter.holds
    obtain ⟨hsorted, _⟩ := (h.holds.readable hread).nested rfl
    exact ⟨Table.find?_of_mem hsorted.nodup hmem, rfl⟩
  · rintro ⟨hmember, rfl⟩
    cases definition with
    | constant ty body nested =>
        exact ⟨ty, body, nested, enclosing, h, Table.mem_of_find? hmember, rfl⟩
    | function => cases hmember
    | native => cases hmember

end Definitions

/-! ## 3. Inside of definitions -/

/-- What evaluation binds inside of a definition, besides parameters. -/
def Definition.bindings (definition : Definition) : Bindings :=
  Definitions.toBindings (definition.nested?.getD [])

namespace Env

/-- The environment with the nested definitions of others added in turn, in frames that are numbered
from `next` on; the definitions are given innermost first. -/
def within (env : Env) (next : Nat) : List Definition → Env
  | [] => env
  | outer :: around => (env.within next around).extend (next + around.length) outer.bindings

/-- Adds the nested definitions of others in turn; these are given innermost first. -/
def enter (env : Env) : List Definition → EvalM Env
  | [] => pure env
  | outer :: around => do
    let scope ← env.enter around
    scope.extendM outer.bindings

/-- A frame for bindings that there are has the next number. -/
theorem run_extendM {bindings : Bindings} (h : bindings ≠ []) (env : Env) (world : World) :
    (env.extendM bindings).run world =
      (.ok (env.extend world.frames bindings), { world with frames := world.frames + 1 }) := by
  cases bindings with
  | nil => exact absurd rfl h
  | cons first rest => rfl

/-- What evaluation binds for a definition has the members of the definition. -/
theorem Found.member_eq {definition : Definition} (hread : definition.Readable) (outer : String)
    (scope : Env) (next : Nat) (name : String) :
    (⟨definition.toExpr outer, scope, next⟩ : Found).member name =
      (definition.member? name).map fun inner =>
        ⟨inner.toExpr name, scope.extend next definition.bindings, next + 1⟩ := by
  rcases hread with hw | ⟨_, _, _, rfl⟩
  · cases hw with
    | constant plain _ _ => exact member_constant plain outer scope next name
    | function => rfl
  · rfl

/-- **Entering definitions one by one** makes a frame for each. -/
theorem run_enter (env : Env) {enclosing : List Definition}
    (h : ∀ outer ∈ enclosing, outer.bindings ≠ []) (world : World) :
    (env.enter enclosing).run world = (.ok (env.within world.frames enclosing),
      { world with frames := world.frames + enclosing.length }) := by
  induction enclosing with
  | nil => rfl
  | cons outer around ih =>
      obtain ⟨houter, haround⟩ := List.forall_mem_cons.1 h
      rw [enter, exceptT_run_bind, ih haround]
      exact run_extendM houter _ _

end Env

namespace Definitions

/-- A definition that holds another one binds something. -/
theorem Holds.bindings_ne_nil {table : Definitions} {chain : List String}
    {enclosing : List Definition} {definition : Definition}
    (h : Holds table chain enclosing definition) : ∀ outer ∈ enclosing, outer.bindings ≠ [] := by
  induction h with
  | here _ => exact List.forall_mem_nil _
  | @inside _ nested _ outer _ _ _ _ nests below ih =>
      refine List.forall_mem_append.2 ⟨ih, List.forall_mem_singleton.2 ?_⟩
      obtain ⟨_, _, _, hmem⟩ := below.head
      rw [Definition.bindings, nests]
      cases nested with
      | nil => cases hmem
      | cons first rest => exact List.cons_ne_nil _ _

end Definitions

/-! ## 4. What a qualified name stands for -/

/-- What the name with the parts `front`, and then `name`, has to stand for in an environment: the
definition that they reach, in the environment inside of the constants around it, or nothing if they
reach none. -/
inductive Leads (table : Definitions) (base : Env) (next : Nat) (front : List String)
    (name : String) : Option Env.Found → Prop
  | nowhere (never : ∀ enclosing definition,
      ¬Definitions.Reaches table (front ++ [name]) enclosing definition) :
      Leads table base next front name none
  /-- a builtin has an environment of its own, which nothing is evaluated in -/
  | definition {enclosing : List Definition} {definition : Definition} {found : Env.Found}
      (reaches : Definitions.Reaches table (front ++ [name]) enclosing definition)
      (bound : found.bound = definition.toExpr name)
      (placed : definition.isConstant = true ∨ enclosing ≠ [] →
        found.scope = base.within next enclosing ∧ found.next = next + enclosing.length) :
      Leads table base next front name (some found)

namespace Leads

variable {table : Definitions} {base : Env} {next : Nat} {front : List String}
  {found? : Option Env.Found}

/-- A name stands for something exactly if its parts reach a definition. -/
theorem isSome_iff {name : String} (h : Leads table base next front name found?) :
    found?.isSome ↔ ∃ enclosing definition,
      Definitions.Reaches table (front ++ [name]) enclosing definition := by
  cases h with
  | nowhere never => exact ⟨nofun, fun ⟨_, _, hreaches⟩ => absurd hreaches (never _ _)⟩
  | definition reaches _ _ => exact ⟨fun _ => ⟨_, _, reaches⟩, fun _ => rfl⟩

variable (hordered : Table.Ordered table) (hread : ∀ entry ∈ table, entry.2.Readable)

include hordered hread

/-- The name of a nested definition stands for it. -/
theorem eq_some {name : String} (h : Leads table base next front name found?)
    {enclosing : List Definition} {definition : Definition}
    (hreaches : Definitions.Reaches table (front ++ [name]) enclosing definition)
    (hinside : enclosing ≠ []) :
    found? = some ⟨definition.toExpr name, base.within next enclosing,
      next + enclosing.length⟩ := by
  cases h with
  | nowhere never => exact absurd hreaches (never _ _)
  | @definition _ _ found reaches bound placed =>
      obtain ⟨rfl, rfl⟩ := reaches.holds.unique hordered hread hreaches.holds
      obtain ⟨expr, scope, number⟩ := found
      cases bound
      obtain ⟨rfl, rfl⟩ := placed (.inr hinside)
      rfl

/-- Behind the name of a function there is nothing that a name stands for. -/
theorem eq_none {initial rest : List String} {name : String}
    (h : Leads table base next (initial ++ rest) name found?) {around : List Definition}
    {outer : Definition} (houter : Definitions.Holds table initial around outer)
    (hfunction : outer.isConstant = false) : found? = none := by
  refine Option.not_isSome_iff_eq_none.1 fun hsome => ?_
  obtain ⟨enclosing, definition, hreaches⟩ := h.isSome_iff.1 hsome
  rw [List.append_assoc] at hreaches
  obtain ⟨_, _, rfl, _⟩ := houter.head
  obtain ⟨_, constant, hconstant, htrue⟩ :=
    hreaches.constant_of_append (List.cons_ne_nil _ _) (by simp)
  obtain ⟨_, rfl⟩ := houter.unique hordered hread hconstant
  rw [hfunction] at htrue
  cases htrue

/-- **One part more leads one definition further inwards**, if the parts before lead to a constant,
and else nowhere. -/
theorem member {outer : String} (h : Leads table base next front outer found?) (name : String) :
    Leads table base next (front ++ [outer]) name (found?.bind fun found => found.member name) := by
  cases h with
  | nowhere never =>
      refine .nowhere fun enclosing definition hreaches => ?_
      obtain ⟨_, _, _, around, houter, _, _⟩ :=
        (Definitions.reaches_concat_iff (List.append_ne_nil_of_right_ne_nil _ (by simp))).1 hreaches
      exact never around _ houter
  | @definition enclosing definition found reaches bound placed =>
      obtain ⟨expr, scope, number⟩ := found
      cases bound
      rw [Option.bind_some, Env.Found.member_eq (reaches.holds.readable hread)]
      cases hmember : definition.member? name with
      | none =>
          refine .nowhere fun around inner hreaches => ?_
          obtain ⟨hsome, _⟩ := (reaches.concat_iff hordered hread).1 hreaches
          rw [hmember] at hsome
          cases hsome
      | some inner =>
          obtain ⟨rfl, rfl⟩ := placed (.inl (Definition.isConstant_of_member? hmember))
          exact .definition ((reaches.concat_iff hordered hread).2 ⟨hmember, rfl⟩) rfl
            fun _ => ⟨rfl, rfl⟩

end Leads

namespace Program

/-- The parts of a qualified name stand apart: no two or more first ones are together a name of the
outermost table. -/
def PartsApart (program : Program) (library : Definitions) (chain : List String) : Prop :=
  ∀ initial, initial <+: chain → 2 ≤ initial.length →
    Table.find? (program.globals library) (".".intercalate initial) = none

instance (program : Program) (library : Definitions) (chain : List String) :
    Decidable (program.PartsApart library chain) :=
  decidable_of_iff (∀ initial ∈ chain.inits, 2 ≤ initial.length →
    (Table.find? (program.globals library) (".".intercalate initial)).isNone) (by
      simp only [PartsApart, List.mem_inits, Option.isNone_iff_eq_none])

variable {program : Program} {origin : Nat} (hwf : program.WellFormed origin) (libOrigin : Nat)
  (outlet : Outlet)

include hwf

/-- A name of the outermost table stands for its definition. -/
theorem WellFormed.leads_global (next : Nat) {name : String} (hplain : '.' ∉ name.toList) :
    Leads (program.globals (Library.definitions libOrigin outlet))
      (baseEnv (Library.definitions libOrigin outlet) program.definitions) next [] name
      ((baseEnv (Library.definitions libOrigin outlet) program.definitions).resolve next name) := by
  have hglobal := hwf.find?_globals (Library.definitions libOrigin outlet) name
  rw [Env.resolve, Qualified.resolve_eq, Qualified.cut?_eq_none hplain, Option.bind_none,
    Option.or_none, lookup_baseEnv]
  cases hfind : Table.find? program.definitions name with
  | some definition =>
      rw [hfind] at hglobal
      exact .definition ⟨.here (Table.mem_of_find? hglobal), List.forall_mem_nil _⟩ rfl
        fun _ => ⟨rfl, rfl⟩
  | none =>
      rw [hfind] at hglobal
      cases hlibrary : Table.find? (Library.definitions libOrigin outlet) name with
      | none =>
          rw [hlibrary] at hglobal
          refine .nowhere fun enclosing definition hreaches => ?_
          obtain ⟨hmem, _⟩ := Definitions.holds_singleton_iff.1 hreaches.holds
          rw [Table.find?_of_mem (program.ordered_globals libOrigin outlet).nodup hmem] at hglobal
          cases hglobal
      | some definition =>
          rw [hlibrary] at hglobal
          obtain ⟨_, _, _, _, rfl, _⟩ :=
            (Library.signed (Table.mem_of_find? hlibrary) : definition.Signed [])
          refine .definition ⟨.here (Table.mem_of_find? hglobal), List.forall_mem_nil _⟩ rfl ?_
          rintro (hconstant | hinside)
          · cases hconstant
          · exact absurd rfl hinside

/-- **What a qualified name stands for is what its parts reach**, if these stand apart. -/
theorem WellFormed.leads_resolve (next : Nat) (front : List String) (name : String)
    (hplain : ∀ part ∈ front ++ [name], '.' ∉ part.toList)
    (hapart : program.PartsApart (Library.definitions libOrigin outlet) (front ++ [name])) :
    Leads (program.globals (Library.definitions libOrigin outlet))
      (baseEnv (Library.definitions libOrigin outlet) program.definitions) next front name
      ((baseEnv (Library.definitions libOrigin outlet) program.definitions).resolve next
        (".".intercalate (front ++ [name]))) := by
  induction front using List.reverseRecOn generalizing name with
  | nil =>
      rw [List.nil_append, String.intercalate_singleton]
      exact hwf.leads_global libOrigin outlet next (hplain name List.mem_cons_self)
  | append_singleton front outer ih =>
      have hinitial : front ++ [outer] <+: front ++ [outer] ++ [name] := List.prefix_append _ _
      have houter := ih outer (fun part hpart => hplain part (hinitial.subset hpart))
        fun initial hstart => hapart initial (hstart.trans hinitial)
      -- the whole name is none of the outermost table, so its last part is looked up as a member
      have hwhole := hapart _ List.prefix_rfl (by simp)
      rw [hwf.find?_globals, Option.or_eq_none_iff] at hwhole
      rw [Env.resolve, Qualified.resolve_eq, lookup_baseEnv, hwhole.1, hwhole.2,
        Qualified.cut?_concat (by simp) (hplain name (by simp))]
      exact houter.member (program.ordered_globals libOrigin outlet)
        (hwf.readable_globals libOrigin outlet) name

end Program

/-! ## 5. Evaluation of qualified names -/

section Evaluation

variable {table : Definitions} {front : List String} {name : String} {enclosing : List Definition}
  {definition : Definition} (hordered : Table.Ordered table)
  (hread : ∀ entry ∈ table, entry.2.Readable) (hfront : front ≠ [])

include hread hfront

/-- Inside of the definitions around it, a nested definition is found by its own name. -/
theorem Definitions.Holds.lookup_within (h : Holds table (front ++ [name]) enclosing definition)
    (base : Env) (next : Nat) :
    (base.within next enclosing).lookup name =
      some (definition.toExpr name, base.within next enclosing) := by
  obtain ⟨outer, around, nested, houter, hnested, hmem, rfl⟩ := (holds_concat_iff hfront).1 h
  obtain ⟨hsorted, _⟩ := (houter.readable hread).nested hnested
  rw [Env.within, Env.lookup_extend, Definition.bindings, hnested, Option.getD_some,
    Definitions.find?_toBindings, Table.find?_of_mem hsorted.nodup hmem]
  rfl

include hordered

/-- **A name that leads to a nested definition is evaluated as the definition's own name is**, inside
of the definitions around it. -/
theorem Definitions.Reaches.evalVar_eq (h : Reaches table (front ++ [name]) enclosing definition)
    {base : Env} {path : String}
    (hleads : ∀ next, Leads table base next front name (base.resolve next path))
    (evaluate : Evaluator) :
    evalVar evaluate base path =
      base.enter enclosing >>= fun scope => evalVar evaluate scope name := by
  have hinside : enclosing ≠ [] := by
    obtain ⟨_, _, _, _, _, _, rfl⟩ := (reaches_concat_iff hfront).1 h
    exact List.cons_ne_nil _ _
  -- the frames that the whole name needs have the numbers that entering gives them
  refine funext fun world => (evalVar_run evaluate base path world).trans ?_
  rw [(hleads world.frames).eq_some hordered hread h hinside]
  refine Eq.symm ((exceptT_run_bind _ _ world).trans ?_)
  rw [base.run_enter h.holds.bindings_ne_nil world]
  have hlookup := h.holds.lookup_within hread hfront base world.frames
  exact congrFun (evalVar_of_lookup hlookup evaluate) _

end Evaluation

/-- **Qualified names reach exactly what is nested in constants.** Take a program that compiles, and a
name with two parts or more that stand apart. The name stands for something in the environment of the
program exactly if its parts lead to a definition through constants only. Evaluating it then has, at
every limit, the result and the output that evaluating its last part has, in the environment with the
nested definitions of these constants added in turn. If a part before the last one leads to a function,
the name is unbound, and evaluating it fails so on every stack. -/
theorem qualified_name_reaches {origin : Nat} {source : String} {program : Program}
    (hcompile : compile origin source = .ok program) (libOrigin : Nat) (outlet : Outlet)
    {front : List String} {name : String} (hfront : front ≠ [])
    (hplain : ∀ part ∈ front ++ [name], '.' ∉ part.toList)
    (hapart : program.PartsApart (Library.definitions libOrigin outlet) (front ++ [name])) :
    let globals := program.globals (Library.definitions libOrigin outlet)
    let base := Program.baseEnv (Library.definitions libOrigin outlet) program.definitions
    let path := ".".intercalate (front ++ [name])
    (∀ next, (base.resolve next path).isSome ↔ ∃ enclosing definition,
      Definitions.Reaches globals (front ++ [name]) enclosing definition) ∧
    (∀ enclosing definition, Definitions.Reaches globals (front ++ [name]) enclosing definition →
      ∀ limit world,
        let whole := ((Expr.var path).evaluate limit base).run world
        let last := (base.enter enclosing >>= (Expr.var name).evaluate limit).run world
        whole.1 = last.1 ∧ whole.2.written = last.2.written) ∧
    ∀ initial rest around outer, front = initial ++ rest →
      Definitions.Holds globals initial around outer → outer.isConstant = false →
        (∀ next, base.resolve next path = none) ∧
        ∀ limit world, ((Expr.var path).evaluate (limit + 1) base).run world =
          (onStack (limit + 1) (throw (.unboundName path)) : EvalM Expr).run world := by
  intro globals base path
  have hwf := wellFormed_of_compile hcompile
  have hordered : Table.Ordered globals := program.ordered_globals libOrigin outlet
  have hread := hwf.readable_globals libOrigin outlet
  have hleads : ∀ next, Leads globals base next front name (base.resolve next path) := fun next =>
    hwf.leads_resolve libOrigin outlet next front name hplain hapart
  refine ⟨fun next => (hleads next).isSome_iff, fun enclosing definition hreaches limit world => ?_,
    fun initial rest around outer hparts houter hfunction => ?_⟩
  · have hscope := base.run_enter hreaches.holds.bindings_ne_nil world
    rw [exceptT_run_bind, hscope]
    dsimp only
    -- entering makes frames, of which the machine does not know
    rcases world.grants_or_refuses limit with hs | ⟨reason, hs⟩
    · have hs' : World.Grants { world with frames := world.frames + enclosing.length } limit := hs
      rw [Expr.evaluate, Expr.evaluate, onStack_of_grants hs, onStack_of_grants hs']
      cases limit with
      | zero => exact ⟨rfl, rfl⟩
      | succ levels =>
          have heq := congrFun (hreaches.evalVar_eq hordered hread hfront hleads
            (eval (levels + 1) levels)) world
          have hlast := exceptT_run_bind (base.enter enclosing)
            (evalVar (eval (levels + 1) levels) · name) world
          rw [hscope] at hlast
          have hwhole := heq.trans hlast
          exact ⟨congrArg Prod.fst hwhole, congrArg (·.2.written) hwhole⟩
    · have hs' : World.Refuses { world with frames := world.frames + enclosing.length } limit
          reason := hs
      rw [Expr.evaluate, Expr.evaluate, onStack_of_refuses hs, onStack_of_refuses hs']
      exact ⟨rfl, rfl⟩
  · subst hparts
    have hnone : ∀ next, base.resolve next path = none := fun next =>
      (hleads next).eq_none hordered hread houter hfunction
    refine ⟨hnone, fun limit world => ?_⟩
    have hunbound : evalVar (eval (limit + 1) limit) base path = throw (.unboundName path) := by
      refine funext fun world => (evalVar_run _ base path world).trans ?_
      rw [hnone]
      rfl
    exact congrArg (fun computation => (onStack (limit + 1) computation).run world) hunbound

/-- Constants nested in a constant, of which one writes a line, and a constant nested in a function. -/
def depotSource : String := "unit:String = \"crate\"
depot:None = none
    unit:String = \"pallet\"
    shelf:None = none
        label:None = printLine unit
scale:Integer x:Integer = x
    step:Integer = 3"

theorem qualified_name_reaches_depotSource :
    ∃ program, compile programOrigin depotSource = .ok program ∧
      let library := Library.definitions libraryOrigin .console
      let base := Program.baseEnv library program.definitions
      (∃ enclosing definition, Definitions.Reaches (program.globals library)
          ["depot", "shelf", "label"] enclosing definition ∧
        ((base.enter enclosing >>= (Expr.var "label").evaluate 20).run
          (World.initial .accepting Program.baseFrames)).2.written = "pallet\n") ∧
      ∀ next, base.resolve next "scale.step" = none := by
  have hsource : ∃ source, depotSource = String.ofList source ∧
      compiles programOrigin source (fun program =>
        let library := Library.definitions libraryOrigin .console
        let base := Program.baseEnv library program.definitions
        program.PartsApart library ["depot", "shelf", "label"] ∧
        program.PartsApart library ["scale", "step"] ∧
        (base.resolve 2 "depot.shelf.label").isSome ∧
        (((Expr.var "depot.shelf.label").evaluate 20 base).run
          (World.initial .accepting Program.baseFrames)).2.written = "pallet\n" ∧
        (Table.find? (program.globals library) "scale").any (!·.isConstant)) :=
    ⟨_, String.ofList_toList.symm, by decide +kernel⟩
  obtain ⟨source, htext, hsource⟩ := hsource
  obtain ⟨program, hcompile, hp⟩ := exists_of_compiles htext hsource
  obtain ⟨hdepot, hscale, hsome, hwritten, hfunction⟩ := of_decide_eq_true hp
  have hlabel := qualified_name_reaches hcompile libraryOrigin .console
    (by decide : ["depot", "shelf"] ≠ []) (by decide) hdepot
  have hstep := qualified_name_reaches hcompile libraryOrigin .console
    (by decide : ["scale"] ≠ []) (by decide) hscale
  obtain ⟨enclosing, definition, hreaches⟩ := (hlabel.1 2).1 hsome
  obtain ⟨scale, hfind, hconstant⟩ := (Option.any_eq_true _ _).1 hfunction
  refine ⟨program, hcompile, ⟨enclosing, definition, hreaches, ?_⟩, ?_⟩
  · exact ((hlabel.2.1 enclosing definition hreaches 20 _).2.symm).trans hwritten
  · exact (hstep.2.2 ["scale"] [] [] scale rfl (.here (Table.mem_of_find? hfind))
      (Bool.not_eq_true' _ ▸ hconstant)).1

end Offside
