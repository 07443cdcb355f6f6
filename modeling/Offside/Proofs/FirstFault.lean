import Offside.Proofs.DefinitionTree

/-!
# The first fault of a program

The checker walks the tree of definitions, with a frame for each definition that it is inside of. What
it reports is said here from the tree alone, definition by definition:

* `Definition.scopes` -- the frames that a definition sees: its own, those of the definitions around
  it, and the outermost ones;
* `Definition.Typed`, `Definition.Fails` -- a definition by itself has the declared type in such
  frames, or has a fault;
* `Chain.Before` -- the order of visits: nested definitions before the one that holds them, and
  siblings by name. Of two chains one comes first (`Chain.before_total`);
* `Definitions.Verdict` -- all definitions of the tree are typed, or the first one that is not has the
  fault. One definition (`Verdict.single`) and definitions one after the other (`Verdict.all`) keep
  this, so the checker gives it for every tree (`Definition.Written.verdict`,
  `Context.verdict_checkAll`).

`check_eq_first_fault` is what follows for programs.
-/

namespace Offside

/-! ## 1. A definition by itself -/

namespace Definition

/-- What a definition adds to the names in scope inside of it. -/
def frame : Definition → Frame
  | constant _ _ nested => Frame.ofDefinitions nested
  | function (.func types _) params _ nested =>
    (Frame.ofDefinitions nested).withParams (params.zip types)
  | function _ _ _ nested => Frame.ofDefinitions nested
  | native .. => []

/-- The frames that a definition sees, innermost first. -/
def scopes (definition : Definition) (enclosing : List Definition) (outermost : List Frame) :
    List Frame :=
  (definition :: enclosing).map frame ++ outermost

/-- What is inside a definition sees the frame of that definition. -/
theorem scopes_concat (definition outer : Definition) (enclosing : List Definition)
    (outermost : List Frame) :
    definition.scopes (enclosing ++ [outer]) outermost =
      definition.scopes enclosing (outer.frame :: outermost) := by
  rw [scopes, ← List.cons_append, List.map_append, List.append_assoc]
  rfl

/-- The expression of a definition, and the type declared for it. -/
def body? : Definition → Option (Expr × Ty)
  | constant ty body _ => some (body, ty)
  | function (.func _ result) _ body _ => some (body, result)
  | _ => none

variable {aliases : Aliases} {frames : List Frame} {definition : Definition}

/-- The expression of the definition has the declared type. -/
def Typed (aliases : Aliases) (frames : List Frame) (definition : Definition) : Prop :=
  ∀ body declared, definition.body? = some (body, declared) → body.Bodies aliases frames declared

/-- The fault of a definition: that of its expression, or that the expression has another type than
the declared one. -/
inductive Fails (aliases : Aliases) (frames : List Frame) (definition : Definition) :
    TypeFault → Prop
  | untyped {body : Expr} {declared : Ty} {fault : TypeFault}
      (has : definition.body? = some (body, declared))
      (derived : (⟨aliases, frames⟩ : Context).derive body = .error fault) :
      Fails aliases frames definition fault
  | mismatch {body : Expr} {declared found : Ty}
      (has : definition.body? = some (body, declared))
      (derived : (⟨aliases, frames⟩ : Context).derive body = .ok found)
      (differs : Ty.same aliases declared found = false) :
      Fails aliases frames definition (.mismatch declared found)

theorem Fails.not_typed {fault : TypeFault} (h : definition.Fails aliases frames fault) :
    ¬definition.Typed aliases frames := by
  intro htyped
  cases h with
  | untyped has derived =>
      obtain ⟨found, hfound, _⟩ := htyped _ _ has
      rw [derived] at hfound
      cases hfound
  | mismatch has derived differs =>
      obtain ⟨found, hfound, hsame⟩ := htyped _ _ has
      rw [derived] at hfound
      cases hfound
      rw [differs] at hsame
      cases hsame

/-- A definition has one fault at most. -/
theorem Fails.unique {fault fault' : TypeFault} (h : definition.Fails aliases frames fault)
    (h' : definition.Fails aliases frames fault') : fault = fault' := by
  cases h with
  | untyped has derived =>
      cases h' with
      | untyped has' derived' =>
          cases has.symm.trans has'
          exact Except.error.inj (derived.symm.trans derived')
      | mismatch has' derived' _ =>
          cases has.symm.trans has'
          cases derived.symm.trans derived'
  | mismatch has derived _ =>
      cases h' with
      | untyped has' derived' =>
          cases has.symm.trans has'
          cases derived.symm.trans derived'
      | mismatch has' derived' _ =>
          cases has.symm.trans has'
          cases derived.symm.trans derived'
          rfl

end Definition

/-- The check of a body finds that it is typed, or what the fault is. -/
theorem Context.checkBody_cases {aliases : Aliases} {frames : List Frame} {definition : Definition}
    {body : Expr} {declared : Ty} (hbody : definition.body? = some (body, declared))
    (path : String) :
    ((⟨aliases, frames⟩ : Context).checkBody path declared body = .ok () ∧
      definition.Typed aliases frames) ∨
    ∃ fault, (⟨aliases, frames⟩ : Context).checkBody path declared body = .error ⟨path, fault⟩ ∧
      definition.Fails aliases frames fault := by
  rw [checkBody_eq]
  cases hderive : (⟨aliases, frames⟩ : Context).derive body with
  | error fault => exact .inr ⟨fault, rfl, .untyped hbody hderive⟩
  | ok found =>
      dsimp only [sameType]
      by_cases hsame : Ty.same aliases declared found = true
      · refine .inl ⟨if_pos hsame, fun other ty hother => ?_⟩
        cases hbody.symm.trans hother
        exact ⟨found, hderive, hsame⟩
      · exact .inr ⟨_, if_neg hsame, .mismatch hbody hderive (Bool.eq_false_iff.2 hsame)⟩

/-! ## 2. The order of visits -/

/-- The definition with the first chain of names is visited before the one with the second: it is
nested in that one, or comes before it by name where the two chains part. -/
inductive Chain.Before : List String → List String → Prop
  | nested (name : String) (rest : List String) : Before (name :: rest) []
  | sibling {name other : String} (lt : name < other) (rest rest' : List String) :
      Before (name :: rest) (other :: rest')
  | deeper (name : String) {rest rest' : List String} (further : Before rest rest') :
      Before (name :: rest) (name :: rest')

namespace Chain

theorem before_cons_iff {name other : String} {rest rest' : List String} :
    Before (name :: rest) (other :: rest') ↔ name < other ∨ name = other ∧ Before rest rest' := by
  constructor
  · intro h
    cases h with
    | sibling lt => exact .inl lt
    | deeper _ further => exact .inr ⟨rfl, further⟩
  · rintro (hlt | ⟨rfl, hfurther⟩)
    · exact .sibling hlt rest rest'
    · exact .deeper name hfurther

/-- **Of two definitions one is visited first.** -/
theorem before_total : ∀ chain chain' : List String,
    chain = chain' ∨ Before chain chain' ∨ Before chain' chain
  | [], [] => .inl rfl
  | [], name :: rest => .inr (.inr (.nested name rest))
  | name :: rest, [] => .inr (.inl (.nested name rest))
  | name :: rest, other :: rest' => by
      rcases lt_trichotomy name other with hlt | rfl | hlt
      · exact .inr (.inl (.sibling hlt rest rest'))
      · rcases before_total rest rest' with rfl | hbefore | hafter
        · exact .inl rfl
        · exact .inr (.inl (.deeper name hbefore))
        · exact .inr (.inr (.deeper name hafter))
      · exact .inr (.inr (.sibling hlt rest' rest))

end Chain

/-! ## 3. What there is to report of a tree -/

namespace Definitions

/-- All definitions of the tree are typed, each in the frames that it sees. -/
def Typed (aliases : Aliases) (frames : List Frame) (table : Definitions) : Prop :=
  ∀ chain enclosing definition, Holds table chain enclosing definition →
    definition.Typed aliases (definition.scopes enclosing frames)

/-- The first definition that is not typed has the chain of names, and the fault. -/
def FirstFault (aliases : Aliases) (frames : List Frame) (table : Definitions)
    (chain : List String) (fault : TypeFault) : Prop :=
  ∃ enclosing definition, Holds table chain enclosing definition ∧
    definition.Fails aliases (definition.scopes enclosing frames) fault ∧
    ∀ earlier around other, Holds table earlier around other → Chain.Before earlier chain →
      other.Typed aliases (other.scopes around frames)

/-- What is to be reported of the definitions of a tree, whose qualified names start with `before`. -/
inductive Verdict (aliases : Aliases) (frames : List Frame) (before : String)
    (table : Definitions) : Except TypeError Unit → Prop
  | typed (all : Typed aliases frames table) : Verdict aliases frames before table (.ok ())
  | fault {chain : List String} {fault : TypeFault}
      (first : FirstFault aliases frames table chain fault) :
      Verdict aliases frames before table (.error ⟨before ++ ".".intercalate chain, fault⟩)

variable {aliases : Aliases} {frames : List Frame} {before name : String}
  {definition : Definition} {nested rest : Definitions}

/-- A definition is typed with all that is in it. -/
theorem typed_singleton_iff (hnested : definition.nested? = some nested) :
    Typed aliases frames [(name, definition)] ↔
      Typed aliases (definition.frame :: frames) nested ∧
        definition.Typed aliases (definition.frame :: frames) := by
  constructor
  · intro h
    refine ⟨fun chain enclosing found hfound => ?_, h _ _ _ (.here List.mem_cons_self)⟩
    have htyped := h _ _ _ (.inside List.mem_cons_self hnested hfound)
    rwa [Definition.scopes_concat] at htyped
  · rintro ⟨hinside, hself⟩ chain enclosing found hfound
    cases hfound with
    | here mem =>
        cases List.mem_singleton.1 mem
        exact hself
    | inside mem nests below =>
        cases List.mem_singleton.1 mem
        cases hnested.symm.trans nests
        have htyped := hinside _ _ _ below
        rwa [Definition.scopes_concat]

/-- A fault inside of a definition comes before all else that the definition has. -/
theorem FirstFault.inside (hnested : definition.nested? = some nested) {chain : List String}
    {fault : TypeFault} (h : FirstFault aliases (definition.frame :: frames) nested chain fault) :
    FirstFault aliases frames [(name, definition)] (name :: chain) fault := by
  obtain ⟨enclosing, found, hfound, hfails, hearlier⟩ := h
  refine ⟨_, found, .inside List.mem_cons_self hnested hfound, ?_, fun earlier around other hother
    hbefore => ?_⟩
  · rwa [Definition.scopes_concat]
  · cases hother with
    | here mem =>
        -- the definition itself comes after what is nested in it
        obtain ⟨_, _, rfl, _⟩ := hfound.head
        cases List.mem_singleton.1 mem
        rcases Chain.before_cons_iff.1 hbefore with hlt | ⟨_, hbefore⟩
        · exact absurd hlt (lt_irrefl _)
        · cases hbefore
    | inside mem nests below =>
        cases List.mem_singleton.1 mem
        cases hnested.symm.trans nests
        rcases Chain.before_cons_iff.1 hbefore with hlt | ⟨_, hbefore⟩
        · exact absurd hlt (lt_irrefl _)
        · have htyped := hearlier _ _ _ below hbefore
          rwa [Definition.scopes_concat]

/-- A definition whose nested definitions are typed can have a fault of its own. -/
theorem FirstFault.own (hnested : definition.nested? = some nested) {fault : TypeFault}
    (hinside : Typed aliases (definition.frame :: frames) nested)
    (hfails : definition.Fails aliases (definition.frame :: frames) fault) :
    FirstFault aliases frames [(name, definition)] [name] fault := by
  refine ⟨[], definition, .here List.mem_cons_self, hfails, fun earlier around other hother
    hbefore => ?_⟩
  cases hother with
  | here mem =>
      cases List.mem_singleton.1 mem
      rcases Chain.before_cons_iff.1 hbefore with hlt | ⟨_, hbefore⟩
      · exact absurd hlt (lt_irrefl _)
      · cases hbefore
  | inside mem nests below =>
      cases List.mem_singleton.1 mem
      cases hnested.symm.trans nests
      have htyped := hinside _ _ _ below
      rwa [Definition.scopes_concat]

/-- **A definition, after what is nested in it.** -/
theorem Verdict.single (hnested : definition.nested? = some nested) {body : Expr} {declared : Ty}
    (hbody : definition.body? = some (body, declared)) {inside : Except TypeError Unit}
    (h : Verdict aliases (definition.frame :: frames) (before ++ name ++ ".") nested inside) :
    Verdict aliases frames before [(name, definition)] (inside >>= fun _ =>
      (⟨aliases, definition.frame :: frames⟩ : Context).checkBody (before ++ name) declared
        body) := by
  cases h with
  | @fault chain fault first =>
      have hpath : before ++ name ++ "." ++ ".".intercalate chain =
          before ++ ".".intercalate (name :: chain) := by
        obtain ⟨_, _, hfound, _, _⟩ := first
        obtain ⟨_, _, rfl, _⟩ := hfound.head
        rw [String.intercalate_cons_cons]
        simp only [String.append_assoc]
      have hfault : Verdict aliases frames before [(name, definition)]
          (.error ⟨before ++ ".".intercalate (name :: chain), fault⟩) :=
        .fault (first.inside hnested)
      rw [← hpath] at hfault
      exact hfault
  | typed all =>
      change Verdict _ _ _ _ (Context.checkBody ⟨aliases, definition.frame :: frames⟩ _ _ _)
      rcases Context.checkBody_cases hbody (before ++ name) with
        ⟨hok, htyped⟩ | ⟨fault, herror, hfails⟩
      · rw [hok]
        exact .typed ((typed_singleton_iff hnested).2 ⟨all, htyped⟩)
      · have hfault : Verdict aliases frames before [(name, definition)]
            (.error ⟨before ++ ".".intercalate [name], fault⟩) := .fault (.own hnested all hfails)
        rw [String.intercalate_singleton] at hfault
        rw [herror]
        exact hfault

/-- **A definition, and then those that come after it by name.** -/
theorem Verdict.cons (hlast : ∀ other ∈ Table.names rest, name < other)
    {first others : Except TypeError Unit}
    (hfirst : Verdict aliases frames before [(name, definition)] first)
    (hothers : Verdict aliases frames before rest others) :
    Verdict aliases frames before ((name, definition) :: rest) (first >>= fun _ => others) := by
  cases hfirst with
  | fault first =>
      refine .fault ?_
      obtain ⟨enclosing, found, hfound, hfails, hearlier⟩ := first
      refine ⟨enclosing, found, holds_cons_iff.2 (.inl hfound), hfails,
        fun earlier around other hother hbefore => ?_⟩
      rcases holds_cons_iff.1 hother with hother | hother
      · exact hearlier _ _ _ hother hbefore
      · -- whatever is in the other definitions comes later
        obtain ⟨_, _, rfl, hname⟩ := hfound.head
        obtain ⟨_, _, rfl, hlater⟩ := hother.head
        cases List.mem_singleton.1 hname
        have hlt := hlast _ hlater
        rcases Chain.before_cons_iff.1 hbefore with hgt | ⟨rfl, _⟩
        · exact absurd hgt (lt_asymm hlt)
        · exact absurd hlt (lt_irrefl _)
  | typed all =>
      cases hothers with
      | typed all' =>
          refine .typed fun chain enclosing found hfound => ?_
          rcases holds_cons_iff.1 hfound with hfound | hfound
          · exact all _ _ _ hfound
          · exact all' _ _ _ hfound
      | fault first =>
          refine .fault ?_
          obtain ⟨enclosing, found, hfound, hfails, hearlier⟩ := first
          refine ⟨enclosing, found, holds_cons_iff.2 (.inr hfound), hfails,
            fun earlier around other hother hbefore => ?_⟩
          rcases holds_cons_iff.1 hother with hother | hother
          · exact all _ _ _ hother
          · exact hearlier _ _ _ hother hbefore

/-- **Definitions in order of name, each with a verdict,** have a verdict together. -/
theorem Verdict.all {table : Definitions} (hordered : Table.Ordered table)
    {check : String × Definition → Except TypeError Unit}
    (heach : ∀ entry ∈ table, Verdict aliases frames before [entry] (check entry)) :
    Verdict aliases frames before table (table.forM check) := by
  induction table with
  | nil =>
      refine .typed fun chain enclosing found hfound => ?_
      obtain ⟨_, _, _, hmem⟩ := hfound.head
      cases hmem
  | cons first rest ih =>
      obtain ⟨hlast, hrest⟩ := List.pairwise_cons.1 hordered
      obtain ⟨hfirst, hothers⟩ := List.forall_mem_cons.1 heach
      exact .cons hlast hfirst (ih hrest hothers)

end Definitions

/-! ## 4. What the checker reports -/

section Checker

variable {aliases : Aliases} {frames : List Frame} {before name : String} {definition : Definition}

/-- The checker visits what is nested in a definition of a text, with the frame of the definition in
scope, and then its body. -/
theorem Definition.Written.checkDefinition_eq (hw : definition.Written) :
    ∃ nested body declared, definition.nested? = some nested ∧
      definition.body? = some (body, declared) ∧
      ∀ frames path, (⟨aliases, frames⟩ : Context).checkDefinition path definition =
        ((⟨aliases, definition.frame :: frames⟩ : Context).checkNested path nested >>= fun _ =>
          (⟨aliases, definition.frame :: frames⟩ : Context).checkBody path declared body) := by
  cases hw with
  | constant _ _ _ =>
      refine ⟨_, _, _, rfl, rfl, fun frames path => ?_⟩
      rw [Context.checkDefinition_constant]
      rfl
  | function _ _ _ typed _ _ _ =>
      refine ⟨_, _, _, rfl, rfl, fun frames path => ?_⟩
      rw [Context.checkDefinition_function, if_pos typed]
      rfl

/-- The checker goes through nested definitions, and through those of a table, one by one. -/
theorem Context.checkNested_eq_forM (context : Context) (path : String) (nested : Definitions) :
    context.checkNested path nested =
      nested.forM fun entry => context.checkDefinition (path ++ "." ++ entry.1) entry.2 := by
  induction nested with
  | nil => rfl
  | cons first rest ih =>
      rw [checkNested_cons, ih]
      rfl

theorem Context.checkAll_eq_forM (context : Context) (table : Definitions) :
    context.checkAll table = table.forM fun entry => context.checkDefinition entry.1 entry.2 := by
  induction table with
  | nil => rfl
  | cons first rest ih =>
      rw [checkAll_cons, ih]
      rfl

/-- The checker reports the verdict on a definition if it does so on each that is nested in it. -/
theorem Definition.Written.verdict_of_nested (hw : definition.Written)
    (heach : ∀ nested, definition.nested? = some nested → ∀ entry ∈ nested, ∀ frames before,
      Definitions.Verdict aliases frames before [entry]
        ((⟨aliases, frames⟩ : Context).checkDefinition (before ++ entry.1) entry.2)) :
    Definitions.Verdict aliases frames before [(name, definition)]
      ((⟨aliases, frames⟩ : Context).checkDefinition (before ++ name) definition) := by
  obtain ⟨nested, body, declared, hnested, hbody, heq⟩ := hw.checkDefinition_eq
  obtain ⟨hordered, _⟩ := Definition.Readable.nested (.inl hw) hnested
  rw [heq, Context.checkNested_eq_forM]
  exact .single hnested hbody (.all hordered fun entry hmem => heach nested hnested entry hmem _ _)

/-- **The checker reports the verdict on a definition of a text**, with all that is in it. -/
theorem Definition.Written.verdict (hw : definition.Written) :
    Definitions.Verdict aliases frames before [(name, definition)]
      ((⟨aliases, frames⟩ : Context).checkDefinition (before ++ name) definition) := by
  induction hw generalizing frames before name with
  | constant plain ordered each ih =>
      refine (Definition.Written.constant plain ordered each).verdict_of_nested ?_
      intro nested hnested entry hmem frames before
      cases hnested
      exact ih entry.1 entry.2 hmem
  | function plain some distinct typed fresh ordered each ih =>
      refine (Definition.Written.function plain some distinct typed fresh ordered
        each).verdict_of_nested ?_
      intro nested hnested entry hmem frames before
      cases hnested
      exact ih entry.1 entry.2 hmem

/-- There is nothing to report of a native function. -/
theorem Definition.verdict_native {ty : Ty} {params : List String} {function : Native} :
    Definitions.Verdict aliases frames before [(name, .native ty params function)]
      ((⟨aliases, frames⟩ : Context).checkDefinition (before ++ name)
        (.native ty params function)) := by
  rw [Context.checkDefinition_native]
  refine .typed fun chain enclosing found hfound => ?_
  cases hfound with
  | here mem =>
      cases List.mem_singleton.1 mem
      exact nofun
  | inside mem nests _ =>
      cases List.mem_singleton.1 mem
      cases nests

/-- **The checker reports the verdict on a table.** -/
theorem Context.verdict_checkAll {table : Definitions} (hordered : Table.Ordered table)
    (hread : ∀ entry ∈ table, entry.2.Readable) :
    Definitions.Verdict aliases frames "" table
      ((⟨aliases, frames⟩ : Context).checkAll table) := by
  rw [checkAll_eq_forM]
  refine .all hordered fun entry hmem => ?_
  obtain ⟨name, definition⟩ := entry
  have hentry : Definitions.Verdict aliases frames "" [(name, definition)]
      ((⟨aliases, frames⟩ : Context).checkDefinition ("" ++ name) definition) := by
    rcases hread _ hmem with hw | ⟨_, _, _, rfl⟩
    · exact hw.verdict
    · exact Definition.verdict_native
  rwa [String.empty_append] at hentry

end Checker

/-! ## 5. Programs -/

/-- In a table whose chains of names lead to one definition each, there is one first fault. -/
theorem Definitions.FirstFault.unique {aliases : Aliases} {frames : List Frame}
    {table : Definitions} (hordered : Table.Ordered table)
    (hread : ∀ entry ∈ table, entry.2.Readable) {chain chain' : List String}
    {fault fault' : TypeFault} (h : FirstFault aliases frames table chain fault)
    (h' : FirstFault aliases frames table chain' fault') : chain = chain' ∧ fault = fault' := by
  obtain ⟨enclosing, found, hfound, hfails, hearlier⟩ := h
  obtain ⟨enclosing', found', hfound', hfails', hearlier'⟩ := h'
  rcases Chain.before_total chain chain' with rfl | hbefore | hafter
  · obtain ⟨rfl, rfl⟩ := hfound.unique hordered hread hfound'
    exact ⟨rfl, hfails.unique hfails'⟩
  · exact absurd (hearlier' _ _ _ hfound hbefore) hfails.not_typed
  · exact absurd (hearlier _ _ _ hfound' hafter) hfails'.not_typed

namespace Program

variable {program : Program} {origin libOrigin : Nat} {outlet : Outlet}
  {aliases : Aliases} {frames : List Frame}

theorem WellFormed.mem_globals (hwf : program.WellFormed origin) :
    ∀ entry ∈ program.definitions,
      entry ∈ program.globals (Library.definitions libOrigin outlet) := by
  intro entry hmem
  refine Table.mem_of_find? ?_
  rw [hwf.find?_globals, Table.find?_of_mem hwf.defines.ordered.nodup hmem]
  rfl

/-- What the outermost table has beyond the program are native functions. -/
theorem holds_or_native {chain : List String} {enclosing : List Definition}
    {definition : Definition}
    (h : Definitions.Holds (program.globals (Library.definitions libOrigin outlet)) chain enclosing
      definition) :
    Definitions.Holds program.definitions chain enclosing definition ∨
      ∃ ty params function, definition = .native ty params function := by
  have hnative : ∀ {name : String} {outer : Definition},
      (name, outer) ∈ Library.definitions libOrigin outlet →
        ∃ ty params function, outer = .native ty params function := by
    intro name outer hmem
    obtain ⟨_, _, params, function, rfl, _⟩ := (Library.signed hmem : outer.Signed [])
    exact ⟨_, params, function, rfl⟩
  cases h with
  | here mem =>
      rcases Table.mem_merge mem with hmem | hmem
      · exact .inl (.here hmem)
      · exact .inr (hnative hmem)
  | inside mem nests below =>
      rcases Table.mem_merge mem with hmem | hmem
      · exact .inl (.inside hmem nests below)
      · obtain ⟨_, _, _, rfl⟩ := hnative hmem
        cases nests

/-- The first fault of the outermost table is that of the program. -/
theorem WellFormed.firstFault_of_globals (hwf : program.WellFormed origin) {chain : List String}
    {fault : TypeFault}
    (h : Definitions.FirstFault aliases frames
      (program.globals (Library.definitions libOrigin outlet)) chain fault) :
    Definitions.FirstFault aliases frames program.definitions chain fault := by
  obtain ⟨enclosing, found, hfound, hfails, hearlier⟩ := h
  rcases holds_or_native hfound with hfound | ⟨_, _, _, rfl⟩
  · exact ⟨enclosing, found, hfound, hfails, fun _ _ _ hother =>
      hearlier _ _ _ (hother.mono hwf.mem_globals)⟩
  · exact absurd (fun _ _ => nofun) hfails.not_typed

end Program

/-- **The checker visits everything and reports the first fault.** Of every program that compiles, it
accepts the definitions exactly if each of them, at every depth, has by itself the declared type in
the frames that it sees: its own, those of the definitions around it and no others, and that of the
outermost table. It reports an error exactly if that is the fault of the first definition that is not
typed, in the order in which nested definitions come before the one that holds them, and siblings by
name; the error is located by the names that lead to the definition, with dots between them. -/
theorem check_eq_first_fault {origin : Nat} {source : String} {program : Program}
    (hcompile : compile origin source = .ok program) :
    let outermost :=
      [Frame.ofDefinitions (program.globals (Library.definitions libraryOrigin .void))]
    (program.check = .ok () ↔ ∀ chain enclosing definition,
      Definitions.Holds program.definitions chain enclosing definition →
        definition.Typed program.aliases (definition.scopes enclosing outermost)) ∧
    ∀ error, program.check = .error error ↔ ∃ chain enclosing definition,
      Definitions.Holds program.definitions chain enclosing definition ∧
      error.definition = ".".intercalate chain ∧
      definition.Fails program.aliases (definition.scopes enclosing outermost) error.fault ∧
      ∀ earlier around other, Definitions.Holds program.definitions earlier around other →
        Chain.Before earlier chain →
          other.Typed program.aliases (other.scopes around outermost) := by
  intro outermost
  have hwf := wellFormed_of_compile hcompile
  have hverdict : Definitions.Verdict program.aliases outermost ""
      (program.globals (Library.definitions libraryOrigin .void)) program.check :=
    Context.verdict_checkAll (program.ordered_globals libraryOrigin .void)
      (hwf.readable_globals libraryOrigin .void)
  generalize program.check = result at hverdict ⊢
  cases hverdict with
  | typed all =>
      have hall : Definitions.Typed program.aliases outermost program.definitions :=
        fun _ _ _ hfound => all _ _ _ (hfound.mono hwf.mem_globals)
      refine ⟨⟨fun _ => hall, fun _ => rfl⟩, fun error => ⟨nofun, ?_⟩⟩
      rintro ⟨chain, enclosing, found, hfound, _, hfails, _⟩
      exact absurd (hall _ _ _ hfound) hfails.not_typed
  | @fault chain fault first =>
      have hfirst := hwf.firstFault_of_globals first
      obtain ⟨enclosing, found, hfound, hfails, hearlier⟩ := hfirst
      refine ⟨⟨nofun, fun hall => absurd (hall _ _ _ hfound) hfails.not_typed⟩,
        fun error => ⟨fun h => ?_, ?_⟩⟩
      · cases h
        exact ⟨chain, enclosing, found, hfound, String.empty_append, hfails, hearlier⟩
      · rintro ⟨chain', enclosing', found', hfound', hpath, hfails', hearlier'⟩
        obtain ⟨path, kind⟩ := error
        change path = ".".intercalate chain' at hpath
        have hread : ∀ entry ∈ program.definitions, entry.2.Readable := fun entry hmem =>
          (hwf.written_or_signed hmem).elim .inl Definition.Signed.readable
        obtain ⟨rfl, rfl⟩ := Definitions.FirstFault.unique hwf.defines.ordered hread
          ⟨enclosing, found, hfound, hfails, hearlier⟩
          ⟨enclosing', found', hfound', hfails', hearlier'⟩
        rw [String.empty_append, hpath]

/-- Three definitions have a fault: `zone`, `total`, and the `half` that is nested in `total`. -/
def zoneSource : String := "zone:Integer = \"west\"
total:Integer = \"east\"
    half:String = 4
    grade:Integer = 7
spare:Integer = half
    half:Integer = 2"

theorem check_eq_first_fault_zoneSource :
    ∃ program, compile programOrigin zoneSource = .ok program ∧
      program.check = .error ⟨"total.half", .mismatch .string .integer⟩ ∧
      ∃ chain, "total.half" = ".".intercalate chain ∧
        Definitions.FirstFault program.aliases
          [Frame.ofDefinitions (program.globals (Library.definitions libraryOrigin .void))]
          program.definitions chain (.mismatch .string .integer) := by
  have hsource : ∃ source, zoneSource = String.ofList source ∧
      compiles programOrigin source (fun program =>
        program.check = .error ⟨"total.half", .mismatch .string .integer⟩) :=
    ⟨_, String.ofList_toList.symm, by decide +kernel⟩
  obtain ⟨source, htext, hsource⟩ := hsource
  obtain ⟨program, hcompile, hp⟩ := exists_of_compiles htext hsource
  have hcheck := of_decide_eq_true hp
  obtain ⟨chain, enclosing, definition, hholds, hpath, hfails, hearlier⟩ :=
    ((check_eq_first_fault hcompile).2 _).1 hcheck
  exact ⟨program, hcompile, hcheck, chain, hpath, enclosing, definition, hholds, hfails, hearlier⟩

end Offside
