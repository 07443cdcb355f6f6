import Offside.Proofs.Fits

/-!
# Names mean the same to the checker and in a run

The checker looks a name up in the frames of a context, and evaluation in the frames of an
environment; the two kinds of frames are cut differently. Where the environment belongs to the
context (`EnvFits`), both find something or neither does, and what they find belongs together
(`Denotes`): for a name by itself (`EnvFits.direct`), and then for a qualified one
(`EnvFits.resolve`), since both follow the same rule (`Qualified.resolve_rel`).
-/

namespace Offside

/-! ## 1. Qualified names -/

namespace Qualified

theorem resolve_eq {α : Type} (direct : String → Option α) (member : α → String → Option α)
    (name : String) :
    resolve direct member name = (direct name).or ((cut? name).bind fun parts =>
      (resolve direct member parts.1).bind fun container => member container parts.2) := by
  rw [resolve]
  split
  · rename_i found hfound
    rw [hfound]
    rfl
  · rename_i hnone
    rw [hnone, Option.none_or]
    split
    · rename_i hcut
      rw [hcut]
      rfl
    · rename_i outer inner hcut
      rw [hcut, Option.bind_some]
      split
      · rename_i hcontainer
        rw [hcontainer]
        rfl
      · rename_i container hcontainer
        rw [hcontainer]
        rfl

/-- **The rule for qualified names keeps relations**, also between ways to look names up that agree
on some names only, as long as they agree on the parts before a dot of these. -/
theorem resolve_rel_of {α β : Type} {R : α → β → Prop} {direct : String → Option α}
    {direct' : String → Option β} {member : α → String → Option α}
    {member' : β → String → Option β} {Known : String → Prop}
    (hcut : ∀ {name outer inner}, cut? name = some (outer, inner) → Known name → Known outer)
    (hdirect : ∀ name, Known name → Option.Rel R (direct name) (direct' name))
    (hmember : ∀ a b name, R a b → Option.Rel R (member a name) (member' b name)) :
    ∀ name, Known name → Option.Rel R (resolve direct member name) (resolve direct' member' name) := by
  intro name hknown
  -- the part before the last dot is shorter than the name
  induction hlen : name.length using Nat.strongRecOn generalizing name with
  | _ length ih =>
      rw [resolve_eq, resolve_eq]
      have hname := hdirect name hknown
      generalize direct name = found at hname ⊢
      generalize direct' name = found' at hname ⊢
      cases hname with
      | some h => exact .some h
      | none =>
          rw [Option.none_or, Option.none_or]
          cases hcutName : cut? name with
          | none => exact .none
          | some parts =>
              have houter := ih parts.1.length (hlen ▸ length_of_cut? hcutName) parts.1
                (hcut hcutName hknown) rfl
              rw [Option.bind_some, Option.bind_some]
              generalize resolve direct member parts.1 = container at houter ⊢
              generalize resolve direct' member' parts.1 = container' at houter ⊢
              cases houter with
              | none => exact .none
              | some h => exact hmember _ _ parts.2 h

/-- Where two ways to look names up agree on names by themselves and on members, they agree on
qualified names. -/
theorem resolve_rel {α β : Type} {R : α → β → Prop} {direct : String → Option α}
    {direct' : String → Option β} {member : α → String → Option α}
    {member' : β → String → Option β}
    (hdirect : ∀ name, Option.Rel R (direct name) (direct' name))
    (hmember : ∀ a b name, R a b → Option.Rel R (member a name) (member' b name)) (name : String) :
    Option.Rel R (resolve direct member name) (resolve direct' member' name) :=
  resolve_rel_of (fun _ _ => trivial) (fun plain _ => hdirect plain) hmember name trivial

/-- What holds of all that names by themselves stand for, and of the members of what it holds of,
holds of all that qualified names stand for. -/
theorem resolve_forall {α : Type} {P : α → Prop} {direct : String → Option α}
    {member : α → String → Option α} (hdirect : ∀ name a, direct name = some a → P a)
    (hmember : ∀ a name b, P a → member a name = some b → P b) {name : String} {a : α}
    (h : resolve direct member name = some a) : P a := by
  have hself : ∀ found : Option α, (∀ a, found = some a → P a) →
      Option.Rel (fun a b => P a ∧ a = b) found found := by
    intro found hfound
    cases found with
    | none => exact .none
    | some a => exact .some ⟨hfound a rfl, rfl⟩
  have hrel : Option.Rel (fun a b => P a ∧ a = b) (resolve direct member name)
      (resolve direct member name) := by
    refine resolve_rel (fun plain => hself _ (hdirect plain)) ?_ name
    rintro a _ inner ⟨ha, rfl⟩
    exact hself _ (hmember a inner · ha)
  rw [h] at hrel
  cases hrel with
  | some hab => exact hab.1

end Qualified

/-! ## 2. Frames -/

theorem Env.lookup_extend (env : Env) (number : Nat) (bindings : Bindings) (name : String) :
    (env.extend number bindings).lookup name =
      ((Table.find? bindings name).map fun bound => (bound, env.extend number bindings)).or
        (env.lookup name) := by
  cases bindings with
  | nil => rfl
  | cons first rest =>
      rw [Env.extend, if_neg (by simp), Env.lookup]
      cases Table.find? (first :: rest) name <;> rfl

theorem Definitions.find?_toBindings (definitions : Definitions) (name : String) :
    Table.find? (Definitions.toBindings definitions) name =
      (Table.find? definitions name).map (Definition.toExpr name) := by
  induction definitions with
  | nil => rfl
  | cons first rest ih =>
      obtain ⟨key, definition⟩ := first
      rw [Definitions.toBindings, Table.find?_cons, Table.find?_cons]
      split
      · rename_i h
        subst h
        rfl
      · exact ih

/-- What evaluation binds for a constant has the definitions nested in the constant as members. -/
theorem Env.Found.member_constant {ty : Ty} {body : Expr} {nested : Definitions}
    (hplain : body.Plain) (outer : String) (scope : Env) (next : Nat) (name : String) :
    (⟨(Definition.constant ty body nested).toExpr outer, scope, next⟩ : Env.Found).member name =
      (Table.find? nested name).map fun definition =>
        ⟨definition.toExpr name, scope.extend next (Definitions.toBindings nested), next + 1⟩ := by
  cases nested with
  | nil =>
      -- without nested definitions the constant is bound to its body, which is no scope
      cases hplain <;> rfl
  | cons first rest =>
      have hbound : (Definition.constant ty body (first :: rest)).toExpr outer =
          .scope (Definitions.toBindings (first :: rest)) body := by
        rw [Definition.toExpr, List.isEmpty_cons]
        rfl
      simp only [Env.Found.member, hbound, Definitions.find?_toBindings, Option.map_map]
      rfl

/-- A name stands for a definition of the program, or else for one of the library. -/
theorem Program.lookup_baseEnv (library definitions : Definitions) (name : String) :
    (Program.baseEnv library definitions).lookup name =
      ((Table.find? definitions name).map fun definition =>
        (definition.toExpr name, Program.baseEnv library definitions)).or
      ((Table.find? library name).map fun definition =>
        (definition.toExpr name, Env.root.extend 0 (Definitions.toBindings library))) := by
  rw [Program.baseEnv, Env.lookup_extend, Env.lookup_extend, Definitions.find?_toBindings,
    Definitions.find?_toBindings, Env.lookup, Option.or_none, Option.map_map, Option.map_map]
  rfl

theorem Context.direct_cons (aliases : Aliases) (frame : Frame) (frames : List Frame)
    (name : String) :
    (⟨aliases, frame :: frames⟩ : Context).direct name =
      (Table.find? frame name).or ((⟨aliases, frames⟩ : Context).direct name) := by
  rw [Context.direct, List.findSome?_cons]
  cases Table.find? frame name <;> rfl

theorem Frame.find?_ofDefinitions (definitions : Definitions) (name : String) :
    Table.find? (Frame.ofDefinitions definitions) name =
      (Table.find? definitions name).map .definition :=
  Table.find?_mapEntries _ _ _

/-- What a parameter is bound to in a run belongs to the type that the checker has for it. -/
theorem Env.find?_pairs {V : Expr → Ty → Prop} {args : List Expr} {types : List Ty}
    (h : List.Forall₂ V args types) (params : List String) (name : String) :
    Option.Rel V (Table.find? (Env.pairs params args) name)
      (Table.find? (params.zip types).reverse name) := by
  have hzip : List.Forall₂ (fun a b : String × _ => a.1 = b.1 ∧ V a.2 b.2) (params.zip args)
      (params.zip types) := by
    induction h generalizing params with
    | nil => simp
    | cons hv _ ih =>
        cases params with
        | nil => exact .nil
        | cons param params => exact .cons ⟨rfl, hv⟩ (ih params)
  rw [Env.pairs, Table.find?_ofList]
  exact Table.find?_forall₂ (List.rel_reverse hzip) name

theorem Frame.find?_withParams (frame : Frame) (params : List (String × Ty)) (name : String) :
    Table.find? (frame.withParams params) name =
      ((Table.find? params.reverse name).map .parameter).or (Table.find? frame name) := by
  have hmap : (params.map fun param => (param.1, Entry.parameter param.2)).reverse =
      Table.mapEntries (fun _ => .parameter) params.reverse :=
    (List.map_reverse (l := params)).symm
  rw [Frame.withParams, Table.find?_merge, hmap, Table.find?_mapEntries]

/-! ## 3. What a name stands for -/

section Denotes

variable {aliases : Aliases} (D : Discipline aliases) (types : Table Ty)

/-- What evaluation finds for a name belongs to what the checker finds for it: a value of the type,
or the expression of an accepted definition, in an environment for its scope. -/
inductive Denotes : Entry → Expr → Env → Prop
  | value {entry : Entry} {value : Expr} {scope : Env} (fits : Fits D types value entry.ty)
      (leaf : ∀ name, entry.member name = none) : Denotes entry value scope
  | definition {frames : List Frame} {definition : Definition} {scope : Env} (name : String)
      (below : EnvFits (Fits D types) aliases frames scope) (written : definition.Written)
      (checked : definition.Checked aliases frames) :
      Denotes (.definition definition) (definition.toExpr name) scope

variable {D types}

theorem EnvFits.direct {frames : List Frame} {env : Env}
    (h : EnvFits (Fits D types) aliases frames env) (name : String) :
    Option.Rel (fun entry found => Denotes D types entry found.1 found.2)
      ((⟨aliases, frames⟩ : Context).direct name) (env.lookup name) := by
  induction h with
  | @base seen library definitions agrees ordered natives accepted =>
      have hbase := EnvFits.base agrees ordered natives accepted
      rw [Context.direct_cons, Frame.find?_ofDefinitions, Table.find?_merge,
        Table.find?_reverse ordered.nodup, Program.baseEnv, Env.lookup_extend, Env.lookup_extend,
        Definitions.find?_toBindings, Definitions.find?_toBindings]
      cases hfind : Table.find? definitions name with
      | some definition =>
          rcases accepted name definition hfind with ⟨ty, params, function, rfl⟩ | ⟨hw, hc⟩
          · exact .some (.value (natives _ _ _ _ _ (Or.inr rfl) hfind) fun _ => rfl)
          · exact .some (.definition name hbase hw hc)
      | none =>
          have hname := agrees name
          cases hseen : Table.find? seen name with
          | none =>
              cases hlib : Table.find? library name with
              | none => exact .none
              | some definition => rw [hseen, hlib] at hname; cases hname
          | some definition =>
              cases hlib : Table.find? library name with
              | none => rw [hseen, hlib] at hname; cases hname
              | some definition' =>
                  rw [hseen, hlib] at hname
                  cases hname with
                  | some h =>
                      obtain ⟨ty, params, f, f', rfl, rfl⟩ := h
                      exact .some (.value (natives _ _ _ _ _ (Or.inl rfl) hlib) fun _ => rfl)
  | @nested frames env nested number below accepted ih =>
      rw [Context.direct_cons, Frame.find?_ofDefinitions, Env.lookup_extend,
        Definitions.find?_toBindings]
      cases hfind : Table.find? nested name with
      | none => exact ih
      | some definition =>
          obtain ⟨hw, hc⟩ := accepted name definition (Table.mem_of_find? hfind)
          exact .some (.definition name (.nested number below accepted) hw hc)
  | @call frames env nested params paramTypes args number number' below accepted fresh values ih =>
      rw [Context.direct_cons, Frame.find?_withParams, Frame.find?_ofDefinitions,
        Env.lookup_extend, Env.lookup_extend, Definitions.find?_toBindings]
      have hparam := Env.find?_pairs values params name
      cases hfind : Table.find? nested name with
      | some definition =>
          -- a nested name is no parameter, so it does not matter which of the two comes first
          have hnone : Table.find? (params.zip paramTypes).reverse name = none := by
            cases htype : Table.find? (params.zip paramTypes).reverse name with
            | none => rfl
            | some ty =>
                have hmem := List.mem_reverse.1 (Table.mem_of_find? htype)
                rw [fresh name (List.of_mem_zip hmem).1] at hfind
                cases hfind
          rw [hnone]
          obtain ⟨hw, hc⟩ := accepted name definition (Table.mem_of_find? hfind)
          exact .some (.definition name (.call number number' below accepted fresh values) hw hc)
      | none =>
          generalize Table.find? (Env.pairs params args) name = bound at hparam ⊢
          generalize Table.find? (params.zip paramTypes).reverse name = declared at hparam ⊢
          cases hparam with
          | some hv => exact .some (.value hv fun _ => rfl)
          | none => exact ih

/-- What a definition is bound to in a run has the members that the checker sees. -/
theorem Denotes.member {entry : Entry} {found : Env.Found}
    (h : Denotes D types entry found.bound found.scope) (name : String) :
    Option.Rel (fun entry found => Denotes D types entry found.bound found.scope)
      (entry.member name) (found.member name) := by
  obtain ⟨bound, scope, next⟩ := found
  cases h with
  | value fits leaf =>
      rw [leaf name]
      cases fits <;> exact .none
  | @definition frames definition _ outer below written checked =>
      cases definition with
      | native ty params function => cases written
      | function ty params body nested => exact .none
      | constant ty body nested =>
          have hplain : body.Plain := by
            cases written with
            | constant plain _ _ => exact plain
          obtain ⟨accepted, _⟩ := checked.constant written
          rw [Entry.member, Env.Found.member_constant hplain]
          cases hfind : Table.find? nested name with
          | none => exact .none
          | some definition =>
              obtain ⟨hw, hc⟩ := accepted name definition (Table.mem_of_find? hfind)
              exact .some (.definition name (.nested next below accepted) hw hc)

/-- **A name means the same to the checker and in a run.** -/
theorem EnvFits.resolve {frames : List Frame} {env : Env}
    (h : EnvFits (Fits D types) aliases frames env) (next : Nat) (name : String) :
    Option.Rel (fun entry found => Denotes D types entry found.bound found.scope)
      ((⟨aliases, frames⟩ : Context).lookup name) (env.resolve next name) := by
  refine Qualified.resolve_rel (fun plain => ?_) (fun _ _ inner hd => hd.member inner) name
  have hplain := h.direct plain
  generalize (⟨aliases, frames⟩ : Context).direct plain = entry at hplain ⊢
  generalize env.lookup plain = found at hplain ⊢
  cases hplain with
  | none => exact .none
  | some hd => exact .some hd

end Denotes

end Offside
