import Offside.Proofs.Resolve

/-!
# Values that differ in the environments they capture

Two runs that compute the same may well build different environments: frames have numbers, one run
may bind in one frame what the other binds in two, and one of them may start with definitions that
nobody mentions. A `Likeness` says which of these differences there are, and two values are alike if
there are no others between them:

* `Expr.Alike` -- the same tree, with closures that captured alike environments;
* `Env.Alike` -- the same frames with alike bindings. Where a likeness regroups, the arguments of one
  frame may also stand in two frames, one above the other;
* `Env.AlikeBy.resolve` -- alike environments give names the same meaning, dotted names included;
* `Expr.Alike.text_eq`, `Expr.Alike.kind_eq` -- messages do not tell alike values apart;
* `Expr.Alike.bare_eq`, `Expr.Alike.eq_of_hasClosure` -- alike values are the same but for captured
  environments, and the same where there are no closures.
-/

namespace Offside

/-! ## 1. Likeness -/

/-- How far two runs may differ. -/
structure Likeness where
  /-- the names that expressions may mention -/
  Known : String → Prop
  /-- environments that are taken for alike to begin with -/
  Start : Env → Env → Prop
  /-- whether arguments may be grouped into frames in different ways -/
  Regroups : Prop

/-- Two environments are alike, where `V` says which expressions are. A number is no difference
between two frames. -/
inductive Env.AlikeBy (L : Likeness) (V : Expr → Expr → Prop) : Env → Env → Prop
  | root : AlikeBy L V .root .root
  | start {env env' : Env} (h : L.Start env env') : AlikeBy L V env env'
  | frame {bindings bindings' : Bindings} {parent parent' : Env} (number number' : Nat)
      (entries : Table.Rel V bindings bindings') (below : AlikeBy L V parent parent') :
      AlikeBy L V (.frame number bindings parent) (.frame number' bindings' parent')
  /-- the first environment has in two frames what would be alike in one -/
  | splitLeft {first second : List (String × Expr)} {parent env' : Env} {number : Nat}
      (number₁ number₂ : Nat) (allowed : L.Regroups)
      (values : ∀ entry ∈ first ++ second, entry.2.isNormal = true)
      (whole : AlikeBy L V (.frame number (Table.ofList (first ++ second)) parent) env') :
      AlikeBy L V
        (.frame number₂ (Table.ofList second) (.frame number₁ (Table.ofList first) parent)) env'
  /-- the second environment has in two frames what would be alike in one -/
  | splitRight {first second : List (String × Expr)} {parent env : Env} {number : Nat}
      (number₁ number₂ : Nat) (allowed : L.Regroups)
      (values : ∀ entry ∈ first ++ second, entry.2.isNormal = true)
      (whole : AlikeBy L V env (.frame number (Table.ofList (first ++ second)) parent)) :
      AlikeBy L V env
        (.frame number₂ (Table.ofList second) (.frame number₁ (Table.ofList first) parent))

/-- Two expressions are the same tree, mention known names only, and their closures captured alike
environments. -/
inductive Expr.Alike (L : Likeness) : Expr → Expr → Prop
  | lit (value : Literal) : Alike L (.lit value) (.lit value)
  | record {type : String} {fields fields' : List (String × Expr)}
      (each : Table.Rel (Alike L) fields fields') :
      Alike L (.record type fields) (.record type fields')
  | var {name : String} (known : L.Known name) : Alike L (.var name) (.var name)
  | call {operator operator' : Expr} {operands operands' : List Expr}
      (callee : Alike L operator operator') (each : List.Forall₂ (Alike L) operands operands') :
      Alike L (.call operator operands) (.call operator' operands')
  | function {params : List String} {locals locals' : List (String × Expr)} {body body' : Expr}
      (inside : Table.Rel (Alike L) locals locals') (result : Alike L body body') :
      Alike L (.function params locals body) (.function params locals' body')
  | scope {locals locals' : List (String × Expr)} {body body' : Expr}
      (inside : Table.Rel (Alike L) locals locals') (result : Alike L body body') :
      Alike L (.scope locals body) (.scope locals' body')
  | compound {params : List String} {env env' : Env} {locals locals' : List (String × Expr)}
      {body body' : Expr} (captured : Env.AlikeBy L (Alike L) env env')
      (inside : Table.Rel (Alike L) locals locals') (result : Alike L body body') :
      Alike L (.closure (.compound params env locals body))
        (.closure (.compound params env' locals' body'))
  | native {name : String} {params : List String} {applied applied' : List Expr}
      {function : Native} (each : List.Forall₂ (Alike L) applied applied') :
      Alike L (.closure (.native name params applied function))
        (.closure (.native name params applied' function))

/-- Two environments are alike. -/
abbrev Env.Alike (L : Likeness) : Env → Env → Prop :=
  Env.AlikeBy L (Expr.Alike L)

variable {L : Likeness}

/-! ## 2. Everything is like itself -/

mutual

/-- Where all names are known, every expression is like itself. -/
theorem Expr.alike_refl (hknown : ∀ name, L.Known name) : ∀ expr : Expr, expr.Alike L expr
  | .lit value => .lit value
  | .record _ fields => .record (Expr.alikeEntries_refl hknown fields)
  | .var name => .var (hknown name)
  | .call operator operands =>
      .call (Expr.alike_refl hknown operator) (Expr.alikeAll_refl hknown operands)
  | .function _ locals body =>
      .function (Expr.alikeEntries_refl hknown locals) (Expr.alike_refl hknown body)
  | .scope locals body =>
      .scope (Expr.alikeEntries_refl hknown locals) (Expr.alike_refl hknown body)
  | .closure (.compound _ env locals body) =>
      .compound (Env.alike_refl hknown env) (Expr.alikeEntries_refl hknown locals)
        (Expr.alike_refl hknown body)
  | .closure (.native _ _ applied _) => .native (Expr.alikeAll_refl hknown applied)

theorem Env.alike_refl (hknown : ∀ name, L.Known name) : ∀ env : Env, env.Alike L env
  | .root => .root
  | .frame number bindings parent =>
      .frame number number (Expr.alikeEntries_refl hknown bindings) (Env.alike_refl hknown parent)

theorem Expr.alikeAll_refl (hknown : ∀ name, L.Known name) :
    ∀ exprs : List Expr, List.Forall₂ (Expr.Alike L) exprs exprs
  | [] => .nil
  | expr :: rest => .cons (Expr.alike_refl hknown expr) (Expr.alikeAll_refl hknown rest)

theorem Expr.alikeEntries_refl (hknown : ∀ name, L.Known name) :
    ∀ entries : List (String × Expr), Table.Rel (Expr.Alike L) entries entries
  | [] => .nil
  | (name, expr) :: rest =>
      .cons name (Expr.alike_refl hknown expr) (Expr.alikeEntries_refl hknown rest)

end

/-! ## 3. What alike expressions have in common -/

namespace Expr

variable {a b : Expr}

namespace Alike

theorem isNormal_eq (h : a.Alike L b) : a.isNormal = b.isNormal := by
  cases h <;> rfl

theorem isIfElse_eq (h : a.Alike L b) : a.isIfElse = b.isIfElse := by
  cases h <;> rfl

theorem kind_eq (h : a.Alike L b) : a.kind = b.kind := by
  cases h <;> rfl

end Alike

mutual

/-- A message that names an expression does not tell it from one that is alike. -/
theorem Alike.text_eq : ∀ {a b : Expr}, a.Alike L b → a.text = b.text
  | .lit _, _, h => by
      cases h
      rfl
  | .record _ fields, _, h => by
      cases h with
      | record each => rw [text, text, Alike.fieldsText_eq " " each]
  | .var _, _, h => by
      cases h
      rfl
  | .call operator operands, _, h => by
      cases h with
      | call callee each => rw [text, text, callee.text_eq, Alike.operandsText_eq each]
  | .function .., _, h => by
      cases h
      rfl
  | .scope _ body, _, h => by
      cases h with
      | scope _ result => rw [text, text, result.text_eq]
  | .closure _, _, h => by
      cases h <;> rfl

theorem Alike.operandsText_eq : ∀ {as bs : List Expr}, List.Forall₂ (Alike L) as bs →
    operandsText as = operandsText bs
  | [], _, h => by
      cases h
      rfl
  | a :: as, _, h => by
      cases h with
      | cons head tail => rw [operandsText, operandsText, head.text_eq, Alike.operandsText_eq tail]

theorem Alike.fieldsText_eq : ∀ {as bs : List (String × Expr)} (separator : String),
    Table.Rel (Alike L) as bs → fieldsText separator as = fieldsText separator bs
  | [], _, _, h => by
      cases h
      rfl
  | (_, a) :: as, _, _, h => by
      cases h with
      | cons _ head tail => rw [fieldsText, fieldsText, head.text_eq, Alike.fieldsText_eq ", " tail]

end

/-! ## 4. Closures inside -/

mutual

/-- Whether there is a closure in the expression. -/
def hasClosure : Expr → Bool
  | lit _ | var _ => false
  | record _ fields => hasClosureEntries fields
  | call operator operands => hasClosure operator || hasClosureAll operands
  | function _ locals body | scope locals body => hasClosureEntries locals || hasClosure body
  | closure _ => true

/-- Whether there is a closure in one of the expressions. -/
def hasClosureAll : List Expr → Bool
  | [] => false
  | expr :: rest => hasClosure expr || hasClosureAll rest

/-- Whether there is a closure in one of the entries. -/
def hasClosureEntries : List (String × Expr) → Bool
  | [] => false
  | (_, expr) :: rest => hasClosure expr || hasClosureEntries rest

end

mutual

/-- **Without closures there is nothing to tell alike expressions apart.** -/
theorem Alike.eq_of_hasClosure : ∀ {a b : Expr}, a.Alike L b → a.hasClosure = false → a = b
  | .lit _, _, h, _ => by
      cases h
      rfl
  | .record _ fields, _, h, hfree => by
      cases h with
      | record each => rw [Alike.eq_of_hasClosureEntries each hfree]
  | .var _, _, h, _ => by
      cases h
      rfl
  | .call operator operands, _, h, hfree => by
      obtain ⟨hcallee, heach⟩ := Bool.or_eq_false_iff.1 hfree
      cases h with
      | call callee each => rw [callee.eq_of_hasClosure hcallee, Alike.eq_of_hasClosureAll each heach]
  | .function _ locals body, _, h, hfree => by
      obtain ⟨hinside, hresult⟩ := Bool.or_eq_false_iff.1 hfree
      cases h with
      | function inside result =>
          rw [result.eq_of_hasClosure hresult, Alike.eq_of_hasClosureEntries inside hinside]
  | .scope locals body, _, h, hfree => by
      obtain ⟨hinside, hresult⟩ := Bool.or_eq_false_iff.1 hfree
      cases h with
      | scope inside result =>
          rw [result.eq_of_hasClosure hresult, Alike.eq_of_hasClosureEntries inside hinside]
  | .closure _, _, _, hfree => by cases hfree

theorem Alike.eq_of_hasClosureAll : ∀ {as bs : List Expr}, List.Forall₂ (Alike L) as bs →
    hasClosureAll as = false → as = bs
  | [], _, h, _ => by
      cases h
      rfl
  | a :: as, _, h, hfree => by
      obtain ⟨hhead, htail⟩ := Bool.or_eq_false_iff.1 hfree
      cases h with
      | cons head tail => rw [head.eq_of_hasClosure hhead, Alike.eq_of_hasClosureAll tail htail]

theorem Alike.eq_of_hasClosureEntries : ∀ {as bs : List (String × Expr)},
    Table.Rel (Alike L) as bs → hasClosureEntries as = false → as = bs
  | [], _, h, _ => by
      cases h
      rfl
  | (_, a) :: as, _, h, hfree => by
      obtain ⟨hhead, htail⟩ := Bool.or_eq_false_iff.1 hfree
      cases h with
      | cons _ head tail =>
          rw [head.eq_of_hasClosure hhead, Alike.eq_of_hasClosureEntries tail htail]

end

mutual

/-- A value without functions inside has no closures. -/
theorem hasClosure_of_isComparable : ∀ {a : Expr}, a.isComparable = true → a.hasClosure = false
  | .lit _, _ => rfl
  | .record _ _, h => hasClosureEntries_of_areComparable h
  | .var _, h | .call .., h | .function .., h | .scope .., h | .closure _, h => by cases h

theorem hasClosureEntries_of_areComparable : ∀ {fields : List (String × Expr)},
    areComparable fields = true → hasClosureEntries fields = false
  | [], _ => rfl
  | (_, _) :: _, h => by
      obtain ⟨hhead, htail⟩ := Bool.and_eq_true_iff.1 h
      exact Bool.or_eq_false_iff.2
        ⟨hasClosure_of_isComparable hhead, hasClosureEntries_of_areComparable htail⟩

end

mutual

theorem Alike.isComparable_eq : ∀ {a b : Expr}, a.Alike L b → a.isComparable = b.isComparable
  | .lit _, _, h | .var _, _, h | .call .., _, h | .function .., _, h | .scope .., _, h
  | .closure _, _, h => by
      cases h <;> rfl
  | .record _ fields, _, h => by
      cases h with
      | record each => rw [isComparable, isComparable, Alike.areComparable_eq each]

theorem Alike.areComparable_eq : ∀ {as bs : List (String × Expr)}, Table.Rel (Alike L) as bs →
    areComparable as = areComparable bs
  | [], _, h => by
      cases h
      rfl
  | (_, _) :: _, _, h => by
      cases h with
      | cons _ head tail =>
          rw [areComparable, areComparable, head.isComparable_eq, Alike.areComparable_eq tail]

end

/-- Alike values without functions inside are the same. -/
theorem Alike.eq_of_isComparable (h : a.Alike L b) (ha : a.isComparable = true) : a = b :=
  h.eq_of_hasClosure (hasClosure_of_isComparable ha)

mutual

/-- The expression, with nothing in the environments that its closures captured. -/
def bare : Expr → Expr
  | lit value => lit value
  | record type fields => record type (bareEntries fields)
  | var name => var name
  | call operator operands => call (bare operator) (bareAll operands)
  | function params locals body => function params (bareEntries locals) (bare body)
  | scope locals body => scope (bareEntries locals) (bare body)
  | closure (.compound params _ locals body) =>
    closure (.compound params .root (bareEntries locals) (bare body))
  | closure (.native name params applied native) =>
    closure (.native name params (bareAll applied) native)

/-- The expressions, with nothing in captured environments. -/
def bareAll : List Expr → List Expr
  | [] => []
  | expr :: rest => bare expr :: bareAll rest

/-- The entries, with nothing in captured environments. -/
def bareEntries : List (String × Expr) → List (String × Expr)
  | [] => []
  | (name, expr) :: rest => (name, bare expr) :: bareEntries rest

end

mutual

/-- **Alike expressions are the same but for the environments that closures captured.** -/
theorem Alike.bare_eq : ∀ {a b : Expr}, a.Alike L b → a.bare = b.bare
  | .lit _, _, h | .var _, _, h => by
      cases h
      rfl
  | .record _ _, _, h => by
      cases h with
      | record each => rw [bare, bare, Alike.bareEntries_eq each]
  | .call _ _, _, h => by
      cases h with
      | call callee each => rw [bare, bare, callee.bare_eq, Alike.bareAll_eq each]
  | .function _ _ _, _, h => by
      cases h with
      | function inside result => rw [bare, bare, result.bare_eq, Alike.bareEntries_eq inside]
  | .scope _ _, _, h => by
      cases h with
      | scope inside result => rw [bare, bare, result.bare_eq, Alike.bareEntries_eq inside]
  | .closure (.compound _ _ _ _), _, h => by
      cases h with
      | compound _ inside result => rw [bare, bare, result.bare_eq, Alike.bareEntries_eq inside]
  | .closure (.native _ _ _ _), _, h => by
      cases h with
      | native each => rw [bare, bare, Alike.bareAll_eq each]

theorem Alike.bareAll_eq : ∀ {as bs : List Expr}, List.Forall₂ (Alike L) as bs →
    bareAll as = bareAll bs
  | [], _, h => by
      cases h
      rfl
  | _ :: _, _, h => by
      cases h with
      | cons head tail => rw [bareAll, bareAll, head.bare_eq, Alike.bareAll_eq tail]

theorem Alike.bareEntries_eq : ∀ {as bs : List (String × Expr)}, Table.Rel (Alike L) as bs →
    bareEntries as = bareEntries bs
  | [], _, h => by
      cases h
      rfl
  | (_, _) :: _, _, h => by
      cases h with
      | cons _ head tail => rw [bareEntries, bareEntries, head.bare_eq, Alike.bareEntries_eq tail]

end

end Expr

/-! ## 5. Names in alike environments -/

namespace Env

/-- Two environments bind a name to alike expressions: to values, or to what is evaluated in alike
scopes. The scope of a value does not matter. -/
structure Binds (L : Likeness) (bound : Expr) (scope : Env) (bound' : Expr) (scope' : Env) :
    Prop where
  alike : bound.Alike L bound'
  scopes : bound.isNormal = true ∨ scope.Alike L scope'

end Env

/-- A likeness that names are looked up by: the part before a dot of a known name is known, and
environments that are alike to begin with agree on the known names. -/
structure Likeness.Sound (L : Likeness) : Prop where
  cut : ∀ {name outer inner : String}, Qualified.cut? name = some (outer, inner) →
    L.Known name → L.Known outer
  start : ∀ {env env' : Env}, L.Start env env' → ∀ name, L.Known name →
    Option.Rel (fun found found' => Env.Binds L found.1 found.2 found'.1 found'.2)
      (env.lookup name) (env'.lookup name)

namespace Env

variable {env env' : Env} {name : String}

/-- **Arguments in two frames are found as in one**; only the scope that comes with them differs. -/
theorem lookup_split {first second : List (String × Expr)}
    (values : ∀ entry ∈ first ++ second, entry.2.isNormal = true) (number number₁ number₂ : Nat)
    (parent : Env) (name : String) :
    Option.Rel (fun found found' => found.1 = found'.1 ∧
        (found.1.isNormal = true ∨ found.2 = found'.2))
      ((frame number₂ (Table.ofList second) (frame number₁ (Table.ofList first) parent)).lookup name)
      ((frame number (Table.ofList (first ++ second)) parent).lookup name) := by
  rw [lookup, lookup, lookup, Table.find?_ofList_append]
  cases hsecond : Table.find? (Table.ofList second) name with
  | some bound =>
      have hmem := List.mem_append_right first (Table.mem_of_find?_ofList hsecond)
      exact .some ⟨rfl, .inl (values _ hmem)⟩
  | none =>
      cases hfirst : Table.find? (Table.ofList first) name with
      | some bound =>
          have hmem := List.mem_append_left second (Table.mem_of_find?_ofList hfirst)
          exact .some ⟨rfl, .inl (values _ hmem)⟩
      | none =>
          dsimp only [Option.or]
          cases parent.lookup name with
          | none => exact .none
          | some found => exact .some ⟨rfl, .inr rfl⟩

theorem Binds.of_left {bound bound' : Expr} {scope scope' : Env} {found : Expr × Env}
    (h : Binds L bound scope bound' scope')
    (hsame : found.1 = bound ∧ (found.1.isNormal = true ∨ found.2 = scope)) :
    Binds L found.1 found.2 bound' scope' := by
  obtain ⟨hbound, hscope⟩ := hsame
  refine ⟨hbound ▸ h.alike, ?_⟩
  rcases hscope with hvalue | hscope
  · exact .inl hvalue
  · rw [hbound, hscope]
    exact h.scopes

theorem Binds.of_right {bound bound' : Expr} {scope scope' : Env} {found : Expr × Env}
    (h : Binds L bound scope bound' scope')
    (hsame : found.1 = bound' ∧ (found.1.isNormal = true ∨ found.2 = scope')) :
    Binds L bound scope found.1 found.2 := by
  obtain ⟨hbound, hscope⟩ := hsame
  refine ⟨hbound ▸ h.alike, ?_⟩
  rcases hscope with hvalue | hscope
  · rw [h.alike.isNormal_eq, ← hbound]
    exact .inl hvalue
  · rw [hscope]
    exact h.scopes

/-- **Alike environments bind a known name alike.** -/
theorem AlikeBy.lookup (hL : L.Sound) (h : env.Alike L env') (hknown : L.Known name) :
    Option.Rel (fun found found' => Binds L found.1 found.2 found'.1 found'.2)
      (env.lookup name) (env'.lookup name) := by
  induction h with
  | root => exact .none
  | start h => exact hL.start h name hknown
  | frame number number' entries below ih =>
      have hframe := AlikeBy.frame number number' entries below
      rw [Env.lookup, Env.lookup]
      have hfind := entries.find? name
      generalize Table.find? _ name = found at hfind ⊢
      generalize Table.find? _ name = found' at hfind ⊢
      cases hfind with
      | none => exact ih
      | some halike => exact .some ⟨halike, .inr hframe⟩
  | @splitLeft first second parent other number number₁ number₂ _ values _ ih =>
      have hsplit := lookup_split values number number₁ number₂ parent name
      generalize Env.lookup name (.frame number₂ _ _) = found at hsplit ⊢
      generalize Env.lookup name (.frame number _ _) = whole at hsplit ih
      generalize other.lookup name = found' at ih ⊢
      cases hsplit with
      | none => exact ih
      | some hsame =>
          cases ih with
          | some hbinds => exact .some (hbinds.of_left hsame)
  | @splitRight first second parent other number number₁ number₂ _ values _ ih =>
      have hsplit := lookup_split values number number₁ number₂ parent name
      generalize Env.lookup name (.frame number₂ _ _) = found' at hsplit ⊢
      generalize Env.lookup name (.frame number _ _) = whole at hsplit ih
      generalize other.lookup name = found at ih ⊢
      cases hsplit with
      | none => exact ih
      | some hsame =>
          cases ih with
          | some hbinds => exact .some (hbinds.of_right hsame)

/-- One more frame with alike bindings. -/
theorem AlikeBy.extend (h : env.Alike L env') {bindings bindings' : Bindings}
    (hentries : Table.Rel (Expr.Alike L) bindings bindings') (number number' : Nat) :
    (env.extend number bindings).Alike L (env'.extend number' bindings') := by
  unfold Env.extend
  rw [hentries.isEmpty_eq]
  split
  · exact h
  · exact .frame number number' hentries h

/-- Alike constants have alike members. -/
theorem Binds.member {found found' : Found}
    (h : Binds L found.bound found.scope found'.bound found'.scope) (inner : String) :
    Option.Rel (fun found found' => Binds L found.bound found.scope found'.bound found'.scope)
      (found.member inner) (found'.member inner) := by
  obtain ⟨bound, scope, next⟩ := found
  obtain ⟨bound', scope', next'⟩ := found'
  obtain ⟨halike, hscopes⟩ := h
  cases halike with
  | @scope locals locals' body body' inside result =>
      have hscope : scope.Alike L scope' := by
        rcases hscopes with hvalue | hscope
        · cases hvalue
        · exact hscope
      have hfind := inside.find? inner
      simp only [Found.member]
      generalize Table.find? locals inner = member at hfind ⊢
      generalize Table.find? locals' inner = member' at hfind ⊢
      cases hfind with
      | none => exact .none
      | some hmember => exact .some ⟨hmember, .inr (hscope.extend inside next next')⟩
  | lit _ | record _ | var _ | call _ _ | function _ _ | compound _ _ _ | native _ => exact .none

/-- **Alike environments give a known name the same meaning.** -/
theorem AlikeBy.resolve (hL : L.Sound) (h : env.Alike L env') (hknown : L.Known name)
    (next next' : Nat) :
    Option.Rel (fun found found' => Binds L found.bound found.scope found'.bound found'.scope)
      (env.resolve next name) (env'.resolve next' name) := by
  refine Qualified.resolve_rel_of hL.cut (fun plain hplain => ?_)
    (fun _ _ inner hbinds => hbinds.member inner) name hknown
  have hlookup := h.lookup hL hplain
  generalize env.lookup plain = found at hlookup ⊢
  generalize env'.lookup plain = found' at hlookup ⊢
  cases hlookup with
  | none => exact .none
  | some hbinds => exact .some hbinds

end Env

end Offside
