import Offside.Proofs.Outcome
import Offside.Proofs.Resolve

/-!
# Native functions on values of their types

A native function that gets values of its parameter types ends in a value of its result type, or in
an error that a `Policy` permits (`Operation.yields_call`). What such a function can meet is a value
of another kind than it wants, although it has the type: a discipline may not tell the two types
apart. A policy has to permit the error of exactly these cases.
-/

namespace Offside

/-! ## 1. Wanted kinds and permitted errors -/

/-- Whether a name is that of a declared struct. -/
def Ty.isStruct (types : Table Ty) (name : String) : Bool :=
  match Table.find? types name with
  | some (.struct _) => true
  | _ => false

theorem Ty.isStruct_of_find? {types : Table Ty} {name : String} {fields : List (String × Ty)}
    (h : Table.find? types name = some (.struct fields)) : Ty.isStruct types name = true := by
  rw [Ty.isStruct, h]

namespace Expectation

/-- The type of the values among which a kind is wanted. -/
def ty : Expectation → Ty
  | integer | comparable => .integer
  | string => .string
  | condition => .truth
  | record type => .named type

/-- Only records of declared structs are wanted. -/
def Known (types : Table Ty) : Expectation → Prop
  | record type => Ty.isStruct types type = true
  | integer | string | comparable | condition => True

/-- Whether a value is of the wanted kind. -/
def admits : Expectation → Expr → Bool
  | integer, .lit (.int _) => true
  | string, .lit (.str _) => true
  | condition, .lit (.bool _) => true
  | comparable, value => value.isComparable
  | record type, .record tag _ => tag == type
  | _, _ => false

theorem integer_admits_eq_false {value : Expr} (h : ∀ n, value = .lit (.int n) → False) :
    integer.admits value = false := by
  match value with
  | .lit (.int n) => exact (h n rfl).elim
  | .lit (.str _) | .lit (.bool _) | .lit .nothing => rfl
  | .record .. | .var _ | .call .. | .function .. | .scope .. | .closure _ => rfl

theorem string_admits_eq_false {value : Expr} (h : ∀ s, value = .lit (.str s) → False) :
    string.admits value = false := by
  match value with
  | .lit (.str s) => exact (h s rfl).elim
  | .lit (.int _) | .lit (.bool _) | .lit .nothing => rfl
  | .record .. | .var _ | .call .. | .function .. | .scope .. | .closure _ => rfl

theorem condition_admits_eq_false {value : Expr} (h : ∀ b, value = .lit (.bool b) → False) :
    condition.admits value = false := by
  match value with
  | .lit (.bool b) => exact (h b rfl).elim
  | .lit (.int _) | .lit (.str _) | .lit .nothing => rfl
  | .record .. | .var _ | .call .. | .function .. | .scope .. | .closure _ => rfl

theorem record_admits_eq_false {type : String} {value : Expr}
    (h : ∀ fields, value = .record type fields → False) : (record type).admits value = false := by
  match value with
  | .record tag fields =>
      refine beq_eq_false_iff_ne.2 fun e => ?_
      subst e
      exact h fields rfl
  | .lit _ | .var _ | .call .. | .function .. | .scope .. | .closure _ => rfl

end Expectation

/-- The errors that a run may end in: those that no type rules out, and where a value has the type
but not the kind that is wanted, the error that says so. -/
structure Policy {aliases : Aliases} (D : Discipline aliases) (types : Table Ty) where
  Permitted : EvalError → Prop
  depth : ∀ limit, Permitted (.depthExceeded limit)
  output : ∀ reason, Permitted (.output reason)
  overflow : ∀ operation : Operation,
    operation ∈ [Operation.plus, .minus, .multiply, .divide, .modulo] →
      Permitted (.overflow operation.name)
  zeroDivisor : ∀ operation : Operation, operation ∈ [Operation.divide, .modulo] →
    Permitted (.zeroDivisor operation.name)
  kind : ∀ (callee : String) {expected : Expectation} {value : Expr}, expected.Known types →
    Fits D types value expected.ty → expected.admits value = false →
      Permitted (.wrongKind callee expected value.kind)

/-! ## 2. Arguments -/

namespace Operation

variable {aliases : Aliases} {D : Discipline aliases} {types : Table Ty} (P : Policy D types)

theorem yields_integer (operation : Operation) {value : Expr} (h : Fits D types value .integer) :
    Yields (operation.integer value) (fun _ => True) P.Permitted := by
  rw [Operation.integer.eq_def]
  split
  · exact .pure trivial
  · rename_i hother
    exact .throw (P.kind operation.name trivial h (Expectation.integer_admits_eq_false hother))

theorem yields_string (operation : Operation) {value : Expr} (h : Fits D types value .string) :
    Yields (operation.string value) (fun _ => True) P.Permitted := by
  rw [Operation.string.eq_def]
  split
  · exact .pure trivial
  · rename_i hother
    exact .throw (P.kind operation.name trivial h (Expectation.string_admits_eq_false hother))

theorem yields_comparable (operation : Operation) {value : Expr}
    (h : Fits D types value .integer) :
    Yields (operation.comparable value) (fun _ => True) P.Permitted := by
  rw [Operation.comparable]
  refine .ite (fun _ => .pure trivial) fun hnot => .throw (P.kind operation.name trivial h ?_)
  exact Bool.eq_false_iff.2 hnot

/-- A function of two integers reads both of them, and then does what it does with them. -/
theorem yields_onIntegers (operation : Operation) {a b : Expr} {f : Int64 → Int64 → EvalM Expr}
    {good : Expr → Prop} (ha : Fits D types a .integer) (hb : Fits D types b .integer)
    (hf : ∀ x y, Yields (f x y) good P.Permitted) :
    Yields (operation.onIntegers a b f) good P.Permitted := by
  rw [Operation.onIntegers]
  exact .bind (yields_integer P operation ha) fun x _ =>
    .bind (yields_integer P operation hb) fun y _ => hf x y

theorem yields_exactly {operation : Operation}
    (h : operation ∈ [Operation.plus, .minus, .multiply, .divide, .modulo])
    (result : Option Int64) :
    Yields (operation.exactly result) (fun value => Fits D types value .integer)
      P.Permitted := by
  cases result with
  | none => exact .throw (P.overflow operation h)
  | some value => exact .pure (.lit (D.refl _))

theorem yields_dividing {operation : Operation} (h : operation ∈ [Operation.divide, .modulo])
    {a b : Expr} (f : Int64 → Int64 → Option Int64) (ha : Fits D types a .integer)
    (hb : Fits D types b .integer) :
    Yields (operation.dividing a b f) (fun value => Fits D types value .integer)
      P.Permitted := by
  rw [Operation.dividing]
  refine yields_onIntegers P operation ha hb fun x y => .ite (fun _ => .throw ?_) fun _ => ?_
  · exact P.zeroDivisor operation h
  · exact yields_exactly P (List.mem_cons_of_mem _ (List.mem_cons_of_mem _
      (List.mem_cons_of_mem _ h))) _

/-! ## 3. Records -/

theorem field?_eq_find? (values : List (String × Expr)) (field : String) :
    Expr.field? values field = Table.find? values field := by
  induction values with
  | nil => rfl
  | cons first rest ih => rw [Expr.field?, Table.find?, ih]

/-- A record of a struct has a value of the right type in each field. -/
theorem field?_fits {fields : List (String × Ty)} {values : List (String × Expr)}
    (names : values.map (·.1) = fields.map (·.1))
    (each : List.Forall₂ (Fits D types) (values.map (·.2)) (fields.map (·.2)))
    (distinct : (fields.map (·.1)).Nodup) {field : String} {ty : Ty} (h : (field, ty) ∈ fields) :
    ∃ found, Expr.field? values field = some found ∧ Fits D types found ty := by
  have hfind := Table.find?_forall₂ (Table.forall₂_of_names names each) field
  rw [Table.find?_of_mem distinct h] at hfind
  rw [field?_eq_find?]
  generalize Table.find? values field = found at hfind ⊢
  cases hfind with
  | some hv => exact ⟨_, rfl, hv⟩

theorem yields_construct {type : String} {fields : List (String × Ty)} {args : List Expr}
    (declared : Table.find? types type = some (.struct fields))
    (hargs : List.Forall₂ (Fits D types) args (fields.map (·.2))) :
    Yields ((construct type (fields.map (·.1))).call args)
      (fun value => Fits D types value (.named type)) P.Permitted := by
  have hlength : args.length = (fields.map (·.1)).length := by
    rw [hargs.length_eq, List.length_map, List.length_map]
  rw [Operation.call.eq_def]
  simp only
  rw [if_pos hlength]
  refine .pure (.record declared ?_ ?_ (D.refl _))
  · exact List.map_fst_zip hlength.ge
  · rwa [List.map_snd_zip hlength.le]

theorem yields_access {type field : String} {ty : Ty} {fields : List (String × Ty)} {value : Expr}
    (declared : Table.find? types type = some (.struct fields))
    (distinct : (fields.map (·.1)).Nodup) (mem : (field, ty) ∈ fields)
    (hv : Fits D types value (.named type)) :
    Yields ((access type field).call [value]) (fun found => Fits D types found ty)
      P.Permitted := by
  have hwrong : ∀ h : (Expectation.record type).admits value = false, P.Permitted
      (.wrongKind (accessorName type field) (.record type) value.kind) :=
    P.kind _ (Ty.isStruct_of_find? declared) hv
  rw [Operation.call.eq_def]
  simp only
  split
  · rename_i tag values
    split
    · rename_i htag
      subst htag
      cases hv with
      | record declared' names each _ =>
          rw [declared] at declared'
          cases declared'
          obtain ⟨found, hfound, hfits⟩ := field?_fits names each distinct mem
          rw [hfound]
          exact .pure hfits
    · rename_i htag
      refine .throw (hwrong (Expectation.record_admits_eq_false fun other e => ?_))
      cases e
      exact htag rfl
  · rename_i hother
    exact .throw (hwrong (Expectation.record_admits_eq_false fun other e => hother _ _ e))

/-! ## 4. Calls -/

/-- **A native function on values of its parameter types** ends in a value of its result type, or
in a permitted error. -/
theorem yields_call {operation : Operation} {params : List Ty} {result : Ty} {args : List Expr}
    (hs : operation.Signature types params result)
    (hargs : List.Forall₂ (Fits D types) args params) :
    Yields (operation.call args) (fun value => Fits D types value result) P.Permitted := by
  have hlit : ∀ (literal : Literal) {ty : Ty}, literal.ty = ty →
      Yields (Pure.pure (.lit literal) : EvalM Expr) (fun value => Fits D types value ty)
        P.Permitted := by
    rintro literal ty rfl
    exact .pure (.lit (D.refl _))
  cases hs with
  | construct declared => exact yields_construct P declared hargs
  | access declared distinct mem =>
      cases hargs with
      | cons hv hnil =>
          cases hnil
          exact yields_access P declared distinct mem hv
  | concat =>
      obtain ⟨a, _, ha, hrest, rfl⟩ := List.forall₂_cons_right_iff.1 hargs
      obtain ⟨b, _, hb, hnil, rfl⟩ := List.forall₂_cons_right_iff.1 hrest
      cases hnil
      exact .bind (yields_string P _ ha) fun _ _ => .bind (yields_string P _ hb) fun _ _ =>
        hlit (.str _) rfl
  | intToStr =>
      obtain ⟨a, _, ha, hnil, rfl⟩ := List.forall₂_cons_right_iff.1 hargs
      cases hnil
      exact .bind (yields_integer P _ ha) fun _ _ => hlit (.str _) rfl
  | printLine outlet =>
      obtain ⟨a, _, ha, hnil, rfl⟩ := List.forall₂_cons_right_iff.1 hargs
      cases hnil
      exact .bind (yields_string P _ ha) fun _ _ =>
        .bind (World.yields_writeTo outlet _ P.output) fun _ _ => hlit .nothing rfl
  | arithmetic h =>
      obtain ⟨a, _, ha, hrest, rfl⟩ := List.forall₂_cons_right_iff.1 hargs
      obtain ⟨b, _, hb, hnil, rfl⟩ := List.forall₂_cons_right_iff.1 hrest
      cases hnil
      have hexact : ∀ r, Yields (operation.exactly r) (fun value => Fits D types value .integer)
          P.Permitted := yields_exactly P h
      simp only [List.mem_cons, List.not_mem_nil, or_false] at h
      rcases h with rfl | rfl | rfl | rfl | rfl
      · exact yields_onIntegers P .plus ha hb fun _ _ => hexact _
      · exact yields_onIntegers P .minus ha hb fun _ _ => hexact _
      · exact yields_onIntegers P .multiply ha hb fun _ _ => hexact _
      · exact yields_dividing P (by simp) _ ha hb
      · exact yields_dividing P (by simp) _ ha hb
  | comparison h =>
      obtain ⟨a, _, ha, hrest, rfl⟩ := List.forall₂_cons_right_iff.1 hargs
      obtain ⟨b, _, hb, hnil, rfl⟩ := List.forall₂_cons_right_iff.1 hrest
      cases hnil
      simp only [List.mem_cons, List.not_mem_nil, or_false] at h
      rcases h with rfl | rfl | rfl
      · exact yields_onIntegers P .less ha hb fun _ _ => hlit (.bool _) rfl
      · exact yields_onIntegers P .greater ha hb fun _ _ => hlit (.bool _) rfl
      · exact .bind (yields_comparable P _ ha) fun _ _ =>
          .bind (yields_comparable P _ hb) fun _ _ => hlit (.bool _) rfl

end Operation

end Offside
