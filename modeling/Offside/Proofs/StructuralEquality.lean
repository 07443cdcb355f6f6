import Offside.Proofs.Values

/-!
# Equality of values

The library's function `equal` compares values that have no functions inside, and it refuses all
others before it compares anything. So it never comes to the identity of native functions and of
frames, which the comparison of expressions in general has to fall back on:

* `Expr.Evaluated`, `Expr.HoldsFunction` -- values, and values with a function inside, at any depth;
* `Expr.isComparable_iff` -- what is let through are the values without functions inside;
* `Expr.same_iff_eq` -- on these, the comparison is equality of trees;
* `Expr.withFunctions` -- a value with other functions in the place of its own. `equal` answers as
  before (`Library.equal_withFunctions`).

`equal_decides` puts these together.
-/

namespace Offside

/-! ## 1. Functions inside -/

namespace Expr

/-- What is left when all is evaluated: literals, functions, and records of such. -/
inductive Evaluated : Expr → Prop
  | lit (value : Literal) : Evaluated (.lit value)
  | record {type : String} {fields : List (String × Expr)}
      (each : ∀ entry ∈ fields, Evaluated entry.2) : Evaluated (.record type fields)
  | closure (value : Closure) : Evaluated (.closure value)

/-- A function, or a record with a field that holds one. -/
inductive HoldsFunction : Expr → Prop
  | closure (value : Closure) : HoldsFunction (.closure value)
  | field {type : String} {fields : List (String × Expr)} {entry : String × Expr}
      (mem : entry ∈ fields) (inside : HoldsFunction entry.2) : HoldsFunction (.record type fields)

theorem areComparable_iff {fields : List (String × Expr)} :
    areComparable fields = true ↔ ∀ entry ∈ fields, entry.2.isComparable = true := by
  induction fields with
  | nil => simp [areComparable]
  | cons first rest ih =>
      rw [areComparable, Bool.and_eq_true, List.forall_mem_cons, ih]

/-- **Values can be compared if they hold no function**, at whatever depth. -/
theorem isComparable_iff {value : Expr} (h : value.Evaluated) :
    value.isComparable = true ↔ ¬value.HoldsFunction := by
  induction h with
  | lit value => exact ⟨fun _ => nofun, fun _ => rfl⟩
  | closure value => exact ⟨nofun, fun hfree => absurd (.closure value) hfree⟩
  | @record type fields each ih =>
      rw [isComparable, areComparable_iff]
      constructor
      · intro hfields hinside
        cases hinside with
        | field mem inside => exact (ih _ mem).1 (hfields _ mem) inside
      · intro hfree entry hmem
        exact (ih entry hmem).2 fun inside => hfree (.field hmem inside)

/-! ## 2. Comparison of trees -/

mutual

/-- **Without functions inside, only a value itself is the same as it.** -/
theorem same_iff_eq : ∀ {a : Expr}, a.isComparable = true → ∀ b : Expr, a.same b = true ↔ a = b
  | lit value, _, b => by
      cases b with
      | lit other => rw [same, beq_iff_eq, lit.injEq]
      | record _ _ | var _ | call _ _ | function _ _ _ | scope _ _ | closure _ => simp [same]
  | record type fields, h, b => by
      cases b with
      | record other entries =>
          rw [same, Bool.and_eq_true, beq_iff_eq, sameEntries_iff_eq h entries, record.injEq]
      | lit _ | var _ | call _ _ | function _ _ _ | scope _ _ | closure _ => simp [same]

theorem sameEntries_iff_eq : ∀ {as : List (String × Expr)}, areComparable as = true →
    ∀ bs : List (String × Expr), sameEntries as bs = true ↔ as = bs
  | [], _, bs => by cases bs <;> simp [sameEntries]
  | (name, a) :: as, h, bs => by
      obtain ⟨hfirst, hrest⟩ := Bool.and_eq_true_iff.1 h
      cases bs with
      | nil => simp [sameEntries]
      | cons entry bs =>
          obtain ⟨other, b⟩ := entry
          rw [sameEntries, Bool.and_eq_true, Bool.and_eq_true, beq_iff_eq, same_iff_eq hfirst b,
            sameEntries_iff_eq hrest bs, List.cons.injEq, Prod.mk.injEq]

end

/-! ## 3. Other functions in the place of the own ones -/

mutual

/-- The value with other functions: each that is there is replaced. -/
def withFunctions (other : Closure → Closure) : Expr → Expr
  | record type fields => record type (withFunctionsEntries other fields)
  | closure value => closure (other value)
  | expr => expr

/-- Fields with other functions inside. -/
def withFunctionsEntries (other : Closure → Closure) : List (String × Expr) → List (String × Expr)
  | [] => []
  | (name, value) :: rest => (name, withFunctions other value) :: withFunctionsEntries other rest

end

variable (other : Closure → Closure)

theorem kind_withFunctions (value : Expr) : (value.withFunctions other).kind = value.kind := by
  cases value <;> rfl

mutual

theorem isComparable_withFunctions :
    ∀ value : Expr, (value.withFunctions other).isComparable = value.isComparable
  | record _ fields => by
      rw [withFunctions, isComparable, isComparable, areComparable_withFunctions fields]
  | lit _ | var _ | call .. | function .. | scope .. | closure _ => rfl

theorem areComparable_withFunctions : ∀ fields : List (String × Expr),
    areComparable (withFunctionsEntries other fields) = areComparable fields
  | [] => rfl
  | (_, value) :: rest => by
      rw [withFunctionsEntries, areComparable, areComparable, isComparable_withFunctions value,
        areComparable_withFunctions rest]

end

mutual

/-- There is nothing to replace in what can be compared. -/
theorem withFunctions_of_isComparable :
    ∀ {value : Expr}, value.isComparable = true → value.withFunctions other = value
  | record _ _, h => by rw [withFunctions, withFunctions_of_areComparable h]
  | lit _, _ => rfl

theorem withFunctions_of_areComparable : ∀ {fields : List (String × Expr)},
    areComparable fields = true → withFunctionsEntries other fields = fields
  | [], _ => rfl
  | (_, value) :: rest, h => by
      obtain ⟨hfirst, hrest⟩ := Bool.and_eq_true_iff.1 h
      rw [withFunctionsEntries, withFunctions_of_isComparable hfirst,
        withFunctions_of_areComparable hrest]

end

end Expr

/-! ## 4. The function of the library -/

namespace Library

/-- Calls the function `equal` of the library. -/
def equal (origin : Nat) (outlet : Outlet) (a b : Expr) : EvalM Expr :=
  Definitions.call (definitions origin outlet) "equal" [a, b]

/-- `equal` answers yes, and does nothing else. -/
def Equals (origin : Nat) (outlet : Outlet) (a b : Expr) : Prop :=
  ∀ world, (equal origin outlet a b).run world = (.ok (.lit (.bool true)), world)

variable (origin : Nat) (outlet : Outlet) (a b : Expr)

/-- What `equal` does: it looks at both values first, and compares them if both can be. -/
theorem equal_run (world : World) :
    (equal origin outlet a b).run world =
      if a.isComparable then
        if b.isComparable then (.ok (.lit (.bool (a.same b))), world)
        else (.error (.wrongKind "equal" .comparable b.kind), world)
      else (.error (.wrongKind "equal" .comparable a.kind), world) := by
  change ExceptT.run (m := StateM World) (do
    Operation.equal.comparable a
    Operation.equal.comparable b
    pure (Expr.lit (.bool (a.same b)))) world = _
  unfold Operation.comparable
  cases a.isComparable
  · rfl
  · cases b.isComparable <;> rfl

/-- A function in the first value is what `equal` complains of. -/
theorem equal_run_left {a : Expr} (ha : a.Evaluated) (hfunction : a.HoldsFunction) (b : Expr)
    (world : World) : (equal origin outlet a b).run world =
      (.error (.wrongKind "equal" .comparable a.kind), world) := by
  rw [equal_run, if_neg fun hcomparable => (Expr.isComparable_iff ha).1 hcomparable hfunction]

/-- If there is none, a function in the second one is. -/
theorem equal_run_right {a b : Expr} (ha : a.Evaluated) (hb : b.Evaluated)
    (hfree : ¬a.HoldsFunction) (hfunction : b.HoldsFunction) (world : World) :
    (equal origin outlet a b).run world =
      (.error (.wrongKind "equal" .comparable b.kind), world) := by
  rw [equal_run, if_pos ((Expr.isComparable_iff ha).2 hfree),
    if_neg fun hcomparable => (Expr.isComparable_iff hb).1 hcomparable hfunction]

/-- Values without functions are compared. -/
theorem equal_run_free {a b : Expr} (ha : a.Evaluated) (hb : b.Evaluated)
    (hfree : ¬a.HoldsFunction) (hfree' : ¬b.HoldsFunction) (world : World) :
    (equal origin outlet a b).run world = (.ok (.lit (.bool (a.same b))), world) := by
  rw [equal_run, if_pos ((Expr.isComparable_iff ha).2 hfree),
    if_pos ((Expr.isComparable_iff hb).2 hfree')]

/-- The complaint is about a kind exactly if there is a function in one of the values. -/
theorem equal_wrongKind_iff {a b : Expr} (ha : a.Evaluated) (hb : b.Evaluated) (world : World) :
    (∃ callee expected found, ((equal origin outlet a b).run world).1 =
        .error (.wrongKind callee expected found)) ↔ a.HoldsFunction ∨ b.HoldsFunction := by
  by_cases hfree : a.HoldsFunction
  · rw [equal_run_left origin outlet ha hfree]
    exact ⟨fun _ => .inl hfree, fun _ => ⟨_, _, _, rfl⟩⟩
  · by_cases hfree' : b.HoldsFunction
    · rw [equal_run_right origin outlet ha hb hfree hfree']
      exact ⟨fun _ => .inr hfree', fun _ => ⟨_, _, _, rfl⟩⟩
    · rw [equal_run_free origin outlet ha hb hfree hfree']
      refine ⟨?_, fun h => absurd h (not_or.2 ⟨hfree, hfree'⟩)⟩
      rintro ⟨_, _, _, hanswer⟩
      cases hanswer

/-- `equal` does not depend on which functions there are in values, and not on how they compare. -/
theorem equal_withFunctions (other other' : Closure → Closure) :
    equal origin outlet (a.withFunctions other) (b.withFunctions other') =
      equal origin outlet a b := by
  refine funext fun world => (equal_run _ _ _ _ world).trans (.trans ?_ (equal_run _ _ _ _ world).symm)
  simp only [Expr.isComparable_withFunctions, Expr.kind_withFunctions]
  split
  · rename_i ha
    split
    · rename_i hb
      rw [Expr.withFunctions_of_isComparable other ha, Expr.withFunctions_of_isComparable other' hb]
    · rfl
  · rfl

variable {origin outlet a b}

/-- `equal` answers yes for a value that can be compared, and this value again. -/
theorem equals_iff : Equals origin outlet a b ↔ a.isComparable = true ∧ a = b := by
  unfold Equals
  simp only [equal_run]
  constructor
  · intro h
    have hanswer := h (World.initial .accepting 0)
    split at hanswer
    · rename_i ha
      split at hanswer
      · have hvalue := Expr.lit.inj (Except.ok.inj (Prod.mk.inj hanswer).1)
        exact ⟨ha, (Expr.same_iff_eq ha b).1 (Literal.bool.inj hvalue)⟩
      · cases hanswer
    · cases hanswer
  · rintro ⟨ha, rfl⟩ world
    rw [if_pos ha, if_pos ha, (Expr.same_iff_eq ha a).2 rfl]

/-- **Records of one struct are equal if they are so field by field.** -/
theorem equals_record_iff (type : String) {names : List String} {xs ys : List Expr}
    (hxs : xs.length = names.length) (hys : ys.length = names.length) :
    Equals origin outlet (.record type (names.zip xs)) (.record type (names.zip ys)) ↔
      List.Forall₂ (Equals origin outlet) xs ys := by
  rw [equals_iff, Expr.isComparable, Expr.record.injEq]
  induction names generalizing xs ys with
  | nil =>
      rw [List.length_eq_zero_iff.1 hxs, List.length_eq_zero_iff.1 hys]
      exact ⟨fun _ => .nil, fun _ => ⟨rfl, rfl, rfl⟩⟩
  | cons name names ih =>
      obtain ⟨x, xs, rfl⟩ := List.exists_cons_of_length_eq_add_one hxs
      obtain ⟨y, ys, rfl⟩ := List.exists_cons_of_length_eq_add_one hys
      have htail := ih (Nat.succ.inj hxs) (Nat.succ.inj hys)
      rw [List.forall₂_cons, ← htail, equals_iff]
      simp only [List.zip_cons_cons, Expr.areComparable, Bool.and_eq_true, List.cons.injEq,
        Prod.mk.injEq, true_and]
      exact ⟨fun ⟨⟨hx, hrest⟩, hxy, heq⟩ => ⟨⟨hx, hxy⟩, hrest, heq⟩,
        fun ⟨⟨hx, hxy⟩, hrest, heq⟩ => ⟨⟨hx, hrest⟩, hxy, heq⟩⟩

end Library

/-- **`equal` decides whether values without functions are the same tree.** For all values, it fails,
with an error about the kind of a value, exactly if one of them holds a function at some depth; the
error is about the first one if that does, and else about the second. Otherwise it answers, and the
answer is yes exactly if the values are equal as trees. So on values without functions it is an
equivalence; which functions there are in values never changes what it does; and two records made by
the constructor of one struct are equal exactly if their components are, each with the one in its
place. -/
theorem equal_decides (origin : Nat) (outlet : Outlet) :
    (∀ a b : Expr, a.Evaluated → b.Evaluated → ∀ world,
      ((∃ callee expected found, ((Library.equal origin outlet a b).run world).1 =
          .error (.wrongKind callee expected found)) ↔ a.HoldsFunction ∨ b.HoldsFunction) ∧
      (a.HoldsFunction → (Library.equal origin outlet a b).run world =
        (.error (.wrongKind "equal" .comparable a.kind), world)) ∧
      (¬a.HoldsFunction → b.HoldsFunction → (Library.equal origin outlet a b).run world =
        (.error (.wrongKind "equal" .comparable b.kind), world)) ∧
      (¬a.HoldsFunction → ¬b.HoldsFunction → ∃ answer : Bool,
        (Library.equal origin outlet a b).run world = (.ok (.lit (.bool answer)), world) ∧
        (answer = true ↔ a = b))) ∧
    (Equivalence fun a b : { value : Expr // value.Evaluated ∧ ¬value.HoldsFunction } =>
      Library.Equals origin outlet a b) ∧
    (∀ (a b : Expr) (other other' : Closure → Closure),
      Library.equal origin outlet (a.withFunctions other) (b.withFunctions other') =
        Library.equal origin outlet a b) ∧
    ∀ maker type fields xs ys limit, xs.length = fields.length → ys.length = fields.length →
      ∃ record record',
        HasValue ((Closure.constructor maker type fields).apply limit xs) limit record ∧
        HasValue ((Closure.constructor maker type fields).apply limit ys) limit record' ∧
        (Library.Equals origin outlet record record' ↔
          List.Forall₂ (Library.Equals origin outlet) xs ys) := by
  refine ⟨fun a b ha hb world => ?_, ?_, Library.equal_withFunctions origin outlet, ?_⟩
  · refine ⟨Library.equal_wrongKind_iff origin outlet ha hb world,
      fun hfunction => Library.equal_run_left origin outlet ha hfunction b world,
      fun hfree hfunction => Library.equal_run_right origin outlet ha hb hfree hfunction world,
      fun hfree hfree' => ⟨_, Library.equal_run_free origin outlet ha hb hfree hfree' world, ?_⟩⟩
    exact Expr.same_iff_eq ((Expr.isComparable_iff ha).2 hfree) b
  · have hequals : ∀ a b : { value : Expr // value.Evaluated ∧ ¬value.HoldsFunction },
        Library.Equals origin outlet a b ↔ a = b := by
      rintro ⟨a, hva, hfa⟩ b
      rw [Library.equals_iff, Subtype.ext_iff]
      exact and_iff_right ((Expr.isComparable_iff hva).2 hfa)
    refine ⟨fun a => (hequals a a).2 rfl, fun h => ?_, fun h h' => ?_⟩
    · exact (hequals _ _).2 ((hequals _ _).1 h).symm
    · exact (hequals _ _).2 (((hequals _ _).1 h).trans ((hequals _ _).1 h'))
  · intro maker type fields xs ys limit hxs hys
    have hnames : (fields.map (·.1)).length = fields.length := List.length_map _
    exact ⟨_, _, hasValue_onStack (Closure.applyWith_constructor hxs _) limit,
      hasValue_onStack (Closure.applyWith_constructor hys _) limit,
      Library.equals_record_iff type (hxs.trans hnames.symm) (hys.trans hnames.symm)⟩

/-- A record with a record inside that has a value in its only field. -/
def parcel (content : Expr) : Expr :=
  .record "Parcel" [("weight", .lit (.int 3)), ("inside", .record "Box" [("content", content)])]

theorem evaluated_parcel {content : Expr} (h : content.Evaluated) : (parcel content).Evaluated := by
  refine .record (List.forall_mem_cons.2 ⟨.lit _, List.forall_mem_singleton.2 ?_⟩)
  exact .record (List.forall_mem_singleton.2 h)

theorem holdsFunction_parcel (closure : Closure) : (parcel (.closure closure)).HoldsFunction :=
  .field (List.mem_cons_of_mem _ List.mem_cons_self)
    (.field List.mem_cons_self (.closure closure))

theorem equal_decides_parcel :
    let doubled := parcel (.closure (.native "plus" ["b"] [.lit (.int 1)] ⟨libraryOrigin, .plus⟩))
    let named := parcel (.lit (.str "plus"))
    (∀ world, (Library.equal libraryOrigin .void named doubled).run world =
      (.error (.wrongKind "equal" .comparable "Parcel"), world)) ∧
    (∀ world, ∃ answer : Bool, (Library.equal libraryOrigin .void named named).run world =
      (.ok (.lit (.bool answer)), world) ∧ (answer = true ↔ named = named)) ∧
    ∃ record record',
      HasValue ((Closure.constructor programOrigin "Pair" [("a", .integer), ("b", .string)]).apply 1
        [named, named]) 1 record ∧
      HasValue ((Closure.constructor programOrigin "Pair" [("a", .integer), ("b", .string)]).apply 1
        [named, doubled]) 1 record' ∧
      (Library.Equals libraryOrigin .void record record' ↔
        List.Forall₂ (Library.Equals libraryOrigin .void) [named, named] [named, doubled]) := by
  intro doubled named
  have hnamed : named.Evaluated := evaluated_parcel (.lit _)
  have hfree : ¬named.HoldsFunction := (Expr.isComparable_iff hnamed).1 rfl
  obtain ⟨hvalues, -, -, hrecords⟩ := equal_decides libraryOrigin .void
  refine ⟨fun world => ?_, fun world => ?_, hrecords _ _ _ _ _ _ rfl rfl⟩
  · obtain ⟨-, -, hright, -⟩ := hvalues named doubled hnamed (evaluated_parcel (.closure _)) world
    exact hright hfree (holdsFunction_parcel _)
  · obtain ⟨-, -, -, hanswer⟩ := hvalues named named hnamed hnamed world
    exact hanswer hfree hfree

end Offside
