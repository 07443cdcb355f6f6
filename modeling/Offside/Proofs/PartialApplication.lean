import Offside.Proofs.Characters
import Offside.Proofs.Simulation

/-!
# Arguments in several portions

A function that gets its arguments in two portions does what it does when it gets them at once. The
two runs differ in one thing: a compound function binds each portion in a frame of its own, where one
application binds all arguments in one frame. The likeness `regrouping` leaves just this open.

* `Env.inStep_extendM_append` -- a frame above a frame is like one frame with the bindings of both;
* `Closure.applyPartly_append`, `Closure.applyFully_append` -- hence an application after another one
  is like one application, whether parameters are left open or not;
* `Expr.inStep_applyInTurn` -- alike values stay alike, however often they are applied.

`applyInTurn_append` puts these together for every closure, all values and any later applications.
-/

namespace Offside

/-! ## 1. Applications in turn -/

/-- One application: its limit, the levels that are left of it, and the arguments. -/
structure Application where
  limit : Nat
  levels : Nat
  args : List Expr

/-- Applies a value, which has to be a function. -/
def Expr.applyTo (value : Expr) (application : Application) : EvalM Expr :=
  match value with
  | .closure callee =>
    callee.applyWith (eval application.limit application.levels) application.args
  | _ => throw (.notAFunction value.text)

/-- Applies a value, then what this gives, and so on. -/
def Expr.applyInTurn (value : Expr) : List Application → EvalM Expr
  | [] => pure value
  | application :: rest => do
    let result ← value.applyTo application
    result.applyInTurn rest

/-- Two runs may differ in the way that arguments are grouped into frames, and in nothing else. -/
def regrouping : Likeness where
  Known _ := True
  Start _ _ := False
  Regroups := True

theorem regrouping_sound : regrouping.Sound :=
  ⟨fun _ _ => trivial, fun h => absurd h not_false⟩

theorem regrouping_known (name : String) : regrouping.Known name := trivial

/-- Two applications to alike arguments, with the same limit and as many levels left. -/
structure Application.Alike (application application' : Application) : Prop where
  limit : application.limit = application'.limit
  levels : application.levels = application'.levels
  args : List.Forall₂ (Expr.Alike regrouping) application.args application'.args

/-- Alike values are functions both or neither, and give alike results. -/
theorem Expr.inStep_applyTo {value value' : Expr} (h : value.Alike regrouping value')
    {application application' : Application} (happlication : application.Alike application') :
    InStep (Expr.Alike regrouping) (value.applyTo application) (value'.applyTo application') := by
  obtain ⟨limit, levels, args⟩ := application
  obtain ⟨limit', levels', args'⟩ := application'
  obtain ⟨hlimit, hlevels, hargs⟩ := happlication
  change limit = limit' at hlimit
  change levels = levels' at hlevels
  subst hlimit hlevels
  have hs := eval_inStep regrouping_sound limit levels
  have htext := h.text_eq
  cases h with
  | compound captured inside result => exact hs.applyWith (.compound captured inside result) hargs
  | native each => exact hs.applyWith (.native each) hargs
  | lit _ | record _ | var _ | call _ _ | function _ _ | scope _ _ =>
      show InStep _ (throw (.notAFunction _)) (throw (.notAFunction _))
      rw [htext]
      exact .throw _

/-- **Alike values stay alike**, however often they are applied to alike arguments. -/
theorem Expr.inStep_applyInTurn {further further' : List Application}
    (hfurther : List.Forall₂ Application.Alike further further') {value value' : Expr}
    (h : value.Alike regrouping value') :
    InStep (Expr.Alike regrouping) (value.applyInTurn further) (value'.applyInTurn further') := by
  induction hfurther generalizing value value' with
  | nil => exact .pure h
  | cons head _ ih => exact .bind (Expr.inStep_applyTo h head) fun result result' => ih

/-! ## 2. Two frames and one -/

theorem Table.isEmpty_ofList {α : Type} (entries : List (String × α)) :
    (Table.ofList entries).isEmpty = entries.isEmpty := by
  cases entries with
  | nil => rfl
  | cons entry rest =>
      obtain ⟨name, value⟩ := entry
      rw [List.isEmpty_cons, List.isEmpty_eq_false_iff]
      intro hempty
      have hfind : Table.find? ((name, value) :: rest).reverse name = none := by
        rw [← Table.find?_ofList, hempty, Table.find?_nil]
      rw [Table.find?_eq_none] at hfind
      exact hfind (List.mem_map.2 ⟨(name, value), by simp, rfl⟩)

theorem Env.extendM_ofList_run (env : Env) {entries : List (String × Expr)} (hne : entries ≠ [])
    (world : World) :
    (env.extendM (Table.ofList entries)).run world =
      (.ok (.frame world.frames (Table.ofList entries) env),
        { world with frames := world.frames + 1 }) := by
  rw [Env.extendM, Table.isEmpty_ofList, List.isEmpty_eq_false_iff.2 hne]
  rfl

/-- **A frame above a frame is like one frame** with the values of both. -/
theorem Env.inStep_extendM_append (env : Env) {first second : List (String × Expr)}
    (hvalues : ∀ entry ∈ first ++ second, entry.2.isNormal = true) :
    InStep (Env.Alike regrouping)
      (env.extendM (Table.ofList first) >>= fun inner => inner.extendM (Table.ofList second))
      (env.extendM (Table.ofList (first ++ second))) := by
  have hrefl := Env.alike_refl regrouping_known env
  by_cases hfirst : first = []
  · subst hfirst
    exact Env.inStep_extendM hrefl (Expr.alikeEntries_refl regrouping_known _)
  by_cases hsecond : second = []
  · subst hsecond
    rw [List.append_nil]
    change InStep _ (env.extendM (Table.ofList first) >>= fun inner => pure inner) _
    rw [bind_pure]
    exact Env.inStep_extendM hrefl (Expr.alikeEntries_refl regrouping_known _)
  have hwhole := Expr.alikeEntries_refl regrouping_known (Table.ofList (first ++ second))
  intro world world' hworlds
  have happend : first ++ second ≠ [] := List.append_ne_nil_of_left_ne_nil hfirst second
  rw [exceptT_run_bind, Env.extendM_ofList_run env hfirst, Env.extendM_ofList_run env happend]
  change Results _ ((Env.frame world.frames (Table.ofList first) env).extendM
    (Table.ofList second) |>.run { world with frames := world.frames + 1 }) _
  rw [Env.extendM_ofList_run _ hsecond]
  exact ⟨.value (.splitLeft _ _ trivial hvalues (.frame 0 _ hwhole hrefl)), hworlds.sink,
    hworlds.written, hworlds.machine⟩

/-! ## 3. Two applications and one -/

namespace Closure

variable {closure : Closure} {xs ys : List Expr}

theorem values_zip (hvalues : ∀ value ∈ xs ++ ys, value.isNormal = true)
    (params params' : List String) :
    ∀ entry ∈ params.zip xs ++ params'.zip ys, entry.2.isNormal = true := by
  intro entry hentry
  rcases List.mem_append.1 hentry with hmem | hmem
  · exact hvalues _ (List.mem_append_left ys (List.of_mem_zip hmem).2)
  · exact hvalues _ (List.mem_append_right xs (List.of_mem_zip hmem).2)

/-- **Arguments that are kept in two portions** are kept as at once. -/
theorem applyPartly_append (hopen : xs.length ≤ closure.params.length)
    (hvalues : ∀ value ∈ xs ++ ys, value.isNormal = true) :
    InStep (fun rest rest' => (Expr.closure rest).Alike regrouping (.closure rest'))
      (closure.applyPartly xs >>= fun rest => rest.applyPartly ys)
      (closure.applyPartly (xs ++ ys)) := by
  cases closure with
  | compound params env locals body =>
      have hlength : (params.take xs.length).length = xs.length := List.length_take_of_le hopen
      have hpairs : (params.take (xs ++ ys).length).zip (xs ++ ys) =
          (params.take xs.length).zip xs ++ ((params.drop xs.length).take ys.length).zip ys := by
        rw [List.length_append, List.take_add, List.zip_append hlength]
      have hframes := env.inStep_extendM_append
        (values_zip hvalues (params.take xs.length) ((params.drop xs.length).take ys.length))
      rw [← hpairs] at hframes
      simp only [applyPartly, bind_assoc, pure_bind]
      rw [← bind_assoc]
      refine .bind hframes fun inner inner' hinner => .pure ?_
      rw [List.drop_drop, ← List.length_append]
      exact .compound hinner (Expr.alikeEntries_refl regrouping_known locals)
        (Expr.alike_refl regrouping_known body)
  | native name params applied function =>
      simp only [applyPartly, pure_bind, List.drop_drop, List.append_assoc, List.length_append]
      exact .pure (.native (Expr.alikeAll_refl regrouping_known _))

/-- **A function that gets its last arguments later** does what it does when it gets all at once. -/
theorem applyFully_append {evaluate evaluate' : Evaluator}
    (hs : evaluate.InStep regrouping evaluate') (hopen : xs.length ≤ closure.params.length)
    (hvalues : ∀ value ∈ xs ++ ys, value.isNormal = true) :
    InStep (Expr.Alike regrouping)
      (closure.applyPartly xs >>= fun rest => rest.applyFully evaluate ys)
      (closure.applyFully evaluate' (xs ++ ys)) := by
  cases closure with
  | compound params env locals body =>
      have hlength : (params.take xs.length).length = xs.length := List.length_take_of_le hopen
      have hpairs : params.zip (xs ++ ys) =
          (params.take xs.length).zip xs ++ (params.drop xs.length).zip ys := by
        rw [← List.zip_append hlength, List.take_append_drop]
      have hframes := env.inStep_extendM_append
        (values_zip hvalues (params.take xs.length) (params.drop xs.length))
      rw [← hpairs] at hframes
      simp only [applyPartly, applyFully, bind_assoc, pure_bind]
      rw [← bind_assoc]
      refine .bind hframes fun bound bound' hbound => ?_
      have hlocals := Expr.alikeEntries_refl regrouping_known locals
      exact .bind (Env.inStep_extendM hbound hlocals) fun scope scope' hscope =>
        hs hscope (Expr.alike_refl regrouping_known body)
  | native name params applied function =>
      simp only [applyPartly, applyFully, pure_bind, List.append_assoc]
      exact Operation.inStep_call _ (Expr.alikeAll_refl regrouping_known _)

/-- What follows a partial application meets a function with the later parameters open. -/
theorem applyPartly_bind_congr (closure : Closure) (xs : List Expr) {α : Type}
    {f g : Closure → EvalM α}
    (h : ∀ rest : Closure, rest.params = closure.params.drop xs.length → f rest = g rest) :
    closure.applyPartly xs >>= f = closure.applyPartly xs >>= g := by
  cases closure with
  | compound params env locals body =>
      simp only [applyPartly, bind_assoc, pure_bind]
      exact bind_congr fun inner => h _ rfl
  | native name params applied function =>
      simp only [applyPartly, pure_bind]
      exact h _ rfl

/-- **An application after a partial one** is like one application. -/
theorem applyWith_append {evaluate evaluate' : Evaluator}
    (hs : evaluate.InStep regrouping evaluate')
    (hfit : xs.length + ys.length ≤ closure.params.length)
    (hvalues : ∀ value ∈ xs ++ ys, value.isNormal = true) :
    InStep (Expr.Alike regrouping)
      (closure.applyPartly xs >>= fun rest => rest.applyWith evaluate ys)
      (closure.applyWith evaluate' (xs ++ ys)) := by
  have hopen : xs.length ≤ closure.params.length := le_trans (Nat.le_add_right _ _) hfit
  have hlength : (xs ++ ys).length = xs.length + ys.length := List.length_append
  have hleft : ∀ rest : Closure, rest.params = closure.params.drop xs.length →
      rest.params.length = closure.params.length - xs.length := by
    intro rest hparams
    rw [hparams, List.length_drop]
  by_cases hall : xs.length + ys.length = closure.params.length
  · have hrest : ∀ rest : Closure, rest.params = closure.params.drop xs.length →
        rest.applyWith evaluate ys = rest.applyFully evaluate ys := by
      intro rest hparams
      have hcount := hleft rest hparams
      exact applyWith_eq_applyFully evaluate rest (by omega)
    rw [applyPartly_bind_congr closure xs hrest,
      applyWith_eq_applyFully _ _ (hall.symm.trans hlength.symm)]
    exact applyFully_append hs hopen hvalues
  · have hrest : ∀ rest : Closure, rest.params = closure.params.drop xs.length →
        rest.applyWith evaluate ys = rest.applyPartly ys >>= fun last => pure (.closure last) := by
      intro rest hparams
      have hcount := hleft rest hparams
      exact applyWith_eq_applyPartly evaluate rest (by omega)
    rw [applyPartly_bind_congr closure xs hrest, ← bind_assoc,
      applyWith_eq_applyPartly _ _ (by omega)]
    exact .bind (applyPartly_append hopen hvalues) fun last last' hlast => .pure hlast

/-- Without arguments a function with open parameters stays what it is. -/
theorem applyWith_nil_run (hopen : 0 < closure.params.length) (evaluate : Evaluator)
    (world : World) :
    (closure.applyWith evaluate []).run world = (.ok (.closure closure), world) := by
  have hnil : ([] : List Expr).length < closure.params.length := hopen
  rw [applyWith_eq_applyPartly _ _ hnil]
  cases closure with
  | compound params env locals body => rfl
  | native name params applied function =>
      simp only [applyPartly, pure_bind, List.append_nil, List.length_nil, List.drop_zero]
      rfl

end Closure

/-! ## 4. Identity -/

theorem Env.same_self (env : Env) : env.same env = true := by
  cases env with
  | root => rfl
  | frame number bindings parent => exact beq_self_eq_true number

mutual

theorem Expr.same_self : ∀ expr : Expr, expr.same expr = true
  | .lit value => by simp [Expr.same]
  | .record type fields => by simp [Expr.same, Expr.sameEntries_self fields]
  | .var name => by simp [Expr.same]
  | .call operator operands => by
      simp [Expr.same, Expr.same_self operator, Expr.sameAll_self operands]
  | .function params locals body => by
      simp [Expr.same, Expr.sameEntries_self locals, Expr.same_self body]
  | .scope locals body => by simp [Expr.same, Expr.sameEntries_self locals, Expr.same_self body]
  | .closure value => by simp [Expr.same, Closure.same_self value]

/-- Every function is the same as itself. -/
theorem Closure.same_self : ∀ closure : Closure, closure.same closure = true
  | .compound params env locals body => by
      simp [Closure.same, Env.same_self, Expr.sameEntries_self locals, Expr.same_self body]
  | .native name params applied function => by simp [Closure.same, Expr.sameAll_self applied]

theorem Expr.sameAll_self : ∀ exprs : List Expr, Expr.sameAll exprs exprs = true
  | [] => by simp [Expr.sameAll]
  | expr :: rest => by simp [Expr.sameAll, Expr.same_self expr, Expr.sameAll_self rest]

theorem Expr.sameEntries_self :
    ∀ entries : List (String × Expr), Expr.sameEntries entries entries = true
  | [] => by simp [Expr.sameEntries]
  | (name, expr) :: rest => by
      simp [Expr.sameEntries, Expr.same_self expr, Expr.sameEntries_self rest]

end

/-! ## 5. Portions -/

/-- **Arguments may come in portions.** A function that is applied to some of its arguments and then
to more of them, with any limit and any number of levels left, fails with the same error or gives a
like value as a function that gets the two portions at once, and writes the same. Two such values are
equal if there is no closure inside; otherwise they differ in how captured arguments are grouped into
frames, and all later applications to alike arguments keep it so. A portion without arguments gives
the function back. -/
theorem applyInTurn_append (closure : Closure) (xs ys : List Expr)
    (hopen : xs.length < closure.params.length)
    (hfit : xs.length + ys.length ≤ closure.params.length)
    (hvalues : ∀ value ∈ xs ++ ys, value.isNormal = true) (limit levels : Nat)
    {further further' : List Application}
    (hfurther : List.Forall₂ Application.Alike further further') :
    InStep (fun value value' =>
        value.Alike regrouping value' ∧ (value.hasClosure = false → value = value'))
      ((Expr.closure closure).applyInTurn (⟨limit, levels, xs⟩ :: ⟨limit, levels, ys⟩ :: further))
      ((Expr.closure closure).applyInTurn (⟨limit, levels, xs ++ ys⟩ :: further')) ∧
    ∀ world, ∃ rest, (closure.applyWith (eval limit levels) []).run world =
      (.ok (.closure rest), world) ∧ rest.same closure = true := by
  constructor
  · have htwo := Closure.applyWith_append (eval_inStep regrouping_sound limit levels) hfit hvalues
    have hturn : (Expr.closure closure).applyInTurn
          (⟨limit, levels, xs⟩ :: ⟨limit, levels, ys⟩ :: further) =
        (closure.applyPartly xs >>= fun rest => rest.applyWith (eval limit levels) ys) >>=
          fun value => value.applyInTurn further := by
      simp only [Expr.applyInTurn, Expr.applyTo, Closure.applyWith_eq_applyPartly _ _ hopen, bind_assoc,
        pure_bind]
    rw [hturn]
    have halike := htwo.bind fun value value' h => Expr.inStep_applyInTurn hfurther h
    intro world world' hworlds
    exact (halike world world' hworlds).mono fun value value' h =>
      ⟨h, fun hfree => h.eq_of_hasClosure hfree⟩
  · intro world
    have hpositive : 0 < closure.params.length := Nat.zero_lt_of_lt hopen
    exact ⟨closure, Closure.applyWith_nil_run hpositive _ world, closure.same_self⟩

/-- A function with a definition nested in it that mentions two of its parameters. -/
def blendSource : String :=
  "blend:Integer a:Integer b:Integer c:Integer = plus scaled c
    scaled:Integer = multiply a b"

/-- The function that `blend` stands for in the environment of a program. -/
def blend? (program : Program) : Option Closure :=
  match ((Expr.var "blend").evaluate 4 (Program.baseEnv
    (Library.definitions libraryOrigin .console) program.definitions)).run
      (World.initial .accepting Program.baseFrames) with
  | (.ok (.closure closure), _) => some closure
  | _ => none

/-- The integer that a run gives. -/
def integer? (result : Except EvalError Expr × World) : Option Int64 :=
  match result.1 with
  | .ok (.lit (.int value)) => some value
  | _ => none

set_option maxRecDepth 4000 in
theorem blend_applyInTurn :
    ∃ program closure, compile programOrigin blendSource = .ok program ∧
      blend? program = some closure ∧
      integer? (((Expr.closure closure).applyInTurn [⟨9, 9, [.lit (.int 2), .lit (.int 3)]⟩,
        ⟨9, 9, [.lit (.int 4)]⟩]).run (World.initial .accepting Program.baseFrames)) = some 10 ∧
      InStep (fun value value' =>
          value.Alike regrouping value' ∧ (value.hasClosure = false → value = value'))
        ((Expr.closure closure).applyInTurn [⟨9, 9, [.lit (.int 2)]⟩, ⟨9, 9, [.lit (.int 3)]⟩,
          ⟨9, 9, [.lit (.int 4)]⟩])
        ((Expr.closure closure).applyInTurn [⟨9, 9, [.lit (.int 2), .lit (.int 3)]⟩,
          ⟨9, 9, [.lit (.int 4)]⟩]) := by
  have hsource : ∃ source, blendSource = String.ofList source ∧
      compiles programOrigin source (fun program => (blend? program).any fun closure =>
        closure.params.length = 3 ∧
        integer? (((Expr.closure closure).applyInTurn [⟨9, 9, [.lit (.int 2), .lit (.int 3)]⟩,
          ⟨9, 9, [.lit (.int 4)]⟩]).run (World.initial .accepting Program.baseFrames)) =
            some 10) := ⟨_, rfl, by decide +kernel⟩
  obtain ⟨source, htext, hsource⟩ := hsource
  obtain ⟨program, hcompile, hp⟩ := exists_of_compiles htext hsource
  obtain ⟨closure, hclosure, hp⟩ := (Option.any_eq_true _ _).1 hp
  obtain ⟨hparams, hvalue⟩ := of_decide_eq_true hp
  have hlast : Application.Alike ⟨9, 9, [.lit (.int 4)]⟩ ⟨9, 9, [.lit (.int 4)]⟩ :=
    ⟨rfl, rfl, .cons (.lit _) .nil⟩
  have hportions := applyInTurn_append closure [.lit (.int 2)] [.lit (.int 3)]
    (by rw [hparams]; decide) (by rw [hparams]; decide) (by decide) 9 9 (.cons hlast .nil)
  exact ⟨program, closure, hcompile, hclosure, hvalue, hportions.1⟩

end Offside
