import Offside.Proofs.Labels

/-!
# Laws of sameness up to unions

`Ty.same` compares the expansions of names by their sizes, and function types position by position.
It is no equivalence: a union is the same as each of its options, and these are not the same as each
other. What it does have are these laws, for every table of unions, also with unions that have no
options and with options that are unions themselves:

* `Ty.same_self`, `Ty.same_comm` -- reflexive and symmetric;
* `Ty.Respelled` -- a type with other names in some positions, each with the same expansion as the
  name before; `Ty.same_respelled` says that `Ty.same` does not tell it from the first one;
* `Ty.same_nil_iff` -- without unions it is equality.
-/

namespace Offside

/-! ## 1. Names -/

namespace Aliases

variable (aliases : Aliases)

theorem sameName_self (name : String) : aliases.sameName name name = true := by
  simp only [sameName]
  split
  · exact beq_self_eq_true _
  · exact List.all_eq_true.2 fun _ hmem => List.contains_iff_mem.2 hmem
  · exact List.all_eq_true.2 fun _ hmem => List.contains_iff_mem.2 hmem
  · exact beq_self_eq_true _

theorem sameName_comm (a b : String) : aliases.sameName a b = aliases.sameName b a := by
  have hbeq : (aliases.expand a == aliases.expand b) = (aliases.expand b == aliases.expand a) :=
    Bool.beq_comm
  by_cases ha : (aliases.expand a).length = 1
  · by_cases hb : (aliases.expand b).length = 1
    · -- neither name is a union
      simp only [sameName, ha, hb]
      exact hbeq
    · -- a name and a union: both orders ask whether the name is an option
      simp [sameName, ha]
  · by_cases hb : (aliases.expand b).length = 1
    · simp [sameName, hb]
    · -- two unions
      simp [sameName, ha, hb, hbeq]

variable {aliases}

/-- Nothing but the expansions of two names counts. -/
theorem sameName_congr {a a' : String} (h : aliases.expand a = aliases.expand a') (b : String) :
    aliases.sameName a b = aliases.sameName a' b := by
  simp only [sameName, h]

end Aliases

/-! ## 2. Types -/

namespace Ty

variable {aliases : Aliases}

mutual

theorem same_self (aliases : Aliases) : ∀ a : Ty, same aliases a a = true
  | named name => by rw [same, aliases.sameName_self]
  | func params result => by
      rw [same, sameAll_self aliases params, same_self aliases result, Bool.and_self]
  | struct _ | union _ => by simp [same]

theorem sameAll_self (aliases : Aliases) : ∀ as : List Ty, sameAll aliases as as = true
  | [] => rfl
  | a :: as => by rw [sameAll, same_self aliases a, sameAll_self aliases as, Bool.and_self]

end

mutual

theorem same_comm (aliases : Aliases) : ∀ a b : Ty, same aliases a b = same aliases b a
  | named a, named b => by rw [same, same, aliases.sameName_comm]
  | func params result, func params' result' => by
      rw [same, same, sameAll_comm aliases params params', same_comm aliases result result']
  | named _, func .. | named _, struct _ | named _, union _ | func .., named _
  | func .., struct _ | func .., union _ | struct _, _ | union _, _ => by
      simp only [same, eq_comm]

theorem sameAll_comm (aliases : Aliases) :
    ∀ as bs : List Ty, sameAll aliases as bs = sameAll aliases bs as
  | [], [] => rfl
  | a :: as, b :: bs => by
      rw [sameAll, sameAll, same_comm aliases a b, sameAll_comm aliases as bs]
  | [], _ :: _ | _ :: _, [] => rfl

end

/-- The same type with other names in some positions: where a name stands by itself, as a parameter
or as a result, at any depth, there may be another one with the same expansion. -/
inductive Respelled (aliases : Aliases) : Ty → Ty → Prop
  | named {a b : String} (expansion : aliases.expand a = aliases.expand b) :
      Respelled aliases (named a) (named b)
  | func {params params' : List Ty} {result result' : Ty}
      (each : List.Forall₂ (Respelled aliases) params params')
      (last : Respelled aliases result result') :
      Respelled aliases (func params result) (func params' result')
  | struct (fields : List (String × Ty)) : Respelled aliases (struct fields) (struct fields)
  | union (options : List Ty) : Respelled aliases (union options) (union options)

mutual

/-- **Names with the same expansion may be exchanged**, each where it stands. -/
theorem same_respelled : ∀ {a a' : Ty}, Respelled aliases a a' →
    ∀ b : Ty, same aliases a b = same aliases a' b
  | named _, _, .named expansion, b => by
      cases b with
      | named b => exact Aliases.sameName_congr expansion b
      | func _ _ | struct _ | union _ => simp [same]
  | func _ _, _, .func each last, b => by
      cases b with
      | func params result =>
          rw [same, same, sameAll_respelled each params, same_respelled last result]
      | named _ | struct _ | union _ => simp [same]
  | struct _, _, .struct _, _ | union _, _, .union _, _ => rfl

theorem sameAll_respelled : ∀ {as as' : List Ty}, List.Forall₂ (Respelled aliases) as as' →
    ∀ bs : List Ty, sameAll aliases as bs = sameAll aliases as' bs
  | [], _, .nil, _ => rfl
  | _ :: _, _, .cons _ _, [] => rfl
  | _ :: _, _, .cons head tail, b :: bs => by
      rw [sameAll, sameAll, same_respelled head b, sameAll_respelled tail bs]

end

/-- Without unions, types are the same if they are equal. -/
theorem same_nil_iff (a b : Ty) : same [] a b = true ↔ a = b := by
  constructor
  · intro h
    have hlabels : relabel id a = relabel id b :=
      relabel_eq_of_same (fun _ _ hs => Aliases.eq_of_sameName rfl hs) a b h
    rwa [relabel_id, relabel_id] at hlabels
  · rintro rfl
    exact same_self [] a

/-- **The laws of sameness up to unions**, for every table of unions and all types. It is reflexive
and symmetric; types that are the same become equal once all names in them are replaced by one; it
does not change when names are replaced by others with the same expansion, each in its position as a
parameter or result at any depth; and without unions it is equality. -/
theorem same_laws (aliases : Aliases) :
    (∀ a, same aliases a a = true) ∧
    (∀ a b, same aliases a b = same aliases b a) ∧
    (∀ a b, same aliases a b = true →
      ∀ name, a.relabel (fun _ => name) = b.relabel (fun _ => name)) ∧
    (∀ a a' b b', Respelled aliases a a' → Respelled aliases b b' →
      same aliases a b = same aliases a' b') ∧
    ∀ a b, same [] a b = true ↔ a = b := by
  refine ⟨same_self aliases, same_comm aliases, fun a b h name => ?_, ?_, same_nil_iff⟩
  · exact relabel_eq_of_same (fun _ _ _ => rfl) a b h
  · intro a a' b b' ha hb
    calc same aliases a b
      _ = same aliases a' b := same_respelled ha b
      _ = same aliases b a' := same_comm aliases a' b
      _ = same aliases b' a' := same_respelled hb a'
      _ = same aliases a' b' := same_comm aliases b' a'

/-- Two unions with the same options, one without options, and two of other unions. -/
def choices : Aliases :=
  [("Both", ["Boolean", "Integer"]), ("Either", ["Boolean", "Integer"]), ("Never", []),
    ("Only", ["Either"]), ("Wide", ["Either", "Never"])]

theorem same_laws_choices :
    let given := func [func [named "Both"] (named "Never")] (named "Wide")
    let respelled := func [func [named "Either"] (named "Never")] (named "Wide")
    let other := func [func [integer] (named "Never")] (named "Never")
    let option := func [func [integer] (named "Never")] (named "Only")
    Respelled choices given respelled ∧ given ≠ respelled ∧
      same choices given other = same choices respelled other ∧
      same choices respelled other = false ∧
      same choices given option = true ∧ same choices option given = true ∧
      given.relabel (fun _ => "T") = option.relabel (fun _ => "T") := by
  intro given respelled other option
  obtain ⟨_, hcomm, hrelabel, hrespelled, _⟩ := same_laws choices
  have hgiven : Respelled choices given respelled :=
    .func (.cons (.func (.cons (.named rfl) .nil) (.named rfl)) .nil) (.named rfl)
  have hother : Respelled choices other other :=
    .func (.cons (.func (.cons (.named rfl) .nil) (.named rfl)) .nil) (.named rfl)
  have hsame : same choices given option = true := by decide
  exact ⟨hgiven, by decide, hrespelled _ _ _ _ hgiven hother, by decide, hsame,
    hcomm given option ▸ hsame, hrelabel _ _ hsame "T"⟩

-- a union is the same as each of its options, and these are not the same as each other
example : same choices integer (named "Both") = true ∧ same choices (named "Both") truth = true ∧
    same choices integer truth = false := by
  decide

end Ty

end Offside
