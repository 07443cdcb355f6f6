import Offside.Text.Cut

/-!
# Qualified names

A name with dots may be a name by itself, such as that of an accessor. If it is not, the part
before its last dot names something that holds definitions, and the part after it names one of
them. `Qualified.resolve` states this rule once, for whatever names stand for.
-/

namespace Offside.Qualified

/-- The parts of a name before and after its last dot. -/
def cut? (name : String) : Option (String × String) :=
  (Text.cutLast '.' name.toList).map fun parts =>
    (String.ofList parts.1, String.ofList parts.2)

theorem length_of_cut? {name outer inner : String} (h : cut? name = some (outer, inner)) :
    outer.length < name.length := by
  simp only [cut?, Option.map_eq_some_iff, Prod.mk.injEq, Prod.exists] at h
  obtain ⟨before, after, hcut, rfl, rfl⟩ := h
  have htext := congrArg List.length (Text.eq_append_of_cutLast hcut)
  simp only [List.length_append, List.length_cons, String.length_toList] at htext
  rw [String.length_ofList]
  omega

/-- What `name` stands for: `direct` if that knows it, and else the `member` named by the part
after its last dot of what the part before stands for. -/
def resolve {α : Type} (direct : String → Option α) (member : α → String → Option α)
    (name : String) : Option α :=
  match direct name with
  | some found => some found
  | none =>
    match _h : cut? name with
    | none => none
    | some (outer, inner) =>
      match resolve direct member outer with
      | none => none
      | some container => member container inner
termination_by name.length
decreasing_by exact length_of_cut? _h

end Offside.Qualified
