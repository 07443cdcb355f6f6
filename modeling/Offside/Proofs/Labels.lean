import Offside.Proofs.Fits

/-!
# Disciplines from labels

A label for each name that is the same for names that the checker takes for the same makes a
discipline: types are told apart by their trees, with labels in the place of names
(`Discipline.ofLabels`). The coarsest one has one label for all names. Without unions a name can be
its own label, and types are then told apart as trees (`Discipline.exact`).
-/

namespace Offside

namespace Ty

mutual

/-- The type with labels in the place of names. -/
def relabel (label : String → String) : Ty → Ty
  | named name => named (label name)
  | func params result => func (relabelAll label params) (relabel label result)
  | struct fields => struct (relabelFields label fields)
  | union options => union (relabelAll label options)

/-- Several types with labels in the place of names. -/
def relabelAll (label : String → String) : List Ty → List Ty
  | [] => []
  | ty :: rest => relabel label ty :: relabelAll label rest

/-- Fields with labels in the place of the names in their types. -/
def relabelFields (label : String → String) : List (String × Ty) → List (String × Ty)
  | [] => []
  | (field, ty) :: rest => (field, relabel label ty) :: relabelFields label rest

end

mutual

/-- What the checker takes for the same cannot be told apart by labels. -/
theorem relabel_eq_of_same {aliases : Aliases} {label : String → String}
    (hlabel : ∀ a b, aliases.sameName a b = true → label a = label b) :
    ∀ a b : Ty, same aliases a b = true → relabel label a = relabel label b
  | named a, named b, h => congrArg named (hlabel a b h)
  | func params result, func params' result', h => by
      rw [same, Bool.and_eq_true] at h
      rw [relabel, relabel, relabelAll_eq_of_sameAll hlabel params params' h.1,
        relabel_eq_of_same hlabel result result' h.2]
  | named _, func .., h | named _, struct _, h | named _, union _, h | func .., named _, h
  | func .., struct _, h | func .., union _, h | struct _, b, h | union _, b, h => by
      simp only [same, decide_eq_true_eq] at h
      rw [h]

theorem relabelAll_eq_of_sameAll {aliases : Aliases} {label : String → String}
    (hlabel : ∀ a b, aliases.sameName a b = true → label a = label b) :
    ∀ as bs : List Ty, sameAll aliases as bs = true → relabelAll label as = relabelAll label bs
  | [], [], _ => rfl
  | a :: as, b :: bs, h => by
      rw [sameAll, Bool.and_eq_true] at h
      rw [relabelAll, relabelAll, relabel_eq_of_same hlabel a b h.1,
        relabelAll_eq_of_sameAll hlabel as bs h.2]
  | [], _ :: _, h | _ :: _, [], h => by
      simp [sameAll] at h

end

theorem forall₂_of_relabelAll_eq {label : String → String} : ∀ {as bs : List Ty},
    relabelAll label as = relabelAll label bs →
      List.Forall₂ (fun a b => relabel label a = relabel label b) as bs
  | [], [], _ => .nil
  | a :: as, b :: bs, h => by
      obtain ⟨hab, hrest⟩ := List.cons.inj h
      exact .cons hab (forall₂_of_relabelAll_eq hrest)

mutual

@[simp] theorem relabel_id : ∀ ty : Ty, relabel id ty = ty
  | named _ => rfl
  | func params result => by rw [relabel, relabelAll_id params, relabel_id result]
  | struct fields => by rw [relabel, relabelFields_id fields]
  | union options => by rw [relabel, relabelAll_id options]

@[simp] theorem relabelAll_id : ∀ tys : List Ty, relabelAll id tys = tys
  | [] => rfl
  | ty :: rest => by rw [relabelAll, relabel_id ty, relabelAll_id rest]

@[simp] theorem relabelFields_id : ∀ fields : List (String × Ty), relabelFields id fields = fields
  | [] => rfl
  | (field, ty) :: rest => by rw [relabelFields, relabel_id ty, relabelFields_id rest]

end

end Ty

namespace Discipline

/-- Types are told apart by their trees, and the names in them by their labels. -/
def ofLabels (aliases : Aliases) (label : String → String)
    (hlabel : ∀ a b, aliases.sameName a b = true → label a = label b) : Discipline aliases where
  Alike a b := a.relabel label = b.relabel label
  refl _ := rfl
  symm h := h.symm
  trans h h' := h.trans h'
  same h := Ty.relabel_eq_of_same hlabel _ _ h
  func {params result ty} h := by
    cases ty with
    | func params' result' =>
        obtain ⟨hparams, hresult⟩ := Ty.func.inj h
        exact ⟨params', result', rfl, Ty.forall₂_of_relabelAll_eq hparams, hresult⟩
    | named _ | struct _ | union _ => cases h

end Discipline

/-- Where there are no unions, only a name is the same as itself. -/
theorem Aliases.eq_of_sameName {aliases : Aliases} (h : aliases = []) {a b : String}
    (hs : aliases.sameName a b = true) : a = b := by
  subst h
  simpa [sameName, expand] using hs

/-- Types are told apart as trees, which is right where there are no unions. -/
def Discipline.exact (aliases : Aliases) (h : aliases = []) : Discipline aliases :=
  .ofLabels aliases id fun _ _ hs => Aliases.eq_of_sameName h hs

theorem Discipline.eq_of_exact {aliases : Aliases} {h : aliases = []} {a b : Ty}
    (hab : (Discipline.exact aliases h).Alike a b) : a = b := by
  have hid : a.relabel id = b.relabel id := hab
  rwa [Ty.relabel_id, Ty.relabel_id] at hid

end Offside
