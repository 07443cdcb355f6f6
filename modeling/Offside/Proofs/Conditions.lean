import Mathlib.Logic.Relation
import Offside.Proofs.Characters
import Offside.Proofs.Labels
import Offside.Proofs.Soundness

/-!
# Conditions are truth values where `Boolean` stands apart

The checker wants the type `Boolean` itself for a condition. But a value of that type may have come
through a name that was declared with a union: a union is the same as each of its options, in both
directions, so that a `Boolean` may be defined as something that was defined as an integer
(`check_allows_integer_condition`).

What counts is which names are linked to `Boolean` by a chain of comparisons (`Aliases.Linked`). If
neither another primitive type nor a struct is among them, every condition is a truth value
(`interpret_condition`). `Aliases.Keeps` is a test for where such chains can lead.
-/

namespace Offside

/-! ## 1. Chains of comparisons -/

namespace Aliases

variable {aliases : Aliases}

/-- Two names are the first and the last of a chain in which the checker takes each for the same as
the next, or the next for the same as it. -/
def Linked (aliases : Aliases) : String → String → Prop :=
  Relation.EqvGen fun a b => aliases.sameName a b = true

/-- Each union stands on the side of its options, and these all on one side. -/
def Keeps (aliases : Aliases) (side : List String) : Prop :=
  ∀ entry ∈ aliases, entry.2 ≠ [] ∧ ∀ option ∈ entry.2, (option ∈ side ↔ entry.1 ∈ side)

instance (aliases : Aliases) (side : List String) : Decidable (aliases.Keeps side) :=
  inferInstanceAs (Decidable (∀ entry ∈ aliases, _ ∧ ∀ option ∈ entry.2, _))

theorem subset_iff {small large : NameSet} :
    NameSet.subset small large = true ↔ ∀ name ∈ small, name ∈ large := by
  simp [NameSet.subset]

/-- Names that are the same stand for a common name. -/
theorem exists_mem_expand {a b : String} (ha : aliases.expand a ≠ [])
    (hb : aliases.expand b ≠ []) (h : aliases.sameName a b = true) :
    ∃ name ∈ aliases.expand a, name ∈ aliases.expand b := by
  obtain ⟨first, hfirst⟩ := List.exists_mem_of_ne_nil _ ha
  obtain ⟨other, hother⟩ := List.exists_mem_of_ne_nil _ hb
  rw [sameName] at h
  split at h
  · exact ⟨first, hfirst, beq_iff_eq.1 h ▸ hfirst⟩
  · exact ⟨first, hfirst, subset_iff.1 h first hfirst⟩
  · exact ⟨other, subset_iff.1 h other hother, hother⟩
  · exact ⟨first, hfirst, beq_iff_eq.1 h ▸ hfirst⟩

/-- A name stands for names on its own side. -/
theorem Keeps.expand {side : List String} (hk : aliases.Keeps side) (a : String) :
    aliases.expand a ≠ [] ∧ ∀ name ∈ aliases.expand a, (name ∈ side ↔ a ∈ side) := by
  rw [Aliases.expand]
  cases hfind : Table.find? aliases a with
  | some options => exact hk (a, options) (Table.mem_of_find? hfind)
  | none =>
      refine ⟨List.cons_ne_nil _ _, fun name hname => ?_⟩
      rw [List.mem_singleton.1 hname]

/-- Chains do not change sides. -/
theorem Linked.mem_iff {side : List String} (hk : aliases.Keeps side) {a b : String}
    (h : aliases.Linked a b) : a ∈ side ↔ b ∈ side := by
  induction h with
  | refl _ => rfl
  | symm _ _ _ ih => exact ih.symm
  | trans _ _ _ _ _ ih ih' => exact ih.trans ih'
  | rel a b hab =>
      obtain ⟨name, hleft, hright⟩ := exists_mem_expand (hk.expand a).1 (hk.expand b).1 hab
      exact ((hk.expand a).2 name hleft).symm.trans ((hk.expand b).2 name hright)

end Aliases

/-! ## 2. What is linked to `Boolean` -/

open Classical in
/-- Types are told apart by their trees, and in these by what is linked to `Boolean`. -/
noncomputable def Discipline.truth (aliases : Aliases) : Discipline aliases :=
  .ofLabels aliases (fun name => if aliases.Linked "Boolean" name then "Boolean" else "") (by
    intro a b hab
    have hlink : aliases.Linked a b := .rel _ _ hab
    have hiff : aliases.Linked "Boolean" a ↔ aliases.Linked "Boolean" b :=
      ⟨fun h => .trans _ _ _ h hlink, fun h => .trans _ _ _ h (.symm _ _ hlink)⟩
    simp only [hiff])

theorem Discipline.linked_of_truth {aliases : Aliases} {name : String}
    (h : (Discipline.truth aliases).Alike (.named name) .truth) : aliases.Linked "Boolean" name := by
  by_contra hnot
  have hself : aliases.Linked "Boolean" "Boolean" := .refl _
  have hlabel := Ty.named.inj h
  simp only [if_neg hnot, if_pos hself] at hlabel
  exact absurd hlabel (by decide)

/-- Neither another primitive type nor a struct is linked to `Boolean`. -/
def Program.TruthApart (program : Program) : Prop :=
  ∀ name, program.aliases.Linked "Boolean" name →
    name ∉ ["Integer", "String", "None"] ∧ Ty.isStruct program.types name = false

namespace Program.TruthApart

variable {program : Program}

/-- The test: a side with `Boolean` on it, and with no other primitive type and no struct. -/
theorem of_keeps {side : List String} (hk : program.aliases.Keeps side) (hmem : "Boolean" ∈ side)
    (hside : ∀ name ∈ side, name ∉ ["Integer", "String", "None"] ∧
      Ty.isStruct program.types name = false) : program.TruthApart :=
  fun name hlink => hside name ((hlink.mem_iff hk).1 hmem)

/-- What belongs to `Boolean` is a truth value. -/
theorem admits (h : program.TruthApart) {value : Expr}
    (hfits : Fits (.truth program.aliases) program.types value .truth) :
    Expectation.condition.admits value = true := by
  cases hfits with
  | @lit literal _ alike =>
      cases literal with
      | bool _ => rfl
      | int _ => exact absurd (by decide) (h _ (Discipline.linked_of_truth alike)).1
      | str _ => exact absurd (by decide) (h _ (Discipline.linked_of_truth alike)).1
      | nothing => exact absurd (by decide) (h _ (Discipline.linked_of_truth alike)).1
  | record declared _ _ alike =>
      have hfree := (h _ (Discipline.linked_of_truth alike)).2
      rw [Ty.isStruct_of_find? declared] at hfree
      cases hfree
  | compound _ _ _ alike | native _ _ alike =>
      exact (Discipline.not_named_func _ (Discipline.symm _ alike)).elim

end Program.TruthApart

/-! ## 3. Runs -/

/-- All errors but that of a condition. -/
noncomputable def Policy.truth (program : Program) (h : program.TruthApart) :
    Policy (.truth program.aliases) program.types where
  Permitted error := ∀ callee found, error ≠ .wrongKind callee .condition found
  depth _ _ _ := EvalError.noConfusion
  output _ _ _ := EvalError.noConfusion
  overflow _ _ _ _ := EvalError.noConfusion
  zeroDivisor _ _ _ _ := EvalError.noConfusion
  kind _ _ _ _ hfits hnot _ _ e := by
    cases e
    rw [h.admits hfits] at hnot
    cases hnot

/-- **Where `Boolean` stands apart, the condition of every conditional is a truth value**: no run of
a checked program ends in the error of a condition. -/
theorem interpret_condition {origin : Nat} {source : String} {program : Program}
    (hcompile : compile origin source = .ok program) (hcheck : program.check = .ok ())
    (hapart : program.TruthApart) (libOrigin : Nat) (outlet : Outlet) (limit : Nat)
    (world : World) (callee found : String) :
    ((program.interpret (Library.definitions libOrigin outlet) limit).run world).1 ≠
      .error (.wrongKind callee .condition found) := by
  intro hrun
  rcases Program.interpret_error (Policy.truth program hapart) (wellFormed_of_compile hcompile)
    hcheck libOrigin outlet hrun with h | h | ⟨reason, _, h⟩ | hpermitted
  · cases h
  · cases h
  · cases h
  · exact hpermitted callee found rfl

/-- Unions with `Boolean` and without it, and a truth value that comes through one of them. -/
def flagSource : String := "Flag := union Boolean | Toggle
Word := union String | Integer
Entry := struct flag:Flag word:Word
choose:Word entry:Entry = ifElse flag (Entry.word entry) 2
    flag:Boolean = Entry.flag entry
main:Word = choose (Entry (less 1 2) \"five\")"

set_option maxRecDepth 4000 in
theorem interpret_flagSource_condition :
    ∃ program, compile 1 flagSource = .ok program ∧ program.check = .ok () ∧
      program.TruthApart ∧ program.fault? 30 (World.initial .accepting 2) = none ∧
      ∀ callee found,
        ((program.interpret (Library.definitions libraryOrigin .console) 30).run
          (World.initial .accepting 2)).1 ≠ .error (.wrongKind callee .condition found) := by
  have hsource : ∃ source, flagSource = String.ofList source ∧
      compiles 1 source (fun program => program.check = .ok () ∧
        program.aliases.Keeps ["Boolean", "Flag", "Toggle"] ∧
        (∀ name ∈ ["Boolean", "Flag", "Toggle"], name ∉ ["Integer", "String", "None"] ∧
          Ty.isStruct program.types name = false) ∧
        program.fault? 30 (World.initial .accepting 2) = none) := ⟨_, rfl, by decide +kernel⟩
  obtain ⟨source, htext, hsource⟩ := hsource
  obtain ⟨program, hcompile, hp⟩ := exists_of_compiles htext hsource
  obtain ⟨hcheck, hkeeps, hside, hvalue⟩ := of_decide_eq_true hp
  have hapart : program.TruthApart := .of_keeps hkeeps (List.mem_cons_self ..) hside
  exact ⟨program, hcompile, hcheck, hapart, hvalue,
    interpret_condition hcompile hcheck hapart libraryOrigin .console 30 _⟩

/-- An integer that becomes a `Boolean` through a union. -/
def switchSource : String := "Switch := union Boolean | Integer
switch:Switch = 5
flag:Boolean = switch
main:Integer = ifElse flag 1 2"

/-- Without the side condition the error of a condition does come up. -/
theorem check_allows_integer_condition :
    ∃ program, compile 1 switchSource = .ok program ∧ program.check = .ok () ∧
      ((program.interpret (Library.definitions libraryOrigin .console) 30).run
        (World.initial .accepting 2)).1 = .error (.wrongKind ifElse .condition "Integer 5") := by
  have hsource : ∃ source, switchSource = String.ofList source ∧
      compiles 1 source (fun program => program.check = .ok () ∧
        program.fault? 30 (World.initial .accepting 2) =
          some (.wrongKind ifElse .condition "Integer 5")) := ⟨_, rfl, by decide +kernel⟩
  obtain ⟨source, htext, hsource⟩ := hsource
  obtain ⟨program, hcompile, hp⟩ := exists_of_compiles htext hsource
  obtain ⟨hcheck, hfault⟩ := of_decide_eq_true hp
  exact ⟨program, hcompile, hcheck, Program.run_of_fault? hfault⟩

end Offside
