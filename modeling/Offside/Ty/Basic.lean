import Offside.Text.Dump

/-!
# Types

A type is a name, a function type, or the content of a declared struct or union. The first two are
what definitions are declared with; the last two are what a declaration gives its name.

* `Ty.text` -- a type as the language writes it;
* `Ty.dump` -- a type as a tree;
* equality of types is decidable (`Ty.beq_iff`).
-/

namespace Offside

/-- Types of the language. -/
inductive Ty
  /-- `Name`: a primitive type, or a declared struct or union -/
  | named (name : String)
  /-- `(T, … -> R)` -/
  | func (params : List Ty) (result : Ty)
  /-- `struct f:T …` -/
  | struct (fields : List (String × Ty))
  /-- `union T | …` -/
  | union (options : List Ty)

namespace Ty

/-! ## 1. The primitive types -/

/-- The type of integers. -/
def integer : Ty := named "Integer"

/-- The type of strings. -/
def string : Ty := named "String"

/-- The type of truth values. -/
def truth : Ty := named "Boolean"

/-- The type of `none`. -/
def nothing : Ty := named "None"

instance : Inhabited Ty := ⟨nothing⟩

/-! ## 2. Equality -/

mutual

/-- Whether two types are the same tree. -/
def beq : Ty → Ty → Bool
  | named a, named b => a == b
  | func ps r, func qs s => beqList ps qs && beq r s
  | struct fs, struct gs => beqFields fs gs
  | union os, union us => beqList os us
  | _, _ => false

/-- Whether two lists of types are the same. -/
def beqList : List Ty → List Ty → Bool
  | [], [] => true
  | a :: as, b :: bs => beq a b && beqList as bs
  | _, _ => false

/-- Whether two lists of fields are the same. -/
def beqFields : List (String × Ty) → List (String × Ty) → Bool
  | [], [] => true
  | (f, a) :: as, (g, b) :: bs => f == g && beq a b && beqFields as bs
  | _, _ => false

end

mutual

theorem beq_iff : ∀ a b : Ty, beq a b = true ↔ a = b
  | named a, b => by cases b <;> simp [beq]
  | func ps r, b => by
    cases b <;> simp [beq, beqList_iff ps, beq_iff r]
  | struct fs, b => by cases b <;> simp [beq, beqFields_iff fs]
  | union os, b => by cases b <;> simp [beq, beqList_iff os]

theorem beqList_iff : ∀ as bs : List Ty, beqList as bs = true ↔ as = bs
  | [], bs => by cases bs <;> simp [beqList]
  | a :: as, bs => by
    cases bs with
    | nil => simp [beqList]
    | cons b bs => simp [beqList, beq_iff a, beqList_iff as]

theorem beqFields_iff : ∀ fs gs : List (String × Ty), beqFields fs gs = true ↔ fs = gs
  | [], gs => by cases gs <;> simp [beqFields]
  | (f, a) :: fs, gs => by
    cases gs with
    | nil => simp [beqFields]
    | cons g gs =>
      obtain ⟨g, b⟩ := g
      simp [beqFields, beq_iff a, beqFields_iff fs]

end

instance : DecidableEq Ty := fun a b =>
  decidable_of_iff (beq a b = true) (beq_iff a b)

/-! ## 3. Text and dump -/

mutual

/-- The type as the language writes it. -/
def text : Ty → String
  | named name => name
  | func params result =>
    "(" ++ String.intercalate ", " (texts params) ++ " -> " ++ text result ++ ")"
  | struct fields => "struct" ++ fieldsText fields
  | union options => "union " ++ String.intercalate " | " (texts options)

/-- The texts of several types. -/
def texts : List Ty → List String
  | [] => []
  | ty :: rest => text ty :: texts rest

/-- Each field after a blank, with its type after a colon. -/
def fieldsText : List (String × Ty) → String
  | [] => ""
  | (field, ty) :: rest => " " ++ field ++ ":" ++ text ty ++ fieldsText rest

end

mutual

/-- The type as a tree. -/
def dump : Ty → Text.Dump
  | named name => .variant "Primitive" (.text name)
  | func params result =>
    .record "Function" [("params", .sequence (dumps params)), ("return_type", dump result)]
  | struct fields => .record "Struct" [("fields", .sequence (fieldDumps fields))]
  | union options => .record "Sum" [("options", .sequence (dumps options))]

/-- The trees of several types. -/
def dumps : List Ty → List Text.Dump
  | [] => []
  | ty :: rest => dump ty :: dumps rest

/-- Fields as pairs of name and type. -/
def fieldDumps : List (String × Ty) → List Text.Dump
  | [] => []
  | (field, ty) :: rest => .pair (.text field) (dump ty) :: fieldDumps rest

end

end Ty

end Offside
