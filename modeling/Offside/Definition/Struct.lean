import Offside.Definition.Basic

/-!
# The definitions of a struct

A struct declaration defines native functions: a constructor with the name of the struct, and for
each field an accessor whose name is that of the struct and that of the field with a dot between
them.
-/

namespace Offside

/-- The name of an accessor. -/
def accessorName (type field : String) : String :=
  type ++ "." ++ field

namespace Definition

/-- The constructor of a struct. -/
def constructor (origin : Nat) (type : String) (fields : List (String × Ty)) : Definition :=
  native (.func (fields.map (·.2)) (.named type)) (fields.map (·.1))
    ⟨origin, .construct type (fields.map (·.1))⟩

/-- The accessor of a field. -/
def accessor (origin : Nat) (type field : String) (ty : Ty) : Definition :=
  native (.func [.named type] ty) ["value"] ⟨origin, .access type field⟩

/-- The constructor of a struct and its accessors, in the order of the fields. -/
def ofStruct (origin : Nat) (type : String) (fields : List (String × Ty)) :
    List (String × Definition) :=
  (type, constructor origin type fields) ::
    fields.map fun field => (accessorName type field.1, accessor origin type field.1 field.2)

end Definition

end Offside
