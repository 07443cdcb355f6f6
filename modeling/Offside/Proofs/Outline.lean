import Offside.Proofs.Steps

/-!
# Outlines of programs

What a program says, item by item and in the order of a text, is its outline:

* `Outline` -- a definition, with the definitions nested in it;
* `Item` -- a definition or a declaration of the outermost scope;
* `Item.Distinct` -- no name is given twice;
* `Program.ofItems` -- the program that has these items.

A reader adds what an item defines and declares to what it has (`Nesting.extend`), if none of it is
there already (`Nesting.Admits`).
-/

namespace Offside

/-! ## 1. Definitions -/

/-- A definition with those nested in it, in the order of a text. -/
inductive Outline
  | mk (name : String) (header : Header) (nested : List Outline)

namespace Outline

/-- The defined name. -/
def name : Outline → String
  | mk name _ _ => name

mutual

/-- What the name is defined as: a constant without parameters, a function with some. -/
def definition : Outline → Definition
  | mk _ ⟨ty, [], body⟩ nested => .constant ty body (Table.ofList (entries nested))
  | mk _ ⟨ty, param :: params, body⟩ nested =>
    .function (.func (param.2 :: params.map (·.2)) ty) (param.1 :: params.map (·.1)) body
      (Table.ofList (entries nested))

/-- The names with what they are defined as, in the order of the text. -/
def entries : List Outline → List (String × Definition)
  | [] => []
  | outline :: rest => (outline.name, definition outline) :: entries rest

end

theorem definition_mk (name : String) (header : Header) (nested : List Outline) :
    (mk name header nested).definition = header.close (Table.ofList (entries nested)) := by
  obtain ⟨ty, params, body⟩ := header
  cases params with
  | nil => rw [definition, Header.close, List.isEmpty_nil, if_pos rfl]
  | cons param params =>
      rw [definition, Header.close, List.isEmpty_cons, if_neg Bool.false_ne_true]
      rfl

end Outline

/-! ## 2. Items -/

/-- An item of the outermost scope. -/
inductive Item
  | define (outline : Outline)
  | declare (name : String) (declaration : Declaration)

namespace Item

/-- The definitions that come with an item; a struct comes with its constructor and accessors. -/
def definitions (origin : Nat) : Item → List (String × Definition)
  | define outline => [(outline.name, outline.definition)]
  | declare name (.struct fields) => Definition.ofStruct origin name fields
  | declare _ (.union _) => []

theorem definitions_declare (origin : Nat) (name : String) (declaration : Declaration) :
    (declare name declaration).definitions origin = declaration.definitions origin name := by
  cases declaration <;> rfl

/-- The names that an item defines. -/
def names : Item → List String
  | define outline => [outline.name]
  | declare name (.struct fields) => name :: fields.map fun field => accessorName name field.1
  | declare _ (.union _) => []

theorem map_fst_definitions (origin : Nat) (item : Item) :
    (item.definitions origin).map (·.1) = item.names := by
  cases item with
  | define outline => rfl
  | declare name declaration =>
      cases declaration with
      | union options => rfl
      | struct fields =>
          simp only [definitions, Definition.ofStruct, names, List.map_cons, List.map_map]
          rfl

/-- The type that an item declares. -/
def types : Item → List (String × Ty)
  | define _ => []
  | declare name declaration => [(name, declaration.ty)]

/-- The options of the union that an item declares. -/
def aliases : Item → List (String × NameSet)
  | declare name (.union options) => [(name, NameSet.ofList options)]
  | declare _ (.struct _) | define _ => []

/-- No name is defined twice, generated ones included, and no type is declared twice. -/
def Distinct (items : List Item) : Prop :=
  (items.flatMap names).Nodup ∧ ((items.flatMap types).map (·.1)).Nodup

instance (items : List Item) : Decidable (Distinct items) :=
  inferInstanceAs (Decidable (_ ∧ _))

end Item

/-- The program with the items. -/
def Program.ofItems (origin : Nat) (items : List Item) : Program where
  definitions := Table.ofList (items.flatMap (Item.definitions origin))
  aliases := Table.ofList (items.flatMap Item.aliases)
  types := Table.ofList (items.flatMap Item.types)

/-! ## 3. Items as additions -/

namespace Declared

/-- What has been declared, with more items. -/
def extend (declared : Declared) (items : List Item) : Declared where
  types := Table.merge declared.types (items.flatMap Item.types)
  aliases := Table.merge declared.aliases (items.flatMap Item.aliases)

theorem add_eq_extend (declared : Declared) (name : String) (declaration : Declaration) :
    declared.add name declaration = declared.extend [.declare name declaration] := by
  cases declaration <;> rfl

end Declared

namespace Nesting

variable {nesting : Nesting} {item : Item} {items : List Item}

/-- What has been read, with more items in the scope. -/
def extend (nesting : Nesting) (origin : Nat) (items : List Item) : Nesting :=
  { nesting with
    declared := nesting.declared.extend items
    scope := nesting.scope.extend (items.flatMap (Item.definitions origin)) }

theorem extend_cons (nesting : Nesting) (origin : Nat) (item : Item) (items : List Item) :
    nesting.extend origin (item :: items) = (nesting.extend origin [item]).extend origin items := by
  simp only [extend, Declared.extend, OpenScope.extend, List.flatMap_cons, List.flatMap_nil,
    List.append_nil, Table.merge, List.foldl_append]

/-- A definition declares nothing. -/
theorem extend_define (nesting : Nesting) (origin : Nat) (outline : Outline) :
    nesting.extend origin [.define outline] =
      { nesting with scope := nesting.scope.extend [(outline.name, outline.definition)] } := rfl

/-- Nor do definitions one after the other. -/
theorem extend_map_define (nesting : Nesting) (origin : Nat) (nested : List Outline) :
    nesting.extend origin (nested.map .define) =
      { nesting with scope := nesting.scope.extend (Outline.entries nested) } := by
  induction nested generalizing nesting with
  | nil => rfl
  | cons outline rest ih =>
      rw [List.map_cons, extend_cons, ih, extend_define, Outline.entries]
      rfl

theorem extend_declare (nesting : Nesting) (origin : Nat) (name : String)
    (declaration : Declaration) :
    nesting.extend origin [.declare name declaration] =
      { nesting with
        declared := nesting.declared.add name declaration
        scope := nesting.scope.extend (declaration.definitions origin name) } := by
  rw [extend, ← Declared.add_eq_extend, List.flatMap_cons, List.flatMap_nil, List.append_nil,
    Item.definitions_declare]

/-- Nothing that the items define or declare has been read already, and nothing of it stands
twice. -/
structure Admits (nesting : Nesting) (items : List Item) : Prop where
  scope : nesting.scope.Admits (items.flatMap Item.names)
  types : Table.Admits nesting.declared.types ((items.flatMap Item.types).map (·.1))

theorem admits_nil (nesting : Nesting) : nesting.Admits [] :=
  ⟨nesting.scope.admits_nil, Table.admits_nil _⟩

/-- Items are new one after the other exactly if they are new together. -/
theorem admits_cons_iff (origin : Nat) :
    nesting.Admits (item :: items) ↔
      nesting.Admits [item] ∧ (nesting.extend origin [item]).Admits items := by
  have hscope : nesting.scope.Admits ((item :: items).flatMap Item.names) ↔
      nesting.scope.Admits ([item].flatMap Item.names) ∧
        (nesting.extend origin [item]).scope.Admits (items.flatMap Item.names) := by
    simp only [extend, List.flatMap_cons, List.flatMap_nil, List.append_nil,
      ← Item.map_fst_definitions origin item]
    exact OpenScope.admits_append_iff _
  have htypes : Table.Admits nesting.declared.types (((item :: items).flatMap Item.types).map (·.1)) ↔
      Table.Admits nesting.declared.types (([item].flatMap Item.types).map (·.1)) ∧
        Table.Admits (nesting.extend origin [item]).declared.types
          ((items.flatMap Item.types).map (·.1)) := by
    simp only [extend, Declared.extend, List.flatMap_cons, List.flatMap_nil, List.append_nil,
      List.map_append]
    exact Table.admits_append_iff _
  constructor
  · rintro ⟨h₁, h₂⟩
    exact ⟨⟨(hscope.1 h₁).1, (htypes.1 h₂).1⟩, (hscope.1 h₁).2, (htypes.1 h₂).2⟩
  · rintro ⟨⟨h₁, h₂⟩, h₃, h₄⟩
    exact ⟨hscope.2 ⟨h₁, h₃⟩, htypes.2 ⟨h₂, h₄⟩⟩

/-- A definition is new exactly if its name is. -/
theorem admits_define_iff {outline : Outline} :
    nesting.Admits [.define outline] ↔ nesting.scope.Admits [outline.name] :=
  ⟨fun h => h.scope, fun h => ⟨h, Table.admits_nil _⟩⟩

theorem admits_map_define_iff {nested : List Outline} :
    nesting.Admits (nested.map .define) ↔ nesting.scope.Admits (nested.map Outline.name) := by
  have hnames : (nested.map Item.define).flatMap Item.names = nested.map Outline.name := by
    rw [List.flatMap_map]
    exact List.map_eq_flatMap.symm
  have htypes : (nested.map Item.define).flatMap Item.types = [] := by
    rw [List.flatMap_map]
    exact List.flatMap_eq_nil_iff.2 fun _ _ => rfl
  constructor
  · exact fun h => hnames ▸ h.scope
  · intro h
    refine ⟨hnames.symm ▸ h, ?_⟩
    rw [htypes]
    exact Table.admits_nil _

/-- A declaration is new exactly if the definitions that come with it and the declared name are. -/
theorem admits_declare_iff (origin : Nat) {name : String} {declaration : Declaration} :
    nesting.Admits [.declare name declaration] ↔
      nesting.scope.Admits ((declaration.definitions origin name).map (·.1)) ∧
        Table.find? nesting.declared.types name = none := by
  rw [← Item.definitions_declare, Item.map_fst_definitions]
  have hnames : [Item.declare name declaration].flatMap Item.names =
      (Item.declare name declaration).names := List.append_nil _
  constructor
  · rintro ⟨hscope, htypes⟩
    exact ⟨hnames ▸ hscope, Table.admits_singleton_iff.1 htypes⟩
  · rintro ⟨hscope, htypes⟩
    exact ⟨hnames ▸ hscope, Table.admits_singleton_iff.2 htypes⟩

end Nesting

end Offside
