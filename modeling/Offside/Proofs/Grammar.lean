import Offside.Proofs.Outline
import Offside.Proofs.Printed

/-!
# The grammar

Which tokens are a type, an expression, a definition or a program, and which one. Positions play no
part, and no rule says how a reader goes about it.

    type         =  Name  |  "(" [ type { "," type } ] "->" type ")"
    expression   =  atom  |  operator atom { atom }
    atom         =  literal  |  Name  |  "(" expression ")"
    header       =  ":" type { Name ":" type } "=" expression
    declaration  =  ":=" "struct" Name ":" type { Name ":" type }
                 |  ":=" "union" Name { "|" Name }
    definition   =  Name header [ { ";" } "{" { ";" | definition } "}" ]
    program      =  { ";" | definition | Name declaration }

An operator is an atom that is no literal. A definition without a scope of its own and a declaration
stand before a terminator or at the end of their scope (`Item.Ended`).
-/

namespace Offside

/-! ## 1. Types -/

mutual

/-- The tokens of a type. -/
inductive Ty.Derives : List Token → Ty → Prop
  | named (name : String) : Ty.Derives [.name name] (.named name)
  | func {inside back : List Token} {params : List Ty} {result : Ty}
      (hparams : Ty.DerivesAll inside params) (hresult : Ty.Derives back result) :
      Ty.Derives (.lparen :: (inside ++ .arrow :: (back ++ [.rparen]))) (.func params result)

/-- The tokens of types with commas between them. -/
inductive Ty.DerivesAll : List Token → List Ty → Prop
  | nil : Ty.DerivesAll [] []
  | one {tokens : List Token} {ty : Ty} (h : Ty.Derives tokens ty) : Ty.DerivesAll tokens [ty]
  | cons {tokens more : List Token} {ty next : Ty} {tys : List Ty} (h : Ty.Derives tokens ty)
      (rest : Ty.DerivesAll more (next :: tys)) :
      Ty.DerivesAll (tokens ++ .comma :: more) (ty :: next :: tys)

end

/-- The tokens of names with their types. -/
inductive Ty.DerivesFields : List Token → List (String × Ty) → Prop
  | nil : Ty.DerivesFields [] []
  | cons {tokens more : List Token} {ty : Ty} {fields : List (String × Ty)} (name : String)
      (h : Ty.Derives tokens ty) (rest : Ty.DerivesFields more fields) :
      Ty.DerivesFields (.name name :: .colon :: (tokens ++ more)) ((name, ty) :: fields)

/-! ## 2. Expressions -/

mutual

/-- The tokens of an expression. -/
inductive Expr.Derives : List Token → Expr → Prop
  | atom {tokens : List Token} {expr : Expr} (h : Expr.DerivesAtom tokens expr) :
      Expr.Derives tokens expr
  | call {front back : List Token} {operator : Expr} {operands : List Expr}
      (hoperator : Expr.DerivesAtom front operator) (hliteral : ∀ value, operator ≠ .lit value)
      (hoperands : Expr.DerivesAtoms back operands) (hsome : operands ≠ []) :
      Expr.Derives (front ++ back) (.call operator operands)

/-- The tokens of an atom. -/
inductive Expr.DerivesAtom : List Token → Expr → Prop
  | literal (value : Literal) : Expr.DerivesAtom [value.token] (.lit value)
  | name (name : String) : Expr.DerivesAtom [.name name] (.var name)
  | paren {tokens : List Token} {expr : Expr} (h : Expr.Derives tokens expr) :
      Expr.DerivesAtom (.lparen :: (tokens ++ [.rparen])) expr

/-- The tokens of atoms one after the other. -/
inductive Expr.DerivesAtoms : List Token → List Expr → Prop
  | nil : Expr.DerivesAtoms [] []
  | cons {front back : List Token} {atom : Expr} {atoms : List Expr}
      (h : Expr.DerivesAtom front atom) (rest : Expr.DerivesAtoms back atoms) :
      Expr.DerivesAtoms (front ++ back) (atom :: atoms)

end

/-! ## 3. Definitions and declarations -/

/-- The tokens of the head of a definition, after its name. -/
inductive Header.Derives : List Token → Header → Prop
  | mk {front middle back : List Token} {ty : Ty} {params : List (String × Ty)} {body : Expr}
      (hty : ty.Derives front) (hparams : Ty.DerivesFields middle params)
      (hnodup : (params.map (·.1)).Nodup) (hbody : Expr.Derives back body) :
      Header.Derives (.colon :: (front ++ (middle ++ .assign :: back))) ⟨ty, params, body⟩

/-- The tokens of a declaration, after the declared name. An option counts once. -/
inductive Declaration.Derives : List Token → Declaration → Prop
  | struct {tokens : List Token} {fields : List (String × Ty)}
      (hfields : Ty.DerivesFields tokens fields) (hsome : fields ≠ [])
      (hnodup : (fields.map (·.1)).Nodup) :
      Declaration.Derives (.colonEqual :: .structWord :: tokens) (.struct fields)
  | union {options : List String} (hsome : options ≠ []) :
      Declaration.Derives
        (.colonEqual :: .unionWord :: (options.map Token.name).intersperse .bar)
        (.union options.eraseDups)

/-- What follows a head that has to be ended: a terminator, or nothing in this scope. -/
def Item.Ended (rest : List Token) : Prop :=
  ∀ token ∈ rest.head?, token = .semicolon

/-- The tokens of the items of a scope, with terminators. Types are declared in the outermost scope
only. The definitions in a scope have distinct names, and none of the names of the parameters
around them. -/
inductive Item.Derives : Bool → List Token → List Item → Prop
  | nil {outermost : Bool} : Item.Derives outermost [] []
  | terminator {outermost : Bool} {tokens : List Token} {items : List Item}
      (rest : Item.Derives outermost tokens items) :
      Item.Derives outermost (.semicolon :: tokens) items
  | plain {outermost : Bool} {name : String} {header : Header} {head tokens : List Token}
      {items : List Item} (hheader : header.Derives head) (hended : Item.Ended tokens)
      (rest : Item.Derives outermost tokens items) :
      Item.Derives outermost (.name name :: (head ++ tokens)) (.define (.mk name header []) :: items)
  | block {outermost : Bool} {name : String} {header : Header} {nested : List Outline}
      {head inside tokens : List Token} {items : List Item} (hheader : header.Derives head)
      (terminators : Nat) (hnested : Item.Derives false inside (nested.map .define))
      (hnodup : (nested.map Outline.name).Nodup)
      (hfree : ∀ inner ∈ nested.map Outline.name, inner ∉ header.names)
      (rest : Item.Derives outermost tokens items) :
      Item.Derives outermost
        (.name name :: (head ++ (List.replicate terminators .semicolon ++
          .scopeOpen :: (inside ++ .scopeClose :: tokens))))
        (.define (.mk name header nested) :: items)
  | declare {name : String} {declaration : Declaration} {head tokens : List Token}
      {items : List Item} (hdeclaration : declaration.Derives head) (hended : Item.Ended tokens)
      (rest : Item.Derives true tokens items) :
      Item.Derives true (.name name :: (head ++ tokens)) (.declare name declaration :: items)

/-- The tokens of a program. -/
def Program.Derives (origin : Nat) (tokens : List Token) (program : Program) : Prop :=
  ∃ items, Item.Derives true tokens items ∧ Item.Distinct items ∧
    program = Program.ofItems origin items

end Offside
