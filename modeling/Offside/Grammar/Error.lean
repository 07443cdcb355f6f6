import Offside.Expr.Printer
import Offside.Text.Painted

/-!
# Why tokens do not parse

A `ParseError` is a cause (`Fault`) and the part of the text that shows it. The wording of every
cause stands here: a code for its class, a message, a label for the marked part, and for some
causes a note on the form that was expected.
-/

namespace Offside

/-- What was wanted where the input ended. -/
inductive Wanted
  | token (token : Token)
  | name
  | type
  | expression
  | declaration
  deriving DecidableEq

/-- Where a particular token was wanted. -/
inductive Place
  | afterDefinedName
  | afterParameter
  | inDeclaration
  | inStruct
  | afterField
  | inUnion
  deriving DecidableEq

/-- Why tokens do not parse. -/
inductive Fault
  /-- the input ends where something is wanted -/
  | endOfInput (wanted : Wanted)
  /-- a nested scope is never closed -/
  | openScope
  /-- the input ends after the name of a definition -/
  | bareName
  /-- the input ends before the body of a definition -/
  | missingBody (owner : String)
  /-- the input ends in the parameters of a function type -/
  | openFunctionType
  /-- the input ends after the result of a function type -/
  | openResult
  /-- the input ends inside parentheses -/
  | openParen
  | unexpected (wanted found : Token) (place : Place)
  | notAName (found : Token) (place : Place)
  /-- a struct or union inside a nested scope -/
  | nestedDeclaration (name : String)
  /-- a name that neither `:` nor `:=` follows -/
  | notADeclaration (name : String) (found : Token)
  | notADefinition (found : Token)
  | notAParameter (owner : String) (found : Token)
  /-- a `)` without a `(` -/
  | strayParen
  | missingArrow (found : Token)
  | unclosedFunctionType (found : Token)
  | notAType (found : Token)
  /-- a literal with operands -/
  | appliedLiteral (head : Literal) (operands : Nat)
  | unclosedParen (found : Token)
  | notAnExpression (found : Token)
  /-- something after a complete expression -/
  | trailing (found : Token)
  | unknownDeclaration (found : Token)
  /-- a struct without fields -/
  | emptyStruct (name : String)
  | notAnOption (found : Token)
  /-- a name that its scope already has -/
  | duplicate (name : String)
  deriving DecidableEq

/-- A cause and where it shows. -/
structure ParseError where
  span : Span
  fault : Fault
  deriving DecidableEq

namespace Wanted

/-- The words for what was wanted. -/
def text : Wanted → String
  | token wanted => wanted.describe
  | name => "a name"
  | type => "a type"
  | expression => "an expression"
  | declaration => "`struct` or `union`"

end Wanted

namespace Place

/-- The words for the place. -/
def text : Place → String
  | afterDefinedName => "after the defined name"
  | afterParameter => "after a parameter name"
  | inDeclaration => "in a type declaration"
  | inStruct => "in a struct declaration"
  | afterField => "after a field name"
  | inUnion => "in a union declaration"

end Place

/-! ## 1. Notes -/

namespace Note

open Text (Colour)

/-- The colour of types in notes. -/
def typeColour : Colour := .rgb 205 150 100

/-- The colour of parameters in notes. -/
def paramColour : Colour := .rgb 150 200 100

/-- The form of a definition. -/
def definition : String :=
  "The syntax for a definition is:\n            name" ++ Colour.yellow.bold ":" ++
    typeColour.bold "ReturnType" ++ " " ++ paramColour.bold "param" ++ Colour.yellow.bold ":" ++
    typeColour.bold "Type" ++ " ... = expression\n        "

/-- The form of a type. -/
def type : String :=
  "A type is either a name like " ++ typeColour.bold "Integer" ++ " or a function type like " ++
    typeColour.bold "(Integer, Boolean -> String)" ++ "\n        "

/-- The form of an application. -/
def application : String :=
  "the syntax for applying a function is '" ++ Colour.blue.bold "function" ++
    " argument1 argument2 ...', use " ++ Colour.yellow.bold "( )" ++ " to group"

/-- The forms of struct and union declarations. -/
def declaration : String :=
  "The syntax for type declarations is:\n            Name " ++ Colour.yellow.bold ":=" ++ " " ++
    Colour.yellow.bold "struct" ++ " field" ++ Colour.yellow.bold ":" ++
    "Type ...\n            Name " ++ Colour.yellow.bold ":=" ++ " " ++
    Colour.yellow.bold "union" ++ " TypeA " ++ Colour.yellow.bold "|" ++
    " TypeB ...\n        "

end Note

/-! ## 2. Wording -/

namespace Fault

open Text (Colour)

/-- The class of the cause. -/
def code : Fault → String
  | endOfInput _ | openScope | bareName | missingBody _ | openFunctionType | openResult
  | openParen => "EOF"
  | duplicate _ => "Duplicate"
  | _ => "Syntax Error"

/-- The cause in one line. -/
def message : Fault → String
  | endOfInput _ | openScope | bareName | missingBody _ | openFunctionType | openResult
  | openParen => "reached end of file while parsing"
  | unexpected _ _ place | notAName _ place => "unexpected token " ++ place.text
  | nestedDeclaration _ => "struct and union declarations are only allowed at the top level"
  | notADeclaration .. => "expected a declaration"
  | notADefinition _ => "unexpected token while parsing definitions"
  | notAParameter owner _ => "unexpected token in the definition of `" ++ owner ++ "`"
  | strayParen => "unmatched closing parenthesis"
  | missingArrow _ => "missing `->` in function type"
  | unclosedFunctionType _ => "unclosed function type"
  | notAType _ => "expected a type"
  | appliedLiteral .. => "a literal cannot be applied"
  | unclosedParen _ => "unclosed parenthesis"
  | notAnExpression _ => "unexpected token while parsing expressions"
  | trailing _ => "unexpected token after the expression"
  | unknownDeclaration _ => "unknown type declaration"
  | emptyStruct _ => "empty struct"
  | notAnOption _ => "unexpected token in a union declaration"
  | duplicate name => "`" ++ name ++ "` is defined more than once in the same scope"

/-- The words beside the marked part of the text. -/
def label : Fault → String
  | endOfInput wanted => "expected " ++ wanted.text
  | openScope => "this nested scope is never closed"
  | bareName => "expected `:` or `:=` after this name"
  | missingBody owner => "expected `=` in the definition of `" ++ owner ++ "`"
  | openFunctionType => "this function type is never finished"
  | openResult => "unclosed function type. expected `)`"
  | openParen => "unclosed parenthesis. expected `)` but reached end of file"
  | unexpected wanted found _ =>
    "expected " ++ Colour.yellow.bold wanted.describe ++ ", found " ++
      Colour.red.bold found.describe
  | notAName found _ => "expected a name, found " ++ Colour.red.bold found.describe
  | nestedDeclaration name => "move " ++ Colour.blue.bold name ++ " out of the nested scope"
  | notADeclaration name found =>
    "expected `:` or `:=` after " ++ Colour.blue.bold name ++ ", found " ++ found.describe
  | notADefinition found => "expected a definition, found " ++ found.describe
  | notAParameter _ found => "expected a parameter or `=`, found " ++ found.describe
  | strayParen => "this `)` has no matching `(`"
  | missingArrow found => "expected `,` or `->`, found " ++ found.describe
  | unclosedFunctionType found => "expected `)`, found " ++ found.describe
  | notAType found => "found " ++ found.describe ++ " where a type was expected"
  | appliedLiteral head operands =>
    Colour.red.bold head.text ++ " is followed by " ++ Text.Decimal.ofNat operands ++ " operand(s)"
  | unclosedParen found => "expected `)`, found " ++ found.describe
  | notAnExpression found => "expected an expression, found " ++ found.describe
  | trailing found => "found " ++ found.describe ++ " here"
  | unknownDeclaration found =>
    "expected " ++ Colour.yellow.bold "struct" ++ " or " ++ Colour.yellow.bold "union" ++
      ", found " ++ found.describe
  | emptyStruct name => Colour.blue.bold name ++ " declares no fields"
  | notAnOption found => "expected `|` or end of line, found " ++ found.describe
  | duplicate name => Colour.blue.bold name ++ " is already defined here"

/-- The form that was expected. -/
def note? : Fault → Option String
  | bareName | missingBody _ | notADeclaration .. | notADefinition _ | notAParameter .. =>
    some Note.definition
  | openFunctionType | openResult | missingArrow _ | unclosedFunctionType _ | notAType _ =>
    some Note.type
  | appliedLiteral .. | notAnExpression _ => some Note.application
  | unknownDeclaration _ | emptyStruct _ | notAnOption _ => some Note.declaration
  | _ => none

end Fault

end Offside
