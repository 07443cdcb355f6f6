import Offside.Text.Dump
import Offside.Text.Decimal

/-!
# Tokens

The words of the language. A token in a text is a `Lexeme`: the token together with the part of
the text that it was read from. Positions count bytes of the UTF-8 form of the text.
-/

namespace Offside

/-- A part of a text, from byte `start` up to but not including byte `stop`. -/
structure Span where
  start : Nat
  stop : Nat
  deriving DecidableEq

/-- The words of the language. Operators such as `+` and `==` are names. -/
inductive Token
  | bool (value : Bool)
  | int (value : Int64)
  | string (value : String)
  /-- the literal `none` -/
  | nothing
  | name (text : String)
  | structWord
  | unionWord
  | lparen
  | rparen
  | comma
  | colon
  | colonEqual
  | arrow
  | assign
  | semicolon
  | scopeOpen
  | scopeClose
  | bar
  deriving DecidableEq

/-- A token and where it stands. -/
structure Lexeme where
  token : Token
  span : Span
  deriving DecidableEq

namespace Token

/-- Whether the token ends a sequence of atoms. -/
def endsExpression : Token → Bool
  | semicolon | rparen | scopeOpen | scopeClose => true
  | _ => false

/-- The truth values as the language writes them. -/
def boolText (value : Bool) : String :=
  if value then "true" else "false"

/-- How messages name the token. -/
def describe : Token → String
  | bool value => "boolean `" ++ boolText value ++ "`"
  | int value => "integer `" ++ Text.Decimal.ofInt value.toInt ++ "`"
  | string value => "string " ++ Text.quoted value
  | nothing => "`none`"
  | name text => "name `" ++ text ++ "`"
  | structWord => "`struct`"
  | unionWord => "`union`"
  | lparen => "`(`"
  | rparen => "`)`"
  | comma => "`,`"
  | colon => "`:`"
  | colonEqual => "`:=`"
  | arrow => "`->`"
  | assign => "`=`"
  | semicolon => "end of statement"
  | scopeOpen => "start of a nested scope"
  | scopeClose => "end of a nested scope"
  | bar => "`|`"

/-- The kind of token, as dumps name it. -/
def kind : Token → String
  | bool _ => "Bool"
  | int _ => "Int"
  | string _ => "String"
  | nothing => "NoneLiteral"
  | name _ => "Name"
  | structWord => "KeywordStruct"
  | unionWord => "KeywordUnion"
  | lparen => "LParen"
  | rparen => "RParen"
  | comma => "Comma"
  | colon => "Colon"
  | colonEqual => "ColonEqual"
  | arrow => "Arrow"
  | assign => "Assign"
  | semicolon => "Semicolon"
  | scopeOpen => "ScopeOpen"
  | scopeClose => "ScopeClose"
  | bar => "Union"

/-- The token as a dump: its kind, with its content where it has one. -/
def dump (token : Token) : Text.Dump :=
  match token with
  | bool value => .variant token.kind (.atom (boolText value))
  | int value => .variant token.kind (.atom (Text.Decimal.ofInt value.toInt))
  | string value | name value => .variant token.kind (.text value)
  | _ => .atom token.kind

end Token

end Offside
