import Offside.Token.Basic

/-!
# Reading tokens

A text is read character by character. The reader holds at most one pending word; a character
either extends it, or ends it and starts the next one, so every token is as long as it can be.
Blanks and comments separate tokens and leave no trace.

* `Pending` -- the word that is being read;
* `Pending.start`, `Pending.extend`, `Pending.finish` -- how a word starts, goes on and ends;
* `Lexer.step`, `Lexer.scan` -- the reader on one character and on a text;
* `Token.read` -- the tokens of a text, or the first part of it that is no token.
-/

namespace Offside

/-- A part of a text that is no token. -/
structure LexError where
  slice : String
  span : Span
  deriving DecidableEq

/-- The error as a message. -/
def LexError.message (error : LexError) : String :=
  "unrecognized input `" ++ error.slice ++ "` at byte " ++ Text.Decimal.ofNat error.span.start

/-! ## 1. Character classes -/

namespace Token

/-- Characters that separate tokens. -/
def isGap (c : Char) : Bool :=
  c == ' ' || c == '\n' || c == '\r' || c == '\t' || c == '\x0c'

/-- Characters that start a name. -/
def startsName (c : Char) : Bool :=
  c.isAlpha || c == '_'

/-- Characters that go on with a name; a dot is one, so a qualified name is one token. -/
def continuesName (c : Char) : Bool :=
  c.isAlphanum || c == '_' || c == '.'

/-- The token of a word: a keyword, or else a name. -/
def ofWord (word : String) : Token :=
  if word = "true" then bool true
  else if word = "false" then bool false
  else if word = "none" then nothing
  else if word = "struct" then structWord
  else if word = "union" then unionWord
  else name word

/-- Tokens of one character that no character extends. -/
def ofMark (c : Char) : Option Token :=
  match c with
  | '(' => some lparen
  | ')' => some rparen
  | ',' => some comma
  | ';' => some semicolon
  | '\x7b' => some scopeOpen
  | '\x7d' => some scopeClose
  | '|' => some bar
  | '+' => some (name "+")
  | '*' => some (name "*")
  | '/' => some (name "/")
  | '%' => some (name "%")
  | '<' => some (name "<")
  | '>' => some (name ">")
  | _ => none

end Token

/-! ## 2. Pending words -/

/-- The word that is being read. Characters read so far are kept last first. -/
inductive Pending
  | word (read : List Char)
  | number (read : List Char)
  /-- a string literal that is still open -/
  | quote (read : List Char)
  /-- a string literal that is still open, after a backslash -/
  | escape (read : List Char)
  /-- a string literal that has been closed -/
  | literal (read : List Char)
  | comment
  | colon
  | equals
  | minus
  /-- a token that nothing extends -/
  | complete (token : Token)
  deriving DecidableEq

namespace Pending

/-- The word that a character starts. -/
def start (c : Char) : Option Pending :=
  if Token.startsName c then some (word [c])
  else if c.isDigit then some (number [c])
  else if c = '\"' then some (quote [])
  else if c = '#' then some comment
  else if c = ':' then some colon
  else if c = '=' then some equals
  else if c = '-' then some minus
  else (Token.ofMark c).map complete

/-- The word that goes on with a character, if it can. -/
def extend (pending : Pending) (c : Char) : Option Pending :=
  match pending with
  | word read => if Token.continuesName c then some (word (c :: read)) else none
  | number read => if c.isDigit then some (number (c :: read)) else none
  | quote read =>
    if c = '\"' then some (literal read)
    else if c = '\\' then some (escape read)
    else some (quote (c :: read))
  | escape read => if c = '\n' then none else some (quote (c :: '\\' :: read))
  | literal _ => none
  | comment => if c = '\n' then none else some comment
  | colon => if c = '=' then some (complete .colonEqual) else none
  | equals => if c = '=' then some (complete (.name "==")) else none
  | minus => if c = '>' then some (complete .arrow) else none
  | complete _ => none

/-- The largest integer that a literal can denote. -/
def maxInteger : Nat := 9223372036854775807

/-- The error of an open string literal: it holds the quote and all complete items after it. -/
def openLiteral (read : List Char) (start stop : Nat) : LexError :=
  ⟨String.ofList ('\"' :: read.reverse), ⟨start, stop⟩⟩

/-- The lexeme of a word that stands from `start` to `stop` and does not go on; none for a
comment. -/
def finish (pending : Pending) (start stop : Nat) : Except LexError (Option Lexeme) :=
  let lexeme (token : Token) : Except LexError (Option Lexeme) :=
    .ok (some ⟨token, ⟨start, stop⟩⟩)
  match pending with
  | word read => lexeme (Token.ofWord (String.ofList read.reverse))
  | number read =>
    let digits := read.reverse
    let value := Text.Decimal.value digits
    if value ≤ maxInteger then lexeme (.int (Int64.ofNat value))
    else .error ⟨String.ofList digits, ⟨start, stop⟩⟩
  | quote read => .error (openLiteral read start stop)
  | escape read => .error (openLiteral read start (stop - 1))
  | literal read => lexeme (.string (String.ofList (Text.unescape read.reverse)))
  | comment => .ok none
  | colon => lexeme .colon
  | equals => lexeme .assign
  | minus => lexeme (.name "-")
  | complete token => lexeme token

end Pending

/-! ## 3. The reader -/

/-- A reader: the position of the next character, and the pending word with its start. -/
structure Lexer where
  position : Nat
  pending : Option (Nat × Pending)
  deriving DecidableEq

namespace Lexer

/-- The reader after a character that extends no word. -/
def start (position : Nat) (c : Char) : Except LexError Lexer :=
  let next := position + c.utf8Size
  if Token.isGap c then .ok ⟨next, none⟩
  else
    match Pending.start c with
    | some pending => .ok ⟨next, some (position, pending)⟩
    | none => .error ⟨String.ofList [c], ⟨position, next⟩⟩

/-- The lexeme that the pending word makes if nothing extends it. -/
def finish (lexer : Lexer) : Except LexError (Option Lexeme) :=
  match lexer.pending with
  | none => .ok none
  | some (first, pending) => pending.finish first lexer.position

/-- The reader after a character that extends its pending word. -/
def extend? (lexer : Lexer) (c : Char) : Option Lexer :=
  match lexer.pending with
  | none => none
  | some (first, pending) =>
    (pending.extend c).map fun more => ⟨lexer.position + c.utf8Size, some (first, more)⟩

/-- Reads a character: the lexeme that it ends, if any, and the reader after it. -/
def step (lexer : Lexer) (c : Char) : Except LexError (Option Lexeme × Lexer) :=
  match lexer.extend? c with
  | some next => .ok (none, next)
  | none => do
    let ended ← lexer.finish
    let next ← start lexer.position c
    pure (ended, next)

/-- Reads a text to its end. -/
def scan (lexer : Lexer) : List Char → Except LexError (List Lexeme)
  | [] => lexer.finish.map Option.toList
  | c :: rest =>
    match lexer.step c with
    | .error error => .error error
    | .ok (none, next) => scan next rest
    | .ok (some lexeme, next) =>
      match scan next rest with
      | .error error => .error error
      | .ok lexemes => .ok (lexeme :: lexemes)

end Lexer

/-- The tokens of a text. -/
def Token.read (source : String) : Except LexError (List Lexeme) :=
  Lexer.scan ⟨0, none⟩ source.toList

end Offside
