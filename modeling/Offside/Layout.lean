import Offside.Text.Blank
import Offside.Text.Cut
import Offside.Text.Decimal

/-!
# Layout

A program shows the nesting of its definitions by indentation, four spaces to a level. `Layout.mark`
makes it explicit: it removes comments, ends every line that holds code with `;`, and puts a brace
for every level that a line opens or closes in front of the line. Lines stay lines, so a position
in the marked text is on the line of the source that it came from.

* `Layout.readRow` -- what a line holds: nothing, or code at a number of leading spaces;
* `Layout.write` -- the marked text of a list of rows;
* `LayoutError` -- a tab anywhere in a line, or an indentation that is no multiple of four.
-/

namespace Offside

/-- Why a text has no layout. Lines are counted from one. -/
inductive LayoutError
  | tab (line : Nat)
  | indentation (line spaces : Nat)
  deriving DecidableEq

namespace Layout

/-- The number of spaces to a level. -/
def indentWidth : Nat := 4

end Layout

/-- The error as a message. -/
def LayoutError.message : LayoutError → String
  | tab line => "line " ++ Text.Decimal.ofNat line ++ ": tabs are not allowed"
  | indentation line spaces =>
    "line " ++ Text.Decimal.ofNat line ++ ": indentation of " ++ Text.Decimal.ofNat spaces ++
      " spaces is not a multiple of " ++ Text.Decimal.ofNat Layout.indentWidth

namespace Layout

/-! ## 1. Reading lines -/

/-- Where a reader of a line stands with respect to string literals. -/
inductive Quoting
  /-- outside every literal -/
  | outside
  /-- inside a literal -/
  | inside
  /-- inside a literal, after a backslash -/
  | escaped
  deriving DecidableEq

/-- The part of a line before its comment: a `#` inside a string literal starts none. -/
def withoutComment : Quoting → List Char → List Char
  | _, [] => []
  | .escaped, c :: rest => c :: withoutComment .inside rest
  | .inside, c :: rest =>
    if c = '\\' then c :: withoutComment .escaped rest
    else if c = '\"' then c :: withoutComment .outside rest
    else c :: withoutComment .inside rest
  | .outside, c :: rest =>
    if c = '#' then []
    else if c = '\"' then c :: withoutComment .inside rest
    else c :: withoutComment .outside rest

/-- A line without the carriage return that may end it. -/
def withoutReturn (line : List Char) : List Char :=
  if line.getLast? = some '\r' then line.dropLast else line

/-- The lines of a text. -/
def lines (source : String) : List (List Char) :=
  (Text.pieces '\n' source.toList).map withoutReturn

/-- What a line holds once its comment is gone. -/
inductive Row
  /-- no code -/
  | blank
  /-- code after a number of leading spaces -/
  | code (spaces : Nat) (content : List Char)
  deriving DecidableEq

/-- Reads line number `number`. -/
def readRow (number : Nat) (line : List Char) : Except LayoutError Row :=
  if line.contains '\t' then .error (.tab number)
  else
    let code := withoutComment .outside line
    let content := code.dropWhile (· == ' ')
    if content.all Text.isBlank then .ok .blank
    else
      let spaces := code.length - content.length
      if spaces % indentWidth ≠ 0 then .error (.indentation number spaces)
      else .ok (.code spaces (Text.trimEnd content))

/-- Reads lines from line number `number` on, up to the first that has an error. -/
def readRows (number : Nat) : List (List Char) → Except LayoutError (List Row)
  | [] => .ok []
  | line :: rest => do
    let row ← readRow number line
    let rows ← readRows (number + 1) rest
    pure (row :: rows)

/-! ## 2. Writing the marked text -/

namespace Row

/-- The level after a row; a blank row leaves it as it was. -/
def level (before : Nat) : Row → Nat
  | blank => before
  | code spaces _ => spaces / indentWidth

end Row

/-- One opening brace for each level gained, or one closing brace for each level lost. -/
def braces (before after : Nat) : List Char :=
  List.replicate (after - before) '\x7b' ++ List.replicate (before - after) '\x7d'

/-- A row with the braces that lead to its level, and its terminator. -/
def writeRow (before : Nat) : Row → List Char
  | .blank => []
  | .code spaces content => braces before (spaces / indentWidth) ++ content ++ [';']

/-- Rows as lines, the first of them after level `before`; the levels that are open at the end are
closed on the last line. -/
def write (before : Nat) : List Row → List Char
  | [] => braces before 0
  | [row] => writeRow before row ++ braces (row.level before) 0
  | row :: rest => writeRow before row ++ '\n' :: write (row.level before) rest

/-- The text of a program with its layout marked by braces and terminators. -/
def mark (source : String) : Except LayoutError String := do
  let rows ← readRows 1 (lines source)
  pure (String.ofList (write 0 rows))

end Layout

end Offside
