import Offside.Text.Quoted

/-!
# Dumps

A dump shows a data structure completely: named parts, sequences, and tables. It is a tree
(`Dump`) with two renderings: `Dump.flat` on one line and `Dump.indented` with one item to a line.
-/

namespace Offside.Text

/-- How a group of items is bracketed. -/
inductive Bracket
  /-- `Name { part: …, part: … }` -/
  | parts (name : String)
  /-- `Name(…, …)`; a pair has the empty name -/
  | positional (name : String)
  /-- `[…, …]` -/
  | sequence
  /-- `{…, …}` -/
  | collection

/-- The tree of a dump. Each item of a group has a label, empty where the items have no names; a
group that leaves something out ends with two dots. -/
inductive Dump
  | atom (text : String)
  | group (bracket : Bracket) (items : List (String × Dump)) (elided : Bool)

namespace Bracket

/-- The text before the items. -/
def opening : Bracket → String
  | parts name => name ++ " \x7b"
  | positional name => name ++ "("
  | sequence => "["
  | collection => "\x7b"

/-- The text after the items. -/
def closing : Bracket → String
  | parts _ => "\x7d"
  | positional _ => ")"
  | sequence => "]"
  | collection => "\x7d"

/-- What stands between bracket and items on one line. -/
def padding : Bracket → String
  | parts _ => " "
  | _ => ""

end Bracket

namespace Dump

/-- A string, quoted. -/
def text (s : String) : Dump := atom (quoted s)

/-- A complete record with named parts. -/
def record (name : String) (items : List (String × Dump)) : Dump :=
  group (.parts name) (items.map fun item => (item.1 ++ ": ", item.2)) false

/-- A record that shows only some of its parts. -/
def elidedRecord (name : String) (items : List (String × Dump)) : Dump :=
  group (.parts name) (items.map fun item => (item.1 ++ ": ", item.2)) true

/-- A variant with one component. -/
def variant (name : String) (item : Dump) : Dump :=
  group (.positional name) [("", item)] false

/-- Two components without a name. -/
def pair (first second : Dump) : Dump :=
  group (.positional "") [("", first), ("", second)] false

/-- A sequence. -/
def sequence (items : List Dump) : Dump :=
  group .sequence (items.map fun item => ("", item)) false

/-- A set of names. -/
def names (items : List String) : Dump :=
  group .collection (items.map fun item => ("", text item)) false

/-- A table, with quoted names. -/
def table (items : List (String × Dump)) : Dump :=
  group .collection (items.map fun item => (quoted item.1 ++ ": ", item.2)) false

mutual

/-- The dump on one line. -/
def flat : Dump → String
  | atom text => text
  | group bracket items elided =>
    let inner := flatItems items
    let shown := if elided then inner ++ [".."] else inner
    if shown.isEmpty then bracket.opening ++ bracket.closing
    else bracket.opening ++ bracket.padding ++ String.intercalate ", " shown ++
      bracket.padding ++ bracket.closing

/-- The labelled items of a group, each on one line. -/
def flatItems : List (String × Dump) → List String
  | [] => []
  | (label, item) :: rest => (label ++ item.flat) :: flatItems rest

end

/-- The blanks before an item at a depth. -/
def margin (depth : Nat) : String :=
  String.ofList (List.replicate (4 * depth) ' ')

mutual

/-- The dump with one item to a line; `depth` is that of the line on which it starts. -/
def indentedAt (depth : Nat) : Dump → String
  | atom text => text
  | group bracket items elided =>
    if items.isEmpty && !elided then bracket.opening ++ bracket.closing
    else bracket.opening ++ "\n" ++ indentedItems (depth + 1) items ++
      (if elided then margin (depth + 1) ++ "..\n" else "") ++ margin depth ++ bracket.closing

/-- The labelled items of a group, each with its margin and a comma. -/
def indentedItems (depth : Nat) : List (String × Dump) → String
  | [] => ""
  | (label, item) :: rest =>
    margin depth ++ label ++ item.indentedAt depth ++ ",\n" ++ indentedItems depth rest

end

/-- The dump with one item to a line. -/
def indented (dump : Dump) : String := indentedAt 0 dump

end Dump

end Offside.Text
