import Offside.Text.Hidden

/-!
# Quoted texts

Two rules meet here. A source text writes a string between double quotes, with the escapes
`\n \t \r \" \\`; every other backslash stands for itself (`unescape`). Messages and dumps show a
string between double quotes, with those escapes, `\0`, and the code point of every hidden
character (`quoted`).
-/

namespace Offside.Text

/-- The content of a string literal: the five escapes are decoded, and any other backslash is kept
together with the character after it. -/
def unescape : List Char → List Char
  | [] => []
  | '\\' :: c :: rest =>
    match c with
    | 'n' => '\n' :: unescape rest
    | 't' => '\t' :: unescape rest
    | 'r' => '\r' :: unescape rest
    | '\"' => '\"' :: unescape rest
    | '\\' => '\\' :: unescape rest
    | other => '\\' :: other :: unescape rest
  | c :: rest => c :: unescape rest

/-- How a quoted text shows one character. -/
def shown (c : Char) : List Char :=
  if c = '\x00' then ['\\', '0']
  else if c = '\t' then ['\\', 't']
  else if c = '\r' then ['\\', 'r']
  else if c = '\n' then ['\\', 'n']
  else if c = '\"' then ['\\', '\"']
  else if c = '\\' then ['\\', '\\']
  else if isHidden c then
    '\\' :: 'u' :: '\x7b' :: (Nat.toDigits 16 c.toNat ++ ['\x7d'])
  else [c]

/-- A text between double quotes. -/
def quoted (text : String) : String :=
  String.ofList ('\"' :: (text.toList.flatMap shown ++ ['\"']))

end Offside.Text
