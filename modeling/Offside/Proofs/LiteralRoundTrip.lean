import Offside.Proofs.RoundTrip

/-!
# Every string has a literal on one line

Five escapes are enough to write any string between quotes without a break, a tab or a quote that
would end it. Where such a literal ends is the same for all that look for it: the layout, which cuts
a comment off, the reader of tokens, and the reader of escapes.

* `Text.escape`, `Text.escaped` -- how a character and a string are written;
* `Text.writes_escaped` -- what is written stands for the string;
* `compile_escaped` -- a line that defines a constant by such a literal.
-/

namespace Offside

namespace Text

/-- A character as a literal may write it; only quotes, backslashes, breaks and tabs are escaped. -/
def escape (c : Char) : List Char :=
  if c = '\\' then ['\\', '\\']
  else if c = '\"' then ['\\', '\"']
  else if c = '\n' then ['\\', 'n']
  else if c = '\t' then ['\\', 't']
  else if c = '\r' then ['\\', 'r']
  else [c]

/-- A string as it stands between the quotes of a literal. -/
def escaped (text : String) : String :=
  String.ofList (text.toList.flatMap escape)

theorem writes_escape (c : Char) : Writes (escape c) [c] := by
  unfold escape
  repeat' split
  any_goals
    subst c
    exact .escape (by decide) (fun _ => rfl) .nil
  rename_i hescape hquote hline htab _
  refine .char ?_ .nil
  simp only [List.mem_cons, hquote, hescape, hline, htab, List.not_mem_nil, or_false,
    not_false_eq_true]

/-- **Escapes stand for what was escaped**, in every string. -/
theorem writes_escaped (text : String) : Writes (escaped text).toList text.toList := by
  rw [escaped, String.toList_ofList]
  exact .flatMap text.toList fun c _ => writes_escape c

end Text

/-- The line of a constant that is defined by a literal. -/
theorem Layout.Clause.constant (text : String) :
    Clause ("a:String = \"" ++ Text.escaped text ++ "\"")
      [.name "a", .colon, .name "String", .assign, .string text] := by
  have htype : Fragment ("a" ++ ":" ++ "String") [.name "a", .colon, .name "String"] :=
    (Fragment.name (by decide)).ascribe (.name (by decide))
  have hline := htype.join Separator.assign (.literal (Text.writes_escaped text))
  have hstart : "a" ++ ":" ++ "String" ++ " = " ++ "\"" = "a:String = \"" := by decide
  have hquoted : String.ofList ('\"' :: ((Text.escaped text).toList ++ ['\"'])) =
      "\"" ++ (Text.escaped text ++ "\"") := by
    have hquote : "\"".toList = ['\"'] := by decide
    refine String.toList_inj.1 ?_
    rw [String.toList_ofList, String.toList_append, String.toList_append, hquote,
      List.singleton_append]
  rw [hquoted, ← String.append_assoc, ← String.append_assoc, hstart] at hline
  exact .ofFragment hline

/-- **Every string can be written as a literal on one line**, and a comment may stand after it. -/
theorem compile_escaped (origin : Nat) (text trailing : String)
    (h : Layout.isFiller trailing = true) :
    compile origin ("a:String = \"" ++ Text.escaped text ++ "\"" ++ trailing) =
      .ok ⟨[("a", .constant .string (.lit (.str text)) [])], [], []⟩ := by
  have hheader : Header.Derives [.colon, .name "String", .assign, .string text]
      ⟨.string, [], .lit (.str text)⟩ :=
    .mk (.named "String") .nil List.nodup_nil (.atom (.literal (.str text)))
  have hitem : Item.Derives true
      ([.name "a", .colon, .name "String", .assign, .string text] ++ [.semicolon])
      [.define (.mk "a" ⟨.string, [], .lit (.str text)⟩ [])] :=
    .plain hheader (fun _ h => by cases h; rfl) (.terminator .nil)
  have hdistinct : Item.Distinct [.define (.mk "a" ⟨.string, [], .lit (.str text)⟩ [])] :=
    ⟨List.nodup_singleton _, List.nodup_nil⟩
  exact (Layout.Clause.constant text).compile origin h hitem hdistinct

/-- Every escape, a control character, a hash between escaped quotes, and backslashes at the end. -/
theorem compile_escaped_backslashes :
    Layout.isFiller "  # \"c\\\" # \\" = true ∧
      Text.escaped "\"#\"\n\t\r\x01\x7bé\\\\" = "\\\"#\\\"\\n\\t\\r\x01\x7bé\\\\\\\\" ∧
        compile programOrigin
          ("a:String = \"" ++ Text.escaped "\"#\"\n\t\r\x01\x7bé\\\\" ++ "\"" ++ "  # \"c\\\" # \\") =
            .ok ⟨[("a", .constant .string (.lit (.str "\"#\"\n\t\r\x01\x7bé\\\\")) [])], [], []⟩ :=
  ⟨by decide, by decide, compile_escaped _ _ _ (by decide)⟩

end Offside
