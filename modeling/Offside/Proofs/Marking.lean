import Mathlib.Data.List.DropRight
import Offside.Proofs.Rows
import Offside.Proofs.Tiling

/-!
# Marking keeps the tokens of every line

A line that can be read on its own is read as the same tokens in the marked text: what is cut off from
it, a comment and the blanks around its code, is in no token, and what is put next to it, braces, a
terminator and the end of the line, joins no token.

* `Layout.isBare`, `Layout.Aligned`, `Layout.fault` -- lines without code, lines that have a layout,
  and the error of one that has none;
* `Layout.readRow_eq` -- a line is read exactly if it is aligned;
* `Layout.clause?` -- the level and the tokens of a line, if it has a token;
* `Layout.holds_of_readRows` -- the rows of lines hold the clauses of these lines;
* `Layout.read_mark` -- the tokens of a marked text.
-/

namespace Offside

/-! ## 1. What is cut off from a line -/

theorem Token.isBlank_of_isGap {c : Char} (h : isGap c = true) : Text.isBlank c = true := by
  simp only [isGap, Bool.or_eq_true, beq_iff_eq] at h
  rcases h with (((rfl | rfl) | rfl) | rfl) | rfl <;> decide

/-- There is no separator in the parts between separators. -/
theorem Text.not_mem_of_mem_pieces {separator : Char} {text piece : List Char}
    (h : piece ∈ pieces separator text) : separator ∉ piece := by
  induction text generalizing piece with
  | nil =>
      rw [List.mem_singleton.1 h]
      exact List.not_mem_nil
  | cons c rest ih =>
      rw [pieces] at h
      split at h
      · rcases List.mem_cons.1 h with rfl | h
        · exact List.not_mem_nil
        · exact ih h
      · rename_i hc
        cases hparts : pieces separator rest with
        | nil =>
            rw [hparts] at h
            rw [List.mem_singleton.1 h, List.mem_singleton]
            exact fun heq => hc heq.symm
        | cons first others =>
            rw [hparts] at h ih
            rcases List.mem_cons.1 h with rfl | h
            · rw [List.mem_cons, not_or]
              exact ⟨fun heq => hc heq.symm, ih List.mem_cons_self⟩
            · exact ih (List.mem_cons_of_mem first h)

/-- The blanks at the end of a text are in no token. -/
theorem Spelt.trimEnd {text : List Char} {tokens : List Token} (h : Spelt text tokens) :
    Spelt (Text.trimEnd text) tokens := by
  change Spelt (text.rdropWhile Text.isBlank) tokens
  induction text using List.reverseRecOn with
  | nil => exact h
  | append_singleton front last ih =>
      by_cases hlast : Text.isBlank last = true
      · rw [List.rdropWhile_concat_pos _ _ _ hlast]
        exact ih (h.of_concat rfl hlast)
      · rw [List.rdropWhile_concat_neg _ _ _ hlast]
        exact h

/-- A gap is in no token. -/
theorem Spelt.of_gap {text : List Char} {tokens : List Token} (h : Spelt text tokens) {c : Char}
    {rest : List Char} (htext : text = c :: rest) (hgap : Token.isGap c = true) :
    Spelt rest tokens := by
  cases h with
  | nil => cases htext
  | gap _ tail =>
      cases htext
      exact tail
  | word spells _ _ _ =>
      obtain ⟨d, more, rfl, hsolid⟩ := spells.solid
      cases htext
      rw [hsolid] at hgap
      cases hgap

/-- The spaces at the start of a text are in no token. -/
theorem Spelt.dropSpaces {text : List Char} {tokens : List Token} (h : Spelt text tokens) :
    Spelt (text.dropWhile (· == ' ')) tokens := by
  induction text with
  | nil => exact h
  | cons c rest ih =>
      rw [List.dropWhile_cons]
      split
      · rename_i hspace
        refine ih (h.of_gap rfl ?_)
        rw [beq_iff_eq.1 hspace]
        decide
      · exact h

/-- A text without tokens is blank, and a blank text is without tokens. -/
theorem Spelt.all_isBlank_iff {text : List Char} {tokens : List Token} (h : Spelt text tokens) :
    text.all Text.isBlank = true ↔ tokens = [] := by
  induction h with
  | nil => exact ⟨fun _ => rfl, fun _ => rfl⟩
  | gap hgap _ ih => rw [List.all_cons, Token.isBlank_of_isGap hgap, Bool.true_and, ih]
  | word spells ends _ _ _ =>
      obtain ⟨start, last, rfl, hink⟩ := spells.ink ends
      simp [hink]

namespace Layout

/-! ## 2. The rows of lines -/

/-- The number of spaces at the start of a line. -/
def leadingSpaces (line : List Char) : Nat :=
  (line.takeWhile (· == ' ')).length

theorem withoutComment_prefix (quoting : Quoting) (line : List Char) :
    withoutComment quoting line <+: line := by
  fun_induction withoutComment quoting line with
  | case1 => exact List.prefix_refl []
  | case6 => exact List.nil_prefix
  | case2 c rest ih | case3 rest ih | case4 rest _ ih | case5 c rest _ _ ih | case7 rest _ ih
  | case8 c rest _ _ ih => exact List.prefix_cons_inj _ |>.2 ih

/-- What a line holds between its leading spaces and its comment. -/
def content (line : List Char) : List Char :=
  (withoutComment .outside line).dropWhile (· == ' ')

/-- The spaces that a reader counts are those at the start of the line. -/
theorem leadingSpaces_eq {line : List Char} (h : content line ≠ []) :
    (withoutComment .outside line).length - (content line).length = leadingSpaces line := by
  obtain ⟨comment, hline⟩ := withoutComment_prefix .outside line
  have hparts : ((withoutComment .outside line).takeWhile (· == ' ')).length +
      (content line).length = (withoutComment .outside line).length := by
    rw [content, ← List.length_append, List.takeWhile_append_dropWhile]
  have hstops : ((withoutComment .outside line).takeWhile (· == ' ')).length ≠
      (withoutComment .outside line).length := by
    have hpos := List.length_pos_iff.2 h
    omega
  have hspaces : leadingSpaces line =
      ((withoutComment .outside line).takeWhile (· == ' ')).length := by
    rw [leadingSpaces]
    nth_rewrite 1 [← hline]
    rw [List.takeWhile_append, if_neg hstops]
  omega

/-- Whether nothing but blank characters is left of a line without its comment. -/
def isBare (line : List Char) : Bool :=
  (withoutComment .outside line).all Text.isBlank

/-- No tab stands in the line, and its code, if it has any, starts at a level. -/
def Aligned (line : List Char) : Prop :=
  '\t' ∉ line ∧ (isBare line = false → leadingSpaces line % indentWidth = 0)

instance (line : List Char) : Decidable (Aligned line) :=
  inferInstanceAs (Decidable (_ ∧ _))

/-- What is wrong with line number `number` if it is not aligned. -/
def fault (number : Nat) (line : List Char) : LayoutError :=
  if '\t' ∈ line then .tab number else .indentation number (leadingSpaces line)

/-- What an aligned line holds. -/
def row (line : List Char) : Row :=
  if isBare line then .blank else .code (leadingSpaces line) (Text.trimEnd (content line))

/-- Leading spaces are blank. -/
theorem all_isBlank_content (line : List Char) : (content line).all Text.isBlank = isBare line := by
  have hspaces : ((withoutComment .outside line).takeWhile (· == ' ')).all Text.isBlank = true := by
    refine List.all_eq_true.2 fun c hc => ?_
    have hspace := List.mem_takeWhile_imp hc
    rw [beq_iff_eq] at hspace
    subst hspace
    decide
  have hparts := List.takeWhile_append_dropWhile (p := (· == ' ')) (l := withoutComment .outside line)
  rw [isBare, ← hparts, List.all_append, hspaces, Bool.true_and]
  rfl

/-- **A line is read exactly if it is aligned.** -/
theorem readRow_eq (number : Nat) (line : List Char) :
    readRow number line = if Aligned line then .ok (row line) else .error (fault number line) := by
  by_cases htab : '\t' ∈ line
  · have hnot : ¬Aligned line := fun h => h.1 htab
    rw [if_neg hnot, readRow, fault, if_pos htab, if_pos (List.contains_iff_mem.2 htab)]
  rw [readRow, fault, if_neg htab, if_neg (mt List.contains_iff_mem.1 htab)]
  change (if (content line).all Text.isBlank = true then _ else _) = _
  rw [all_isBlank_content]
  cases hbare : isBare line with
  | true =>
      have haligned : Aligned line := ⟨htab, fun h => by rw [hbare] at h; cases h⟩
      rw [if_pos rfl, if_pos haligned, row, hbare, if_pos rfl]
  | false =>
      have hne : content line ≠ [] := by
        intro hnil
        have hall := all_isBlank_content line
        rw [hnil, hbare] at hall
        cases hall
      have haligned : Aligned line ↔ leadingSpaces line % indentWidth = 0 := by
        rw [Aligned, hbare]
        exact ⟨fun h => h.2 rfl, fun h => ⟨htab, fun _ => h⟩⟩
      rw [if_neg Bool.false_ne_true, row, hbare, if_neg Bool.false_ne_true]
      change (if ¬((withoutComment .outside line).length - (content line).length) % indentWidth = 0
        then Except.error (LayoutError.indentation number
          ((withoutComment .outside line).length - (content line).length)) else _) = _
      rw [leadingSpaces_eq hne]
      by_cases hlevel : leadingSpaces line % indentWidth = 0
      · rw [if_neg (not_not_intro hlevel), if_pos (haligned.2 hlevel)]
        exact congrArg (fun spaces => Except.ok (Row.code spaces _)) (leadingSpaces_eq hne)
      · rw [if_pos hlevel, if_neg (mt haligned.1 hlevel)]

/-- What a line that is read holds. -/
theorem readRow_eq_ok {number : Nat} {line : List Char} {row : Row}
    (h : readRow number line = .ok row) :
    ((content line).all Text.isBlank = true ∧ row = .blank) ∨
      ((content line).all Text.isBlank = false ∧
        row = .code (leadingSpaces line) (Text.trimEnd (content line))) := by
  rw [readRow_eq] at h
  split at h
  · cases h
    rw [all_isBlank_content, Layout.row]
    cases isBare line with
    | true => exact .inl ⟨rfl, rfl⟩
    | false => exact .inr ⟨rfl, rfl⟩
  · cases h

/-- **The row of a line holds its tokens.** -/
theorem readRow_of_spelt {number : Nat} {line : List Char} {row : Row} {tokens : List Token}
    (h : Spelt (withoutComment .outside line) tokens) (hrow : readRow number line = .ok row) :
    (tokens = [] ∧ row = .blank) ∨
      (tokens ≠ [] ∧ ∃ content, row = .code (leadingSpaces line) content ∧ Spelt content tokens) := by
  have hcontent : Spelt (content line) tokens := h.dropSpaces
  rcases readRow_eq_ok hrow with ⟨hblank, rfl⟩ | ⟨hblank, rfl⟩
  · exact .inl ⟨hcontent.all_isBlank_iff.1 hblank, rfl⟩
  · refine .inr ⟨fun hnil => ?_, _, rfl, hcontent.trimEnd⟩
    rw [hcontent.all_isBlank_iff.2 hnil] at hblank
    cases hblank

theorem readRows_cons_eq_ok {number : Nat} {line : List Char} {lines : List (List Char)}
    {rows : List Row} (h : readRows number (line :: lines) = .ok rows) :
    ∃ row more, readRow number line = .ok row ∧ readRows (number + 1) lines = .ok more ∧
      rows = row :: more := by
  rw [readRows] at h
  cases hrow : readRow number line with
  | error error =>
      rw [hrow] at h
      cases h
  | ok row =>
      cases hmore : readRows (number + 1) lines with
      | error error =>
          rw [hrow, hmore] at h
          cases h
      | ok more =>
          rw [hrow, hmore] at h
          exact ⟨row, more, rfl, rfl, (Except.ok.inj h).symm⟩

/-! ## 3. The clauses of lines -/

/-- The level of a line and its tokens, if it can be read on its own and has a token. -/
def clause? (line : List Char) : Option (Nat × List Token) :=
  match Token.read (String.ofList line) with
  | .error _ => none
  | .ok [] => none
  | .ok lexemes => some (leadingSpaces line / indentWidth, lexemes.map (·.token))

/-- A line that can be read on its own has in its row what the line has: no token, or the same
tokens. -/
theorem holds_of_readRow {number : Nat} {line : List Char} {row : Row} {lexemes : List Lexeme}
    (hrow : readRow number line = .ok row) (hline : '\n' ∉ line)
    (hread : Token.read (String.ofList line) = .ok lexemes) {rows : List Row}
    {code : List (Nat × List Token)} (rest : Holds rows code) :
    Holds (row :: rows) ((clause? line).toList ++ code) := by
  have htiled : Tiled 0 line lexemes := by
    rwa [Token.read_ofList, Lexer.scan_eq_ok_iff] at hread
  rw [clause?, hread]
  rcases readRow_of_spelt (htiled.spelt hline) hrow with ⟨hnil, rfl⟩ | ⟨hne, content, rfl, hspelt⟩
  · have hlexemes : lexemes = [] := List.map_eq_nil_iff.1 hnil
    subst hlexemes
    exact .blank rest
  · cases lexemes with
    | nil => exact absurd rfl hne
    | cons first others => exact .code hspelt rest

/-- **The rows of lines hold the clauses of these lines.** -/
theorem holds_of_readRows {lines : List (List Char)} {number : Nat} {rows : List Row}
    (hrows : readRows number lines = .ok rows) (hbreak : ∀ line ∈ lines, '\n' ∉ line)
    (hread : ∀ line ∈ lines, ∃ lexemes, Token.read (String.ofList line) = .ok lexemes) :
    Holds rows (lines.filterMap clause?) := by
  induction lines generalizing number rows with
  | nil =>
      cases hrows
      exact .nil
  | cons line lines ih =>
      obtain ⟨row, more, hrow, hmore, rfl⟩ := readRows_cons_eq_ok hrows
      obtain ⟨lexemes, hlexemes⟩ := hread line List.mem_cons_self
      have hrest := ih hmore (fun other hother => hbreak other (List.mem_cons_of_mem line hother))
        fun other hother => hread other (List.mem_cons_of_mem line hother)
      have hall := holds_of_readRow hrow (hbreak line List.mem_cons_self) hlexemes hrest
      rw [List.filterMap_cons]
      cases hclause : clause? line with
      | none =>
          rw [hclause] at hall
          exact hall
      | some clause =>
          rw [hclause] at hall
          exact hall

/-! ## 4. The marked text -/

/-- There is no line break in a line. -/
theorem not_mem_of_mem_lines {source : String} {line : List Char} (h : line ∈ lines source) :
    '\n' ∉ line := by
  obtain ⟨piece, hpiece, rfl⟩ := List.mem_map.1 h
  intro hmem
  refine Text.not_mem_of_mem_pieces hpiece ?_
  rw [withoutReturn] at hmem
  split at hmem
  · exact (List.dropLast_sublist piece).subset hmem
  · exact hmem

theorem mark_eq_ok {source marked : String} (h : mark source = .ok marked) :
    ∃ rows, readRows 1 (lines source) = .ok rows ∧ marked = String.ofList (write 0 rows) := by
  rw [mark] at h
  cases hrows : readRows 1 (lines source) with
  | error error =>
      rw [hrows] at h
      cases h
  | ok rows =>
      rw [hrows] at h
      exact ⟨rows, rfl, (Except.ok.inj h).symm⟩

/-- **Marking keeps the tokens of every line.** If every line of a text can be read on its own, its
marked text can be read, as the tokens of each line that has one: after the braces for the change
of level, and with a terminator. The levels that are open after the last line are closed. -/
theorem read_mark {source marked : String} (hmark : mark source = .ok marked)
    (hlines : ∀ line ∈ lines source, ∃ lexemes, Token.read (String.ofList line) = .ok lexemes) :
    ∃ lexemes, Token.read marked = .ok lexemes ∧
      lexemes.map (·.token) = tokens 0 ((lines source).filterMap clause?) := by
  obtain ⟨rows, hrows, rfl⟩ := mark_eq_ok hmark
  have hholds := holds_of_readRows hrows (fun _ => not_mem_of_mem_lines) hlines
  rw [Token.read_ofList]
  exact (hholds.spelt 0).scan 0

/-- A literal with a `#` and a quote, a comment with a quote, a carriage return, and blanks after the
code. -/
def quotesSource : String :=
  "a:String = b \"#\\\"\" # \"\r\n    b:String s:String = s\n\nc:None = none  "

theorem exists_of_isOk {ε α : Type} {result : Except ε α} (h : result.isOk = true) :
    ∃ value, result = .ok value := by
  cases result with
  | error _ => cases h
  | ok value => exact ⟨value, rfl⟩

theorem read_mark_quotesSource :
    ∃ marked, mark quotesSource = .ok marked ∧
      (∀ line ∈ lines quotesSource, ∃ lexemes, Token.read (String.ofList line) = .ok lexemes) ∧
      ∃ lexemes, Token.read marked = .ok lexemes ∧ lexemes.map (·.token) =
        [.name "a", .colon, .name "String", .assign, .name "b", .string "#\"", .semicolon,
          .scopeOpen, .name "b", .colon, .name "String", .name "s", .colon, .name "String",
          .assign, .name "s", .semicolon, .scopeClose,
          .name "c", .colon, .name "None", .assign, .nothing, .semicolon] := by
  obtain ⟨marked, hmark⟩ := exists_of_isOk (by decide +kernel : (mark quotesSource).isOk = true)
  have hall : ∀ line ∈ lines quotesSource, (Token.read (String.ofList line)).isOk = true := by
    decide +kernel
  have hlines : ∀ line ∈ lines quotesSource,
      ∃ lexemes, Token.read (String.ofList line) = .ok lexemes :=
    fun line hline => exists_of_isOk (hall line hline)
  obtain ⟨lexemes, hread, htokens⟩ := read_mark hmark hlines
  refine ⟨marked, hmark, hlines, lexemes, hread, htokens.trans ?_⟩
  decide +kernel

end Layout

end Offside
