import Mathlib.Data.List.DropRight
import Offside.Layout
import Offside.Proofs.Printed

/-!
# Lines and their levels

A text shows clauses at levels: a clause stands on a line of its own after four spaces for each
level, and between such lines stand others without code. The marked text of these lines spells the
tokens of the clauses with a terminator after each and with braces for the changes of level.

* `Layout.isFiller` -- a line without code: blank characters, and perhaps a comment;
* `Layout.line`, `Layout.Clause` -- the line of a clause, and what may be its code;
* `Layout.Shows` -- lines, and the clauses that they show, each as a level and tokens;
* `Layout.tokens` -- the clauses as tokens with terminators and braces;
* `Layout.Holds` -- rows, and the clauses that they hold;
* `Layout.Holds.spelt` -- the marked text of rows spells these tokens;
* `Layout.Shows.readRows` -- lines that show clauses are read, and their rows hold the clauses.
-/

namespace Offside

/-! ## 1. The lines of a text -/

/-- The parts of a text are those that the standard library cuts it into. -/
theorem Text.pieces_eq_splitOn (separator : Char) (text : List Char) :
    pieces separator text = text.splitOn separator := by
  induction text with
  | nil => rfl
  | cons c rest ih =>
      have hne := List.splitOn_ne_nil separator rest
      rw [pieces, List.splitOn_cons_eq_if_modifyHead, ih]
      by_cases hc : c = separator
      · rw [if_pos hc, if_pos (beq_iff_eq.2 hc)]
      · rw [if_neg hc, if_neg (mt beq_iff_eq.1 hc)]
        cases hparts : rest.splitOn separator with
        | nil => exact absurd hparts hne
        | cons first others => rfl

/-- A text without blanks at its end is not trimmed. -/
theorem Text.trimEnd_concat (start : List Char) {last : Char} (h : isBlank last = false) :
    trimEnd (start ++ [last]) = start ++ [last] :=
  List.rdropWhile_concat_neg _ _ _ (Bool.eq_false_iff.1 h)

/-- Trimming stops at a character that is not blank. -/
theorem Text.trimEnd_append (start : List Char) {ink : Char} (h : isBlank ink = false)
    (rest : List Char) : trimEnd (start ++ ink :: rest) = start ++ ink :: trimEnd rest := by
  induction rest using List.reverseRecOn with
  | nil => exact trimEnd_concat start h
  | append_singleton rest last ih =>
      have hfront : start ++ ink :: (rest ++ [last]) = (start ++ ink :: rest) ++ [last] := by simp
      rw [hfront]
      cases hlast : isBlank last with
      | true =>
          change List.rdropWhile isBlank _ = start ++ ink :: List.rdropWhile isBlank _
          rw [List.rdropWhile_concat_pos _ _ _ hlast, List.rdropWhile_concat_pos _ _ _ hlast]
          exact ih
      | false =>
          rw [trimEnd_concat _ hlast, trimEnd_concat _ hlast, ← hfront]

namespace Layout

/-- The last character of a line is in its comment, or it is kept. -/
theorem withoutComment_concat (quoting : Quoting) (front : List Char) (last : Char) :
    withoutComment quoting (front ++ [last]) = withoutComment quoting front ∨
      withoutComment quoting (front ++ [last]) = withoutComment quoting front ++ [last] := by
  have hcons : ∀ {c : Char} {kept more : List Char}, more = kept ∨ more = kept ++ [last] →
      c :: more = c :: kept ∨ c :: more = c :: kept ++ [last] := by
    intro c kept more h
    rcases h with rfl | rfl
    · exact .inl rfl
    · exact .inr rfl
  fun_induction withoutComment quoting front with
  | case1 quoting =>
      cases quoting with
      | escaped => exact .inr rfl
      | inside =>
          right
          simp only [List.nil_append, withoutComment]
          split
          · rfl
          · split <;> rfl
      | outside =>
          simp only [List.nil_append, withoutComment]
          split
          · exact .inl rfl
          · right
            split <;> rfl
  | case2 c rest ih =>
      rw [List.cons_append, withoutComment]
      exact hcons ih
  | case3 rest ih =>
      rw [List.cons_append, withoutComment, if_pos rfl]
      exact hcons ih
  | case4 rest hescape ih =>
      rw [List.cons_append, withoutComment, if_neg hescape, if_pos rfl]
      exact hcons ih
  | case5 c rest hescape hquote ih =>
      rw [List.cons_append, withoutComment, if_neg hescape, if_neg hquote]
      exact hcons ih
  | case6 rest =>
      rw [List.cons_append, withoutComment, if_pos rfl]
      exact .inl rfl
  | case7 rest hhash ih =>
      rw [List.cons_append, withoutComment, if_neg hhash, if_pos rfl]
      exact hcons ih
  | case8 c rest hhash hquote ih =>
      rw [List.cons_append, withoutComment, if_neg hhash, if_neg hquote]
      exact hcons ih

/-- A carriage return at the end of a line does not change its row: it is in the comment of the line
or among the blanks that are trimmed. -/
theorem readRow_withoutReturn (number : Nat) (line : List Char) :
    readRow number (withoutReturn line) = readRow number line := by
  unfold withoutReturn
  split
  · rename_i hlast
    obtain ⟨front, rfl⟩ := List.getLast?_eq_some_iff.1 hlast
    rw [List.dropLast_concat]
    have htab : (front ++ ['\r']).contains '\t' = front.contains '\t' := by simp
    rcases withoutComment_concat .outside front '\r' with hcode | hcode
    · rw [readRow, readRow, htab, hcode]
    · have hcontent : (withoutComment .outside front ++ ['\r']).dropWhile (· == ' ') =
          (withoutComment .outside front).dropWhile (· == ' ') ++ ['\r'] := by
        rw [List.dropWhile_append]
        split
        · rename_i hspaces
          rw [List.isEmpty_iff.1 hspaces]
          rfl
        · rfl
      have hblank : ∀ content : List Char,
          (content ++ ['\r']).all Text.isBlank = content.all Text.isBlank := by
        intro content
        rw [List.all_append]
        exact Bool.and_true _
      have htrim : ∀ content : List Char, Text.trimEnd (content ++ ['\r']) = Text.trimEnd content :=
        fun content => List.rdropWhile_concat_pos _ _ _ (by decide)
      rw [readRow, readRow, htab, hcode]
      simp only [hcontent, hblank, htrim, List.length_append, Nat.add_sub_add_right]
  · rfl

/-! ## 2. Lines without code -/

/-- Whether a line has no code and no tab: blank characters, and perhaps a comment. -/
def isFiller (line : String) : Bool :=
  decide (Text.Inline line.toList) && (line.toList.takeWhile (· ≠ '#')).all Text.isBlank

/-- Blank characters open no string literal: the comment starts at the first `#`. -/
theorem withoutComment_of_isBlank : ∀ line : List Char,
    (line.takeWhile (· ≠ '#')).all Text.isBlank = true →
      withoutComment .outside line = line.takeWhile (· ≠ '#')
  | [], _ => rfl
  | c :: rest, h => by
      by_cases hc : c = '#'
      · rw [withoutComment, if_pos hc, List.takeWhile_cons_of_neg (by simpa using hc)]
      · have hkeep : (c :: rest).takeWhile (· ≠ '#') = c :: rest.takeWhile (· ≠ '#') :=
          List.takeWhile_cons_of_pos (decide_eq_true hc)
        rw [hkeep, List.all_cons, Bool.and_eq_true] at h
        have hquote : c ≠ '\"' := by
          rintro rfl
          exact absurd h.1 (by decide)
        rw [withoutComment, if_neg hc, if_neg hquote, hkeep, withoutComment_of_isBlank rest h.2]

theorem readRow_filler {line : String} (h : isFiller line = true) (number : Nat) :
    readRow number (withoutReturn line.toList) = .ok .blank := by
  rw [isFiller, Bool.and_eq_true] at h
  obtain ⟨hinline, hblank⟩ := h
  have htab : line.toList.contains '\t' = false := by
    rw [List.contains_eq_mem]
    exact decide_eq_false fun hmem => (of_decide_eq_true hinline '\t' hmem).2 rfl
  have hcontent : (((line.toList.takeWhile (· ≠ '#')).dropWhile (· == ' ')).all Text.isBlank) =
      true :=
    List.all_eq_true.2 fun c hc =>
      List.all_eq_true.1 hblank c ((List.dropWhile_sublist _).subset hc)
  rw [readRow_withoutReturn, readRow, htab, withoutComment_of_isBlank line.toList hblank]
  simp only [hcontent, Bool.false_eq_true, if_true, if_false]

/-! ## 3. Lines with code -/

/-- The line of a clause at a level. -/
def line (level : Nat) (text : String) : String :=
  String.ofList (List.replicate (indentWidth * level) ' ') ++ text

theorem toList_line (level : Nat) (text : String) :
    (line level text).toList = List.replicate (indentWidth * level) ' ' ++ text.toList := by
  rw [line, String.toList_append, String.toList_ofList]

theorem inline_line {text : String} (h : Text.Inline text.toList) (level : Nat) :
    Text.Inline (line level text).toList := by
  rw [toList_line]
  refine Text.Inline.append (fun c hc => ?_) h
  rw [List.eq_of_mem_replicate hc]
  decide

/-- Spaces before a text spell nothing. -/
theorem spelt_spaces {text : List Char} {tokens : List Token} (h : Spelt text tokens) (n : Nat) :
    Spelt (List.replicate n ' ' ++ text) tokens := by
  induction n with
  | zero => exact h
  | succ n ih => exact .gap (by decide) ih

theorem dropWhile_spaces (n : Nat) {first : Char} (rest : List Char) (h : first ≠ ' ') :
    (List.replicate n ' ' ++ first :: rest).dropWhile (· == ' ') = first :: rest := by
  induction n with
  | zero => exact List.dropWhile_cons_of_neg (mt beq_iff_eq.1 h)
  | succ n ih => exact ih

/-- What may be the code of a line: it has no tab, no blank at either end, and spells tokens. -/
structure Clause (text : String) (tokens : List Token) : Prop where
  inline : Text.Inline text.toList
  head : ∃ first rest, text.toList = first :: rest ∧ Text.isBlank first = false
  ink : ∃ start last, text.toList = start ++ [last] ∧ Text.isBlank last = false
  spelt : Spelt text.toList tokens

theorem Clause.ofFragment {text : String} {tokens : List Token} (h : Fragment text tokens) :
    Clause text tokens :=
  have ⟨first, rest, hhead, hfirst, _⟩ := h.head
  ⟨h.inline, ⟨first, rest, hhead, hfirst⟩, h.ink, h.spelt_self⟩

/-- Blanks and a comment after the code of a line do not change its row. -/
theorem readRow_clause {text trailing : String} {tokens : List Token} (h : Clause text tokens)
    (htrailing : isFiller trailing = true) (number level : Nat) :
    readRow number (withoutReturn (line level (text ++ trailing)).toList) =
      .ok (.code (indentWidth * level) text.toList) := by
  rw [isFiller, Bool.and_eq_true] at htrailing
  obtain ⟨hinline, hblank⟩ := htrailing
  have hwhole : Text.Inline (text ++ trailing).toList := by
    rw [String.toList_append]
    exact h.inline.append (of_decide_eq_true hinline)
  have htab : (line level (text ++ trailing)).toList.contains '\t' = false := by
    rw [List.contains_eq_mem]
    exact decide_eq_false fun hmem => (inline_line hwhole level '\t' hmem).2 rfl
  -- only blanks are left of what stands after the code
  obtain ⟨blanks, hrest, hblanks⟩ : ∃ blanks,
      withoutComment .outside trailing.toList = blanks ∧ blanks.all Text.isBlank = true :=
    ⟨_, withoutComment_of_isBlank trailing.toList hblank, hblank⟩
  have hcode : withoutComment .outside (line level (text ++ trailing)).toList =
      List.replicate (indentWidth * level) ' ' ++ (text.toList ++ blanks) := by
    rw [toList_line, String.toList_append, ← List.append_assoc,
      (spelt_spaces h.spelt _).withoutComment_append, hrest, List.append_assoc]
  obtain ⟨first, rest, hhead, hfirst⟩ := h.head
  have hspace : first ≠ ' ' := by
    rintro rfl
    exact absurd hfirst (by decide)
  have hcontent : (List.replicate (indentWidth * level) ' ' ++ (text.toList ++ blanks)).dropWhile
      (· == ' ') = text.toList ++ blanks := by
    rw [hhead]
    exact dropWhile_spaces _ _ hspace
  have hsolid : (text.toList ++ blanks).all Text.isBlank = false := by
    rw [hhead, List.cons_append, List.all_cons, hfirst, Bool.false_and]
  have hspaces : (List.replicate (indentWidth * level) ' ' ++ (text.toList ++ blanks)).length -
      (text.toList ++ blanks).length = indentWidth * level := by
    rw [List.length_append, List.length_replicate, Nat.add_sub_cancel]
  have htrim : Text.trimEnd (text.toList ++ blanks) = text.toList := by
    obtain ⟨start, last, hink, hlast⟩ := h.ink
    have hnone : Text.trimEnd blanks = [] :=
      List.rdropWhile_eq_nil_iff.2 (List.all_eq_true.1 hblanks)
    rw [hink, List.append_assoc, List.singleton_append, Text.trimEnd_append start hlast, hnone]
  rw [readRow_withoutReturn, readRow, htab, hcode]
  simp only [hcontent, hsolid, hspaces, htrim, Nat.mul_mod_right, Bool.false_eq_true, ne_eq,
    not_true_eq_false, if_false]

theorem readRow_line {text : String} {tokens : List Token} (h : Fragment text tokens)
    (number level : Nat) :
    readRow number (withoutReturn (line level text).toList) =
      .ok (.code (indentWidth * level) text.toList) := by
  have hrow := readRow_clause (Clause.ofFragment h) (by decide : isFiller "" = true) number level
  rwa [String.append_empty] at hrow

/-! ## 4. Clauses at levels -/

/-- Lines, and the clauses that they show, each as its level and its tokens. -/
inductive Shows : List String → List (Nat × List Token) → Prop
  | nil : Shows [] []
  | filler {text : String} {lines : List String} {code : List (Nat × List Token)}
      (h : isFiller text = true) (rest : Shows lines code) : Shows (text :: lines) code
  | clause {text : String} {tokens : List Token} {lines : List String}
      {code : List (Nat × List Token)} (level : Nat) (h : Fragment text tokens)
      (rest : Shows lines code) : Shows (line level text :: lines) ((level, tokens) :: code)

/-- Lines without code may be put in anywhere. -/
theorem Shows.ofFilter {lines : List String} {code : List (Nat × List Token)}
    (h : Shows (lines.filter fun text => !isFiller text) code) : Shows lines code := by
  induction lines generalizing code with
  | nil => exact h
  | cons text lines ih =>
      rw [List.filter_cons] at h
      cases hfiller : isFiller text with
      | true =>
          rw [hfiller, Bool.not_true, if_neg Bool.false_ne_true] at h
          exact .filler hfiller (ih h)
      | false =>
          rw [hfiller, Bool.not_false, if_pos rfl] at h
          cases h with
          | filler hagain _ => exact absurd hagain (Bool.eq_false_iff.1 hfiller)
          | clause level hclause rest => exact .clause level hclause (ih rest)

theorem Shows.append {first second : List String} {code more : List (Nat × List Token)}
    (h : Shows first code) (hmore : Shows second more) :
    Shows (first ++ second) (code ++ more) := by
  induction h with
  | nil => exact hmore
  | filler hfiller _ ih => exact .filler hfiller ih
  | clause level hclause _ ih => exact .clause level hclause ih

theorem Shows.inline {lines : List String} {code : List (Nat × List Token)}
    (h : Shows lines code) : ∀ text ∈ lines, Text.Inline text.toList := by
  induction h with
  | nil => exact fun _ hmem => absurd hmem List.not_mem_nil
  | filler hfiller _ ih =>
      rw [isFiller, Bool.and_eq_true] at hfiller
      exact List.forall_mem_cons.2 ⟨of_decide_eq_true hfiller.1, ih⟩
  | clause level hclause _ ih => exact List.forall_mem_cons.2 ⟨inline_line hclause.inline level, ih⟩

/-- A brace for each level between two levels. -/
def braceTokens (before after : Nat) : List Token :=
  List.replicate (after - before) .scopeOpen ++ List.replicate (before - after) .scopeClose

/-- Clauses after level `before` as tokens: each with a terminator, after the braces that lead to
its level; the levels that are open at the end are closed. -/
def tokens (before : Nat) : List (Nat × List Token) → List Token
  | [] => braceTokens before 0
  | (level, clause) :: rest =>
    braceTokens before level ++ (clause ++ .semicolon :: tokens level rest)

/-- The clauses, if there are any, start at the level or further out. -/
def Within (level : Nat) (code : List (Nat × List Token)) : Prop :=
  ∀ clause ∈ code.head?, clause.1 ≤ level

theorem Within.mono {level deeper : Nat} (hle : level ≤ deeper) {code : List (Nat × List Token)}
    (h : Within level code) : Within deeper code :=
  fun clause hclause => Nat.le_trans (h clause hclause) hle

theorem within_cons (level : Nat) (clause : List Token) (code : List (Nat × List Token)) :
    Within level ((level, clause) :: code) := by
  intro first hfirst
  cases hfirst
  exact Nat.le_refl level

theorem braceTokens_self (level : Nat) : braceTokens level level = [] := by
  rw [braceTokens, Nat.sub_self]
  rfl

theorem braceTokens_close {after before : Nat} (h : after ≤ before) :
    braceTokens (before + 1) after = .scopeClose :: braceTokens before after := by
  have hopen : after - (before + 1) = 0 ∧ after - before = 0 := by omega
  rw [braceTokens, braceTokens, hopen.1, hopen.2, Nat.succ_sub h]
  rfl

/-- A clause one level deeper stands after an opening brace. -/
theorem tokens_open (level : Nat) (clause : List Token) (code : List (Nat × List Token)) :
    tokens level ((level + 1, clause) :: code) =
      .scopeOpen :: tokens (level + 1) ((level + 1, clause) :: code) := by
  have hopen : braceTokens level (level + 1) = [.scopeOpen] := by
    rw [braceTokens, Nat.add_sub_cancel_left, Nat.sub_eq_zero_of_le (Nat.le_succ level)]
    rfl
  rw [tokens, tokens, hopen, braceTokens_self]
  rfl

/-- After the clauses of a level, a closing brace leads back to the level around it. -/
theorem tokens_close {level : Nat} {code : List (Nat × List Token)} (h : Within level code) :
    tokens (level + 1) code = .scopeClose :: tokens level code := by
  cases code with
  | nil =>
      rw [tokens, tokens]
      exact braceTokens_close (Nat.zero_le level)
  | cons first code =>
      obtain ⟨outer, clause⟩ := first
      rw [tokens, tokens, braceTokens_close (h _ rfl)]
      rfl

/-! ## 5. The marked text -/

/-- The same brace several times. -/
theorem spelt_replicate {brace : Char} {token : Token} {text : List Char} {more : List Token}
    (hgap : Token.isGap brace = false) (hbrace : Pending.start brace = some (.complete token))
    (h : Spelt text more) (n : Nat) :
    Spelt (List.replicate n brace ++ text) (List.replicate n token ++ more) := by
  induction n with
  | zero => exact h
  | succ n ih => exact .mark hgap hbrace ih

theorem spelt_braces {text : List Char} {more : List Token} (h : Spelt text more)
    (before after : Nat) :
    Spelt (braces before after ++ text) (braceTokens before after ++ more) := by
  rw [braces, braceTokens, List.append_assoc, List.append_assoc]
  exact spelt_replicate (by decide) (by decide) (spelt_replicate (by decide) (by decide) h _) _

/-- A row that spells tokens, and the rows after it. -/
theorem spelt_write_cons {before : Nat} {row : Row} {rows : List Row} {front more : List Token}
    (hrow : ∀ {text : List Char}, Spelt text more →
      Spelt (writeRow before row ++ text) (front ++ more))
    (h : Spelt (write (row.level before) rows) more) :
    Spelt (write before (row :: rows)) (front ++ more) := by
  cases rows with
  | nil => exact hrow h
  | cons next rows => exact hrow (.gap (by decide) h)

/-- Rows, and the clauses that they hold, each as its level and its tokens. -/
inductive Holds : List Row → List (Nat × List Token) → Prop
  | nil : Holds [] []
  | blank {rows : List Row} {code : List (Nat × List Token)} (rest : Holds rows code) :
      Holds (.blank :: rows) code
  | code {spaces : Nat} {content : List Char} {tokens : List Token} {rows : List Row}
      {code : List (Nat × List Token)} (h : Spelt content tokens) (rest : Holds rows code) :
      Holds (.code spaces content :: rows) ((spaces / indentWidth, tokens) :: code)

/-- A row with code spells its tokens and the terminator. -/
theorem spelt_writeRow {content : List Char} {tokens : List Token} (h : Spelt content tokens)
    (before spaces : Nat) {text : List Char} {more : List Token} (htext : Spelt text more) :
    Spelt (writeRow before (.code spaces content) ++ text)
      ((braceTokens before (spaces / indentWidth) ++ (tokens ++ [.semicolon])) ++ more) := by
  have hsemicolon : Spelt (';' :: text) (.semicolon :: more) := .mark (by decide) (by decide) htext
  have hcontent : Spelt (content ++ ';' :: text) (tokens ++ .semicolon :: more) := by
    refine h.append (fun c hc => ?_) hsemicolon
    cases hc
    decide
  have hall := spelt_braces hcontent before (spaces / indentWidth)
  rw [writeRow]
  simpa only [List.append_assoc, List.cons_append, List.nil_append] using hall

/-- **The marked text of rows spells their clauses** with terminators and braces. -/
theorem Holds.spelt {rows : List Row} {code : List (Nat × List Token)} (h : Holds rows code)
    (before : Nat) : Spelt (write before rows) (tokens before code) := by
  induction h generalizing before with
  | nil =>
      have hbraces := spelt_braces .nil before 0
      rwa [List.append_nil, List.append_nil] at hbraces
  | @blank rows code _ ih =>
      have hblank : ∀ {text : List Char}, Spelt text (tokens before code) →
          Spelt (writeRow before .blank ++ text) ([] ++ tokens before code) := id
      exact spelt_write_cons hblank (ih before)
  | @code spaces content tokens rows code hcontent _ ih =>
      have hall := spelt_write_cons (spelt_writeRow hcontent before spaces) (ih _)
      simpa only [Layout.tokens, Row.level, List.append_assoc, List.cons_append, List.nil_append]
        using hall

/-- **Lines that show clauses are read**, and their rows hold these clauses. -/
theorem Shows.readRows {lines : List String} {code : List (Nat × List Token)}
    (h : Shows lines code) : ∀ number : Nat,
      ∃ rows, Layout.readRows number (lines.map fun text => withoutReturn text.toList) = .ok rows ∧
        Holds rows code := by
  induction h with
  | nil => exact fun number => ⟨[], rfl, .nil⟩
  | filler hfiller _ ih =>
      intro number
      obtain ⟨rows, hrows, hholds⟩ := ih (number + 1)
      refine ⟨.blank :: rows, ?_, .blank hholds⟩
      rw [List.map_cons, Layout.readRows, readRow_filler hfiller, hrows]
      rfl
  | @clause text tokens lines code level hclause _ ih =>
      intro number
      obtain ⟨rows, hrows, hholds⟩ := ih (number + 1)
      refine ⟨.code (indentWidth * level) text.toList :: rows, ?_, ?_⟩
      · rw [List.map_cons, Layout.readRows, readRow_line hclause, hrows]
        rfl
      · have hcode : Holds (.code (indentWidth * level) text.toList :: rows) _ :=
          .code hclause.spelt_self hholds
        rwa [Nat.mul_div_cancel_left level (by decide : 0 < indentWidth)] at hcode

end Layout

end Offside
