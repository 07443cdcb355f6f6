import Mathlib.Data.List.Forall2
import Offside.Proofs.Literals

/-!
# The law of layout

A text has a layout if no line has a tab and all code is indented by a multiple of four spaces; the
first line that is not so is the error. The marked text has a line for each line of the text, and
the braces that are put into it follow the levels:

* `Layout.aligned_or_fault` -- a text has a layout, or a first line that is not aligned;
* `Layout.Part`, `Layout.Marks` -- what stands on the lines of a marked text, and the level that the
  braces lead to;
* `Layout.marks_write` -- rows are written so;
* `Layout.mark_law` -- the law.
-/

namespace Offside.Layout

/-! ## 1. Lines that have a layout -/

theorem readRows_of_aligned {lines : List (List Char)} (h : ∀ line ∈ lines, Aligned line)
    (number : Nat) : readRows number lines = .ok (lines.map row) := by
  induction lines generalizing number with
  | nil => rfl
  | cons line lines ih =>
      obtain ⟨hline, hlines⟩ := List.forall_mem_cons.1 h
      rw [readRows, readRow_eq, if_pos hline, ih hlines]
      rfl

/-- The first line that is not aligned is the error. -/
theorem readRows_of_fault {before after : List (List Char)} {line : List Char}
    (hbefore : ∀ other ∈ before, Aligned other) (hline : ¬Aligned line) (number : Nat) :
    readRows number (before ++ line :: after) = .error (fault (number + before.length) line) := by
  induction before generalizing number with
  | nil =>
      rw [List.nil_append, readRows, readRow_eq, if_neg hline]
      rfl
  | cons other before ih =>
      obtain ⟨hother, hbefore⟩ := List.forall_mem_cons.1 hbefore
      have hcount : number + (other :: before).length = number + 1 + before.length := by
        rw [List.length_cons]
        omega
      rw [List.cons_append, readRows, readRow_eq, if_pos hother, ih hbefore, hcount]
      rfl

/-- A text has a layout, or a first line that is not aligned. -/
theorem aligned_or_fault (lines : List (List Char)) :
    (∀ line ∈ lines, Aligned line) ∨
      ∃ before line after, lines = before ++ line :: after ∧
        (∀ other ∈ before, Aligned other) ∧ ¬Aligned line := by
  cases hfind : lines.find? fun line => !decide (Aligned line) with
  | none =>
      refine .inl fun line hline => ?_
      simpa using List.find?_eq_none.1 hfind line hline
  | some line =>
      obtain ⟨hline, before, after, rfl, hbefore⟩ := List.find?_eq_some_iff_append.1 hfind
      refine .inr ⟨before, line, after, rfl, fun other hother => ?_, by simpa using hline⟩
      simpa using hbefore other hother

/-! ## 2. Braces -/

/-- The opening braces less the closing ones. -/
def excess (text : List Char) : Int :=
  text.count '\x7b' - text.count '\x7d'

@[simp] theorem excess_nil : excess [] = 0 := rfl

@[simp] theorem excess_append (first second : List Char) :
    excess (first ++ second) = excess first + excess second := by
  simp only [excess, List.count_append]
  omega

theorem excess_opening (n : Nat) : excess (List.replicate n '\x7b') = n := by
  simp [excess, List.count_replicate]

theorem excess_closing (n : Nat) : excess (List.replicate n '\x7d') = -n := by
  simp [excess, List.count_replicate]

/-- Braces lead from one level to another. -/
theorem excess_braces (before after : Nat) : (before : Int) + excess (braces before after) = after := by
  rw [braces, excess_append, excess_opening, excess_closing]
  omega

/-- On the way no level is negative. -/
theorem excess_take_braces (before after n : Nat) :
    0 ≤ (before : Int) + excess ((braces before after).take n) := by
  rw [braces, List.take_append, List.take_replicate, List.take_replicate, excess_append,
    excess_opening, excess_closing]
  omega

theorem mem_braces {before after : Nat} {c : Char} (h : c ∈ braces before after) :
    c = '\x7b' ∨ c = '\x7d' := by
  rcases List.mem_append.1 h with h | h
  · exact .inl (List.eq_of_mem_replicate h)
  · exact .inr (List.eq_of_mem_replicate h)

/-! ## 3. The lines of a marked text -/

/-- A line of a marked text: the braces that are put in front of it, and the rest. -/
structure Part where
  braces : List Char
  rest : List Char

namespace Part

/-- The text of the line. -/
def text (part : Part) : List Char :=
  part.braces ++ part.rest

/-- The part marks the line: it is empty if the line is bare, and otherwise the content of the line
stands between braces and a terminator. -/
structure Marks (part : Part) (line : List Char) : Prop where
  empty_iff : part.text = [] ↔ isBare line = true
  braces : ∀ c ∈ part.braces, c = '\x7b' ∨ c = '\x7d'
  rest : isBare line = false → part.rest = Text.trimEnd (content line) ++ [';']

end Part

/-- The braces of parts. -/
def inserted (parts : List Part) : List Char :=
  parts.flatMap Part.braces

/-- Parts mark the lines, with the braces `closing` after the last of them. Counted from level
`before`, the inserted braces lead up to the content of each line with code to its level, never below
zero, and back to zero at the end. -/
structure Marks (before : Nat) (lines : List (List Char)) (parts : List Part) (closing : List Char) :
    Prop where
  each : List.Forall₂ Part.Marks parts lines
  closes : ∀ c ∈ closing, c = '\x7d'
  level : ∀ i line, lines[i]? = some line → isBare line = false →
    before + excess (inserted (parts.take (i + 1))) = (leadingSpaces line / indentWidth : Nat)
  nonneg : ∀ n, 0 ≤ before + excess ((inserted parts ++ closing).take n)
  zero : before + excess (inserted parts ++ closing) = 0

/-- The part that marks a line after level `before`. -/
def part (before : Nat) (line : List Char) : Part :=
  if isBare line then ⟨[], []⟩
  else ⟨braces before (leadingSpaces line / indentWidth), Text.trimEnd (content line) ++ [';']⟩

theorem part_marks (before : Nat) (line : List Char) : (part before line).Marks line := by
  cases hbare : isBare line with
  | true =>
      rw [part, hbare, if_pos rfl]
      exact ⟨⟨fun _ => hbare, fun _ => rfl⟩, fun _ hc => absurd hc List.not_mem_nil,
        fun hcode => by rw [hbare] at hcode; cases hcode⟩
  | false =>
      rw [part, hbare, if_neg Bool.false_ne_true]
      refine ⟨⟨fun hnil => ?_, fun h => by rw [hbare] at h; cases h⟩, fun _ => mem_braces,
        fun _ => rfl⟩
      have hend := (List.append_eq_nil_iff.1 hnil).2
      exact absurd hend (List.append_ne_nil_of_right_ne_nil _ (List.cons_ne_nil _ _))

theorem text_part (before : Nat) (line : List Char) :
    (part before line).text = writeRow before (row line) := by
  rw [part, row]
  split
  · rfl
  · exact (List.append_assoc ..).symm

/-- The braces of a part lead to the level after its line. -/
theorem excess_part (before : Nat) (line : List Char) :
    (before : Int) + excess (part before line).braces = (row line).level before := by
  rw [part, row]
  split
  · exact Int.add_zero _
  · exact excess_braces before _

theorem excess_take_part (before : Nat) (line : List Char) (n : Nat) :
    0 ≤ (before : Int) + excess ((part before line).braces.take n) := by
  rw [part]
  split
  · simp
  · exact excess_take_braces before _ n

theorem level_row {line : List Char} (h : isBare line = false) (before : Nat) :
    (row line).level before = leadingSpaces line / indentWidth := by
  rw [row, h]
  rfl

theorem inserted_cons (first : Part) (parts : List Part) :
    inserted (first :: parts) = first.braces ++ inserted parts := rfl

/-- After the first part, the others go on at the level that it leads to. -/
theorem excess_take_cons {before after : Nat} {front rest : List Char}
    (hfront : (before : Int) + excess front = after)
    (hfirst : ∀ n, 0 ≤ (before : Int) + excess (front.take n))
    (hrest : ∀ n, 0 ≤ (after : Int) + excess (rest.take n)) (n : Nat) :
    0 ≤ (before : Int) + excess ((front ++ rest).take n) := by
  rw [List.take_append, excess_append]
  rcases Nat.le_total n front.length with hle | hle
  · have hnone : rest.take (n - front.length) = [] := by
      rw [Nat.sub_eq_zero_of_le hle, List.take_zero]
    have hstart := hfirst n
    rw [hnone, excess_nil]
    omega
  · have hmore := hrest (n - front.length)
    rw [List.take_of_length_le hle]
    omega

/-- After the last line, the levels that are open are closed. -/
theorem marks_nil (before : Nat) : Marks before [] [] (braces before 0) := by
  refine ⟨.nil, fun c hc => ?_, fun i line hline => ?_, excess_take_braces before 0,
    excess_braces before 0⟩
  · rw [braces, Nat.zero_sub] at hc
    exact List.eq_of_mem_replicate hc
  · cases hline

/-- **One more line in front.** -/
theorem Marks.cons {before : Nat} {line : List Char} {lines : List (List Char)} {parts : List Part}
    {closing : List Char} (h : Marks ((row line).level before) lines parts closing) :
    Marks before (line :: lines) (part before line :: parts) closing := by
  have hlevel := excess_part before line
  refine ⟨.cons (part_marks before line) h.each, h.closes, fun i other hother hcode => ?_, ?_, ?_⟩
  · rw [List.take_succ_cons, inserted_cons, excess_append]
    cases i with
    | zero =>
        cases hother
        rw [level_row hcode] at hlevel
        rw [List.take_zero]
        change _ + (_ + 0) = _
        omega
    | succ i =>
        have hrest := h.level i other hother hcode
        omega
  · rw [inserted_cons, List.append_assoc]
    exact excess_take_cons hlevel (excess_take_part before line) h.nonneg
  · have hrest := h.zero
    rw [inserted_cons, List.append_assoc, excess_append]
    omega

theorem not_mem_writeRow {line : List Char} (h : '\n' ∉ line) (before : Nat) :
    '\n' ∉ writeRow before (row line) := by
  have hcontent : '\n' ∉ Text.trimEnd (content line) := fun hmem => by
    have hsub : Text.trimEnd (content line) <+: content line := List.rdropWhile_prefix _ _
    have hcode := (List.dropWhile_sublist _).subset (hsub.subset hmem)
    have hline : withoutComment .outside line <+: line := withoutComment_prefix .outside line
    exact h (hline.subset hcode)
  rw [row]
  split
  · exact List.not_mem_nil
  · rw [writeRow, List.mem_append, List.mem_append, not_or, not_or]
    refine ⟨⟨fun hmem => ?_, hcontent⟩, by decide⟩
    rcases mem_braces hmem with hc | hc <;> cases hc

/-- **Lines are written as parts that mark them**, with a line break after each but the last. -/
theorem marks_write {lines : List (List Char)} (hne : lines ≠ []) (h : ∀ line ∈ lines, '\n' ∉ line)
    (before : Nat) :
    ∃ init last closing, Marks before lines (init ++ [last]) closing ∧
      Text.pieces '\n' (write before (lines.map row)) =
        init.map Part.text ++ [last.text ++ closing] := by
  induction lines generalizing before with
  | nil => exact absurd rfl hne
  | cons line lines ih =>
      obtain ⟨hline, hlines⟩ := List.forall_mem_cons.1 h
      have hrow := not_mem_writeRow hline before
      cases lines with
      | nil =>
          refine ⟨[], part before line, _, (marks_nil _).cons, ?_⟩
          have hclosing : '\n' ∉ braces ((row line).level before) 0 := fun hmem => by
            rcases mem_braces hmem with hc | hc <;> cases hc
          have hall : '\n' ∉ writeRow before (row line) ++ braces ((row line).level before) 0 :=
            fun hmem => (List.mem_append.1 hmem).elim hrow hclosing
          have hpieces := Text.pieces_append hall []
          rw [List.append_nil] at hpieces
          rw [List.map_singleton, write, hpieces, text_part]
          simp [Text.pieces]
      | cons next lines =>
          obtain ⟨init, last, closing, hmarks, htext⟩ :=
            ih (List.cons_ne_nil next lines) hlines ((row line).level before)
          refine ⟨part before line :: init, last, closing, hmarks.cons, ?_⟩
          have hwrite : write before ((line :: next :: lines).map row) =
              writeRow before (row line) ++
                '\n' :: write ((row line).level before) ((next :: lines).map row) := rfl
          rw [hwrite, Text.pieces_append hrow, Text.pieces_separator, htext, List.map_cons, text_part,
            List.modifyHead_cons, List.append_nil, List.cons_append]

/-! ## 4. The law -/

theorem mark_of_aligned {source : String}
    (h : ∀ line ∈ Text.pieces '\n' source.toList, Aligned line) :
    mark source =
      .ok (String.ofList (write 0 ((Text.pieces '\n' source.toList).map row))) := by
  rw [mark, lines, readRows_withoutReturn, readRows_of_aligned h]
  rfl

theorem mark_of_fault {source : String} {before after : List (List Char)} {line : List Char}
    (hlines : Text.pieces '\n' source.toList = before ++ line :: after)
    (hbefore : ∀ other ∈ before, Aligned other) (hline : ¬Aligned line) :
    mark source = .error (fault (before.length + 1) line) := by
  rw [mark, lines, readRows_withoutReturn, hlines, readRows_of_fault hbefore hline, Nat.add_comm]
  rfl

/-- A text is marked exactly if all of its lines are aligned. -/
theorem exists_mark_iff (source : String) :
    (∃ marked, mark source = .ok marked) ↔
      ∀ line ∈ Text.pieces '\n' source.toList, Aligned line := by
  refine ⟨?_, fun h => ⟨_, mark_of_aligned h⟩⟩
  rintro ⟨marked, hmark⟩
  rcases aligned_or_fault (Text.pieces '\n' source.toList) with
    haligned | ⟨before, line, after, hlines, hbefore, hline⟩
  · exact haligned
  · rw [mark_of_fault hlines hbefore hline] at hmark
    cases hmark

/-- The error of a text is that of its first line that is not aligned. -/
theorem mark_eq_error_iff {source : String} {error : LayoutError} :
    mark source = .error error ↔
      ∃ before line after, Text.pieces '\n' source.toList = before ++ line :: after ∧
        (∀ other ∈ before, Aligned other) ∧ ¬Aligned line ∧
          error = fault (before.length + 1) line := by
  constructor
  · intro hmark
    rcases aligned_or_fault (Text.pieces '\n' source.toList) with
      haligned | ⟨before, line, after, hlines, hbefore, hline⟩
    · rw [mark_of_aligned haligned] at hmark
      cases hmark
    · rw [mark_of_fault hlines hbefore hline] at hmark
      cases hmark
      exact ⟨before, line, after, hlines, hbefore, hline, rfl⟩
  · rintro ⟨before, line, after, hlines, hbefore, hline, rfl⟩
    exact mark_of_fault hlines hbefore hline

/-- The lines of a marked text are parts that mark those of the text. -/
theorem marks_of_mark {source marked : String} (h : mark source = .ok marked) :
    ∃ init last closing, Marks 0 (Text.pieces '\n' source.toList) (init ++ [last]) closing ∧
      Text.pieces '\n' marked.toList = init.map Part.text ++ [last.text ++ closing] := by
  rw [mark_of_aligned ((exists_mark_iff source).1 ⟨marked, h⟩)] at h
  cases h
  rw [String.toList_ofList]
  exact marks_write (Text.pieces_ne_nil _ _) (fun _ => Text.not_mem_of_mem_pieces) 0

/-- **The law of layout.** A text is marked exactly if all of its lines are aligned; otherwise the
error is that of the first line which is not. A marked text has as many lines as the text, and its
lines are parts that mark those of the text. -/
theorem mark_law (source : String) :
    ((∃ marked, mark source = .ok marked) ↔
      ∀ line ∈ Text.pieces '\n' source.toList, Aligned line) ∧
    (∀ error, mark source = .error error ↔
      ∃ before line after, Text.pieces '\n' source.toList = before ++ line :: after ∧
        (∀ other ∈ before, Aligned other) ∧ ¬Aligned line ∧
          error = fault (before.length + 1) line) ∧
    ∀ marked, mark source = .ok marked →
      (Text.pieces '\n' marked.toList).length = (Text.pieces '\n' source.toList).length ∧
      ∃ init last closing,
        Marks 0 (Text.pieces '\n' source.toList) (init ++ [last]) closing ∧
        Text.pieces '\n' marked.toList = init.map Part.text ++ [last.text ++ closing] := by
  refine ⟨exists_mark_iff source, fun _ => mark_eq_error_iff, fun marked hmark => ?_⟩
  obtain ⟨init, last, closing, hmarks, hlines⟩ := marks_of_mark hmark
  refine ⟨?_, init, last, closing, hmarks, hlines⟩
  rw [hlines, ← hmarks.each.length_eq, List.length_append, List.length_append, List.length_map]
  rfl

/-- Two levels are gained at once, a comment keeps them, and the end of the text closes them. -/
example : mark "a\n        b \"#\" # c\n  #\n    d" =
    .ok "a;\n\x7b\x7bb \"#\";\n\n\x7dd;\x7d" := by
  decide +kernel

end Offside.Layout
