import Offside.Proofs.Literals

/-!
# Words and what stands between them

Between the words of a text there are only characters that separate tokens, and comments. What
stands there does not matter for the tokens:

* `Skipped` -- texts without words;
* `Lexeme.gaps` -- what stands before, between and after the lexemes of a text;
* `weave` -- a text from its gaps and its words;
* `Woven` -- a tiling with each gap in one piece;
* `Tiled.weave` -- words are read as their tokens, whatever the gaps around them are.
-/

namespace Offside

namespace Text

theorem size_pos {text : List Char} (h : text ≠ []) : 0 < size text := by
  obtain ⟨c, rest, rfl⟩ := List.exists_cons_of_ne_nil h
  exact Nat.lt_of_lt_of_le c.utf8Size_pos (Nat.le_add_right _ _)

theorem size_toList (text : String) : size text.toList = text.utf8ByteSize := by
  suffices h : ∀ chars : List Char, size chars = (String.ofList chars).utf8ByteSize by
    rw [h, String.ofList_toList]
  intro chars
  induction chars with
  | nil => rfl
  | cons c chars ih =>
      rw [size_cons, ih, String.ofList_cons, String.utf8ByteSize_append,
        String.utf8ByteSize_singleton]

end Text

/-! ## 1. Texts without words -/

/-- A text of characters that separate tokens and of comments. A comment goes up to the end of its
line; only at the very end of the last text it may be left open. -/
inductive Skipped (last : Bool) : List Char → Prop
  | nil : Skipped last []
  | gap {c : Char} {rest : List Char} (h : Token.isGap c = true) (tail : Skipped last rest) :
      Skipped last (c :: rest)
  | comment {chars rest : List Char} (inline : '\n' ∉ chars) (tail : Skipped last rest) :
      Skipped last ('#' :: chars ++ '\n' :: rest)
  | openComment {chars : List Char} (inline : '\n' ∉ chars) (h : last = true) :
      Skipped last ('#' :: chars)

namespace Skipped

theorem of_newline {last : Bool} {text rest : List Char} (h : Skipped last text)
    (htext : text = '\n' :: rest) : Skipped last rest := by
  cases h with
  | nil => cases htext
  | gap _ tail =>
      obtain ⟨_, rfl⟩ := List.cons.inj htext
      exact tail
  | comment _ _ | openComment _ _ => exact absurd (List.cons.inj htext).1 (by decide)

/-- A text without words goes on with no token that stands before it. -/
theorem joins {last : Bool} {text : List Char} (h : Skipped last text) {c : Char}
    (hc : c ∈ text.head?) : Token.joins c = false := by
  cases h with
  | nil => cases hc
  | gap hgap _ =>
      cases hc
      simp only [Token.isGap, Bool.or_eq_true, beq_iff_eq] at hgap
      rcases hgap with (((rfl | rfl) | rfl) | rfl) | rfl <;> decide
  | comment _ _ | openComment _ _ =>
      cases hc
      decide

/-- Before a tiled text there may be any text without words. -/
theorem tiled {last : Bool} {text rest : List Char} {lexemes : List Lexeme}
    (h : Skipped last text) (hlast : last = true → rest = []) {position : Nat}
    (tail : Tiled (position + Text.size text) rest lexemes) :
    Tiled position (text ++ rest) lexemes := by
  induction h generalizing position with
  | nil => exact tail
  | @gap c text hgap _ ih =>
      rw [Text.size_cons, ← Nat.add_assoc] at tail
      exact .gap hgap (ih tail)
  | @comment chars text inline _ ih =>
      rw [Text.size_append, Text.size_cons '\n', ← Nat.add_assoc, ← Nat.add_assoc] at tail
      rw [List.append_assoc]
      refine .comment inline (fun c hc => (Option.some.inj hc).symm) ?_
      exact .gap (by decide) (ih tail)
  | @openComment chars inline hopen =>
      have hrest := hlast hopen
      subst hrest
      exact .comment inline nofun tail

end Skipped

/-! ## 2. Gaps and words -/

/-- Texts that stand around words: before the first, between them and after the last. -/
inductive Gaps : List (List Char) → Prop
  | last {gap : List Char} (h : Skipped true gap) : Gaps [gap]
  | cons {gap : List Char} {gaps : List (List Char)} (h : Skipped false gap) (tail : Gaps gaps) :
      Gaps (gap :: gaps)

/-- What stands in the text from a position on before, between and after the lexemes. -/
def Lexeme.gaps (text : List Char) (position : Nat) : List Lexeme → List (List Char)
  | [] => [Text.slice text ⟨position, Text.size text⟩]
  | lexeme :: lexemes =>
    Text.slice text ⟨position, lexeme.span.start⟩ :: gaps text lexeme.span.stop lexemes

/-- What stands in the text at the spans of the lexemes. -/
def Lexeme.words (text : List Char) (lexemes : List Lexeme) : List (List Char) :=
  lexemes.map fun lexeme => Text.slice text lexeme.span

/-- The text of gaps and words in turn. -/
def weave : List (List Char) → List (List Char) → List Char
  | [], _ => []
  | gap :: _, [] => gap
  | gap :: gaps, word :: words => gap ++ (word ++ weave gaps words)

/-- The characters are a word that is read as the token. -/
def Word (chars : List Char) (token : Token) : Prop :=
  ∃ pending : Pending, Pending.Spells chars pending ∧ pending.token? = some token

/-- The text from `position` on is tiled by gaps and words in turn. -/
inductive Woven : Nat → List Char → List Lexeme → Prop
  | last {position : Nat} {gap : List Char} (skipped : Skipped true gap) : Woven position gap []
  | word {position : Nat} {gap chars rest : List Char} {token : Token} {lexemes : List Lexeme}
      (skipped : Skipped false gap) (word : Word chars token)
      (tail : Woven (position + Text.size gap + Text.size chars) rest lexemes) :
      Woven position (gap ++ (chars ++ rest))
        (⟨token, ⟨position + Text.size gap, position + Text.size gap + Text.size chars⟩⟩ :: lexemes)

namespace Woven

theorem gap {position : Nat} {c : Char} {text : List Char} {lexemes : List Lexeme}
    (hgap : Token.isGap c = true) (h : Woven (position + c.utf8Size) text lexemes) :
    Woven position (c :: text) lexemes := by
  cases h with
  | last skipped => exact .last (.gap hgap skipped)
  | @word _ gap chars rest token lexemes skipped word tail =>
      rw [Nat.add_assoc position, ← Text.size_cons] at tail ⊢
      exact .word (.gap hgap skipped) word tail

theorem comment {position : Nat} {chars text : List Char} {lexemes : List Lexeme}
    (inline : '\n' ∉ chars) (stops : ∀ c ∈ text.head?, c = '\n')
    (h : Woven (position + Text.size ('#' :: chars)) text lexemes) :
    Woven position ('#' :: chars ++ text) lexemes := by
  cases h with
  | last skipped =>
      cases text with
      | nil =>
          rw [List.append_nil]
          exact .last (.openComment inline rfl)
      | cons c text =>
          obtain rfl := stops c rfl
          exact .last (.comment inline (skipped.of_newline rfl))
  | @word _ gap word rest token lexemes skipped hword tail =>
      cases gap with
      | nil =>
          -- the comment ends with its line, and no word starts with a line break
          obtain ⟨pending, spells, -⟩ := hword
          obtain ⟨c, more, rfl, hsolid⟩ := spells.solid
          obtain rfl := stops c rfl
          exact absurd hsolid (by decide)
      | cons c gap =>
          obtain rfl := stops c rfl
          have hgap : Skipped false ('#' :: chars ++ '\n' :: gap) :=
            .comment inline (skipped.of_newline rfl)
          rw [Nat.add_assoc position, ← Text.size_append] at tail ⊢
          rw [← List.append_assoc]
          exact .word hgap hword tail

/-- Every tiling is one of gaps and words in turn. -/
theorem of_tiled {position : Nat} {text : List Char} {lexemes : List Lexeme}
    (h : Tiled position text lexemes) : Woven position text lexemes := by
  induction h with
  | nil => exact .last .nil
  | gap hgap _ ih => exact ih.gap hgap
  | comment inline stops _ ih => exact ih.comment inline stops
  | word spells ends _ _ ih => exact .word .nil ⟨_, spells, ends⟩ ih

/-! ## 3. Where the words stand -/

/-- The words of a tiling stand inside it, and none of them is empty. -/
theorem bounds {position : Nat} {text : List Char} {lexemes : List Lexeme}
    (h : Woven position text lexemes) : ∀ lexeme ∈ lexemes, position ≤ lexeme.span.start ∧
      lexeme.span.start < lexeme.span.stop ∧ lexeme.span.stop ≤ position + Text.size text := by
  induction h with
  | last _ => nofun
  | @word position gap chars rest token lexemes _ word _ ih =>
      have hpos : 0 < Text.size chars := by
        obtain ⟨pending, spells, -⟩ := word
        exact Text.size_pos spells.ne_nil
      rw [Text.size_append, Text.size_append]
      intro lexeme hmem
      rcases List.mem_cons.1 hmem with rfl | hmem
      · dsimp only
        exact ⟨Nat.le_add_right _ _, by omega, by omega⟩
      · obtain ⟨hfirst, hsome, hlast⟩ := ih lexeme hmem
        exact ⟨by omega, hsome, by omega⟩

/-- A word ends before the next one starts. -/
theorem pairwise {position : Nat} {text : List Char} {lexemes : List Lexeme}
    (h : Woven position text lexemes) :
    lexemes.Pairwise fun first second => first.span.stop ≤ second.span.start := by
  induction h with
  | last _ => exact .nil
  | word _ _ tail ih => exact .cons (fun lexeme hmem => (tail.bounds lexeme hmem).1) ih

/-- Cut at the spans of its lexemes, a text falls into gaps and words. -/
theorem cut {position : Nat} {text : List Char} {lexemes : List Lexeme}
    (h : Woven position text lexemes) (front : List Char) (hfront : position = Text.size front) :
    ∃ gaps words, Lexeme.gaps (front ++ text) position lexemes = gaps ∧
      Lexeme.words (front ++ text) lexemes = words ∧ Gaps gaps ∧
      List.Forall₂ Word words (lexemes.map (·.token)) ∧ text = weave gaps words := by
  induction h generalizing front with
  | @last position gap skipped =>
      have hgap : Text.slice (front ++ gap) ⟨position, Text.size (front ++ gap)⟩ = gap := by
        have hslice := Text.slice_append front gap []
        rwa [List.append_nil, ← Text.size_append, ← hfront] at hslice
      refine ⟨[gap], [], ?_, rfl, .last skipped, .nil, rfl⟩
      rw [Lexeme.gaps, hgap]
  | @word position gap chars rest token lexemes skipped word tail ih =>
      have hgap : Text.slice (front ++ (gap ++ (chars ++ rest)))
          ⟨position, position + Text.size gap⟩ = gap := by
        rw [hfront]
        exact Text.slice_append front gap (chars ++ rest)
      have hword : Text.slice (front ++ (gap ++ (chars ++ rest)))
          ⟨position + Text.size gap, position + Text.size gap + Text.size chars⟩ = chars := by
        rw [← List.append_assoc, hfront, ← Text.size_append]
        exact Text.slice_append (front ++ gap) chars rest
      have hnext : position + Text.size gap + Text.size chars =
          Text.size (front ++ (gap ++ chars)) := by
        rw [hfront, Text.size_append, Text.size_append, Nat.add_assoc]
      have hfull : front ++ (gap ++ (chars ++ rest)) = front ++ (gap ++ chars) ++ rest := by
        rw [List.append_assoc, List.append_assoc]
      obtain ⟨gaps, words, hgaps, hwords, hspaced, hread, htext⟩ := ih _ hnext
      rw [← hfull] at hgaps hwords
      refine ⟨gap :: gaps, chars :: words, ?_, ?_, .cons skipped hspaced, .cons word hread, ?_⟩
      · rw [Lexeme.gaps, hgap, hgaps]
      · rw [Lexeme.words, List.map_cons, hword]
        exact congrArg _ hwords
      · rw [weave, ← htext]

end Woven

/-! ## 4. Other gaps -/

/-- The first character of a woven text is that of its first gap. -/
theorem head?_weave {gap : List Char} (hgap : gap ≠ []) (gaps words : List (List Char)) :
    (weave (gap :: gaps) words).head? = gap.head? := by
  obtain ⟨c, rest, rfl⟩ := List.exists_cons_of_ne_nil hgap
  cases words <;> rfl

/-- **Words are read as their tokens, whatever the gaps around them are.** -/
theorem Tiled.weave {words : List (List Char)} {tokens : List Token}
    (h : List.Forall₂ Word words tokens) {gaps : List (List Char)} (hgaps : Gaps gaps)
    (hlength : gaps.length = words.length + 1) (hsome : ∀ gap ∈ gaps, gap ≠ []) (position : Nat) :
    ∃ lexemes, Tiled position (weave gaps words) lexemes ∧ lexemes.map (·.token) = tokens := by
  induction h generalizing gaps position with
  | nil =>
      cases hgaps with
      | @last gap skipped =>
          have hgap := skipped.tiled (fun _ => rfl) (.nil : Tiled (position + Text.size gap) [] [])
          rw [List.append_nil] at hgap
          exact ⟨[], hgap, rfl⟩
      | cons _ tail =>
          cases tail <;> cases hlength
  | @cons chars token words tokens word _ ih =>
      cases hgaps with
      | last _ => cases hlength
      | @cons gap gaps skipped tail =>
          obtain ⟨pending, spells, ends⟩ := word
          obtain ⟨lexemes, hrest, htokens⟩ := ih tail (Nat.succ.inj hlength)
            (fun gap hmem => hsome gap (List.mem_cons_of_mem _ hmem))
            (position + Text.size gap + Text.size chars)
          have hstops : ∀ c ∈ (Offside.weave gaps words).head?, pending.extend c = none := by
            intro c hc
            refine Pending.extend_eq_none ends ?_
            cases tail with
            | last next | cons next _ =>
                rw [head?_weave (hsome _ (List.mem_cons_of_mem _ List.mem_cons_self))] at hc
                exact next.joins hc
          refine ⟨_, skipped.tiled nofun (.word spells ends hstops hrest), ?_⟩
          rw [List.map_cons, htokens]

/-- **The lexemes of a text tile it, and its tokens do not depend on what stands between them.** -/
theorem read_weave {source : String} {lexemes : List Lexeme}
    (h : Token.read source = .ok lexemes) :
    (∀ lexeme ∈ lexemes, lexeme.span.start < lexeme.span.stop ∧
      lexeme.span.stop ≤ source.utf8ByteSize) ∧
    (lexemes.Pairwise fun first second => first.span.stop ≤ second.span.start) ∧
    Gaps (Lexeme.gaps source.toList 0 lexemes) ∧
    source.toList =
      weave (Lexeme.gaps source.toList 0 lexemes) (Lexeme.words source.toList lexemes) ∧
    ∀ gaps, Gaps gaps → gaps.length = lexemes.length + 1 → (∀ gap ∈ gaps, gap ≠ []) →
      ∃ respaced,
        Token.read (String.ofList (weave gaps (Lexeme.words source.toList lexemes))) =
          .ok respaced ∧
        respaced.map (·.token) = lexemes.map (·.token) := by
  have hwoven := Woven.of_tiled (Token.read_eq_ok_iff.1 h)
  obtain ⟨gaps, words, hgaps, hwords, hspaced, hread, htext⟩ := hwoven.cut [] rfl
  rw [List.nil_append] at hgaps hwords
  subst hgaps hwords
  refine ⟨fun lexeme hmem => ?_, hwoven.pairwise, hspaced, htext, ?_⟩
  · obtain ⟨-, hsome, hstop⟩ := hwoven.bounds lexeme hmem
    rw [Nat.zero_add, Text.size_toList] at hstop
    exact ⟨hsome, hstop⟩
  · intro others hothers hlength hsome
    have hcount : others.length = (Lexeme.words source.toList lexemes).length + 1 := by
      rw [hlength, Lexeme.words, List.length_map]
    obtain ⟨respaced, htiled, htokens⟩ := Tiled.weave hread hothers hcount hsome 0
    refine ⟨respaced, ?_, htokens⟩
    rw [Token.read_ofList]
    exact htiled.scan

/-- Words without a gap between them, a comment with a quote, and a literal with a `#`. -/
def noteSource : String :=
  "x=12y# \"\n\"é #\""

def noteLexemes : List Lexeme :=
  [⟨.name "x", 0, 1⟩, ⟨.assign, 1, 2⟩, ⟨.int 12, 2, 4⟩, ⟨.name "y", 4, 5⟩, ⟨.string "é #", 9, 15⟩]

def noteGaps : List (List Char) :=
  [[' '], ['#', '(', '\n'], ['\t'], ['\r', '\n'], ['\x0c', '#', ' ', '\n'], [' ', '#', '!']]

theorem read_weave_noteSource :
    Token.read noteSource = .ok noteLexemes ∧ Gaps noteGaps ∧
      noteGaps.length = noteLexemes.length + 1 ∧ (∀ gap ∈ noteGaps, gap ≠ []) ∧
      weave noteGaps (Lexeme.words noteSource.toList noteLexemes) =
        " x#(\n=\t12\r\ny\x0c# \n\"é #\" #!".toList ∧
      ∃ respaced,
        Token.read (String.ofList (weave noteGaps (Lexeme.words noteSource.toList noteLexemes))) =
          .ok respaced ∧
        respaced.map (·.token) = noteLexemes.map (·.token) := by
  have hread : Token.read noteSource = .ok noteLexemes := by decide +kernel
  have hinner (c : Char) (hc : Token.isGap c = true) : Skipped false [c] := .gap hc .nil
  have hcomment (c : Char) (hc : c ≠ '\n') : Skipped false ('#' :: [c] ++ ['\n']) :=
    .comment (by simpa using hc.symm) .nil
  have hgaps : Gaps noteGaps := by
    refine .cons (hinner ' ' rfl) (.cons (hcomment '(' (by decide)) (.cons (hinner '\t' rfl) ?_))
    refine .cons (.gap rfl (hinner '\n' rfl)) (.cons (.gap rfl (hcomment ' ' (by decide))) ?_)
    exact .last (.gap rfl (.openComment (by decide) rfl))
  have hsome : ∀ gap ∈ noteGaps, gap ≠ [] := by decide
  obtain ⟨-, -, -, -, hother⟩ := read_weave hread
  exact ⟨hread, hgaps, rfl, hsome, by decide +kernel, hother noteGaps hgaps rfl hsome⟩

end Offside
