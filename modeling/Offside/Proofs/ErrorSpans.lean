import Offside.Proofs.Blame
import Offside.Proofs.Characters
import Offside.Proofs.Except
import Offside.Proofs.Spacing

/-!
# Where errors are

An error that points to a part of the marked text points to one that is there:

* `Text.Boundary` -- positions between characters;
* `Woven.stands` -- lexemes stand between such positions;
* `Stuck` -- a text that is tiled up to a part that starts no word;
* `Lexer.stuck_of_scan` -- the reader fails only at such a part, and reports it;
* `compile_error_span` -- the spans of all errors of a compilation.
-/

namespace Offside

/-! ## 1. Positions between characters -/

namespace Text

/-- The position is at the start of a character, or at the end of the text. -/
def Boundary (text : List Char) (position : Nat) : Prop :=
  ∃ front back, text = front ++ back ∧ position = size front

theorem Boundary.le {text : List Char} {position : Nat} (h : Boundary text position) :
    position ≤ size text := by
  obtain ⟨front, back, rfl, rfl⟩ := h
  rw [size_append]
  exact Nat.le_add_right _ _

theorem Boundary.isValid {text : String} {position : Nat} (h : Boundary text.toList position) :
    String.Pos.Raw.IsValid text ⟨position⟩ := by
  obtain ⟨front, back, htext, rfl⟩ := h
  refine String.Pos.Raw.isValid_iff_exists_append.2
    ⟨String.ofList front, String.ofList back, ?_, ?_⟩
  · rw [← String.ofList_append, ← htext, String.ofList_toList]
  · have hsize := size_toList (String.ofList front)
    rw [String.toList_ofList] at hsize
    rw [hsize]
    rfl

end Text

/-- A word stands between two characters of the text. -/
theorem Woven.stands {position : Nat} {text : List Char} {lexemes : List Lexeme}
    (h : Woven position text lexemes) (front : List Char) (hfront : position = Text.size front) :
    ∀ lexeme ∈ lexemes, Text.Boundary (front ++ text) lexeme.span.start ∧
      Text.Boundary (front ++ text) lexeme.span.stop := by
  induction h generalizing front with
  | last _ => nofun
  | @word position gap chars rest token lexemes _ _ _ ih =>
      have hstart : position + Text.size gap = Text.size (front ++ gap) := by
        rw [hfront, Text.size_append]
      have hstop : position + Text.size gap + Text.size chars =
          Text.size (front ++ gap ++ chars) := by
        rw [hstart, ← Text.size_append]
      have hall : front ++ (gap ++ (chars ++ rest)) = front ++ gap ++ chars ++ rest := by
        simp only [List.append_assoc]
      rw [hall]
      refine List.forall_mem_cons.2 ⟨⟨?_, ?_⟩, ih _ hstop⟩
      · exact ⟨front ++ gap, chars ++ rest, by simp only [List.append_assoc], hstart⟩
      · exact ⟨front ++ gap ++ chars, rest, rfl, hstop⟩

/-! ## 2. Texts that are not read to their end -/

/-- The text from `position` on is tiled up to a part that starts no word; this part is the error. -/
def Stuck (position : Nat) (text : List Char) (error : LexError) : Prop :=
  ∃ front part rest lexemes, text = front ++ (part ++ rest) ∧ part ≠ [] ∧
    Tiled position front lexemes ∧
    error = ⟨String.ofList part,
      ⟨position + Text.size front, position + Text.size front + Text.size part⟩⟩

namespace Stuck

theorem here {part : List Char} (h : part ≠ []) (position : Nat) (rest : List Char) :
    Stuck position (part ++ rest) ⟨String.ofList part, ⟨position, position + Text.size part⟩⟩ :=
  ⟨[], part, rest, [], rfl, h, .nil, rfl⟩

/-- Before the text stands something that can be read, also if less of the text follows. -/
theorem after {position : Nat} {chars text : List Char} {error : LexError}
    (hread : ∀ front lexemes, (∀ c ∈ front.head?, c ∈ text.head?) →
      Tiled (position + Text.size chars) front lexemes →
        ∃ more, Tiled position (chars ++ front) more)
    (h : Stuck (position + Text.size chars) text error) : Stuck position (chars ++ text) error := by
  obtain ⟨front, part, rest, lexemes, rfl, hpart, htiled, rfl⟩ := h
  obtain ⟨more, hmore⟩ := hread front lexemes (fun c hc => mem_head?_of_append hc) htiled
  refine ⟨chars ++ front, part, rest, more, (List.append_assoc _ _ _).symm, hpart, hmore, ?_⟩
  rw [Text.size_append, Nat.add_assoc position]

end Stuck

namespace Pending

theorem Spells.of_number {chars read : List Char} {pending : Pending} (h : Spells chars pending)
    (hnumber : pending = .number read) : chars = read.reverse := by
  induction h generalizing read with
  | start _ h =>
      subst hnumber
      cases starts_of_start h
      rfl
  | extend _ more ih =>
      subst hnumber
      cases extends_of_extend more
      rw [ih rfl, List.reverse_cons]

/-- A word that cannot end is reported, without a backslash at its end. -/
theorem Spells.of_finish {chars : List Char} {pending : Pending} (h : Spells chars pending)
    {first : Nat} {error : LexError}
    (herror : pending.finish first (first + Text.size chars) = .error error) :
    ∃ part rest, chars = part ++ rest ∧ part ≠ [] ∧
      error = ⟨String.ofList part, ⟨first, first + Text.size part⟩⟩ := by
  cases pending with
  | word _ | literal _ | comment | colon | equals | minus | complete _ => cases herror
  | number read =>
      obtain rfl := h.of_number rfl
      simp only [finish] at herror
      split at herror
      · cases herror
      · cases herror
        exact ⟨read.reverse, [], (List.append_nil _).symm, h.ne_nil, rfl⟩
  | quote read =>
      obtain rfl := h.eq_of_inside? rfl
      cases herror
      exact ⟨_, [], (List.append_nil _).symm, List.cons_ne_nil _ _, rfl⟩
  | escape read =>
      obtain rfl := h.eq_of_inside? rfl
      cases herror
      refine ⟨'\"' :: read.reverse, ['\\'], rfl, List.cons_ne_nil _ _, ?_⟩
      have hsize : Text.size ('\"' :: (read.reverse ++ ['\\'])) =
          Text.size ('\"' :: read.reverse) + 1 :=
        Text.size_append ('\"' :: read.reverse) ['\\']
      rw [openLiteral, hsize, ← Nat.add_assoc, Nat.add_sub_cancel]

/-- A word goes on up to a character that does not extend it. -/
theorem Spells.exists_longest {chars : List Char} {pending : Pending} (h : Spells chars pending)
    (text : List Char) : ∃ more longest rest, text = more ++ rest ∧ Spells (chars ++ more) longest ∧
      ∀ c ∈ rest.head?, longest.extend c = none := by
  induction text generalizing chars pending with
  | nil => exact ⟨[], pending, [], rfl, by rwa [List.append_nil], nofun⟩
  | cons c text ih =>
      cases hextend : pending.extend c with
      | none =>
          refine ⟨[], pending, c :: text, rfl, by rwa [List.append_nil], fun d hd => ?_⟩
          cases hd
          exact hextend
      | some next =>
          obtain ⟨more, longest, rest, rfl, hspells, hstops⟩ := ih (.extend h hextend)
          refine ⟨c :: more, longest, rest, rfl, ?_, hstops⟩
          rwa [List.append_assoc, List.singleton_append] at hspells

end Pending

namespace Lexer

theorem scan_of_start_eq_none {c : Char} (hgap : Token.isGap c = false)
    (h : Pending.start c = none) (position : Nat) (rest : List Char) :
    scan ⟨position, none⟩ (c :: rest) =
      .error ⟨String.ofList [c], ⟨position, position + c.utf8Size⟩⟩ := by
  have hstart : start position c =
      .error ⟨String.ofList [c], ⟨position, position + c.utf8Size⟩⟩ := by
    simp only [start, hgap, h, Bool.false_eq_true, if_false]
  have hstep : step ⟨position, none⟩ c =
      .error ⟨String.ofList [c], ⟨position, position + c.utf8Size⟩⟩ := by
    simp only [step, extend?, finish, hstart]
    rfl
  rw [scan, hstep]

/-- A word that ends is taken in, and the reader is stuck after it. -/
theorem stuck_of_word {chars : List Char} {pending : Pending} (h : Pending.Spells chars pending)
    {text : List Char} (stops : ∀ c ∈ text.head?, pending.extend c = none) {position : Nat}
    {ended : Option Lexeme} (hended : pending.finish position (position + Text.size chars) = .ok ended)
    {error : LexError} (hstuck : Stuck (position + Text.size chars) text error) :
    Stuck position (chars ++ text) error := by
  refine hstuck.after fun front lexemes hfront htiled => ?_
  rcases Pending.finish_eq_ok hended with ⟨token, htoken, -⟩ | ⟨rfl, -⟩
  · exact ⟨_, .word h htoken (fun c hc => stops c (hfront c hc)) htiled⟩
  · obtain ⟨inside, rfl, hinline⟩ := h.of_comment rfl
    refine ⟨_, .comment hinline (fun c hc => ?_) htiled⟩
    have hnone := stops c (hfront c hc)
    rw [Pending.extend] at hnone
    split at hnone
    · assumption
    · cases hnone

/-- **The reader fails only at a part that starts no word, with all before it tiled.** -/
theorem stuck_of_scan : ∀ (text : List Char) (position : Nat) {error : LexError},
    scan ⟨position, none⟩ text = .error error → Stuck position text error
  | [], _, _, h => nomatch h
  | c :: rest, position, error, h => by
      by_cases hgap : Token.isGap c = true
      · rw [scan_gap hgap] at h
        have htail := stuck_of_scan rest _ h
        rw [← Text.size_singleton] at htail
        refine htail.after fun front lexemes _ htiled => ?_
        rw [Text.size_singleton] at htiled
        exact ⟨lexemes, .gap hgap htiled⟩
      · have hsolid := Bool.eq_false_iff.2 hgap
        cases hstart : Pending.start c with
        | none =>
            rw [scan_of_start_eq_none hsolid hstart] at h
            cases h
            have hhere := Stuck.here (List.cons_ne_nil c []) position rest
            rwa [Text.size_singleton] at hhere
        | some pending =>
            obtain ⟨more, longest, after, hrest, hspells, hstops⟩ :=
              (Pending.Spells.start hsolid hstart).exists_longest rest
            have htext : c :: rest = [c] ++ more ++ after := by
              rw [hrest]
              rfl
            rw [htext] at h ⊢
            rw [hspells.scan, Pending.scan_of_stops hstops] at h
            rcases except_bind_eq_error h with herror | ⟨ended, hended, h⟩
            · obtain ⟨part, others, hchars, hpart, rfl⟩ := hspells.of_finish herror
              rw [hchars, List.append_assoc]
              exact .here hpart position _
            · rcases except_bind_eq_error h with herror | ⟨lexemes, _, hpure⟩
              · exact stuck_of_word hspells hstops hended (stuck_of_scan after _ herror)
              · cases hpure
termination_by text => text.length
decreasing_by
  · simp
  · simp only [hrest, List.length_cons, List.length_append]
    omega

end Lexer

theorem Text.size_eq (text : List Char) : size text = (String.ofList text).utf8ByteSize := by
  rw [← size_toList, String.toList_ofList]

/-- The error of a reading is a part of the text, and the text before it can be read. -/
theorem Token.read_eq_error {text : String} {error : LexError} (h : Token.read text = .error error) :
    ∃ before after, text = before ++ error.slice ++ after ∧ error.slice ≠ "" ∧
      error.span = ⟨before.utf8ByteSize, (before ++ error.slice).utf8ByteSize⟩ ∧
      ∃ lexemes, Token.read before = .ok lexemes := by
  obtain ⟨front, part, rest, lexemes, htext, hpart, htiled, rfl⟩ := Lexer.stuck_of_scan _ 0 h
  refine ⟨String.ofList front, String.ofList rest, ?_, ?_, ?_, lexemes, ?_⟩
  · rw [← String.ofList_append, ← String.ofList_append, List.append_assoc, ← htext,
      String.ofList_toList]
  · intro hempty
    rw [← String.ofList_nil] at hempty
    exact hpart (String.ofList_injective hempty)
  · rw [← String.ofList_append, ← Text.size_eq, ← Text.size_eq, Text.size_append, Nat.zero_add]
  · rw [Token.read_ofList]
    exact htiled.scan

/-! ## 3. Compilations -/

/-- The span reaches from the start of a token to the end of one, or it is the empty one at the end
of the last token. -/
def Span.Points (lexemes : List Lexeme) (span : Span) : Prop :=
  (span.start < span.stop ∧ ∃ first ∈ lexemes, ∃ last ∈ lexemes,
    span.start = first.span.start ∧ span.stop = last.span.stop) ∨ span = endSpan lexemes

theorem Woven.points {position : Nat} {text : List Char} {lexemes : List Lexeme}
    (h : Woven position text lexemes) : Located (Span.Points lexemes) lexemes where
  token lexeme hmem :=
    .inl ⟨(h.bounds lexeme hmem).2.1, lexeme, hmem, lexeme, hmem, rfl, rfl⟩
  between := by
    refine h.pairwise.imp_of_mem fun {first last} hfirst hlast hle => ?_
    refine .inl ⟨?_, first, hfirst, last, hlast, rfl, rfl⟩
    calc first.span.start
      _ < first.span.stop := (h.bounds first hfirst).2.1
      _ ≤ last.span.start := hle
      _ < last.span.stop := (h.bounds last hlast).2.1

/-- Such a span lies in the text, between characters. -/
theorem Woven.boundary {text : List Char} {lexemes : List Lexeme} (h : Woven 0 text lexemes)
    {span : Span} (hspan : span.Points lexemes) :
    span.start ≤ span.stop ∧ Text.Boundary text span.start ∧ Text.Boundary text span.stop := by
  have hstands := h.stands [] rfl
  rcases hspan with ⟨hlt, first, hfirst, last, hlast, hstart, hstop⟩ | rfl
  · rw [hstart, hstop] at hlt ⊢
    exact ⟨Nat.le_of_lt hlt, (hstands first hfirst).1, (hstands last hlast).2⟩
  · cases hlast : lexemes.getLast? with
    | none =>
        rw [endSpan, hlast]
        exact ⟨Nat.le_refl _, ⟨[], text, rfl, rfl⟩, ⟨[], text, rfl, rfl⟩⟩
    | some last =>
        have hboundary := (hstands last (List.mem_of_getLast? hlast)).2
        rw [endSpan, hlast]
        exact ⟨Nat.le_refl _, hboundary, hboundary⟩

/-- The stages at which a compilation fails. -/
theorem compile_eq_error {origin : Nat} {source : String} {error : Error}
    (h : compile origin source = .error error) :
    (∃ failed, error = .layout failed) ∨ ∃ marked, Layout.mark source = .ok marked ∧
      ((∃ failed, Token.read marked = .error failed ∧ error = .lex failed) ∨
        ∃ lexemes failed, Token.read marked = .ok lexemes ∧
          Program.ofTokens origin lexemes = .error failed ∧ error = .parse failed) := by
  rcases except_bind_eq_error h with hmark | ⟨marked, hmark, h⟩
  · obtain ⟨failed, -, rfl⟩ := mapError_eq_error hmark
    exact .inl ⟨failed, rfl⟩
  refine .inr ⟨marked, mapError_eq_ok hmark, ?_⟩
  rcases except_bind_eq_error h with hread | ⟨lexemes, hread, h⟩
  · exact .inl (mapError_eq_error hread)
  · obtain ⟨failed, hparse, rfl⟩ := mapError_eq_error h
    exact .inr ⟨lexemes, failed, mapError_eq_ok hread, hparse, rfl⟩

/-- **An error of a compilation points into the marked text.** Its span is there, between
characters. What is no token is the text at the span, is not empty, and the text before it can be
read; what does not parse reaches from the start of a token to the end of one, or is the end of the
last token. -/
theorem compile_error_span {origin : Nat} {source : String} {error : Error} {span : Span}
    (h : compile origin source = .error error) (hspan : error.span? = some span) :
    ∃ marked, Layout.mark source = .ok marked ∧
      span.start ≤ span.stop ∧ span.stop ≤ marked.utf8ByteSize ∧
      String.Pos.Raw.IsValid marked ⟨span.start⟩ ∧ String.Pos.Raw.IsValid marked ⟨span.stop⟩ ∧
      (∀ failed, error = .lex failed → span.start < span.stop ∧ ∃ before after,
        marked = before ++ failed.slice ++ after ∧
        span = ⟨before.utf8ByteSize, (before ++ failed.slice).utf8ByteSize⟩ ∧
        ∃ lexemes, Token.read before = .ok lexemes) ∧
      ∀ failed, error = .parse failed →
        ∃ lexemes, Token.read marked = .ok lexemes ∧ span.Points lexemes := by
  rcases compile_eq_error h with ⟨failed, rfl⟩ | ⟨marked, hmark, hstage⟩
  · cases hspan
  refine ⟨marked, hmark, ?_⟩
  rcases hstage with ⟨failed, hread, rfl⟩ | ⟨lexemes, failed, hread, hparse, rfl⟩
  · cases hspan
    obtain ⟨before, after, htext, hslice, hfailed, hbefore⟩ := Token.read_eq_error hread
    have hstart : Text.Boundary marked.toList failed.span.start := by
      refine ⟨before.toList, failed.slice.toList ++ after.toList, ?_, ?_⟩
      · rw [htext, String.toList_append, String.toList_append, List.append_assoc]
      · rw [hfailed, Text.size_toList]
    have hstop : Text.Boundary marked.toList failed.span.stop := by
      refine ⟨(before ++ failed.slice).toList, after.toList, ?_, ?_⟩
      · rw [htext, String.toList_append]
      · rw [hfailed, Text.size_toList]
    have hsome : failed.span.start < failed.span.stop := by
      rw [hfailed, String.utf8ByteSize_append]
      refine Nat.lt_add_of_pos_right (Nat.pos_of_ne_zero fun hzero => hslice ?_)
      exact String.utf8ByteSize_eq_zero_iff.1 hzero
    refine ⟨Nat.le_of_lt hsome, Text.size_toList marked ▸ hstop.le, hstart.isValid, hstop.isValid,
      fun other hother => ?_, fun other hother => ?_⟩
    · cases hother
      exact ⟨hsome, before, after, htext, hfailed, hbefore⟩
    · cases hother
  · cases hspan
    have hwoven := Woven.of_tiled (Token.read_eq_ok_iff.1 hread)
    have hpoints : failed.span.Points lexemes :=
      Program.blames_ofTokens hwoven.points (.inr rfl) hparse
    obtain ⟨hle, hstart, hstop⟩ := hwoven.boundary hpoints
    refine ⟨hle, Text.size_toList marked ▸ hstop.le, hstart.isValid, hstop.isValid,
      fun other hother => ?_, fun other hother => ?_⟩
    · cases hother
    · exact ⟨lexemes, hread, hpoints⟩

/-- The error of a text that is given by its characters, if it has no program. -/
def failure? (origin : Nat) (source : List Char) : Option Error :=
  match compileChars origin source with
  | .error error => some error
  | .ok _ => none

theorem compile_of_failure? {text : String} {source : List Char}
    (htext : text = String.ofList source) {origin : Nat} {error : Error}
    (h : failure? origin source = some error) : compile origin text = .error error := by
  rw [htext, compile_ofList]
  rw [failure?] at h
  split at h
  · rename_i failed hfailed
    rw [hfailed, Option.some.inj h]
  · cases h

/-- A literal that is not closed. -/
def unclosedSource : String :=
  "a:String = \"é"

/-- A literal in parentheses where an operator should be. -/
def appliedSource : String :=
  "# é\na:Integer = b (\"é\")\n    b:Integer = (\"é\") 1 2"

theorem compile_error_span_sources :
    (∃ failed marked, compile programOrigin unclosedSource = .error (.lex failed) ∧
      failed.span = ⟨11, 15⟩ ∧ Layout.mark unclosedSource = .ok marked ∧
      failed.span.stop ≤ marked.utf8ByteSize ∧
      ∃ before after, marked = before ++ failed.slice ++ after ∧
        ∃ lexemes, Token.read before = .ok lexemes) ∧
    ∃ failed marked lexemes, compile programOrigin appliedSource = .error (.parse failed) ∧
      failed.span = ⟨36, 42⟩ ∧ Layout.mark appliedSource = .ok marked ∧
      failed.span.stop ≤ marked.utf8ByteSize ∧
      Token.read marked = .ok lexemes ∧ failed.span.Points lexemes := by
  have hlex : compile programOrigin unclosedSource = .error (.lex ⟨"\"é;", ⟨11, 15⟩⟩) :=
    compile_of_failure? (String.ofList_toList).symm (by decide +kernel)
  have hparse : compile programOrigin appliedSource =
      .error (.parse ⟨⟨36, 42⟩, .appliedLiteral (.str "é") 2⟩) :=
    compile_of_failure? (String.ofList_toList).symm (by decide +kernel)
  constructor
  · obtain ⟨marked, hmark, -, hinside, -, -, hslice, -⟩ := compile_error_span hlex rfl
    obtain ⟨-, before, after, htext, -, hbefore⟩ := hslice _ rfl
    exact ⟨_, marked, hlex, rfl, hmark, hinside, before, after, htext, hbefore⟩
  · obtain ⟨marked, hmark, -, hinside, -, -, -, hpoints⟩ := compile_error_span hparse rfl
    obtain ⟨lexemes, hread, hspan⟩ := hpoints _ rfl
    exact ⟨_, marked, lexemes, hparse, rfl, hmark, hinside, hread, hspan⟩

end Offside
