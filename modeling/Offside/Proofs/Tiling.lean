import Offside.Proofs.Spelling

/-!
# How a text is cut into words

A text that is read has nothing left over: it is tiled by characters that separate tokens, by
comments up to the end of their line, and by words, each as long as it can be.

* `Tiled` -- a text from a position on, and the lexemes of its words;
* `Lexer.scan_eq_ok_iff` -- the reader finds the lexemes of a tiling, and it finds no others;
* `Spelt.of_concat` -- a blank at the end of a text is in no word;
* `Tiled.spelt` -- a line that is tiled spells its tokens once its comment is gone.
-/

namespace Offside

/-! ## 1. Tilings -/

/-- The text from `position` on is tiled, and its words are the lexemes. -/
inductive Tiled : Nat → List Char → List Lexeme → Prop
  | nil {position : Nat} : Tiled position [] []
  | gap {position : Nat} {c : Char} {rest : List Char} {lexemes : List Lexeme}
      (h : Token.isGap c = true) (tail : Tiled (position + c.utf8Size) rest lexemes) :
      Tiled position (c :: rest) lexemes
  | comment {position : Nat} {chars rest : List Char} {lexemes : List Lexeme}
      (inline : '\n' ∉ chars) (stops : ∀ c ∈ rest.head?, c = '\n')
      (tail : Tiled (position + Text.size ('#' :: chars)) rest lexemes) :
      Tiled position ('#' :: chars ++ rest) lexemes
  | word {position : Nat} {chars rest : List Char} {pending : Pending} {token : Token}
      {lexemes : List Lexeme} (spells : Pending.Spells chars pending)
      (ends : pending.token? = some token) (stops : ∀ c ∈ rest.head?, pending.extend c = none)
      (tail : Tiled (position + Text.size chars) rest lexemes) :
      Tiled position (chars ++ rest) (⟨token, ⟨position, position + Text.size chars⟩⟩ :: lexemes)

namespace Pending

/-- A word that ends is a token, or a comment, which is none. -/
theorem finish_eq_ok {pending : Pending} {first after : Nat} {ended : Option Lexeme}
    (h : pending.finish first after = .ok ended) :
    (∃ token, pending.token? = some token ∧ ended = some ⟨token, ⟨first, after⟩⟩) ∨
      (pending = comment ∧ ended = none) := by
  cases hp : pending.token? with
  | some token =>
      rw [finish_of_token? hp] at h
      cases h
      exact .inl ⟨token, rfl, rfl⟩
  | none =>
      cases pending with
      | word _ | literal _ | colon | equals | minus | complete _ => cases hp
      | quote _ | escape _ => cases h
      | comment =>
          cases h
          exact .inr ⟨rfl, rfl⟩
      | number read =>
          by_cases hle : Text.Decimal.value read.reverse ≤ maxInteger
          · rw [token?, if_pos hle] at hp
            cases hp
          · simp only [finish, if_neg hle] at h
            cases h

namespace Spells

theorem of_comment {chars : List Char} {pending : Pending} (h : Spells chars pending)
    (hcomment : pending = .comment) : ∃ more, chars = '#' :: more ∧ '\n' ∉ more := by
  induction h with
  | @start c pending _ h =>
      subst hcomment
      cases starts_of_start h
      exact ⟨[], rfl, List.not_mem_nil⟩
  | @extend chars pending next c _ more ih =>
      subst hcomment
      cases extends_of_extend more with
      | comment hline =>
          obtain ⟨others, rfl, hothers⟩ := ih rfl
          refine ⟨others ++ [c], rfl, fun hmem => ?_⟩
          rcases List.mem_append.1 hmem with hmem | hmem
          · exact hothers hmem
          · exact hline (List.mem_singleton.1 hmem).symm

theorem comment {chars : List Char} (h : '\n' ∉ chars) : Spells ('#' :: chars) .comment := by
  have hstart : Spells ['#'] .comment := .start (by decide) (by decide)
  have hextend : ∀ (_ : List Char) (c : Char), decide (c ≠ '\n') = true →
      Pending.comment.extend c = some .comment := fun _ c hc => if_neg (of_decide_eq_true hc)
  refine @extendAll (fun _ => .comment) _ hextend ['#'] [] hstart chars fun c hc => ?_
  refine decide_eq_true ?_
  rintro rfl
  exact h hc

/-- The first character of a word is no gap. -/
theorem solid {chars : List Char} {pending : Pending} (h : Spells chars pending) :
    ∃ c more, chars = c :: more ∧ Token.isGap c = false := by
  induction h with
  | @start c _ solid _ => exact ⟨c, [], rfl, solid⟩
  | extend _ _ ih =>
      obtain ⟨c, more, rfl, hsolid⟩ := ih
      exact ⟨c, _, rfl, hsolid⟩

theorem ne_nil {chars : List Char} {pending : Pending} (h : Spells chars pending) : chars ≠ [] := by
  obtain ⟨c, more, rfl, _⟩ := h.solid
  exact List.cons_ne_nil c more

end Spells

end Pending

/-- There is no word in nothing. -/
theorem Tiled.eq_nil {position : Nat} {text : List Char} {lexemes : List Lexeme}
    (h : Tiled position text lexemes) (htext : text = []) : lexemes = [] := by
  cases h with
  | nil => rfl
  | gap _ _ | comment _ _ _ => cases htext
  | word spells _ _ _ => exact absurd (List.append_eq_nil_iff.1 htext).1 spells.ne_nil

/-! ## 2. The reader finds the words of a tiling -/

theorem Tiled.scan {position : Nat} {text : List Char} {lexemes : List Lexeme}
    (h : Tiled position text lexemes) : Lexer.scan ⟨position, none⟩ text = .ok lexemes := by
  induction h with
  | nil => rfl
  | gap hgap _ ih => rw [Lexer.scan_gap hgap, ih]
  | @comment position chars rest lexemes inline stops _ ih =>
      have hstops : ∀ c ∈ rest.head?, Pending.comment.extend c = none :=
        fun c hc => if_pos (stops c hc)
      rw [(Pending.Spells.comment inline).scan, Pending.scan_of_stops hstops, ih]
      rfl
  | word spells ends stops _ ih =>
      rw [spells.scan_word ends stops, ih]
      rfl

/-- A pending word that what follows does not extend is the next word of the tiling, or a comment
before it. -/
theorem Tiled.of_stops {text : List Char}
    (hfree : ∀ position lexemes, Lexer.scan ⟨position, none⟩ text = .ok lexemes →
      Tiled position text lexemes)
    {chars : List Char} {pending : Pending} (spells : Pending.Spells chars pending)
    (stops : ∀ c ∈ text.head?, pending.extend c = none) {first : Nat} {lexemes : List Lexeme}
    (h : Lexer.scan ⟨first + Text.size chars, some (first, pending)⟩ text = .ok lexemes) :
    Tiled first (chars ++ text) lexemes := by
  rw [Pending.scan_of_stops stops] at h
  cases hended : pending.finish first (first + Text.size chars) with
  | error error =>
      rw [hended] at h
      cases h
  | ok ended =>
      cases hrest : Lexer.scan ⟨first + Text.size chars, none⟩ text with
      | error error =>
          rw [hended, hrest] at h
          cases h
      | ok others =>
          rw [hended, hrest] at h
          have hlexemes : ended.toList ++ others = lexemes := Except.ok.inj h
          have htail := hfree _ _ hrest
          rcases Pending.finish_eq_ok hended with ⟨token, htoken, rfl⟩ | ⟨rfl, rfl⟩
          · rw [← hlexemes]
            exact .word spells htoken stops htail
          · obtain ⟨more, rfl, hinline⟩ := spells.of_comment rfl
            rw [← hlexemes]
            refine .comment hinline (fun c hc => ?_) htail
            have hnone := stops c hc
            rw [Pending.extend] at hnone
            split at hnone
            · assumption
            · cases hnone

/-- What the reader finds is the words of a tiling: from a position on, and after the characters of
a pending word. -/
theorem Tiled.of_scan : ∀ (text : List Char),
    (∀ position lexemes, Lexer.scan ⟨position, none⟩ text = .ok lexemes →
      Tiled position text lexemes) ∧
    ∀ {chars : List Char} {pending : Pending}, Pending.Spells chars pending →
      ∀ first lexemes,
        Lexer.scan ⟨first + Text.size chars, some (first, pending)⟩ text = .ok lexemes →
          Tiled first (chars ++ text) lexemes
  | [] => by
      have hfree : ∀ position lexemes, Lexer.scan ⟨position, none⟩ [] = .ok lexemes →
          Tiled position [] lexemes := by
        intro position lexemes h
        cases h
        exact .nil
      exact ⟨hfree, fun spells first lexemes h => .of_stops hfree spells nofun h⟩
  | c :: rest => by
      obtain ⟨ihfree, ihpending⟩ := Tiled.of_scan rest
      have hfree : ∀ position lexemes, Lexer.scan ⟨position, none⟩ (c :: rest) = .ok lexemes →
          Tiled position (c :: rest) lexemes := by
        intro position lexemes h
        have hstep : Lexer.step ⟨position, none⟩ c =
            (Lexer.start position c).map fun next => (none, next) := by
          simp only [Lexer.step, Lexer.extend?, Lexer.finish]
          cases Lexer.start position c <;> rfl
        rw [Lexer.scan, hstep] at h
        unfold Lexer.start at h
        by_cases hgap : Token.isGap c = true
        · rw [if_pos hgap] at h
          exact .gap hgap (ihfree _ _ h)
        · rw [if_neg hgap] at h
          cases hstart : Pending.start c with
          | none =>
              rw [hstart] at h
              cases h
          | some pending =>
              rw [hstart] at h
              have hspells : Pending.Spells [c] pending := .start (Bool.eq_false_iff.2 hgap) hstart
              refine ihpending hspells position lexemes ?_
              rw [Text.size_singleton]
              exact h
      refine ⟨hfree, fun {chars pending} spells first lexemes h => ?_⟩
      cases hextend : pending.extend c with
      | none =>
          refine .of_stops hfree spells (fun d hd => ?_) h
          cases hd
          exact hextend
      | some next =>
          have hstep : Lexer.step ⟨first + Text.size chars, some (first, pending)⟩ c =
              .ok (none, ⟨first + Text.size chars + c.utf8Size, some (first, next)⟩) := by
            simp only [Lexer.step, Lexer.extend?, hextend, Option.map_some]
          rw [Lexer.scan, hstep] at h
          have hmore := ihpending (.extend spells hextend) first lexemes
          rw [Text.size_append, Text.size_singleton, List.append_assoc, ← Nat.add_assoc] at hmore
          exact hmore h

/-- **The reader finds the words of a tiling, and only of a tiling.** -/
theorem Lexer.scan_eq_ok_iff {position : Nat} {text : List Char} {lexemes : List Lexeme} :
    Lexer.scan ⟨position, none⟩ text = .ok lexemes ↔ Tiled position text lexemes :=
  ⟨(Tiled.of_scan text).1 position lexemes, Tiled.scan⟩

theorem Token.read_ofList (text : List Char) :
    Token.read (String.ofList text) = Lexer.scan ⟨0, none⟩ text := by
  rw [Token.read, String.toList_ofList]

theorem Token.read_eq_ok_iff {text : String} {lexemes : List Lexeme} :
    Token.read text = .ok lexemes ↔ Tiled 0 text.toList lexemes :=
  Lexer.scan_eq_ok_iff

/-! ## 3. Where words end -/

namespace Pending

theorem isBlank_of_ofMark {c : Char} {token : Token} (h : Token.ofMark c = some token) :
    Text.isBlank c = false := by
  unfold Token.ofMark at h
  split at h <;> cases h <;> decide

/-- The first character of a word is not blank. -/
theorem isBlank_of_start {c : Char} {pending : Pending} (h : start c = some pending) :
    Text.isBlank c = false := by
  cases starts_of_start h with
  | word hc => exact Token.isBlank_of_continuesName (Token.continuesName_of_startsName hc)
  | number hc => exact Token.isBlank_of_continuesName (Token.continuesName_of_isDigit hc)
  | quote | comment | colon | equals | minus => decide
  | mark hmark => exact isBlank_of_ofMark hmark

/-- The character that completes a token is not blank. -/
theorem isBlank_of_extend {pending next : Pending} {c : Char} {token : Token}
    (h : pending.extend c = some next) (ends : next.token? = some token) :
    Text.isBlank c = false := by
  cases extends_of_extend h with
  | word hc => exact Token.isBlank_of_continuesName hc
  | number hc => exact Token.isBlank_of_continuesName (Token.continuesName_of_isDigit hc)
  | close | colonEqual | equality | arrow => decide
  | backslash | inside _ _ | escaped _ | comment _ => cases ends

/-- **A token ends with a character that is not blank.** -/
theorem Spells.ink {chars : List Char} {pending : Pending} {token : Token}
    (h : Spells chars pending) (ends : pending.token? = some token) :
    ∃ start last, chars = start ++ [last] ∧ Text.isBlank last = false := by
  cases h with
  | @start c _ _ h => exact ⟨[], c, rfl, isBlank_of_start h⟩
  | @extend chars _ _ c _ more => exact ⟨chars, c, rfl, isBlank_of_extend more ends⟩

end Pending

/-- What a shorter text starts with, the longer one does. -/
theorem mem_head?_of_append {α : Type} {front back : List α} {a : α} (h : a ∈ front.head?) :
    a ∈ (front ++ back).head? := by
  cases front with
  | nil => cases h
  | cons b front => exact h

/-- A blank at the end of a text is in no word. -/
theorem Spelt.of_concat {text : List Char} {tokens : List Token} (h : Spelt text tokens)
    {front : List Char} {last : Char} (htext : text = front ++ [last])
    (hlast : Text.isBlank last = true) : Spelt front tokens := by
  induction h generalizing front with
  | nil => cases front <;> cases htext
  | @gap c rest tokens hgap tail ih =>
      cases front with
      | nil =>
          cases htext
          exact tail
      | cons d front =>
          obtain ⟨rfl, hrest⟩ := List.cons.inj htext
          exact .gap hgap (ih hrest)
  | @word chars rest pending token tokens spells ends stops tail ih =>
      rcases List.eq_nil_or_concat rest with rfl | ⟨before, d, rfl⟩
      · obtain ⟨start, ink, rfl, hink⟩ := spells.ink ends
        rw [List.append_nil] at htext
        have hd := List.append_inj_right' htext rfl
        cases hd
        exact absurd hlast (Bool.eq_false_iff.1 hink)
      · rw [List.concat_eq_append, ← List.append_assoc] at htext
        obtain ⟨rfl, hd⟩ := List.append_inj' htext rfl
        cases hd
        refine .word spells ends (fun c hc => stops c ?_) (ih List.concat_eq_append)
        rw [List.concat_eq_append]
        exact mem_head?_of_append hc

/-! ## 4. Lines -/

/-- What is left of a line without its comment starts like the line, if there is anything left. -/
theorem Layout.head?_withoutComment {line : List Char} {c : Char}
    (h : c ∈ (Layout.withoutComment .outside line).head?) : c ∈ line.head? := by
  cases line with
  | nil => cases h
  | cons d rest =>
      rw [Layout.withoutComment] at h
      split at h
      · cases h
      · split at h <;> exact h

/-- **Without its comment, a line that is tiled spells its tokens.** -/
theorem Tiled.spelt {position : Nat} {line : List Char} {lexemes : List Lexeme}
    (h : Tiled position line lexemes) (hline : '\n' ∉ line) :
    Spelt (Layout.withoutComment .outside line) (lexemes.map (·.token)) := by
  induction h with
  | nil => exact .nil
  | @gap position c rest lexemes hgap _ ih =>
      rw [Pending.withoutComment_outside (Token.ne_of_isGap hgap)]
      exact .gap hgap (ih fun hmem => hline (List.mem_cons_of_mem c hmem))
  | @comment position chars rest lexemes _ stops tail _ =>
      have hrest : rest = [] := by
        cases rest with
        | nil => rfl
        | cons c rest =>
            have hbreak : c = '\n' := stops c rfl
            subst hbreak
            exact absurd (List.mem_append_right _ List.mem_cons_self) hline
      subst hrest
      rw [tail.eq_nil rfl, List.cons_append, Layout.withoutComment, if_pos rfl]
      exact .nil
  | @word position chars rest pending token lexemes spells ends stops _ ih =>
      obtain ⟨hword, hquoting⟩ := Pending.quoting_of_token? ends
      rw [spells.withoutComment hword, hquoting]
      refine .word spells ends (fun c hc => stops c (Layout.head?_withoutComment hc)) ?_
      exact ih fun hmem => hline (List.mem_append_right chars hmem)

end Offside
