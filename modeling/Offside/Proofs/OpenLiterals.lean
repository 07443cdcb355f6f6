import Offside.Proofs.Tiling

/-!
# Open string literals

Where a text is cut inside of a string literal, the reader holds an open one:

* `Token.literals` -- the values of the string literals among tokens;
* `Pending.inside?` -- what has been read of an open literal;
* `Pending.scan_of_inside?` -- the literal that the reader makes of it, if it does not fail;
* `Text.unescape_ne` -- literals whose contents differ in a character that is part of no escape have
  different values.
-/

namespace Offside

/-! ## 1. The values of literals -/

/-- The value of a string literal. -/
def Token.string? : Token → Option String
  | .string value => some value
  | _ => none

/-- The values of the string literals among tokens. -/
def Token.literals (tokens : List Token) : List String :=
  tokens.filterMap string?

theorem Token.literals_append (first second : List Token) :
    literals (first ++ second) = literals first ++ literals second :=
  List.filterMap_append

/-! ## 2. Open literals -/

namespace Pending

/-- What has been read of an open literal, after its quote. -/
def inside? : Pending → Option (List Char)
  | quote read => some read.reverse
  | escape read => some (read.reverse ++ ['\\'])
  | _ => none

/-- An open literal was open one character before, unless this was its quote. -/
theorem inside?_of_extend {pending next : Pending} {c : Char} {inside : List Char}
    (h : pending.extend c = some next) (hnext : next.inside? = some inside) :
    ∃ before, pending.inside? = some before ∧ inside = before ++ [c] := by
  cases extends_of_extend h with
  | word _ | number _ | close | comment _ | colonEqual | equality | arrow => cases hnext
  | @backslash read =>
      cases hnext
      exact ⟨read.reverse, rfl, rfl⟩
  | @inside read _ _ _ =>
      cases hnext
      exact ⟨read.reverse, rfl, List.reverse_cons⟩
  | @escaped read _ _ =>
      cases hnext
      refine ⟨read.reverse ++ ['\\'], rfl, ?_⟩
      rw [List.reverse_cons, List.reverse_cons]

/-- A character that is neither a quote nor a line break goes on with an open literal. -/
theorem exists_extend {pending : Pending} {inside : List Char} (h : pending.inside? = some inside)
    {c : Char} (hquote : c ≠ '\"') (hbreak : c ≠ '\n') :
    ∃ next, pending.extend c = some next ∧ next.inside? = some (inside ++ [c]) := by
  cases pending with
  | word _ | number _ | literal _ | comment | colon | equals | minus | complete _ => cases h
  | quote read =>
      cases h
      by_cases hescape : c = '\\'
      · subst hescape
        exact ⟨.escape read, rfl, rfl⟩
      · refine ⟨.quote (c :: read), ?_, ?_⟩
        · rw [extend, if_neg hquote, if_neg hescape]
        · rw [inside?, List.reverse_cons]
  | escape read =>
      cases h
      refine ⟨.quote (c :: '\\' :: read), if_neg hbreak, ?_⟩
      rw [inside?, List.reverse_cons, List.reverse_cons]

namespace Spells

/-- The characters of an open literal are its quote and what has been read after it. -/
theorem eq_of_inside? {chars inside : List Char} {pending : Pending} (h : Spells chars pending)
    (hopen : pending.inside? = some inside) : chars = '\"' :: inside := by
  induction h generalizing inside with
  | start _ h =>
      cases starts_of_start h with
      | word _ | number _ | comment | colon | equals | minus | mark _ => cases hopen
      | quote =>
          cases hopen
          rfl
  | extend _ more ih =>
      obtain ⟨before, hbefore, rfl⟩ := inside?_of_extend more hopen
      rw [ih hbefore]
      rfl

/-- A literal was open all the way from its quote. -/
theorem of_inside?_append {chars front rest : List Char} {pending : Pending}
    (h : Spells chars pending) (hopen : pending.inside? = some (front ++ rest)) :
    ∃ earlier, Spells ('\"' :: front) earlier ∧ earlier.inside? = some front := by
  induction h generalizing rest with
  | @start c pending solid h =>
      have hchars := (Spells.start solid h).eq_of_inside? hopen
      have hnil : front ++ rest = [] := (List.cons.inj hchars).2.symm
      obtain ⟨rfl, rfl⟩ := List.append_eq_nil_iff.1 hnil
      obtain ⟨rfl, _⟩ := List.cons.inj hchars
      exact ⟨pending, .start solid h, hopen⟩
  | @extend chars pending next c hspells more ih =>
      rcases List.eq_nil_or_concat rest with rfl | ⟨others, d, rfl⟩
      · rw [List.append_nil] at hopen
        have hall := Spells.extend hspells more
        rw [hall.eq_of_inside? hopen] at hall
        exact ⟨next, hall, hopen⟩
      · obtain ⟨before, hbefore, hall⟩ := inside?_of_extend more hopen
        rw [List.concat_eq_append, ← List.append_assoc] at hall
        have hfront := List.append_inj_left' hall rfl
        rw [← hfront] at hbefore
        exact ih hbefore

/-- A word with a line break is a string literal. -/
theorem not_mem_of_inside? {chars : List Char} {pending : Pending} (h : Spells chars pending)
    (hopen : pending.inside? = none) (hclosed : ∀ read, pending ≠ literal read) :
    '\n' ∉ chars := by
  induction h with
  | start solid _ =>
      intro hmem
      rw [← List.mem_singleton.1 hmem] at solid
      cases solid
  | @extend chars pending next c _ more ih =>
      have hchars : c ≠ '\n' ∧ '\n' ∉ chars := by
        cases extends_of_extend more with
        | close => exact absurd rfl (hclosed _)
        | backslash | inside _ _ | escaped _ => cases hopen
        | comment hc => exact ⟨hc, ih rfl nofun⟩
        | colonEqual | equality | arrow => exact ⟨by decide, ih rfl nofun⟩
        | word hc | number hc =>
            refine ⟨?_, ih rfl nofun⟩
            rintro rfl
            cases hc
      rw [List.mem_append, List.mem_singleton, not_or]
      exact ⟨hchars.2, Ne.symm hchars.1⟩

end Spells

theorem string?_ofWord (word : String) : (Token.ofWord word).string? = none := by
  unfold Token.ofWord
  repeat' split
  all_goals rfl

theorem string?_ofMark {c : Char} {token : Token} (h : Token.ofMark c = some token) :
    token.string? = none := by
  unfold Token.ofMark at h
  split at h <;> cases h <;> rfl

/-- A word is a literal that has been closed, or a token that is no string and has no line break. -/
theorem Spells.literal_or_plain {chars : List Char} {pending : Pending} {token : Token}
    (h : Spells chars pending) (ends : pending.token? = some token) :
    (∃ read, pending = literal read) ∨ (token.string? = none ∧ '\n' ∉ chars) := by
  cases pending with
  | literal read => exact .inl ⟨read, rfl⟩
  | quote _ | escape _ | comment => cases ends
  | word _ =>
      cases ends
      exact .inr ⟨string?_ofWord _, h.not_mem_of_inside? rfl (by simp)⟩
  | number _ =>
      rw [token?] at ends
      split at ends <;> cases ends
      exact .inr ⟨rfl, h.not_mem_of_inside? rfl (by simp)⟩
  | colon | equals | minus =>
      cases ends
      exact .inr ⟨rfl, h.not_mem_of_inside? rfl (by simp)⟩
  | complete _ =>
      cases ends
      refine .inr ⟨?_, h.not_mem_of_inside? rfl (by simp)⟩
      cases h with
      | start _ h =>
          cases starts_of_start h with
          | mark hmark => exact string?_ofMark hmark
      | extend _ more =>
          cases extends_of_extend more with
          | colonEqual | equality | arrow => rfl

/-- A literal that has been closed was open before its last quote. -/
theorem Spells.of_literal {chars read : List Char} (h : Spells chars (literal read)) :
    chars = '\"' :: read.reverse ++ ['\"'] ∧
      ∃ before, Spells ('\"' :: read.reverse) before ∧ before.inside? = some read.reverse := by
  cases h with
  | start _ h => cases starts_of_start h
  | extend hspells more =>
      cases extends_of_extend more with
      | close =>
          have hchars := hspells.eq_of_inside? rfl
          rw [hchars] at hspells ⊢
          exact ⟨rfl, _, hspells, rfl⟩

/-- An open literal goes on, or it is closed. -/
theorem extend_of_inside? {pending next : Pending} {inside : List Char} {c : Char}
    (hopen : pending.inside? = some inside) (h : pending.extend c = some next) :
    next.inside? = some (inside ++ [c]) ∨ next = literal inside.reverse := by
  cases extends_of_extend h with
  | word _ | number _ | comment _ | colonEqual | equality | arrow => cases hopen
  | @close read =>
      cases hopen
      rw [List.reverse_reverse]
      exact .inr rfl
  | backslash =>
      cases hopen
      exact .inl rfl
  | inside _ _ =>
      cases hopen
      rw [inside?, List.reverse_cons]
      exact .inl rfl
  | escaped _ =>
      cases hopen
      rw [inside?, List.reverse_cons, List.reverse_cons]
      exact .inl rfl

/-- A literal must not stay open. -/
theorem finish_of_inside? {pending : Pending} {inside : List Char}
    (hopen : pending.inside? = some inside) (first after : Nat) :
    ∃ error, pending.finish first after = .error error := by
  cases pending with
  | quote _ | escape _ => exact ⟨_, rfl⟩
  | word _ | number _ | literal _ | comment | colon | equals | minus | complete _ => cases hopen

/-- The reader closes an open literal, or it fails. -/
theorem scan_of_inside? {rest inside : List Char} {pending : Pending} {first after : Nat}
    {lexemes : List Lexeme} (hopen : pending.inside? = some inside)
    (h : Lexer.scan ⟨after, some (first, pending)⟩ rest = .ok lexemes) :
    ∃ body span others,
      lexemes = ⟨.string (String.ofList (Text.unescape (inside ++ body))), span⟩ :: others := by
  induction rest generalizing pending inside after with
  | nil =>
      have hstops : ∀ c ∈ ([] : List Char).head?, pending.extend c = none := nofun
      obtain ⟨error, herror⟩ := finish_of_inside? hopen first after
      rw [scan_of_stops hstops, herror] at h
      cases h
  | cons c rest ih =>
      cases hextend : pending.extend c with
      | none =>
          have hstops : ∀ d ∈ (c :: rest).head?, pending.extend d = none := by
            intro d hd
            cases hd
            exact hextend
          obtain ⟨error, herror⟩ := finish_of_inside? hopen first after
          rw [scan_of_stops hstops, herror] at h
          cases h
      | some next =>
          have hstep : Lexer.step ⟨after, some (first, pending)⟩ c =
              .ok (none, ⟨after + c.utf8Size, some (first, next)⟩) := by
            simp only [Lexer.step, Lexer.extend?, hextend, Option.map_some]
          rw [Lexer.scan, hstep] at h
          rcases extend_of_inside? hopen hextend with hnext | rfl
          · obtain ⟨body, span, others, hlexemes⟩ := ih hnext h
            rw [List.append_assoc] at hlexemes
            exact ⟨_, span, others, hlexemes⟩
          · have hstops : ∀ d ∈ rest.head?, (literal inside.reverse).extend d = none :=
              fun _ _ => rfl
            change Lexer.scan ⟨after + c.utf8Size, some (first, literal inside.reverse)⟩ rest = _ at h
            rw [scan_of_stops hstops] at h
            cases hrest : Lexer.scan ⟨after + c.utf8Size, none⟩ rest with
            | error error =>
                rw [hrest] at h
                cases h
            | ok others =>
                rw [hrest, finish, List.reverse_reverse] at h
                refine ⟨[], ⟨first, after + c.utf8Size⟩, others, ?_⟩
                rw [List.append_nil]
                exact (Except.ok.inj h).symm

end Pending

/-! ## 3. Contents and values -/

namespace Text

/-- Whether a backslash before the character stands for itself. -/
def isPlain (c : Char) : Bool :=
  !(['n', 't', 'r', '\"', '\\'].contains c)

theorem isPlain_of_isBlank {c : Char} (h : isBlank c = true) : isPlain c = true := by
  rw [isPlain, Bool.not_eq_true']
  refine Bool.eq_false_iff.2 fun hmem => ?_
  rw [List.contains_iff_mem, List.mem_cons, List.mem_cons, List.mem_cons, List.mem_cons,
    List.mem_singleton] at hmem
  rcases hmem with rfl | rfl | rfl | rfl | rfl <;> exact absurd h (by decide)

theorem unescape_plain {c : Char} (h : isPlain c = true) (rest : List Char) :
    unescape (c :: rest) = c :: unescape rest ∧
      unescape ('\\' :: c :: rest) = '\\' :: c :: unescape rest := by
  constructor
  · refine unescape_of_ne ?_ rest
    rintro rfl
    exact absurd h (by decide)
  · rw [unescape]
    all_goals
      rintro rfl
      exact absurd h (by decide)

/-- What a backslash and the character after it stand for does not depend on what follows. -/
theorem unescape_escape (c : Char) :
    ∃ text, ∀ rest, unescape ('\\' :: c :: rest) = text ++ unescape rest := by
  by_cases hc : isPlain c = true
  · exact ⟨['\\', c], fun rest => (unescape_plain hc rest).2⟩
  · simp only [isPlain, Bool.not_eq_true', Bool.not_eq_false, List.contains_iff_mem, List.mem_cons,
      List.not_mem_nil, or_false] at hc
    rcases hc with rfl | rfl | rfl | rfl | rfl
    · exact ⟨['\n'], fun _ => rfl⟩
    · exact ⟨['\t'], fun _ => rfl⟩
    · exact ⟨['\r'], fun _ => rfl⟩
    · exact ⟨['\"'], fun _ => rfl⟩
    · exact ⟨['\\'], fun _ => rfl⟩

/-- Contents that differ in a character that is part of no escape have different values. -/
theorem unescape_ne {c d : Char} (hc : isPlain c = true) (hd : isPlain d = true) (hne : c ≠ d) :
    ∀ front first second : List Char,
      unescape (front ++ c :: first) ≠ unescape (front ++ d :: second)
  | [], first, second => by
      rw [List.nil_append, List.nil_append, (unescape_plain hc first).1, (unescape_plain hd second).1]
      intro h
      exact hne (List.cons.inj h).1
  | [e], first, second => by
      rw [List.singleton_append, List.singleton_append]
      by_cases he : e = '\\'
      · rw [he, (unescape_plain hc first).2, (unescape_plain hd second).2]
        intro h
        exact hne (List.cons.inj (List.cons.inj h).2).1
      · rw [unescape_of_ne he, unescape_of_ne he, (unescape_plain hc first).1,
          (unescape_plain hd second).1]
        intro h
        exact hne (List.cons.inj (List.cons.inj h).2).1
  | e :: f :: front, first, second => by
      by_cases he : e = '\\'
      · obtain ⟨text, htext⟩ := unescape_escape f
        rw [he, List.cons_append, List.cons_append, List.cons_append, List.cons_append, htext, htext]
        intro h
        exact unescape_ne hc hd hne front first second (List.append_cancel_left h)
      · have hstep : ∀ rest, unescape (e :: f :: front ++ rest) = e :: unescape (f :: front ++ rest) :=
          fun rest => unescape_of_ne he _
        rw [hstep, hstep]
        intro h
        exact unescape_ne hc hd hne (f :: front) first second (List.cons.inj h).2

end Text

end Offside
