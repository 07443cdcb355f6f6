import Offside.Layout
import Offside.Token.Lexer

/-!
# How texts spell tokens

The reader of tokens keeps one pending word and decides with the next character whether the word goes
on. Seen from outside, a text is a sequence of words and gaps, and every word is as long as it can
be:

* `Pending.Spells` -- the characters of one word, from the one that starts it;
* `Spelt` -- a text without comments spells a list of tokens. A word in it is followed by nothing
  that would extend it;
* `Text.Writes` -- what may stand between the quotes of a literal, and the string that it stands for.

`Spelt.scan` says that the reader finds the tokens that a text spells, wherever the text stands, and
`Spelt.withoutComment` that there is no comment in such a text, in spite of any `#` in its literals.
-/

namespace Offside

/-! ## 1. Words -/

namespace Text

/-- The number of bytes of a text. -/
def size : List Char → Nat
  | [] => 0
  | c :: text => c.utf8Size + size text

@[simp] theorem size_nil : size [] = 0 := rfl

@[simp] theorem size_cons (c : Char) (text : List Char) :
    size (c :: text) = c.utf8Size + size text := rfl

theorem size_singleton (c : Char) : size [c] = c.utf8Size := by
  simp

@[simp] theorem size_append (first second : List Char) :
    size (first ++ second) = size first + size second := by
  induction first with
  | nil => simp
  | cons c first ih =>
      rw [List.cons_append, size_cons, size_cons, ih, Nat.add_assoc]

end Text

namespace Pending

/-- The token of a word that does not go on. -/
def token? : Pending → Option Token
  | word read => some (Token.ofWord (String.ofList read.reverse))
  | number read =>
    if Text.Decimal.value read.reverse ≤ maxInteger then
      some (.int (Int64.ofNat (Text.Decimal.value read.reverse)))
    else none
  | literal read => some (.string (String.ofList (Text.unescape read.reverse)))
  | colon => some .colon
  | equals => some .assign
  | minus => some (.name "-")
  | complete token => some token
  | quote _ | escape _ | comment => none

theorem finish_of_token? {pending : Pending} {token : Token} (h : pending.token? = some token)
    (start stop : Nat) : pending.finish start stop = .ok (some ⟨token, ⟨start, stop⟩⟩) := by
  cases pending with
  | quote _ | escape _ | comment => cases h
  | word _ | literal _ | colon | equals | minus | complete _ =>
      cases h
      rfl
  | number read =>
      by_cases hle : Text.Decimal.value read.reverse ≤ maxInteger
      · rw [token?, if_pos hle] at h
        cases h
        exact if_pos hle
      · rw [token?, if_neg hle] at h
        cases h

/-- What a character starts. -/
inductive Starts : Char → Pending → Prop
  | word {c : Char} (h : Token.startsName c = true) : Starts c (word [c])
  | number {c : Char} (h : c.isDigit = true) : Starts c (number [c])
  | quote : Starts '\"' (quote [])
  | comment : Starts '#' comment
  | colon : Starts ':' colon
  | equals : Starts '=' equals
  | minus : Starts '-' minus
  | mark {c : Char} {token : Token} (h : Token.ofMark c = some token) : Starts c (complete token)

theorem starts_of_start {c : Char} {pending : Pending} (h : start c = some pending) :
    Starts c pending := by
  unfold start at h
  split at h
  · cases h
    exact .word ‹_›
  split at h
  · cases h
    exact .number ‹_›
  split at h
  · subst c
    cases h
    exact .quote
  split at h
  · subst c
    cases h
    exact .comment
  split at h
  · subst c
    cases h
    exact .colon
  split at h
  · subst c
    cases h
    exact .equals
  split at h
  · subst c
    cases h
    exact .minus
  obtain ⟨token, hmark, rfl⟩ := Option.map_eq_some_iff.1 h
  exact .mark hmark

/-- How a word goes on with a character. -/
inductive Extends : Pending → Char → Pending → Prop
  | word {read : List Char} {c : Char} (h : Token.continuesName c = true) :
      Extends (word read) c (word (c :: read))
  | number {read : List Char} {c : Char} (h : c.isDigit = true) :
      Extends (number read) c (number (c :: read))
  | close {read : List Char} : Extends (quote read) '\"' (literal read)
  | backslash {read : List Char} : Extends (quote read) '\\' (escape read)
  | inside {read : List Char} {c : Char} (hquote : c ≠ '\"') (hescape : c ≠ '\\') :
      Extends (quote read) c (quote (c :: read))
  | escaped {read : List Char} {c : Char} (h : c ≠ '\n') :
      Extends (escape read) c (quote (c :: '\\' :: read))
  | comment {c : Char} (h : c ≠ '\n') : Extends comment c comment
  | colonEqual : Extends colon '=' (complete .colonEqual)
  | equality : Extends equals '=' (complete (.name "=="))
  | arrow : Extends minus '>' (complete .arrow)

theorem extends_of_extend {pending next : Pending} {c : Char} (h : pending.extend c = some next) :
    Extends pending c next := by
  cases pending with
  | literal _ | complete _ => cases h
  | word read =>
      rw [extend] at h
      split at h <;> cases h
      exact .word ‹_›
  | number read =>
      rw [extend] at h
      split at h <;> cases h
      exact .number ‹_›
  | quote read =>
      rw [extend] at h
      split at h
      · subst c
        cases h
        exact .close
      · split at h
        · subst c
          cases h
          exact .backslash
        · cases h
          exact .inside ‹_› ‹_›
  | escape read =>
      rw [extend] at h
      split at h <;> cases h
      exact .escaped ‹_›
  | comment =>
      rw [extend] at h
      split at h <;> cases h
      exact .comment ‹_›
  | colon =>
      rw [extend] at h
      split at h <;> cases h
      subst c
      exact .colonEqual
  | equals =>
      rw [extend] at h
      split at h <;> cases h
      subst c
      exact .equality
  | minus =>
      rw [extend] at h
      split at h <;> cases h
      subst c
      exact .arrow

/-- The characters make a pending word. -/
inductive Spells : List Char → Pending → Prop
  | start {c : Char} {pending : Pending} (solid : Token.isGap c = false)
      (h : Pending.start c = some pending) : Spells [c] pending
  | extend {chars : List Char} {pending next : Pending} {c : Char} (h : Spells chars pending)
      (more : pending.extend c = some next) : Spells (chars ++ [c]) next

/-- The reader takes in the characters of a word one by one. -/
theorem Spells.scan {chars : List Char} {pending : Pending} (h : Spells chars pending)
    (position : Nat) (rest : List Char) :
    Lexer.scan ⟨position, none⟩ (chars ++ rest) =
      Lexer.scan ⟨position + Text.size chars, some (position, pending)⟩ rest := by
  induction h generalizing rest with
  | @start c pending solid h =>
      have hstart : Lexer.start position c =
          .ok ⟨position + c.utf8Size, some (position, pending)⟩ := by
        simp only [Lexer.start, solid, h, Bool.false_eq_true, if_false]
      have hstep : Lexer.step ⟨position, none⟩ c =
          .ok (none, ⟨position + c.utf8Size, some (position, pending)⟩) := by
        simp only [Lexer.step, Lexer.extend?, Lexer.finish, hstart]
        rfl
      rw [List.singleton_append, Lexer.scan, hstep, Text.size_singleton]
  | @extend chars pending next c h more ih =>
      have hstep : Lexer.step ⟨position + Text.size chars, some (position, pending)⟩ c =
          .ok (none, ⟨position + Text.size chars + c.utf8Size, some (position, next)⟩) := by
        simp only [Lexer.step, Lexer.extend?, more, Option.map_some]
      rw [List.append_assoc, ih, List.singleton_append, Lexer.scan, hstep, Text.size_append,
        Text.size_singleton, Nat.add_assoc]

/-- A pending word that what follows does not extend leaves its lexeme, if it is one, and a reader
without a word. -/
theorem scan_of_stops {pending : Pending} {rest : List Char}
    (stops : ∀ c ∈ rest.head?, pending.extend c = none) (first after : Nat) :
    Lexer.scan ⟨after, some (first, pending)⟩ rest =
      (do
        let ended ← pending.finish first after
        let lexemes ← Lexer.scan ⟨after, none⟩ rest
        pure (ended.toList ++ lexemes)) := by
  cases rest with
  | nil =>
      simp only [Lexer.scan, Lexer.finish]
      cases pending.finish first after with
      | error error => rfl
      | ok ended => cases ended <;> rfl
  | cons c rest =>
      have hnone : pending.extend c = none := stops c rfl
      have hstep : Lexer.step ⟨after, some (first, pending)⟩ c =
          (do
            let ended ← pending.finish first after
            let next ← Lexer.start after c
            pure (ended, next)) := by
        simp only [Lexer.step, Lexer.extend?, hnone, Option.map_none, Lexer.finish]
      have hfree : Lexer.step ⟨after, none⟩ c =
          (Lexer.start after c).map fun next => (none, next) := by
        simp only [Lexer.step, Lexer.extend?, Lexer.finish]
        cases Lexer.start after c <;> rfl
      rw [Lexer.scan, Lexer.scan, hstep, hfree]
      cases pending.finish first after with
      | error error => rfl
      | ok ended =>
          cases Lexer.start after c with
          | error error => rfl
          | ok next =>
              cases ended with
              | none =>
                  change Lexer.scan next rest = Except.bind (Lexer.scan next rest) _
                  cases Lexer.scan next rest <;> rfl
              | some lexeme =>
                  simp only [bind, Except.bind, pure, Except.pure, Except.map]
                  cases Lexer.scan next rest <;> rfl

end Pending

/-! ## 2. Texts -/

/-- The text spells the tokens: words, each as long as it can be, with gaps between them. -/
inductive Spelt : List Char → List Token → Prop
  | nil : Spelt [] []
  | gap {c : Char} {rest : List Char} {tokens : List Token} (h : Token.isGap c = true)
      (tail : Spelt rest tokens) : Spelt (c :: rest) tokens
  | word {chars rest : List Char} {pending : Pending} {token : Token} {tokens : List Token}
      (spells : Pending.Spells chars pending) (ends : pending.token? = some token)
      (stops : ∀ c ∈ rest.head?, pending.extend c = none) (tail : Spelt rest tokens) :
      Spelt (chars ++ rest) (token :: tokens)

theorem Lexer.scan_gap {c : Char} (h : Token.isGap c = true) (position : Nat) (rest : List Char) :
    Lexer.scan ⟨position, none⟩ (c :: rest) = Lexer.scan ⟨position + c.utf8Size, none⟩ rest := by
  have hstep : Lexer.step ⟨position, none⟩ c = .ok (none, ⟨position + c.utf8Size, none⟩) := by
    simp only [Lexer.step, Lexer.extend?, Lexer.finish, Lexer.start, h, if_true]
    rfl
  rw [Lexer.scan, hstep]

theorem Pending.Spells.scan_word {chars rest : List Char} {pending : Pending} {token : Token}
    (spells : Spells chars pending) (ends : pending.token? = some token)
    (stops : ∀ c ∈ rest.head?, pending.extend c = none) (position : Nat) :
    Lexer.scan ⟨position, none⟩ (chars ++ rest) =
      (Lexer.scan ⟨position + Text.size chars, none⟩ rest).map
        (⟨token, ⟨position, position + Text.size chars⟩⟩ :: ·) := by
  rw [spells.scan, scan_of_stops stops, finish_of_token? ends]
  cases Lexer.scan ⟨position + Text.size chars, none⟩ rest <;> rfl

/-- Whether a character may go on with a token that stands before it. -/
def Token.joins (c : Char) : Bool :=
  continuesName c || c.isDigit || c == '=' || c == '>'

theorem Pending.extend_eq_none {pending : Pending} {token : Token} (ends : pending.token? = some token)
    {c : Char} (hc : Token.joins c = false) : pending.extend c = none := by
  simp only [Token.joins, Bool.or_eq_false_iff, beq_eq_false_iff_ne] at hc
  obtain ⟨⟨⟨hname, hdigit⟩, hequal⟩, hangle⟩ := hc
  cases pending with
  | quote _ | escape _ | comment => cases ends
  | literal _ | complete _ => rfl
  | word _ => exact if_neg (Bool.eq_false_iff.1 hname)
  | number _ => exact if_neg (Bool.eq_false_iff.1 hdigit)
  | colon | equals => exact if_neg hequal
  | minus => exact if_neg hangle

/-- A text spells its tokens before another one too that does not go on with the last of them. -/
theorem Spelt.append {text rest : List Char} {tokens more : List Token} (h : Spelt text tokens)
    (hrest : ∀ c ∈ rest.head?, Token.joins c = false) (hmore : Spelt rest more) :
    Spelt (text ++ rest) (tokens ++ more) := by
  induction h with
  | nil => exact hmore
  | gap hgap _ ih => exact .gap hgap ih
  | @word chars text pending token tokens spells ends stops _ ih =>
      rw [List.append_assoc]
      refine .word spells ends (fun c hc => ?_) ih
      cases text with
      | nil => exact Pending.extend_eq_none ends (hrest c hc)
      | cons d text => exact stops c hc

/-- **The reader finds the tokens that a text spells**, wherever the text stands, and goes on after
it. -/
theorem Spelt.scan_append {text : List Char} {tokens : List Token} (h : Spelt text tokens)
    (position : Nat) : ∃ first : List Lexeme, first.map (·.token) = tokens ∧
      ∀ {rest : List Char}, (∀ c ∈ rest.head?, Token.joins c = false) →
        Lexer.scan ⟨position, none⟩ (text ++ rest) =
          (Lexer.scan ⟨position + Text.size text, none⟩ rest).map (first ++ ·) := by
  induction h generalizing position with
  | nil =>
      refine ⟨[], rfl, fun {rest} _ => ?_⟩
      change Lexer.scan ⟨position, none⟩ rest = (Lexer.scan ⟨position, none⟩ rest).map id
      cases Lexer.scan ⟨position, none⟩ rest <;> rfl
  | @gap c text tokens hgap _ ih =>
      obtain ⟨first, htokens, hscan⟩ := ih (position + c.utf8Size)
      refine ⟨first, htokens, fun {rest} hrest => ?_⟩
      rw [List.cons_append, Lexer.scan_gap hgap, hscan hrest, Text.size_cons, Nat.add_assoc]
  | @word chars text pending token tokens spells ends stops _ ih =>
      obtain ⟨first, htokens, hscan⟩ := ih (position + Text.size chars)
      refine ⟨⟨token, ⟨position, position + Text.size chars⟩⟩ :: first, ?_, fun {rest} hrest => ?_⟩
      · rw [List.map_cons, htokens]
      · have hstops : ∀ c ∈ (text ++ rest).head?, pending.extend c = none := by
          intro c hc
          cases text with
          | nil => exact Pending.extend_eq_none ends (hrest c hc)
          | cons d text => exact stops c hc
        rw [List.append_assoc, spells.scan_word ends hstops, hscan hrest, Text.size_append,
          Nat.add_assoc]
        cases Lexer.scan ⟨position + (Text.size chars + Text.size text), none⟩ rest <;> rfl

theorem Spelt.scan {text : List Char} {tokens : List Token} (h : Spelt text tokens)
    (position : Nat) : ∃ lexemes, Lexer.scan ⟨position, none⟩ text = .ok lexemes ∧
      lexemes.map (·.token) = tokens := by
  obtain ⟨first, htokens, hscan⟩ := h.scan_append position
  have hnil : ∀ c ∈ ([] : List Char).head?, Token.joins c = false := nofun
  have hall := hscan hnil
  rw [List.append_nil] at hall
  refine ⟨first, hall.trans ?_, htokens⟩
  exact congrArg Except.ok (List.append_nil first)

/-! ## 3. Comments -/

namespace Pending

/-- Where a word stands with respect to string literals. -/
def quoting : Pending → Layout.Quoting
  | quote _ => .inside
  | escape _ => .escaped
  | _ => .outside

theorem ne_of_class {c : Char} {p : Char → Bool} (h : p c = true) (hhash : p '#' = false)
    (hquote : p '\"' = false) : c ≠ '#' ∧ c ≠ '\"' := by
  constructor <;> rintro rfl
  · exact Bool.false_ne_true (hhash.symm.trans h)
  · exact Bool.false_ne_true (hquote.symm.trans h)

/-- Outside of literals, a character that starts neither a comment nor a literal is kept. -/
theorem withoutComment_outside {c : Char} (h : c ≠ '#' ∧ c ≠ '\"') (rest : List Char) :
    Layout.withoutComment .outside (c :: rest) = c :: Layout.withoutComment .outside rest := by
  rw [Layout.withoutComment, if_neg h.1, if_neg h.2]

/-- The character that starts a word is kept, and it opens a literal if the word is one. -/
theorem withoutComment_start {c : Char} {pending : Pending} (h : start c = some pending)
    (hword : pending ≠ comment) (rest : List Char) :
    Layout.withoutComment .outside (c :: rest) =
      c :: Layout.withoutComment pending.quoting rest := by
  cases starts_of_start h with
  | word hc => exact withoutComment_outside (ne_of_class hc (by decide) (by decide)) rest
  | number hc => exact withoutComment_outside (ne_of_class hc (by decide) (by decide)) rest
  | quote | colon | equals | minus => rfl
  | comment => exact absurd rfl hword
  | mark hmark =>
      refine withoutComment_outside ⟨?_, ?_⟩ rest <;> rintro rfl <;> cases hmark

/-- A character that extends a word is kept. -/
theorem withoutComment_extend {pending next : Pending} {c : Char} (h : pending.extend c = some next)
    (hword : pending ≠ comment) (rest : List Char) :
    Layout.withoutComment pending.quoting (c :: rest) =
      c :: Layout.withoutComment next.quoting rest := by
  cases extends_of_extend h with
  | word hc => exact withoutComment_outside (ne_of_class hc (by decide) (by decide)) rest
  | number hc => exact withoutComment_outside (ne_of_class hc (by decide) (by decide)) rest
  | close | backslash | escaped _ | colonEqual | equality | arrow => rfl
  | inside hquote hescape =>
      rw [quoting, Layout.withoutComment, if_neg hescape, if_neg hquote]
      rfl
  | comment _ => exact absurd rfl hword

/-- The characters of a word that is no comment are kept. -/
theorem Spells.withoutComment {chars : List Char} {pending : Pending} (h : Spells chars pending)
    (hword : pending ≠ comment) (rest : List Char) :
    Layout.withoutComment .outside (chars ++ rest) =
      chars ++ Layout.withoutComment pending.quoting rest := by
  induction h generalizing rest with
  | start _ h => exact withoutComment_start h hword rest
  | @extend chars pending next c _ more ih =>
      have hbefore : pending ≠ comment := by
        rintro rfl
        cases extends_of_extend more
        exact hword rfl
      rw [List.append_assoc, List.singleton_append, ih hbefore,
        withoutComment_extend more hbefore rest, List.append_assoc, List.singleton_append]

/-- A word that is a token has left every literal. -/
theorem quoting_of_token? {pending : Pending} {token : Token} (h : pending.token? = some token) :
    pending ≠ comment ∧ pending.quoting = .outside := by
  cases pending with
  | quote _ | escape _ | comment => cases h
  | word _ | number _ | literal _ | colon | equals | minus | complete _ => exact ⟨nofun, rfl⟩

end Pending

theorem Token.ne_of_isGap {c : Char} (h : Token.isGap c = true) : c ≠ '#' ∧ c ≠ '\"' :=
  Pending.ne_of_class h (by decide) (by decide)

/-- **In a text that spells tokens no comment starts**, and none of its literals is open after it. -/
theorem Spelt.withoutComment_append {text : List Char} {tokens : List Token} (h : Spelt text tokens)
    (rest : List Char) :
    Layout.withoutComment .outside (text ++ rest) =
      text ++ Layout.withoutComment .outside rest := by
  induction h with
  | nil => rfl
  | gap h _ ih =>
      rw [List.cons_append, Pending.withoutComment_outside (Token.ne_of_isGap h), ih]
      rfl
  | word spells ends _ _ ih =>
      obtain ⟨hword, hquoting⟩ := Pending.quoting_of_token? ends
      rw [List.append_assoc, spells.withoutComment hword, hquoting, ih, List.append_assoc]

theorem Spelt.withoutComment {text : List Char} {tokens : List Token} (h : Spelt text tokens) :
    Layout.withoutComment .outside text = text := by
  have hall := h.withoutComment_append []
  rwa [List.append_nil, Layout.withoutComment, List.append_nil] at hall

/-! ## 4. The words of the language -/

namespace Token

/-- Whether a text is a name: an identifier, and no keyword. -/
def isName (text : String) : Bool :=
  match text.toList with
  | [] => false
  | c :: rest => startsName c && rest.all continuesName && decide (ofWord text = name text)

/-- What follows does not go on with a name or number. -/
def Ends (rest : List Char) : Prop :=
  ∀ c ∈ rest.head?, continuesName c = false

theorem ends_nil : Ends [] := nofun

theorem ends_cons {c : Char} {rest : List Char} (h : continuesName c = false) :
    Ends (c :: rest) := by
  intro d hd
  cases hd
  exact h

/-- A character of a class that no gap belongs to. -/
theorem isGap_eq_false {c : Char} {p : Char → Bool} (h : p c = true)
    (hp : [' ', '\n', '\r', '\t', '\x0c'].all (fun gap => !p gap) = true) : isGap c = false := by
  rw [Bool.eq_false_iff]
  intro hgap
  simp only [isGap, Bool.or_eq_true, beq_iff_eq] at hgap
  simp only [List.all_cons, List.all_nil, Bool.and_true, Bool.and_eq_true, Bool.not_eq_true'] at hp
  obtain ⟨h₁, h₂, h₃, h₄, h₅⟩ := hp
  rcases hgap with (((rfl | rfl) | rfl) | rfl) | rfl
  · exact Bool.false_ne_true (h₁.symm.trans h)
  · exact Bool.false_ne_true (h₂.symm.trans h)
  · exact Bool.false_ne_true (h₃.symm.trans h)
  · exact Bool.false_ne_true (h₄.symm.trans h)
  · exact Bool.false_ne_true (h₅.symm.trans h)

theorem continuesName_of_isDigit {c : Char} (h : c.isDigit = true) : continuesName c = true := by
  simp [continuesName, Char.isAlphanum, h]

theorem toNat_of_isDigit {c : Char} (h : c.isDigit = true) : 48 ≤ c.toNat ∧ c.toNat ≤ 57 := by
  obtain ⟨hlow, hhigh⟩ := (Bool.and_eq_true ..).mp h
  exact ⟨UInt32.le_iff_toNat_le.1 (of_decide_eq_true hlow),
    UInt32.le_iff_toNat_le.1 (of_decide_eq_true hhigh)⟩

theorem toNat_of_isAlpha {c : Char} (h : c.isAlpha = true) :
    (65 ≤ c.toNat ∧ c.toNat ≤ 90) ∨ (97 ≤ c.toNat ∧ c.toNat ≤ 122) := by
  rcases (Bool.or_eq_true ..).mp h with hupper | hlower
  · obtain ⟨hlow, hhigh⟩ := of_decide_eq_true hupper
    exact .inl ⟨UInt32.le_iff_toNat_le.1 hlow, UInt32.le_iff_toNat_le.1 hhigh⟩
  · obtain ⟨hlow, hhigh⟩ := (Bool.and_eq_true ..).mp hlower
    exact .inr ⟨UInt32.le_iff_toNat_le.1 (of_decide_eq_true hlow),
      UInt32.le_iff_toNat_le.1 (of_decide_eq_true hhigh)⟩

theorem startsName_of_isDigit {c : Char} (h : c.isDigit = true) : startsName c = false := by
  rw [Bool.eq_false_iff]
  intro hname
  have hdigit := toNat_of_isDigit h
  rw [startsName, Bool.or_eq_true, beq_iff_eq] at hname
  rcases hname with halpha | rfl
  · have hletter := toNat_of_isAlpha halpha
    omega
  · exact absurd h (by decide)

theorem continuesName_of_startsName {c : Char} (h : startsName c = true) :
    continuesName c = true := by
  simp only [startsName, Bool.or_eq_true] at h
  simp only [continuesName, Char.isAlphanum, Bool.or_eq_true]
  rcases h with h | h
  · exact .inl (.inl (.inl h))
  · exact .inl (.inr h)

/-- The characters of names are not blank. -/
theorem isBlank_of_continuesName {c : Char} (h : continuesName c = true) :
    Text.isBlank c = false := by
  have hrange : (48 ≤ c.toNat ∧ c.toNat ≤ 122) ∨ c.toNat = 46 := by
    rw [continuesName, Bool.or_eq_true, Bool.or_eq_true, beq_iff_eq, beq_iff_eq] at h
    rcases h with (halnum | rfl) | rfl
    · rcases (Bool.or_eq_true ..).mp halnum with halpha | hdigit
      · have hletter := toNat_of_isAlpha halpha
        omega
      · have hnumber := toNat_of_isDigit hdigit
        omega
    · exact .inl (by decide)
    · exact .inr (by decide)
  simp only [Text.isBlank, Text.blankRanges, List.any_cons, List.any_nil, Bool.or_eq_false_iff,
    Bool.and_eq_false_iff, decide_eq_false_iff_not, and_true]
  refine ⟨?_, ?_, ?_, ?_, ?_, ?_, ?_, ?_, ?_, ?_⟩ <;> omega

theorem exists_of_isName {text : String} (h : isName text = true) :
    ∃ c rest, text.toList = c :: rest ∧ startsName c = true ∧
      (∀ d ∈ rest, continuesName d = true) ∧ ofWord text = name text := by
  unfold isName at h
  split at h
  · cases h
  · rename_i c rest htext
    simp only [Bool.and_eq_true, List.all_eq_true, decide_eq_true_eq] at h
    obtain ⟨⟨hc, hrest⟩, hword⟩ := h
    exact ⟨c, rest, htext, hc, hrest, hword⟩

end Token

namespace Text.Decimal

theorem digits_ne_nil (n : Nat) : digits n ≠ [] := by
  rw [digits]
  split
  · exact List.cons_ne_nil _ _
  · exact List.append_ne_nil_of_right_ne_nil _ (List.cons_ne_nil _ _)

theorem isDigit_digit {n : Nat} (h : n < 10) : (digit n).isDigit = true := by
  match n, h with
  | 0, _ | 1, _ | 2, _ | 3, _ | 4, _ | 5, _ | 6, _ | 7, _ | 8, _ | 9, _ => decide

theorem isDigit_of_mem_digits (n : Nat) : ∀ c ∈ digits n, c.isDigit = true := by
  fun_induction digits n with
  | case1 n h =>
      intro c hc
      rw [List.mem_singleton.1 hc]
      exact isDigit_digit h
  | case2 n _ ih =>
      intro c hc
      rcases List.mem_append.1 hc with hc | hc
      · exact ih c hc
      · rw [List.mem_singleton.1 hc]
        exact isDigit_digit (Nat.mod_lt n (by decide))

end Text.Decimal

namespace Pending.Spells

/-- A word of a kind that takes all characters of a class takes any number of them. -/
theorem extendAll {make : List Char → Pending} {p : Char → Bool}
    (hmake : ∀ read c, p c = true → (make read).extend c = some (make (c :: read)))
    {chars read : List Char} (h : Spells chars (make read)) (more : List Char)
    (hmore : ∀ c ∈ more, p c = true) : Spells (chars ++ more) (make (more.reverse ++ read)) := by
  induction more generalizing chars read with
  | nil => rwa [List.append_nil]
  | cons c more ih =>
      have hnext : Spells (chars ++ [c]) (make (c :: read)) :=
        .extend h (hmake read c (hmore c (List.mem_cons_self ..)))
      have hall := ih hnext fun d hd => hmore d (List.mem_cons_of_mem c hd)
      have hread : (c :: more).reverse ++ read = more.reverse ++ c :: read := by
        rw [List.reverse_cons, List.append_assoc, List.singleton_append]
      rw [hread, List.append_cons chars c more]
      exact hall

theorem word {c : Char} (hc : Token.startsName c = true) (chars : List Char)
    (hchars : ∀ d ∈ chars, Token.continuesName d = true) :
    Spells (c :: chars) (.word (c :: chars).reverse) := by
  have hstart : Spells [c] (.word [c]) :=
    .start (Token.isGap_eq_false hc (by decide)) (if_pos hc)
  have hextend : ∀ read d, Token.continuesName d = true →
      (Pending.word read).extend d = some (.word (d :: read)) := fun read d hd => if_pos hd
  have hall := extendAll hextend hstart chars hchars
  rwa [List.singleton_append, ← List.reverse_cons] at hall

theorem number {c : Char} (hc : c.isDigit = true) (chars : List Char)
    (hchars : ∀ d ∈ chars, d.isDigit = true) :
    Spells (c :: chars) (.number (c :: chars).reverse) := by
  have hstart : Spells [c] (.number [c]) := by
    refine .start (Token.isGap_eq_false hc (by decide)) ?_
    rw [Pending.start, if_neg (Bool.eq_false_iff.1 (Token.startsName_of_isDigit hc)), if_pos hc]
  have hextend : ∀ read (d : Char), d.isDigit = true →
      (Pending.number read).extend d = some (.number (d :: read)) := fun read d hd => if_pos hd
  have hall := extendAll hextend hstart chars hchars
  rwa [List.singleton_append, ← List.reverse_cons] at hall

end Pending.Spells

namespace Spelt

variable {rest : List Char} {tokens : List Token}

/-- An identifier or keyword. -/
theorem ofWord {c : Char} (hc : Token.startsName c = true) {chars : List Char}
    (hchars : ∀ d ∈ chars, Token.continuesName d = true) (ends : Token.Ends rest)
    (tail : Spelt rest tokens) :
    Spelt (c :: chars ++ rest) (Token.ofWord (String.ofList (c :: chars)) :: tokens) := by
  refine .word (.word hc chars hchars) ?_ (fun d hd => ?_) tail
  · rw [Pending.token?, List.reverse_reverse]
  · exact if_neg (Bool.eq_false_iff.1 (ends d hd))

/-- A numeral. -/
theorem number {n : Nat} (h : n ≤ Pending.maxInteger) (ends : Token.Ends rest)
    (tail : Spelt rest tokens) :
    Spelt (Text.Decimal.digits n ++ rest) (.int (Int64.ofNat n) :: tokens) := by
  obtain ⟨c, chars, hdigits⟩ := List.exists_cons_of_ne_nil (Text.Decimal.digits_ne_nil n)
  have hall := Text.Decimal.isDigit_of_mem_digits n
  have hvalue := Text.Decimal.value_digits n
  rw [hdigits] at hall hvalue ⊢
  have hc := hall c (List.mem_cons_self ..)
  refine .word (.number hc chars fun d hd => hall d (List.mem_cons_of_mem c hd)) ?_ (fun d hd => ?_)
    tail
  · rw [Pending.token?, List.reverse_reverse, hvalue, if_pos h]
  · refine if_neg fun hdigit => ?_
    have hcontinues := Token.continuesName_of_isDigit hdigit
    rw [ends d hd] at hcontinues
    cases hcontinues

/-- A token of one character that no character extends. -/
theorem mark {c : Char} {token : Token} (hgap : Token.isGap c = false)
    (h : Pending.start c = some (.complete token)) (tail : Spelt rest tokens) :
    Spelt (c :: rest) (token :: tokens) :=
  .word (.start hgap h) rfl (fun _ _ => rfl) tail

/-- A token of two characters. -/
theorem pair {c d : Char} {pending : Pending} {token : Token} (hgap : Token.isGap c = false)
    (h : Pending.start c = some pending) (hpair : pending.extend d = some (.complete token))
    (tail : Spelt rest tokens) : Spelt (c :: d :: rest) (token :: tokens) :=
  .word (.extend (.start hgap h) hpair) rfl (fun _ _ => rfl) tail

theorem colon (h : ∀ c ∈ rest.head?, c ≠ '=') (tail : Spelt rest tokens) :
    Spelt (':' :: rest) (.colon :: tokens) := by
  have hspells : Pending.Spells [':'] .colon := .start (by decide) (by decide)
  exact .word hspells rfl (fun c hc => if_neg (h c hc)) tail

theorem assign (h : ∀ c ∈ rest.head?, c ≠ '=') (tail : Spelt rest tokens) :
    Spelt ('=' :: rest) (.assign :: tokens) := by
  have hspells : Pending.Spells ['='] .equals := .start (by decide) (by decide)
  exact .word hspells rfl (fun c hc => if_neg (h c hc)) tail

end Spelt

/-! ## 5. String literals -/

namespace Text

/-- What may stand between the quotes of a literal on one line, and the text that it stands for: each
character as it is, or by a backslash and a character that stand for it. -/
inductive Writes : List Char → List Char → Prop
  | nil : Writes [] []
  | char {c : Char} {body text : List Char} (plain : c ∉ ['\"', '\\', '\n', '\t'])
      (rest : Writes body text) : Writes (c :: body) (c :: text)
  | escape {e c : Char} {body text : List Char} (inline : e ≠ '\n' ∧ e ≠ '\t')
      (stands : ∀ rest, unescape ('\\' :: e :: rest) = c :: unescape rest)
      (rest : Writes body text) : Writes ('\\' :: e :: body) (c :: text)

theorem unescape_of_ne {c : Char} (h : c ≠ '\\') (rest : List Char) :
    unescape (c :: rest) = c :: unescape rest := by
  rw [unescape]
  rintro _ _ rfl
  exact absurd rfl h

namespace Writes

variable {body text : List Char}

theorem append (h : Writes body text) {body' text' : List Char} (h' : Writes body' text') :
    Writes (body ++ body') (text ++ text') := by
  induction h with
  | nil => exact h'
  | char plain _ ih => exact .char plain ih
  | escape inline stands _ ih => exact .escape inline stands ih

/-- A text is written character by character. -/
theorem flatMap {write : Char → List Char} (text : List Char)
    (h : ∀ c ∈ text, Writes (write c) [c]) : Writes (text.flatMap write) text := by
  induction text with
  | nil => exact .nil
  | cons c text ih =>
      obtain ⟨hfirst, hrest⟩ := List.forall_mem_cons.1 h
      rw [List.flatMap_cons]
      exact hfirst.append (ih hrest)

theorem unescape_eq (h : Writes body text) : unescape body = text := by
  induction h with
  | nil => rfl
  | @char c _ _ plain _ ih =>
      have hescape : c ≠ '\\' := by
        rintro rfl
        exact absurd plain (by decide)
      rw [unescape_of_ne hescape, ih]
  | escape _ stands _ ih => rw [stands, ih]

/-- An open literal goes on with it. -/
theorem spells (h : Writes body text) {chars read : List Char}
    (hopen : Pending.Spells chars (.quote read)) :
    Pending.Spells (chars ++ body) (.quote (body.reverse ++ read)) := by
  induction h generalizing chars read with
  | nil => rwa [List.append_nil]
  | @char c body _ plain _ ih =>
      simp only [List.mem_cons, not_or] at plain
      obtain ⟨hquote, hescape, _⟩ := plain
      have hfirst : Pending.Spells (chars ++ [c]) (.quote (c :: read)) := by
        refine .extend hopen ?_
        rw [Pending.extend, if_neg hquote, if_neg hescape]
      rw [List.reverse_cons, List.append_assoc, List.append_cons chars]
      exact ih hfirst
  | @escape e c body _ inline _ _ ih =>
      have hfirst : Pending.Spells (chars ++ ['\\']) (.escape read) := .extend hopen rfl
      have hsecond : Pending.Spells (chars ++ ['\\'] ++ [e]) (.quote (e :: '\\' :: read)) :=
        .extend hfirst (if_neg inline.1)
      rw [List.reverse_cons, List.reverse_cons, List.append_assoc, List.append_assoc,
        List.append_cons chars, List.append_cons (chars ++ ['\\'])]
      exact ih hsecond

end Writes

/-- Whether a quoted text shows the character as it is, or by an escape that a literal may use. -/
def isReadable (c : Char) : Bool :=
  ['\n', '\t', '\r', '\"', '\\'].contains c || shown c == [c]

theorem writes_shown {c : Char} (h : isReadable c = true) : Writes (shown c) [c] := by
  simp only [isReadable, Bool.or_eq_true, List.contains_iff_mem, List.mem_cons, List.not_mem_nil,
    or_false, beq_iff_eq] at h
  rcases h with (rfl | rfl | rfl | rfl | rfl) | h
  · exact .escape (e := 'n') (by decide) (fun _ => rfl) .nil
  · exact .escape (e := 't') (by decide) (fun _ => rfl) .nil
  · exact .escape (e := 'r') (by decide) (fun _ => rfl) .nil
  · exact .escape (e := '\"') (by decide) (fun _ => rfl) .nil
  · exact .escape (e := '\\') (by decide) (fun _ => rfl) .nil
  · rw [h]
    refine .char (fun hmem => ?_) .nil
    simp only [List.mem_cons, List.not_mem_nil, or_false] at hmem
    rcases hmem with rfl | rfl | rfl | rfl <;> exact absurd h (by decide)

end Text

/-- A string literal. -/
theorem Spelt.literal {body : List Char} {text : String} (h : Text.Writes body text.toList)
    {rest : List Char} {tokens : List Token} (tail : Spelt rest tokens) :
    Spelt ('\"' :: (body ++ ['\"']) ++ rest) (.string text :: tokens) := by
  have hopen : Pending.Spells ['\"'] (.quote []) := .start (by decide) (by decide)
  have hinside := h.spells hopen
  rw [List.append_nil] at hinside
  have hclosed : Pending.Spells (['\"'] ++ body ++ ['\"']) (.literal body.reverse) :=
    .extend hinside rfl
  have htoken : (Pending.literal body.reverse).token? = some (.string text) := by
    rw [Pending.token?, List.reverse_reverse, h.unescape_eq, String.ofList_toList]
  exact Spelt.word hclosed htoken (fun _ _ => rfl) tail

end Offside
