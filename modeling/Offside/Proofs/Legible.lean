import Offside.Proofs.OpenLiterals
import Offside.Proofs.Printed

/-!
# Tokens that a text shows as they are

Names come in two kinds, identifiers and operators, and an integer in a text has no sign. Strings
apart, a token that has been read can be written again:

* `Token.operators`, `Token.isLegible` -- operators, and tokens that can be written as they are
  printed;
* `Tiled.isLegible` -- what is read is legible, unless it is a string;
* `Spelt.name`, `Spelt.lit` -- a legible name or literal is spelt by its text.

What stands after a word in a printed text is a blank, a comma or a closing parenthesis, which no
word goes on with; so the words are put together by `Spelt.append` alone.
-/

namespace Offside

/-! ## 1. Legible tokens -/

namespace Token

/-- The names that are no identifiers. -/
def operators : List String :=
  ["+", "-", "*", "/", "%", "<", ">", "=="]

/-- Whether the token can be written as it is printed: a number without a sign, a string whose
characters are shown as they are or by an escape of the language, a name of either kind. -/
def isLegible : Token → Bool
  | int value => decide (0 ≤ value)
  | string text => text.toList.all Text.isReadable
  | name text => isName text || operators.contains text
  | _ => true

/-- The tokens of keywords. -/
def keywords : List Token :=
  [bool true, bool false, nothing, structWord, unionWord]

theorem ofWord_mem_or_eq (word : String) : ofWord word ∈ keywords ∨ ofWord word = name word := by
  unfold ofWord
  repeat' split
  all_goals simp [keywords]

/-- A word is a keyword or an identifier. -/
theorem isLegible_ofWord {c : Char} (hc : startsName c = true) {rest : List Char}
    (hrest : ∀ d ∈ rest, continuesName d = true) :
    (ofWord (String.ofList (c :: rest))).isLegible = true := by
  rcases ofWord_mem_or_eq (String.ofList (c :: rest)) with hkeyword | hname
  · have hall : ∀ token ∈ keywords, token.isLegible = true := by decide
    exact hall _ hkeyword
  · have hident : isName (String.ofList (c :: rest)) = true := by
      rw [isName, String.toList_ofList]
      simp only [hc, List.all_eq_true.2 hrest, decide_eq_true hname, Bool.and_self]
    rw [hname, isLegible, hident, Bool.true_or]

theorem isLegible_ofMark {c : Char} {token : Token} (h : ofMark c = some token) :
    token.isLegible = true := by
  unfold ofMark at h
  split at h <;> cases h <;> decide

/-- A number that is not too large has no sign. -/
theorem isLegible_ofNat {n : Nat} (h : n ≤ Pending.maxInteger) :
    (int (Int64.ofNat n)).isLegible = true := by
  have hsmall : n < 2 ^ 63 := Nat.lt_succ_of_le h
  refine decide_eq_true (Int64.le_iff_toInt_le.2 ?_)
  rw [Int64.toInt_ofNat_of_lt hsmall]
  exact Int.natCast_nonneg n

end Token

/-! ## 2. What is read is legible -/

namespace Pending

/-- The characters of a word are those of an identifier. -/
theorem Spells.of_word {chars read : List Char} {pending : Pending} (h : Spells chars pending)
    (hword : pending = .word read) :
    ∃ c rest, read.reverse = c :: rest ∧ Token.startsName c = true ∧
      ∀ d ∈ rest, Token.continuesName d = true := by
  induction h generalizing read with
  | @start c _ _ h =>
      subst hword
      cases starts_of_start h with
      | word hc => exact ⟨c, [], rfl, hc, fun _ hd => absurd hd List.not_mem_nil⟩
  | @extend _ _ _ d _ more ih =>
      subst hword
      cases extends_of_extend more with
      | word hd =>
          obtain ⟨c, rest, hread, hc, hrest⟩ := ih rfl
          refine ⟨c, rest ++ [d], ?_, hc, ?_⟩
          · rw [List.reverse_cons, hread, List.cons_append]
          · rintro e he
            rcases List.mem_append.1 he with he | he
            · exact hrest e he
            · rwa [List.mem_singleton.1 he]

/-- A token of one or two characters is a mark, or is no name but `==`. -/
theorem Spells.of_complete {chars : List Char} {pending : Pending} {token : Token}
    (h : Spells chars pending) (hcomplete : pending = .complete token) :
    token.isLegible = true := by
  subst hcomplete
  cases h with
  | start _ h =>
      cases starts_of_start h with
      | mark hmark => exact Token.isLegible_ofMark hmark
  | extend _ more => cases extends_of_extend more <;> rfl

theorem Spells.isLegible {chars : List Char} {pending : Pending} {token : Token}
    (h : Spells chars pending) (ends : pending.token? = some token)
    (hstring : token.string? = none) : token.isLegible = true := by
  cases pending with
  | quote _ | escape _ | comment => cases ends
  | word read =>
      cases ends
      obtain ⟨c, rest, hread, hc, hrest⟩ := h.of_word rfl
      rw [hread]
      exact Token.isLegible_ofWord hc hrest
  | number read =>
      rw [token?] at ends
      split at ends
      · cases ends
        exact Token.isLegible_ofNat ‹_›
      · cases ends
  | literal _ =>
      cases ends
      cases hstring
  | colon | equals | minus =>
      cases ends
      rfl
  | complete _ =>
      cases ends
      exact h.of_complete rfl

end Pending

/-- **What is read is legible**, unless it is a string. -/
theorem Tiled.isLegible {position : Nat} {text : List Char} {lexemes : List Lexeme}
    (h : Tiled position text lexemes) :
    ∀ token ∈ lexemes.map (·.token), token.string? = none → token.isLegible = true := by
  induction h with
  | nil => exact fun _ hmem => absurd hmem List.not_mem_nil
  | gap _ _ ih | comment _ _ _ ih => exact ih
  | word spells ends _ _ ih =>
      rw [List.map_cons]
      exact List.forall_mem_cons.2 ⟨spells.isLegible ends, ih⟩

/-! ## 3. Legible names and literals are spelt -/

theorem Token.joins_cons {c : Char} (h : joins c = false) (rest : List Char) :
    ∀ d ∈ (c :: rest).head?, joins d = false := by
  intro d hd
  cases hd
  exact h

/-- A text in parentheses. -/
theorem Spelt.paren {inside : List Char} {tokens : List Token} (h : Spelt inside tokens) :
    Spelt ('(' :: (inside ++ [')'])) (.lparen :: (tokens ++ [.rparen])) := by
  have hclose : Spelt [')'] [.rparen] := .mark (by decide) (by decide) .nil
  have hinside := h.append (Token.joins_cons (by decide) []) hclose
  exact .mark (by decide) (by decide) hinside

/-- An operator is spelt by itself. -/
theorem Spelt.operator {text : String} (h : text ∈ Token.operators) :
    Spelt text.toList [.name text] := by
  have hmark : ∀ {c : Char} {token : Token}, Token.isGap c = false →
      Pending.start c = some (.complete token) → Spelt [c] [token] := fun hgap h => .mark hgap h .nil
  simp only [Token.operators, List.mem_cons, List.not_mem_nil, or_false] at h
  rcases h with rfl | rfl | rfl | rfl | rfl | rfl | rfl | rfl
  · exact hmark (by decide) (by decide)
  · have hminus : Pending.Spells ['-'] .minus := .start (by decide) (by decide)
    exact Spelt.word hminus rfl nofun Spelt.nil
  · exact hmark (by decide) (by decide)
  · exact hmark (by decide) (by decide)
  · exact hmark (by decide) (by decide)
  · exact hmark (by decide) (by decide)
  · exact hmark (by decide) (by decide)
  · exact .pair (by decide) (by decide : Pending.start '=' = some .equals) rfl .nil

theorem Spelt.name {text : String} (h : (Token.name text).isLegible = true) :
    Spelt text.toList [.name text] := by
  rw [Token.isLegible, Bool.or_eq_true, List.contains_iff_mem] at h
  rcases h with hname | hoperator
  · exact (Fragment.name hname).spelt_self
  · exact .operator hoperator

theorem Spelt.lit {value : Literal} (h : value.token.isLegible = true) :
    Spelt value.text.toList [value.token] := by
  refine (value.fragment ?_).spelt_self
  cases value with
  | int _ | str _ | bool _ | nothing => exact h

end Offside
