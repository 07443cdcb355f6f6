import Offside.Grammar.Scope

/-!
# What a failed reading points to

An error of the grammar points to a token, to a parenthesis with all that stands up to the one that
closes it, or to the end of the input. All of this is said for any property `P` of spans that the end
of the input has:

* `Located` -- `P` holds of each token, and of what reaches from a token to a later one;
* `Reading.Blames` -- a reading leaves the last of the tokens, and its error is at a span with `P`;
* `Expr.Atoms.Located`, `Nesting.Located` -- the spans that are kept while a reading goes on;
* `Program.blames_ofTokens` -- where the error of a program is.
-/

namespace Offside

variable {P : Span → Prop} {α β : Type} {stop : Span} {lexemes rest : List Lexeme}

/-! ## 1. Readings -/

/-- `P` holds of each token, and of what reaches from a token to a later one. -/
structure Located (P : Span → Prop) (lexemes : List Lexeme) : Prop where
  token : ∀ lexeme ∈ lexemes, P lexeme.span
  between : lexemes.Pairwise fun first last => P ⟨first.span.start, last.span.stop⟩

theorem Located.suffix (h : Located P lexemes) (hrest : rest <:+ lexemes) : Located P rest :=
  ⟨fun lexeme hmem => h.token lexeme (hrest.subset hmem), h.between.sublist hrest.sublist⟩

theorem Located.head {token : Token} {span : Span} (h : Located P (⟨token, span⟩ :: lexemes)) :
    P span :=
  h.token _ List.mem_cons_self

theorem Located.tail {lexeme : Lexeme} (h : Located P (lexeme :: lexemes)) : Located P lexemes :=
  h.suffix (List.suffix_cons lexeme lexemes)

namespace Reading

/-- Without an error there is none at a span without the property. -/
theorem sound (value : α) :
    ∀ error : ParseError, Except.ok value = .error error → P error.span := by
  intro error h
  cases h

/-- What is left are the last of the tokens, and an error is at a span with the property. -/
structure Blames (P : Span → Prop) (lexemes : List Lexeme) (reading : Reading α) : Prop where
  rest : reading.2 <:+ lexemes
  error : ∀ error, reading.1 = .error error → P error.span

theorem Blames.ok {value : α} (hrest : rest <:+ lexemes) :
    Blames P lexemes (.ok value, rest) :=
  ⟨hrest, sound value⟩

theorem Blames.failed {span : Span} {fault : Fault} (h : P span) (hrest : rest <:+ lexemes) :
    Blames P lexemes ((.error ⟨span, fault⟩, rest) : Reading α) := by
  refine ⟨hrest, fun error herror => ?_⟩
  cases herror
  exact h

theorem Blames.of_suffix {reading : Reading α} (h : reading.Blames P rest)
    (hrest : rest <:+ lexemes) : reading.Blames P lexemes :=
  ⟨h.rest.trans hrest, h.error⟩

theorem Blames.cons {reading : Reading α} {lexeme : Lexeme} (h : reading.Blames P lexemes) :
    reading.Blames P (lexeme :: lexemes) :=
  h.of_suffix (List.suffix_cons lexeme lexemes)

/-- A reading goes on with the tokens that are left. -/
theorem Blames.andThen {reading : Reading α} {next : α → List Lexeme → Reading β}
    (hlexemes : Located P lexemes) (h : reading.Blames P lexemes)
    (hnext : ∀ value rest, Located P rest → (next value rest).Blames P rest) :
    (reading.andThen next).Blames P lexemes := by
  obtain ⟨outcome, rest⟩ := reading
  cases outcome with
  | error error => exact ⟨h.rest, fun other hother => h.error other (by cases hother; rfl)⟩
  | ok value => exact (hnext value rest (hlexemes.suffix h.rest)).of_suffix h.rest

end Reading

theorem blames_expect (hstop : P stop) (h : Located P lexemes) (wanted : Token) (place : Place) :
    (expect stop wanted place lexemes).Blames P lexemes := by
  cases lexemes with
  | nil => exact .failed hstop (List.suffix_refl [])
  | cons lexeme rest =>
      rw [expect]
      split
      · exact .ok (List.suffix_cons _ rest)
      · exact .failed h.head (List.suffix_cons _ rest)

theorem skipTerminators_suffix (lexemes : List Lexeme) : skipTerminators lexemes <:+ lexemes := by
  fun_induction skipTerminators lexemes with
  | case1 _ rest ih => exact ih.trans (List.suffix_cons _ rest)
  | case2 => exact List.suffix_refl _

/-! ## 2. Types -/

namespace Ty

mutual

theorem blames_shift (hstop : P stop) : ∀ (lexemes : List Lexeme) (stack : List Unfinished),
    Located P lexemes → (∀ unfinished ∈ stack, P unfinished.paren) →
      (shift stop stack lexemes).Blames P lexemes
  | [], stack, _, _ => by
    rw [shift]
    exact .failed hstop (List.suffix_refl [])
  | ⟨token, span⟩ :: tail, stack, h, hstack => by
    rw [shift.eq_def]
    split
    · exact .failed hstop List.nil_suffix
    · rename_i eq
      cases eq
      exact .cons (blames_reduce hstop _ stack _ h.tail hstack)
    · rename_i eq
      cases eq
      refine .cons (.cons (blames_shift hstop _ _ h.tail.tail ?_))
      exact List.forall_mem_cons.2 ⟨h.head, hstack⟩
    · rename_i eq
      cases eq
      refine .cons (blames_shift hstop _ _ h.tail ?_)
      exact List.forall_mem_cons.2 ⟨h.head, hstack⟩
    · rename_i eq
      cases eq
      exact .cons (.failed h.head (List.suffix_refl _))

theorem blames_reduce (hstop : P stop) : ∀ (lexemes : List Lexeme) (stack : List Unfinished)
    (ty : Ty), Located P lexemes → (∀ unfinished ∈ stack, P unfinished.paren) →
      (reduce stop ty stack lexemes).Blames P lexemes
  | lexemes, stack, ty, h, hstack => by
    rw [reduce.eq_def]
    split
    · exact .ok (List.suffix_refl _)
    · exact .failed (hstack _ List.mem_cons_self) (List.suffix_refl [])
    · exact .failed (hstack _ List.mem_cons_self) (List.suffix_refl [])
    · obtain ⟨hparen, houter⟩ := List.forall_mem_cons.1 hstack
      split
      · refine .cons (blames_shift hstop _ _ h.tail ?_)
        exact List.forall_mem_cons.2 ⟨hparen, houter⟩
      · split
        · refine .cons (blames_shift hstop _ _ h.tail ?_)
          exact List.forall_mem_cons.2 ⟨hparen, houter⟩
        · exact .cons (.failed h.head (List.suffix_refl _))
    · obtain ⟨_, houter⟩ := List.forall_mem_cons.1 hstack
      split
      · exact .cons (blames_reduce hstop _ _ _ h.tail houter)
      · exact .cons (.failed h.head (List.suffix_refl _))

end

theorem blames_parseAscription (hstop : P stop) (h : Located P lexemes) (place : Place) :
    (parseAscription stop place lexemes).Blames P lexemes :=
  .andThen h (blames_expect hstop h .colon place) fun _ rest hrest =>
    blames_shift hstop rest [] hrest nofun

end Ty

/-! ## 3. Expressions -/

namespace Expr

/-- The spans of the atoms read so far. An open parenthesis may be joined with each token to come:
the one that closes it is among them. -/
def Group.Located (P : Span → Prop) : Group → Prop
  | .empty => True
  | .headed _ span _ => P span

structure Atoms.Located (P : Span → Prop) (lexemes : List Lexeme) (atoms : Atoms) : Prop where
  group : atoms.group.Located P
  parens : ∀ entry ∈ atoms.stack, P entry.1 ∧ entry.2.Located P
  joins : ∀ entry ∈ atoms.stack, ∀ lexeme ∈ lexemes, P ⟨entry.1.start, lexeme.span.stop⟩

/-- A step keeps such spans, and its error is at one. -/
def Move.Blames (P : Span → Prop) (rest : List Lexeme) : Move → Prop
  | .next atoms => atoms.Located P rest
  | .leave outcome => ∀ error, outcome = .error error → P error.span
  | .wrong error => P error.span

theorem Group.Located.push {group : Group} {span : Span} (h : group.Located P) (hspan : P span)
    (atom : Expr) : (group.push atom span).Located P := by
  cases group with
  | empty => exact hspan
  | headed head headSpan operands => exact h

theorem span_of_ofAtoms {head : Expr} {span : Span} {operands : List Expr} {error : ParseError}
    (h : ofAtoms head span operands = .error error) : error.span = span := by
  unfold ofAtoms at h
  split at h
  · cases h
  · cases h
    rfl
  · cases h

namespace Atoms

variable {token : Token} {span : Span} {atoms : Atoms}

theorem Located.tail (h : atoms.Located P (⟨token, span⟩ :: rest)) : atoms.Located P rest :=
  ⟨h.group, h.parens, fun entry hentry lexeme hmem =>
    h.joins entry hentry lexeme (List.mem_cons_of_mem _ hmem)⟩

theorem blames_take (hlexemes : Offside.Located P (⟨token, span⟩ :: rest))
    (h : atoms.Located P (⟨token, span⟩ :: rest)) : (atoms.take token span).Blames P rest := by
  unfold take
  split
  · exact ⟨h.group.push hlexemes.head _, h.tail.parens, h.tail.joins⟩
  · split
    · refine ⟨trivial, ?_, ?_⟩
      · exact List.forall_mem_cons.2 ⟨⟨hlexemes.head, h.group⟩, h.parens⟩
      · exact List.forall_mem_cons.2 ⟨(List.pairwise_cons.1 hlexemes.between).1, h.tail.joins⟩
    · exact hlexemes.head

theorem blames_close {outcome : Except ParseError Expr} {stack : List (Span × Group)}
    (hlexemes : Offside.Located P (⟨token, span⟩ :: rest))
    (houtcome : ∀ error, outcome = .error error → P error.span)
    (h : Atoms.Located P (⟨token, span⟩ :: rest) ⟨.empty, stack⟩) :
    (close outcome stack token span).Blames P rest := by
  unfold close
  split
  · exact houtcome
  · exact Reading.sound _
  · rename_i expr paren outer stack
    obtain ⟨⟨_, houter⟩, hparens⟩ := List.forall_mem_cons.1 h.parens
    obtain ⟨hjoin, -⟩ := List.forall_mem_cons.1 h.joins
    obtain ⟨-, hjoins⟩ := List.forall_mem_cons.1 h.tail.joins
    split
    · exact ⟨houter.push (hjoin _ List.mem_cons_self) expr, hparens, hjoins⟩
    · exact hlexemes.head

theorem blames_step (hlexemes : Offside.Located P (⟨token, span⟩ :: rest))
    (h : atoms.Located P (⟨token, span⟩ :: rest)) : (atoms.step token span).Blames P rest := by
  obtain ⟨group, stack⟩ := atoms
  cases group with
  | empty => exact blames_take hlexemes h
  | headed head headSpan operands =>
      simp only [step]
      split
      · refine blames_close hlexemes (fun error herror => ?_) ⟨trivial, h.parens, h.joins⟩
        rw [span_of_ofAtoms herror]
        exact h.group
      · exact blames_take hlexemes h

theorem blames_finish (hstop : P stop) (h : atoms.Located P lexemes) :
    ∀ error, atoms.finish stop = .error error → P error.span := by
  intro error herror
  obtain ⟨group, stack⟩ := atoms
  unfold finish at herror
  split at herror
  · cases herror
    exact hstop
  · rename_i hgroup _
    cases hgroup
    rw [span_of_ofAtoms herror]
    exact h.group
  · rename_i head headSpan operands paren _ _ hgroup hstack
    cases hgroup
    cases hstack
    cases hatoms : ofAtoms head headSpan operands with
    | error other =>
        rw [hatoms] at herror
        cases herror
        rw [span_of_ofAtoms hatoms]
        exact h.group
    | ok expr =>
        rw [hatoms] at herror
        cases herror
        exact (h.parens _ List.mem_cons_self).1

end Atoms

theorem blames_readAtoms (hstop : P stop) (hlexemes : Located P lexemes) {atoms : Atoms}
    (h : atoms.Located P lexemes) : (readAtoms stop atoms lexemes).Blames P lexemes := by
  induction lexemes generalizing atoms with
  | nil => exact ⟨List.suffix_refl [], Atoms.blames_finish hstop h⟩
  | cons lexeme rest ih =>
      have hstep := Atoms.blames_step hlexemes h
      rw [readAtoms]
      split
      · rename_i next hnext
        rw [hnext] at hstep
        exact .cons (ih hlexemes.tail hstep)
      · rename_i outcome hleave
        rw [hleave] at hstep
        exact ⟨List.suffix_refl _, hstep⟩
      · rename_i error hwrong
        rw [hwrong] at hstep
        exact .cons (.failed hstep (List.suffix_refl _))

theorem blames_parse (hstop : P stop) (h : Located P lexemes) :
    (parse stop lexemes).Blames P lexemes :=
  blames_readAtoms hstop h ⟨trivial, nofun, nofun⟩

end Expr

/-! ## 4. Headers and declarations -/

namespace Header

theorem blames_parseParams (hstop : P stop) (owner : String) (params : List (String × Ty))
    (h : Located P lexemes) : (parseParams stop owner params lexemes).Blames P lexemes := by
  fun_induction parseParams stop owner params lexemes with
  | case1 => exact .failed hstop (List.suffix_refl [])
  | case2 params _ rest => exact .ok (List.suffix_cons _ rest)
  | case3 => exact .cons (.failed h.head (List.suffix_refl _))
  | case4 params name span rest _ error after hty =>
      have hread := Ty.blames_parseAscription hstop h.tail .afterParameter
      rw [hty] at hread
      exact .cons ⟨hread.rest, fun other hother => hread.error other (by cases hother; rfl)⟩
  | case5 params name span rest _ ty after hty ih =>
      have hread := Ty.blames_parseAscription hstop h.tail .afterParameter
      rw [hty] at hread
      exact .cons ((ih (h.tail.suffix hread.rest)).of_suffix hread.rest)
  | case6 => exact .failed h.head (List.suffix_refl _)

theorem blames_parse (hstop : P stop) (owner : String) (h : Located P lexemes) :
    (parse stop owner lexemes).Blames P lexemes := by
  refine .andThen h (Ty.blames_parseAscription hstop h _) fun ty rest hrest => ?_
  refine .andThen hrest (blames_parseParams hstop owner [] hrest) fun params rest hrest => ?_
  refine .andThen hrest (Expr.blames_parse hstop hrest) fun body rest hrest => ?_
  split
  · exact .failed hrest.head (List.suffix_refl _)
  · exact .ok (List.suffix_refl _)

end Header

namespace Declaration

theorem blames_parseFields (hstop : P stop) (fields : List (String × Ty))
    (h : Located P lexemes) : (parseFields stop fields lexemes).Blames P lexemes := by
  fun_induction parseFields stop fields lexemes with
  | case1 => exact .ok (List.suffix_refl [])
  | case2 => exact .cons (.failed h.head (List.suffix_refl _))
  | case3 fields name span rest _ error after hty =>
      have hread := Ty.blames_parseAscription hstop h.tail .afterField
      rw [hty] at hread
      exact .cons ⟨hread.rest, fun other hother => hread.error other (by cases hother; rfl)⟩
  | case4 fields name span rest _ ty after hty ih =>
      have hread := Ty.blames_parseAscription hstop h.tail .afterField
      rw [hty] at hread
      exact .cons ((ih (h.tail.suffix hread.rest)).of_suffix hread.rest)
  | case5 => exact .ok (List.suffix_refl _)
  | case6 => exact .cons (.failed h.head (List.suffix_refl _))

theorem blames_parseOptions (hstop : P stop) (options : List String) (h : Located P lexemes) :
    (parseOptions stop options lexemes).Blames P lexemes := by
  fun_induction parseOptions stop options lexemes with
  | case1 => exact .failed hstop (List.suffix_refl [])
  | case2 => exact .ok List.nil_suffix
  | case3 _ _ _ _ _ _ ih => exact .cons (.cons (ih h.tail.tail))
  | case4 => exact .cons (.ok (List.suffix_refl _))
  | case5 => exact .cons (.cons (.failed h.tail.head (List.suffix_refl _)))
  | case6 => exact .cons (.failed h.head (List.suffix_refl _))

theorem blames_parse (hstop : P stop) (name : String) (h : Located P lexemes) :
    (parse stop name lexemes).Blames P lexemes := by
  unfold parse
  split
  · exact .failed hstop (List.suffix_refl [])
  · refine .cons (.andThen h.tail (blames_parseFields hstop [] h.tail) fun fields rest _ => ?_)
    split
    · exact .failed h.head (List.suffix_refl _)
    · exact .ok (List.suffix_refl _)
  · refine .cons (.andThen h.tail (blames_parseOptions hstop [] h.tail) fun options rest _ => ?_)
    exact .ok (List.suffix_refl _)
  · exact .cons (.failed h.head (List.suffix_refl _))

end Declaration

theorem Declared.blames_read (hstop : P stop) (declared : Declared) (name : String) {span : Span}
    (hspan : P span) (h : Located P lexemes) :
    (declared.read stop name span lexemes).Blames P lexemes := by
  refine .andThen h (blames_expect hstop h _ _) fun _ rest hrest => ?_
  split
  · exact .failed hspan (List.suffix_refl _)
  · exact Declaration.blames_parse hstop name hrest

/-! ## 5. Scopes -/

/-- The opening brace of a scope, if it has one, is at a span with the property. -/
def OpenScope.Located (P : Span → Prop) (scope : OpenScope) : Prop :=
  ∀ brace ∈ scope.opening, P brace

structure Nesting.Located (P : Span → Prop) (nesting : Nesting) : Prop where
  scope : nesting.scope.Located P
  outer : ∀ enclosing ∈ nesting.outer, P enclosing.span ∧ enclosing.scope.Located P

/-- A step keeps such spans and leaves the last of the tokens; an error is at such a span. -/
def Progress.Blames (P : Span → Prop) (lexemes : List Lexeme) : Progress → Prop
  | .next nesting rest => nesting.Located P ∧ rest <:+ lexemes
  | .done outcome _ _ => ∀ error, outcome = .error error → P error.span

theorem Progress.Blames.of_suffix {progress : Progress} (h : progress.Blames P rest)
    (hrest : rest <:+ lexemes) : progress.Blames P lexemes := by
  cases progress with
  | next nesting after => exact ⟨h.1, h.2.trans hrest⟩
  | done outcome declared after => exact h

namespace OpenScope

/-- An addition leaves the brace of the scope, and fails at the name that is added. -/
def Adds (P : Span → Prop) : Except ParseError OpenScope → Prop
  | .ok scope => scope.Located P
  | .error error => P error.span

theorem adds_add {scope : OpenScope} (h : scope.Located P) (name : String) {span : Span}
    (hspan : P span) (definition : Definition) : Adds P (scope.add name span definition) := by
  unfold add
  split
  · exact hspan
  · exact h

theorem adds_addAll {scope : OpenScope} (h : scope.Located P) {span : Span} (hspan : P span)
    (entries : List (String × Definition)) : Adds P (scope.addAll span entries) := by
  induction entries generalizing scope with
  | nil => exact h
  | cons entry entries ih =>
      have hadd := adds_add h entry.1 hspan entry.2
      rw [addAll]
      split
      · rename_i error herror
        rwa [herror] at hadd
      · rename_i next hnext
        rw [hnext] at hadd
        exact ih hadd

end OpenScope

namespace Nesting

variable {nesting : Nesting} {name : String} {span : Span}

theorem blames_fail {fault : Fault} (hspan : P span) :
    (nesting.fail ⟨span, fault⟩ rest).Blames P lexemes := by
  intro error herror
  cases herror
  exact hspan

theorem blames_resume {scope : Except ParseError OpenScope}
    (houter : ∀ enclosing ∈ nesting.outer, P enclosing.span ∧ enclosing.scope.Located P)
    (h : OpenScope.Adds P scope) : (nesting.resume scope lexemes).Blames P lexemes := by
  cases scope with
  | error error => exact blames_fail h
  | ok scope => exact ⟨⟨h, houter⟩, List.suffix_refl _⟩

theorem blames_define (hspan : P span) (hlexemes : Offside.Located P lexemes)
    (h : nesting.Located P) {reading : Reading Header} (hread : reading.Blames P lexemes) :
    (nesting.define name span reading).Blames P lexemes := by
  obtain ⟨outcome, after⟩ := reading
  cases outcome with
  | error error =>
      intro other hother
      cases hother
      exact hread.error _ rfl
  | ok header =>
      have hskip := (skipTerminators_suffix after).trans hread.rest
      rw [define]
      split
      · rename_i brace rest hopen
        rw [hopen] at hskip
        refine ⟨⟨?_, ?_⟩, (List.suffix_cons _ rest).trans hskip⟩
        · intro other hother
          cases hother
          exact (hlexemes.suffix hskip).head
        · exact List.forall_mem_cons.2 ⟨⟨hspan, h.scope⟩, h.outer⟩
      · exact (blames_resume h.outer (OpenScope.adds_add h.scope name hspan _)).of_suffix hskip

theorem blames_declare (hspan : P span) (origin : Nat) (h : nesting.Located P)
    {reading : Reading Declaration} (hread : reading.Blames P lexemes) :
    (nesting.declare origin name span reading).Blames P lexemes := by
  obtain ⟨outcome, after⟩ := reading
  cases outcome with
  | error error =>
      intro other hother
      cases hother
      exact hread.error _ rfl
  | ok declaration =>
      have hadds := OpenScope.adds_addAll h.scope hspan (declaration.definitions origin name)
      exact Progress.Blames.of_suffix (blames_resume h.outer hadds) hread.rest

theorem blames_item (hstop : P stop) (origin : Nat) (hspan : P span)
    (hlexemes : Offside.Located P lexemes) (h : nesting.Located P) :
    (nesting.item stop origin name span lexemes).Blames P lexemes := by
  unfold item
  split
  · exact blames_fail hspan
  · exact blames_define hspan hlexemes h (Header.blames_parse hstop name hlexemes)
  · split
    · exact blames_fail hlexemes.head
    · exact blames_declare hspan origin h (Declared.blames_read hstop _ name hspan hlexemes)
  · exact blames_fail hlexemes.head

theorem blames_close (h : nesting.Located P) : (nesting.close lexemes).Blames P lexemes := by
  unfold close
  split
  · exact Reading.sound _
  · rename_i name span header scope outer houter
    obtain ⟨⟨hspan, hscope⟩, hrest⟩ := List.forall_mem_cons.1 (houter ▸ h.outer)
    exact blames_resume hrest (OpenScope.adds_add hscope name hspan _)

/-- What one step does: the next scope keeps its spans, and an error is at one of them. -/
theorem blames_step (hstop : P stop) (origin : Nat) (hlexemes : Offside.Located P lexemes)
    (h : nesting.Located P) : (nesting.step stop origin lexemes).Blames P lexemes := by
  unfold step
  split
  · split
    · rename_i brace hopen
      exact blames_fail (h.scope brace hopen)
    · exact Reading.sound _
  · exact ⟨h, List.suffix_cons _ _⟩
  · exact (blames_item hstop origin hlexemes.head hlexemes.tail h).of_suffix (List.suffix_cons _ _)
  · split
    · exact (blames_close h).of_suffix (List.suffix_cons _ _)
    · exact blames_fail hlexemes.head

/-- **An error of a scope is at a span with the property.** -/
theorem blames_run (hstop : P stop) (origin : Nat) (hlexemes : Offside.Located P lexemes)
    (h : nesting.Located P) {error : ParseError}
    (herror : (nesting.run stop origin lexemes).1.1 = .error error) : P error.span := by
  fun_induction run nesting stop origin lexemes with
  | case1 nesting lexemes next rest hstep ih =>
      have hblames := blames_step hstop origin hlexemes h
      rw [hstep] at hblames
      exact ih (hlexemes.suffix hblames.2) hblames.1 herror
  | case2 nesting lexemes outcome declared rest hstep =>
      have hblames := blames_step hstop origin hlexemes h
      rw [hstep] at hblames
      exact hblames error herror

end Nesting

/-- **An error of a program is at a span with the property.** -/
theorem Program.blames_ofTokens {origin : Nat} (hlexemes : Located P lexemes)
    (hstop : P (endSpan lexemes)) {error : ParseError}
    (h : Program.ofTokens origin lexemes = .error error) : P error.span := by
  rw [Program.ofTokens, Reader.program] at h
  split at h
  · rename_i failed _ hscope
    cases h
    have hstart : Nesting.Located P ⟨.empty, ⟨none, [], []⟩, []⟩ := ⟨nofun, nofun⟩
    exact Nesting.blames_run hstop origin hlexemes hstart (congrArg Prod.fst hscope)
  · cases h

end Offside
