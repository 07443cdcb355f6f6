import Mathlib.Data.List.Nodup
import Offside.Proofs.Phrases

/-!
# Readers of what follows a name

After the name of an item stands its head: the header of a definition, or a declaration. As with
types and expressions, a reader takes just what the grammar allows:

* `Ty.TakesFields` -- a loop that takes names with their types, as parameters or as fields;
* `Header.parse_eq_ok_iff` -- headers;
* `Declaration.parse_eq_ok_iff`, `Declared.read_eq_ok_iff` -- declarations.
-/

namespace Offside

/-! ## 1. Names with their types -/

/-- No name stands at the front. -/
def NoName (lexemes : List Lexeme) : Prop :=
  ∀ lexeme ∈ lexemes.head?, ∀ name, lexeme.token ≠ .name name

theorem noName_or (lexemes : List Lexeme) :
    NoName lexemes ∨ ∃ name span tail, lexemes = ⟨.name name, span⟩ :: tail := by
  by_cases h : NoName lexemes
  · exact .inl h
  · simp only [NoName, not_forall, ne_eq, not_not] at h
    obtain ⟨⟨token, span⟩, hlexeme, name, rfl⟩ := h
    obtain ⟨tail, rfl⟩ := List.head?_eq_some_iff.1 hlexeme
    exact .inr ⟨name, span, tail, rfl⟩

namespace Ty

variable {α : Type} {stop : Span} {place : Place} {result : α} {rest : List Lexeme}
  {loop : List (String × Ty) → List Lexeme → Reading α}

/-- A loop that takes names with their types, each name once. -/
def TakesFields (stop : Span) (place : Place)
    (loop : List (String × Ty) → List Lexeme → Reading α) : Prop :=
  ∀ (name : String) (span : Span) (fields : List (String × Ty)) (tail : List Lexeme),
    loop fields (⟨.name name, span⟩ :: tail) =
      if name ∈ fields.map (·.1) then (.error ⟨span, .duplicate name⟩, tail)
      else (parseAscription stop place tail).andThen fun ty after =>
        loop (fields ++ [(name, ty)]) after

/-- Such a loop takes a name that is new, with a colon and a type after it. -/
theorem TakesFields.name_eq_ok_iff (hloop : TakesFields stop place loop) {name : String}
    {span : Span} {fields : List (String × Ty)} {tail : List Lexeme} :
    loop fields (⟨.name name, span⟩ :: tail) = (.ok result, rest) ↔
      name ∉ fields.map (·.1) ∧ ∃ colon front ty after,
        tail = ⟨.colon, colon⟩ :: (front ++ after) ∧ Derives (tokensOf front) ty ∧
          loop (fields ++ [(name, ty)]) after = (.ok result, rest) := by
  rw [hloop]
  by_cases hnew : name ∈ fields.map (·.1)
  · rw [if_pos hnew]
    exact ⟨nofun, fun h => absurd hnew h.1⟩
  · rw [if_neg hnew, Reading.andThen_eq_ok_iff]
    constructor
    · rintro ⟨ty, after, htail, hafter⟩
      obtain ⟨colon, front, htail, hty⟩ := parseAscription_eq_ok_iff.1 htail
      exact ⟨hnew, colon, front, ty, after, htail, hty, hafter⟩
    · rintro ⟨_, colon, front, ty, after, htail, hty, hafter⟩
      exact ⟨ty, after, parseAscription_eq_ok_iff.2 ⟨colon, front, htail, hty⟩, hafter⟩

/-- One more field keeps the names apart exactly if its name is new. -/
theorem nodup_concat_iff {fields : List (String × Ty)} {name : String} {ty : Ty} :
    ((fields ++ [(name, ty)]).map (·.1)).Nodup ↔
      name ∉ fields.map (·.1) ∧ (fields.map (·.1)).Nodup := by
  rw [List.map_append, List.map_singleton, List.nodup_append_comm]
  exact List.nodup_cons

/-- What such a loop has read is fields. -/
theorem TakesFields.derives (hloop : TakesFields stop place loop) (lexemes : List Lexeme)
    (fields : List (String × Ty)) (hnodup : (fields.map (·.1)).Nodup)
    (h : loop fields lexemes = (.ok result, rest)) :
    ∃ front back more, lexemes = front ++ back ∧ DerivesFields (tokensOf front) more ∧
      ((fields ++ more).map (·.1)).Nodup ∧ NoName back ∧
        loop (fields ++ more) back = (.ok result, rest) := by
  induction hlength : lexemes.length using Nat.strongRecOn generalizing lexemes fields with
  | ind n ih =>
      rcases noName_or lexemes with hnone | ⟨name, span, tail, rfl⟩
      · refine ⟨[], lexemes, [], rfl, .nil, ?_, hnone, ?_⟩
        · rwa [List.append_nil]
        · rwa [List.append_nil]
      · obtain ⟨hnew, colon, left, ty, after, rfl, hty, hafter⟩ := hloop.name_eq_ok_iff.1 h
        have hshorter : after.length < n := by
          simp only [← hlength, List.length_cons, List.length_append]
          omega
        obtain ⟨right, back, more, rfl, hmore, hall, hnone, hback⟩ :=
          ih _ hshorter after _ (nodup_concat_iff.2 ⟨hnew, hnodup⟩) hafter rfl
        rw [List.append_assoc] at hall hback
        refine ⟨⟨.name name, span⟩ :: ⟨.colon, colon⟩ :: (left ++ right), back, (name, ty) :: more, ?_,
          ?_, hall, hnone, hback⟩
        · simp only [List.cons_append, List.append_assoc]
        · rw [tokensOf, List.map_cons, List.map_cons, List.map_append]
          exact .cons name hty hmore

/-- Fields are read by such a loop. -/
theorem DerivesFields.loop_eq_ok {tokens : List Token} {more : List (String × Ty)}
    (h : DerivesFields tokens more) (hloop : TakesFields stop place loop)
    (fields : List (String × Ty)) (hnodup : ((fields ++ more).map (·.1)).Nodup)
    {front back : List Lexeme} (hc : Carries front tokens)
    (hback : loop (fields ++ more) back = (.ok result, rest)) :
    loop fields (front ++ back) = (.ok result, rest) := by
  induction h generalizing fields front with
  | nil =>
      rw [hc.eq_nil]
      rwa [List.append_nil] at hback
  | @cons tokens more ty others name hty _ ih =>
      obtain ⟨span, _, rfl, hafter⟩ := hc.uncons
      obtain ⟨colon, _, rfl, htypes⟩ := hafter.uncons
      obtain ⟨left, right, rfl, hleft, hright⟩ := htypes.unappend
      rw [List.append_cons] at hnodup hback
      have hfirst : ((fields ++ [(name, ty)]).map (·.1)).Nodup := by
        rw [List.map_append] at hnodup
        exact (List.nodup_append.1 hnodup).1
      rw [← hleft] at hty
      refine hloop.name_eq_ok_iff.2 ⟨(nodup_concat_iff.1 hfirst).1, colon, left, ty, right ++ back, ?_,
        hty, ih _ hnodup hright hback⟩
      exact congrArg (_ :: ·) (List.append_assoc left right back)

end Ty

/-! ## 2. Headers -/

namespace Header

variable {stop : Span} {owner : String} {rest : List Lexeme}

theorem takesFields_parseParams :
    Ty.TakesFields stop .afterParameter (parseParams stop owner) := by
  intro name span params tail
  rw [parseParams]
  by_cases hnew : name ∈ params.map (·.1)
  · rw [if_pos hnew, if_pos hnew]
  · rw [if_neg hnew, if_neg hnew]
    generalize Ty.parseAscription stop .afterParameter tail = reading
    obtain ⟨outcome, rest⟩ := reading
    cases outcome with
    | error error => rfl
    | ok ty => rfl

/-- The `=` ends the parameters. -/
theorem parseParams_eq_ok_of_noName {params result : List (String × Ty)} {lexemes : List Lexeme}
    (hnone : NoName lexemes) (h : parseParams stop owner params lexemes = (.ok result, rest)) :
    ∃ assign, lexemes = ⟨.assign, assign⟩ :: rest ∧ result = params := by
  rw [parseParams.eq_def] at h
  split at h
  · cases h
  · cases h
    exact ⟨_, rfl, rfl⟩
  · exact absurd rfl (hnone _ rfl _)
  · cases h

theorem parseParams_eq_ok_iff {params : List (String × Ty)} {lexemes : List Lexeme} :
    parseParams stop owner [] lexemes = (.ok params, rest) ↔
      ∃ front assign, lexemes = front ++ ⟨.assign, assign⟩ :: rest ∧
        Ty.DerivesFields (tokensOf front) params ∧ (params.map (·.1)).Nodup := by
  constructor
  · intro h
    obtain ⟨front, back, read, rfl, hread, hnodup, hnone, hback⟩ :=
      takesFields_parseParams.derives lexemes [] List.nodup_nil h
    obtain ⟨assign, rfl, rfl⟩ := parseParams_eq_ok_of_noName hnone hback
    exact ⟨front, assign, rfl, hread, hnodup⟩
  · rintro ⟨front, assign, rfl, hread, hnodup⟩
    refine hread.loop_eq_ok takesFields_parseParams [] hnodup rfl ?_
    rw [parseParams, List.nil_append]

/-- What may follow a header: the end of the input, a terminator, or a brace. -/
def Stops (lexemes : List Lexeme) : Prop :=
  ∀ lexeme ∈ lexemes.head?, lexeme.token ∈ [.semicolon, .scopeOpen, .scopeClose]

theorem stops_iff {lexemes : List Lexeme} :
    Stops lexemes ↔ Expr.Stops lexemes ∧ ∀ span tail, lexemes ≠ ⟨.rparen, span⟩ :: tail := by
  cases lexemes with
  | nil => exact ⟨fun _ => ⟨nofun, nofun⟩, fun _ => nofun⟩
  | cons lexeme tail =>
      obtain ⟨token, span⟩ := lexeme
      simp only [Stops, Expr.Stops, List.head?_cons, Option.mem_some_iff, forall_eq']
      cases token <;> simp [Token.endsExpression]

/-- **A reader reads a header exactly if the tokens that it takes derive the header**, and something
follows that may follow a header. -/
theorem parse_eq_ok_iff {header : Header} {lexemes : List Lexeme} :
    parse stop owner lexemes = (.ok header, rest) ↔
      ∃ front, lexemes = front ++ rest ∧ Derives (tokensOf front) header ∧ Stops rest := by
  constructor
  · intro h
    obtain ⟨ty, _, h₁, hafter⟩ := Reading.andThen_eq_ok_iff.1 h
    obtain ⟨params, _, h₂, hright⟩ := Reading.andThen_eq_ok_iff.1 hafter
    obtain ⟨body, last, h₃, hlast⟩ := Reading.andThen_eq_ok_iff.1 hright
    obtain ⟨colon, first, rfl, hty⟩ := Ty.parseAscription_eq_ok_iff.1 h₁
    obtain ⟨second, assign, rfl, hparams, hnodup⟩ := parseParams_eq_ok_iff.1 h₂
    obtain ⟨third, rfl, hbody, hstops⟩ := Expr.parse_eq_ok_iff.1 h₃
    split at hlast
    · cases hlast
    · rename_i hparen
      cases hlast
      refine ⟨⟨.colon, colon⟩ :: (first ++ (second ++ ⟨.assign, assign⟩ :: third)), ?_, ?_,
        stops_iff.2 ⟨hstops, hparen⟩⟩
      · simp only [List.cons_append, List.append_assoc]
      · simp only [tokensOf, List.map_cons, List.map_append]
        exact .mk hty hparams hnodup hbody
  · rintro ⟨lexemes, rfl, hderives, hstops⟩
    obtain ⟨hstops, hparen⟩ := stops_iff.1 hstops
    generalize htokens : tokensOf lexemes = tokens at hderives
    have hc : Carries lexemes tokens := htokens
    cases hderives with
    | mk hty hparams hnodup hbody =>
        obtain ⟨colon, _, rfl, hcolon⟩ := hc.uncons
        obtain ⟨first, _, rfl, hfirst, hafter⟩ := hcolon.unappend
        obtain ⟨second, _, rfl, hsecond, hright⟩ := hafter.unappend
        obtain ⟨assign, third, rfl, hthird⟩ := hright.uncons
        rw [← hfirst] at hty
        rw [← hsecond] at hparams
        rw [← hthird] at hbody
        rw [parse, Reading.andThen_eq_ok_iff]
        refine ⟨_, second ++ ⟨.assign, assign⟩ :: (third ++ rest),
          Ty.parseAscription_eq_ok_iff.2 ⟨colon, first, ?_, hty⟩, ?_⟩
        · simp only [List.cons_append, List.append_assoc]
        rw [Reading.andThen_eq_ok_iff]
        refine ⟨_, third ++ rest, parseParams_eq_ok_iff.2 ⟨second, assign, rfl, hparams, hnodup⟩, ?_⟩
        rw [Reading.andThen_eq_ok_iff]
        refine ⟨_, rest, Expr.parse_eq_ok_iff.2 ⟨third, rfl, hbody, hstops⟩, ?_⟩
        split
        · exact absurd rfl (hparen _ _)
        · rfl

end Header

/-! ## 3. Declarations -/

namespace Declaration

variable {stop : Span} {rest : List Lexeme}

theorem takesFields_parseFields : Ty.TakesFields stop .afterField (parseFields stop) := by
  intro name span fields tail
  rw [parseFields]
  by_cases hnew : name ∈ fields.map (·.1)
  · rw [if_pos hnew, if_pos hnew]
  · rw [if_neg hnew, if_neg hnew]
    generalize Ty.parseAscription stop .afterField tail = reading
    obtain ⟨outcome, rest⟩ := reading
    cases outcome with
    | error error => rfl
    | ok ty => rfl

/-- Fields end where no name follows, and only before a token that ends them. -/
theorem parseFields_of_noName {fields result : List (String × Ty)} {lexemes : List Lexeme}
    (hnone : NoName lexemes) :
    parseFields stop fields lexemes = (.ok result, rest) ↔
      Expr.Stops lexemes ∧ result = fields ∧ lexemes = rest := by
  cases lexemes with
  | nil =>
      rw [parseFields]
      constructor
      · intro h
        cases h
        exact ⟨Expr.stops_nil, rfl, rfl⟩
      · rintro ⟨_, rfl, rfl⟩
        rfl
  | cons lexeme tail =>
      obtain ⟨token, span⟩ := lexeme
      have hname : ∀ name, token = .name name → False := fun name => hnone _ rfl name
      rw [parseFields.eq_3 _ _ _ _ _ hname]
      constructor
      · intro h
        split at h
        · cases h
          exact ⟨Expr.stops_cons ‹_› span tail, rfl, rfl⟩
        · cases h
      · rintro ⟨hstops, rfl, rfl⟩
        have htoken : token.endsExpression = true := hstops _ rfl
        rw [if_pos htoken]

theorem noName_of_stops {lexemes : List Lexeme} (h : Expr.Stops lexemes) : NoName lexemes := by
  intro lexeme hlexeme name hname
  have hends := h lexeme hlexeme
  rw [hname] at hends
  cases hends

theorem parseFields_eq_ok_iff {fields : List (String × Ty)} {lexemes : List Lexeme} :
    parseFields stop [] lexemes = (.ok fields, rest) ↔
      ∃ front, lexemes = front ++ rest ∧ Ty.DerivesFields (tokensOf front) fields ∧
        (fields.map (·.1)).Nodup ∧ Expr.Stops rest := by
  constructor
  · intro h
    obtain ⟨front, back, read, rfl, hread, hnodup, hnone, hback⟩ :=
      takesFields_parseFields.derives lexemes [] List.nodup_nil h
    obtain ⟨hstops, rfl, rfl⟩ := (parseFields_of_noName hnone).1 hback
    exact ⟨front, rfl, hread, hnodup, hstops⟩
  · rintro ⟨front, rfl, hread, hnodup, hstops⟩
    refine hread.loop_eq_ok takesFields_parseFields [] hnodup rfl ?_
    exact (parseFields_of_noName (noName_of_stops hstops)).2 ⟨hstops, rfl, rfl⟩

/-- The options read so far with one more. -/
theorem eraseDups_concat (options : List String) (option : String) :
    (options ++ [option]).eraseDups =
      if option ∈ options.eraseDups then options.eraseDups else options.eraseDups ++ [option] := by
  rw [List.eraseDups_append]
  by_cases h : option ∈ options
  · rw [if_pos (List.mem_eraseDups.2 h)]
    simp [List.removeAll, h]
  · rw [if_neg (fun hmem => h (List.mem_eraseDups.1 hmem))]
    simp [List.removeAll, h, List.eraseDups_cons]

/-- What a reader meets after an option. -/
theorem parseOptions_name_iff {name : String} {span : Span} {options result : List String}
    {tail : List Lexeme} :
    parseOptions stop options.eraseDups (⟨.name name, span⟩ :: tail) = (.ok result, rest) ↔
      (Expr.Stops tail ∧ result = (options ++ [name]).eraseDups ∧ tail = rest) ∨
        ∃ bar after, tail = ⟨.bar, bar⟩ :: after ∧
          parseOptions stop (options ++ [name]).eraseDups after = (.ok result, rest) := by
  rw [parseOptions.eq_def, eraseDups_concat]
  dsimp only
  split
  · constructor
    · intro h
      cases h
      exact .inl ⟨Expr.stops_nil, rfl, rfl⟩
    · rintro (⟨_, rfl, rfl⟩ | ⟨_, _, hbar, _⟩)
      · rfl
      · cases hbar
  · rename_i bar after
    constructor
    · exact fun h => .inr ⟨bar, after, rfl, h⟩
    · rintro (⟨hstops, _⟩ | ⟨_, _, hbar, h⟩)
      · cases hstops _ rfl
      · cases hbar
        exact h
  · rename_i found at_ after hfound
    constructor
    · intro h
      split at h
      · cases h
        exact .inl ⟨Expr.stops_cons ‹_› _ _, rfl, rfl⟩
      · cases h
    · rintro (⟨hstops, rfl, rfl⟩ | ⟨_, _, hbar, _⟩)
      · exact if_pos (hstops _ rfl)
      · cases hbar
        exact absurd rfl hfound

theorem parseOptions_eq_ok {options result : List String} {lexemes : List Lexeme}
    (h : parseOptions stop options lexemes = (.ok result, rest)) :
    ∃ name span tail, lexemes = ⟨.name name, span⟩ :: tail := by
  rw [parseOptions.eq_def] at h
  split at h
  · cases h
  · exact ⟨_, _, _, rfl⟩
  · cases h

/-- What is read as options is names with bars between them. -/
theorem derives_of_parseOptions {result : List String} (before : List String)
    (lexemes : List Lexeme)
    (h : parseOptions stop before.eraseDups lexemes = (.ok result, rest)) :
    ∃ front options, lexemes = front ++ rest ∧ options ≠ [] ∧
      tokensOf front = (options.map Token.name).intersperse .bar ∧
        result = (before ++ options).eraseDups ∧ Expr.Stops rest := by
  induction hlength : lexemes.length using Nat.strongRecOn generalizing lexemes before with
  | ind n ih =>
      obtain ⟨name, span, tail, rfl⟩ := parseOptions_eq_ok h
      rcases parseOptions_name_iff.1 h with ⟨hstops, rfl, rfl⟩ | ⟨bar, after, rfl, hafter⟩
      · exact ⟨[⟨.name name, span⟩], [name], rfl, nofun, rfl, rfl, hstops⟩
      · have hshorter : after.length < n := by
          simp only [← hlength, List.length_cons]
          omega
        obtain ⟨front, options, rfl, hsome, hfront, hresult, hstops⟩ := ih _ hshorter _ after hafter rfl
        rw [List.append_assoc] at hresult
        refine ⟨⟨.name name, span⟩ :: ⟨.bar, bar⟩ :: front, name :: options, rfl, nofun, ?_, hresult,
          hstops⟩
        cases options with
        | nil => exact absurd rfl hsome
        | cons option options =>
            rw [tokensOf, List.map_cons, List.map_cons, ← tokensOf, hfront]
            rfl

/-- Names with bars between them are read as options. -/
theorem parseOptions_of_carries (hstops : Expr.Stops rest) :
    ∀ (options : List String), options ≠ [] → ∀ (before : List String) (front : List Lexeme),
      Carries front ((options.map Token.name).intersperse .bar) →
        parseOptions stop before.eraseDups (front ++ rest) =
          (.ok (before ++ options).eraseDups, rest)
  | [], hsome, _, _, _ => absurd rfl hsome
  | [option], _, before, front, hc => by
      obtain ⟨span, _, rfl, hnil⟩ := hc.uncons
      rw [hnil.eq_nil]
      exact parseOptions_name_iff.2 (.inl ⟨hstops, rfl, rfl⟩)
  | option :: next :: options, _, before, front, hc => by
      obtain ⟨span, _, rfl, hafter⟩ := hc.uncons
      obtain ⟨bar, back, rfl, hback⟩ := hafter.uncons
      refine parseOptions_name_iff.2 (.inr ⟨bar, back ++ rest, rfl, ?_⟩)
      have hnext := parseOptions_of_carries hstops (next :: options) nofun (before ++ [option]) back
        hback
      rwa [List.append_assoc] at hnext

theorem parseOptions_eq_ok_iff {result : List String} {lexemes : List Lexeme} :
    parseOptions stop [] lexemes = (.ok result, rest) ↔
      ∃ front options, lexemes = front ++ rest ∧ options ≠ [] ∧
        tokensOf front = (options.map Token.name).intersperse .bar ∧ result = options.eraseDups ∧
          Expr.Stops rest := by
  constructor
  · exact derives_of_parseOptions [] lexemes
  · rintro ⟨front, options, rfl, hsome, hfront, rfl, hstops⟩
    exact parseOptions_of_carries hstops options hsome [] front hfront

/-- **A reader reads a declaration exactly if the tokens that it takes derive the declaration**, and
a token follows that ends it, or nothing. -/
theorem parse_eq_ok_iff {name : String} {declaration : Declaration} {lexemes : List Lexeme} :
    parse stop name lexemes = (.ok declaration, rest) ↔
      ∃ front, lexemes = front ++ rest ∧ Derives (.colonEqual :: tokensOf front) declaration ∧
        Expr.Stops rest := by
  constructor
  · intro h
    rw [parse.eq_def] at h
    split at h
    · cases h
    · rename_i word tail
      obtain ⟨fields, _, hread, hlast⟩ := Reading.andThen_eq_ok_iff.1 h
      obtain ⟨front, rfl, hfields, hnodup, hstops⟩ := parseFields_eq_ok_iff.1 hread
      split at hlast
      · cases hlast
      · rename_i hsome
        cases hlast
        rw [List.isEmpty_iff] at hsome
        exact ⟨⟨.structWord, word⟩ :: front, rfl, .struct hfields hsome hnodup, hstops⟩
    · rename_i word tail
      obtain ⟨_, _, hread, hlast⟩ := Reading.andThen_eq_ok_iff.1 h
      obtain ⟨front, options, rfl, hsome, hfront, rfl, hstops⟩ := parseOptions_eq_ok_iff.1 hread
      cases hlast
      refine ⟨⟨.unionWord, word⟩ :: front, rfl, ?_, hstops⟩
      rw [tokensOf, List.map_cons, ← tokensOf, hfront]
      exact .union hsome
    · cases h
  · rintro ⟨lexemes, rfl, hderives, hstops⟩
    generalize htokens : tokensOf lexemes = tokens at hderives
    have hc : Carries lexemes tokens := htokens
    cases hderives with
    | @struct _ fields hfields hsome hnodup =>
        obtain ⟨word, front, rfl, hfront⟩ := hc.uncons
        rw [← hfront] at hfields
        have hread : parseFields stop [] (front ++ rest) = (.ok fields, rest) :=
          parseFields_eq_ok_iff.2 ⟨front, rfl, hfields, hnodup, hstops⟩
        refine Reading.andThen_eq_ok_iff.2 ⟨fields, rest, hread, ?_⟩
        rw [if_neg (List.isEmpty_iff.not.2 hsome)]
    | @union options hsome =>
        obtain ⟨word, front, rfl, hfront⟩ := hc.uncons
        have hread : parseOptions stop [] (front ++ rest) = (.ok options.eraseDups, rest) :=
          parseOptions_eq_ok_iff.2 ⟨front, options, rfl, hsome, hfront, rfl, hstops⟩
        exact Reading.andThen_eq_ok_iff.2 ⟨_, rest, hread, rfl⟩

end Declaration

theorem Declaration.Derives.uncons {tokens : List Token} {declaration : Declaration}
    (h : declaration.Derives tokens) : ∃ more, tokens = .colonEqual :: more := by
  cases h with
  | struct _ _ _ => exact ⟨_, rfl⟩
  | union _ => exact ⟨_, rfl⟩

/-- A declaration is read if the declared name is new. -/
theorem Declared.read_eq_ok_iff {declared : Declared} {stop span : Span} {name : String}
    {declaration : Declaration} {lexemes rest : List Lexeme} :
    declared.read stop name span lexemes = (.ok declaration, rest) ↔
      Table.find? declared.types name = none ∧ ∃ front, lexemes = front ++ rest ∧
        declaration.Derives (tokensOf front) ∧ Expr.Stops rest := by
  rw [read, Reading.andThen_eq_ok_iff, ← Table.contains_eq_false]
  constructor
  · rintro ⟨mark, tail, hmark, htail⟩
    obtain rfl := expect_eq_ok_iff.1 hmark
    split at htail
    · cases htail
    · rename_i hnew
      obtain ⟨front, rfl, hderives, hstops⟩ := Declaration.parse_eq_ok_iff.1 htail
      exact ⟨Bool.eq_false_of_not_eq_true hnew, ⟨.colonEqual, mark⟩ :: front, rfl, hderives, hstops⟩
  · rintro ⟨hnew, lexemes, rfl, hderives, hstops⟩
    obtain ⟨more, hmore⟩ := hderives.uncons
    have hc : Carries lexemes (.colonEqual :: more) := hmore
    obtain ⟨mark, front, rfl, hfront⟩ := hc.uncons
    refine ⟨mark, front ++ rest, expect_eq_ok_iff.2 rfl, ?_⟩
    rw [hnew, if_neg Bool.false_ne_true]
    exact Declaration.parse_eq_ok_iff.2 ⟨front, rfl, hderives, hstops⟩

end Offside
