import Offside.Proofs.Marking
import Offside.Proofs.OpenLiterals

/-!
# String literals in a marked text

Marking goes line by line, and a string literal may go over the end of a line. Then there is a
terminator in the middle of the literal, and what was blank at the end of the line is gone. All
other literals stay as they are:

* `Lexeme.breaks` -- a literal that goes over the end of a line;
* `Lined` -- lines and the tokens that they are read as, up to the first literal that does;
* `Tiled.lined` -- how a text that is read falls into lines;
* `Lined.literals_iff` -- the literals of the marked lines are those of the lines if and only if
  none of them goes over the end of a line.
-/

namespace Offside

/-! ## 1. Parts of a text -/

namespace Text

/-- What is left of a text after a number of bytes. -/
def dropBytes : Nat → List Char → List Char
  | _, [] => []
  | n, c :: rest => if n = 0 then c :: rest else dropBytes (n - c.utf8Size) rest

/-- The characters of a text in its first bytes. -/
def takeBytes : Nat → List Char → List Char
  | _, [] => []
  | n, c :: rest => if n = 0 then [] else c :: takeBytes (n - c.utf8Size) rest

/-- The part of a text that a span covers. -/
def slice (text : List Char) (span : Span) : List Char :=
  takeBytes (span.stop - span.start) (dropBytes span.start text)

theorem dropBytes_size (front rest : List Char) : dropBytes (size front) (front ++ rest) = rest := by
  induction front with
  | nil => cases rest <;> rfl
  | cons c front ih =>
      have hpos := c.utf8Size_pos
      rw [size_cons, List.cons_append, dropBytes, if_neg (by omega), Nat.add_sub_cancel_left, ih]

theorem takeBytes_size (front rest : List Char) :
    takeBytes (size front) (front ++ rest) = front := by
  induction front with
  | nil => cases rest <;> rfl
  | cons c front ih =>
      have hpos := c.utf8Size_pos
      rw [size_cons, List.cons_append, takeBytes, if_neg (by omega), Nat.add_sub_cancel_left, ih]

/-- A span that starts after the bytes of `front` and has the size of `part` covers `part`. -/
theorem slice_append (front part rest : List Char) :
    slice (front ++ (part ++ rest)) ⟨size front, size front + size part⟩ = part := by
  rw [slice, dropBytes_size, Nat.add_sub_cancel_left, takeBytes_size]

theorem pieces_ne_nil (separator : Char) (text : List Char) : pieces separator text ≠ [] := by
  rw [pieces_eq_splitOn]
  exact List.splitOn_ne_nil separator text

/-- What stands before the first separator belongs to the first part. -/
theorem pieces_append {separator : Char} {front : List Char} (h : separator ∉ front)
    (rest : List Char) :
    pieces separator (front ++ rest) = (pieces separator rest).modifyHead (front ++ ·) := by
  induction front with
  | nil =>
      rw [List.nil_append]
      cases pieces separator rest <;> rfl
  | cons c front ih =>
      rw [List.mem_cons, not_or] at h
      rw [List.cons_append, pieces, if_neg (Ne.symm h.1), ih h.2]
      cases hparts : pieces separator rest with
      | nil => exact absurd hparts (pieces_ne_nil separator rest)
      | cons first others => rfl

theorem pieces_separator (separator : Char) (rest : List Char) :
    pieces separator (separator :: rest) = [] :: pieces separator rest := by
  rw [pieces, if_pos rfl]

/-- The first part starts like the text, unless it is empty. -/
theorem head?_of_pieces {separator : Char} {text first : List Char} {others : List (List Char)}
    (h : pieces separator text = first :: others) {c : Char} (hc : c ∈ first.head?) :
    c ∈ text.head? := by
  cases text with
  | nil =>
      cases h
      cases hc
  | cons d rest =>
      rw [pieces] at h
      split at h
      · cases h
        cases hc
      · split at h
        · cases h
          exact hc
        · cases h
          exact hc

/-- After what trimming leaves of a line stands a blank, the line break if nothing else. -/
theorem exists_blank (line rest : List Char) :
    ∃ blank more, line ++ '\n' :: rest = trimEnd line ++ blank :: more ∧ isBlank blank = true := by
  have hline : trimEnd line ++ line.rtakeWhile isBlank = line := List.rdropWhile_append_rtakeWhile
  cases hblanks : line.rtakeWhile isBlank with
  | nil =>
      rw [hblanks, List.append_nil] at hline
      exact ⟨'\n', rest, by rw [hline], by decide⟩
  | cons blank blanks =>
      rw [hblanks] at hline
      refine ⟨blank, blanks ++ '\n' :: rest, ?_, ?_⟩
      · nth_rewrite 1 [← hline]
        simp
      · refine List.mem_rtakeWhile_imp (l := line) ?_
        rw [hblanks]
        exact List.mem_cons_self

end Text

/-! ## 2. Texts in lines -/

/-- Whether a lexeme is a string literal that goes over the end of a line of the text. -/
def Lexeme.breaks (text : List Char) (lexeme : Lexeme) : Bool :=
  lexeme.token.string?.isSome && (Text.slice text lexeme.span).contains '\n'

/-- Lines and the tokens that they are read as together. The last argument tells whether a literal
goes over the end of a line; then only the lines before that end are described. -/
inductive Lined : List (List Char) → List Token → Bool → Prop
  | last {line : List Char} {tokens : List Token}
      (h : Spelt (Layout.withoutComment .outside line) tokens) : Lined [line] tokens false
  | line {line : List Char} {lines : List (List Char)} {tokens more : List Token} {broken : Bool}
      (h : Spelt (Layout.withoutComment .outside line) tokens) (rest : Lined lines more broken) :
      Lined (line :: lines) (tokens ++ more) broken
  | broken {code inside body : List Char} {lines : List (List Char)} {pending : Pending}
      {tokens more : List Token} (h : Spelt code tokens)
      (spells : Pending.Spells ('\"' :: inside) pending) (hopen : pending.inside? = some inside) :
      Lined ((code ++ '\"' :: inside) :: lines)
        (tokens ++ .string (String.ofList (Text.unescape (inside ++ '\n' :: body))) :: more) true

namespace Lined

variable {lines : List (List Char)} {tokens : List Token} {broken : Bool}

/-- A gap in front of the first line. -/
theorem gap (h : Lined lines tokens broken) {c : Char} (hc : Token.isGap c = true) :
    Lined (lines.modifyHead ([c] ++ ·)) tokens broken := by
  have hspelt : ∀ {line : List Char} {tokens : List Token},
      Spelt (Layout.withoutComment .outside line) tokens →
      Spelt (Layout.withoutComment .outside (c :: line)) tokens := by
    intro line tokens h
    rw [Pending.withoutComment_outside (Token.ne_of_isGap hc)]
    exact .gap hc h
  cases h with
  | last h => exact .last (hspelt h)
  | line h rest => exact .line (hspelt h) rest
  | broken h spells hopen => exact .broken (.gap hc h) spells hopen

/-- A comment in front of the end of the first line. -/
theorem comment (h : Lined lines tokens broken) (chars : List Char)
    (hend : ∀ line ∈ lines.head?, line = []) :
    Lined (lines.modifyHead (('#' :: chars) ++ ·)) tokens broken := by
  cases h with
  | last h =>
      rw [hend _ rfl] at h ⊢
      exact .last h
  | line h rest =>
      rw [hend _ rfl] at h ⊢
      exact .line h rest
  | broken _ _ _ => exact absurd (hend _ rfl) (List.append_ne_nil_of_right_ne_nil _ nofun)

/-- A word in front of the first line. -/
theorem word (h : Lined lines tokens broken) {chars : List Char} {pending : Pending} {token : Token}
    (spells : Pending.Spells chars pending) (ends : pending.token? = some token)
    (stops : ∀ line ∈ lines.head?, ∀ c ∈ line.head?, pending.extend c = none) :
    Lined (lines.modifyHead (chars ++ ·)) (token :: tokens) broken := by
  have hspelt : ∀ {line : List Char} {tokens : List Token},
      (∀ c ∈ line.head?, pending.extend c = none) →
      Spelt (Layout.withoutComment .outside line) tokens →
      Spelt (Layout.withoutComment .outside (chars ++ line)) (token :: tokens) := by
    intro line tokens hstops h
    obtain ⟨hword, hquoting⟩ := Pending.quoting_of_token? ends
    rw [spells.withoutComment hword, hquoting]
    exact .word spells ends (fun c hc => hstops c (Layout.head?_withoutComment hc)) h
  cases h with
  | last h => exact .last (hspelt (stops _ rfl) h)
  | line h rest => exact .line (hspelt (stops _ rfl) h) rest
  | broken h hspells hopen =>
      have hcode := Spelt.word spells ends (fun c hc => stops _ rfl c (mem_head?_of_append hc)) h
      rw [List.modifyHead_cons, ← List.append_assoc, ← List.cons_append]
      exact .broken hcode hspells hopen

/-- A literal with a line break in front of anything. -/
theorem of_literal {chars read : List Char} (spells : Pending.Spells chars (.literal read))
    (hbreak : '\n' ∈ chars) (rest : List Char) (more : List Token) :
    Lined (Text.pieces '\n' (chars ++ rest))
      (.string (String.ofList (Text.unescape read.reverse)) :: more) true := by
  obtain ⟨rfl, before, hspells, hopen⟩ := spells.of_literal
  generalize read.reverse = content at hspells hopen hbreak ⊢
  have hmem : '\n' ∈ content := by simpa using hbreak
  obtain ⟨inside, body, rfl, hinside⟩ := List.eq_append_cons_of_mem hmem
  obtain ⟨earlier, hearlier, hinside?⟩ := hspells.of_inside?_append hopen
  have htext : '\"' :: (inside ++ '\n' :: body) ++ ['\"'] ++ rest =
      ('\"' :: inside) ++ '\n' :: (body ++ '\"' :: rest) := by simp
  have hfront : '\n' ∉ '\"' :: inside := by
    rw [List.mem_cons, not_or]
    exact ⟨by decide, hinside⟩
  rw [htext, Text.pieces_append hfront, Text.pieces_separator, List.modifyHead_cons, List.append_nil]
  exact .broken .nil hearlier hinside?

end Lined

/-- A literal goes over the end of a line if there is a line break among its characters. -/
theorem Lexeme.breaks_eq {front chars rest : List Char} {token : Token} {position : Nat}
    (hfront : Text.size front = position) :
    Lexeme.breaks (front ++ (chars ++ rest)) ⟨token, ⟨position, position + Text.size chars⟩⟩ =
      (token.string?.isSome && chars.contains '\n') := by
  subst hfront
  rw [Lexeme.breaks, Text.slice_append]

/-- **How a text that is read falls into lines.** -/
theorem Tiled.lined {position : Nat} {text : List Char} {lexemes : List Lexeme}
    (h : Tiled position text lexemes) {front : List Char} (hfront : Text.size front = position) :
    Lined (Text.pieces '\n' text) (lexemes.map (·.token))
      (lexemes.any (Lexeme.breaks (front ++ text))) := by
  induction h generalizing front with
  | nil => exact .last .nil
  | @gap position c rest lexemes hgap _ ih =>
      have hrest : Lined (Text.pieces '\n' rest) (lexemes.map (·.token))
          (lexemes.any (Lexeme.breaks (front ++ [c] ++ rest))) :=
        ih (by rw [Text.size_append, Text.size_singleton, hfront])
      rw [List.append_assoc, List.singleton_append] at hrest
      by_cases hc : c = '\n'
      · subst hc
        have hempty : Spelt (Layout.withoutComment .outside []) [] := .nil
        rw [Text.pieces_separator]
        exact .line hempty hrest
      · have hpieces := Text.pieces_append (mt List.mem_singleton.1 (Ne.symm hc)) rest
        rw [List.singleton_append] at hpieces
        rw [hpieces]
        exact hrest.gap hgap
  | @comment position chars rest lexemes inline stops _ ih =>
      have hrest : Lined (Text.pieces '\n' rest) (lexemes.map (·.token))
          (lexemes.any (Lexeme.breaks (front ++ ('#' :: chars) ++ rest))) :=
        ih (by rw [Text.size_append, hfront])
      rw [List.append_assoc] at hrest
      have hhash : '\n' ∉ '#' :: chars := by
        rw [List.mem_cons, not_or]
        exact ⟨by decide, inline⟩
      rw [Text.pieces_append hhash]
      refine hrest.comment chars fun line hline => ?_
      cases rest with
      | nil =>
          cases hline
          rfl
      | cons c rest =>
          rw [stops c rfl, Text.pieces_separator] at hline
          cases hline
          rfl
  | @word position chars rest pending token lexemes spells ends stops _ ih =>
      have hrest : Lined (Text.pieces '\n' rest) (lexemes.map (·.token))
          (lexemes.any (Lexeme.breaks (front ++ chars ++ rest))) :=
        ih (by rw [Text.size_append, hfront])
      rw [List.append_assoc] at hrest
      rw [List.map_cons, List.any_cons, Lexeme.breaks_eq hfront]
      by_cases hbreak : '\n' ∈ chars
      · -- only a literal has a line break; the line ends inside it
        rcases spells.literal_or_plain ends with ⟨read, rfl⟩ | ⟨_, hchars⟩
        · cases ends
          rw [List.contains_iff_mem.2 hbreak]
          exact .of_literal spells hbreak rest _
        · exact absurd hbreak hchars
      · have hfree : chars.contains '\n' = false := by
          rw [List.contains_eq_mem]
          exact decide_eq_false hbreak
        rw [hfree, Bool.and_false, Bool.false_or, Text.pieces_append hbreak]
        refine hrest.word spells ends fun line hline c hc => stops c ?_
        cases hparts : Text.pieces '\n' rest with
        | nil =>
            rw [hparts] at hline
            cases hline
        | cons first others =>
            rw [hparts] at hline
            cases hline
            exact Text.head?_of_pieces hparts hc

/-! ## 3. The marked lines -/

namespace Layout

theorem literals_braceTokens (before after : Nat) :
    Token.literals (braceTokens before after) = [] := by
  refine List.filterMap_eq_nil_iff.2 fun token htoken => ?_
  rw [braceTokens, List.mem_append, List.mem_replicate, List.mem_replicate] at htoken
  rcases htoken with ⟨_, rfl⟩ | ⟨_, rfl⟩ <;> rfl

theorem joins_braces {before after : Nat} : ∀ c ∈ (braces before after).head?, Token.joins c = false := by
  intro c hc
  have hmem : c ∈ braces before after := List.mem_of_mem_head? hc
  rw [braces, List.mem_append, List.mem_replicate, List.mem_replicate] at hmem
  rcases hmem with ⟨_, rfl⟩ | ⟨_, rfl⟩ <;> decide

/-- The row of a line has the literals of the line. -/
theorem spelt_row {number : Nat} {line : List Char} {row : Row} {tokens : List Token}
    (h : Spelt (withoutComment .outside line) tokens) (hrow : readRow number line = .ok row)
    (before : Nat) :
    ∃ marked, Spelt (writeRow before row) marked ∧
      Token.literals marked = Token.literals tokens := by
  rcases readRow_of_spelt h hrow with ⟨rfl, rfl⟩ | ⟨_, content, rfl, hcontent⟩
  · exact ⟨[], .nil, rfl⟩
  · have hspelt := spelt_writeRow hcontent before (leadingSpaces line) .nil
    rw [List.append_nil, List.append_nil] at hspelt
    refine ⟨_, hspelt, ?_⟩
    rw [Token.literals_append, literals_braceTokens, Token.literals_append, List.nil_append]
    exact List.append_nil _

/-- A line at whose end a literal is open has no comment. -/
theorem content_of_inside? {code inside : List Char} {tokens : List Token} {pending : Pending}
    (h : Spelt code tokens) (spells : Pending.Spells ('\"' :: inside) pending)
    (hopen : pending.inside? = some inside) :
    content (code ++ '\"' :: inside) = code.dropWhile (· == ' ') ++ '\"' :: inside := by
  have hword : pending ≠ .comment := by
    rintro rfl
    cases hopen
  have hinside := spells.withoutComment hword []
  rw [List.append_nil, withoutComment, List.append_nil] at hinside
  rw [content, h.withoutComment_append, hinside, List.dropWhile_append]
  split
  · rename_i hspaces
    rw [List.isEmpty_iff.1 hspaces]
    rfl
  · rfl

/-- The row of such a line ends inside the literal, at its last character that is not blank. -/
theorem readRow_of_inside? {number : Nat} {code inside : List Char} {row : Row}
    {tokens : List Token} {pending : Pending} (h : Spelt code tokens)
    (spells : Pending.Spells ('\"' :: inside) pending) (hopen : pending.inside? = some inside)
    (hrow : readRow number (code ++ '\"' :: inside) = .ok row) :
    ∃ spaces, row =
      .code spaces (code.dropWhile (· == ' ') ++ '\"' :: Text.trimEnd inside) := by
  have hcontent := content_of_inside? h spells hopen
  have hquote : Text.isBlank '\"' = false := by decide
  rcases readRow_eq_ok hrow with ⟨hblank, _⟩ | ⟨_, rfl⟩
  · rw [hcontent, List.all_append, List.all_cons, hquote, Bool.false_and, Bool.and_false] at hblank
    cases hblank
  · rw [hcontent, Text.trimEnd_append _ hquote]
    exact ⟨_, rfl⟩

/-- A row, and what is written after it. -/
theorem exists_write_cons (before : Nat) (row : Row) (rows : List Row) :
    ∃ more, write before (row :: rows) = writeRow before row ++ more := by
  cases rows with
  | nil => exact ⟨_, rfl⟩
  | cons next rows => exact ⟨_, rfl⟩

end Layout

/-- What the reader finds after a text that spells tokens. -/
theorem Spelt.of_scan {text rest : List Char} {tokens : List Token} (h : Spelt text tokens)
    (hrest : ∀ c ∈ rest.head?, Token.joins c = false) {position : Nat} {lexemes : List Lexeme}
    (hscan : Lexer.scan ⟨position, none⟩ (text ++ rest) = .ok lexemes) :
    ∃ after others, Lexer.scan ⟨after, none⟩ rest = .ok others ∧
      Token.literals (lexemes.map (·.token)) =
        Token.literals tokens ++ Token.literals (others.map (·.token)) := by
  obtain ⟨first, rfl, hall⟩ := h.scan_append position
  rw [hall hrest] at hscan
  cases hothers : Lexer.scan ⟨position + Text.size text, none⟩ rest with
  | error error =>
      rw [hothers] at hscan
      cases hscan
  | ok others =>
      rw [hothers] at hscan
      cases hscan
      refine ⟨_, others, hothers, ?_⟩
      rw [List.map_append, Token.literals_append]

/-- What the reader finds in the row of a line at whose end a literal is open. -/
theorem Layout.scan_of_inside? {code inside : List Char} {tokens : List Token} (h : Spelt code tokens)
    {before spaces position : Nat} {rows : List Row} {lexemes : List Lexeme}
    (hscan : Lexer.scan ⟨position, none⟩ (write before
      (.code spaces (code.dropWhile (· == ' ') ++ '\"' :: inside) :: rows)) = .ok lexemes) :
    ∃ after more others, Lexer.scan ⟨after, none⟩ ('\"' :: inside ++ ';' :: more) = .ok others ∧
      Token.literals (lexemes.map (·.token)) =
        Token.literals tokens ++ Token.literals (others.map (·.token)) := by
  obtain ⟨more, hwrite⟩ := exists_write_cons before
    (.code spaces (code.dropWhile (· == ' ') ++ '\"' :: inside)) rows
  have hspelt := spelt_braces h.dropSpaces before (spaces / indentWidth)
  have hquote : ∀ c ∈ ('\"' :: inside ++ ';' :: more).head?, Token.joins c = false := by
    intro c hc
    cases hc
    decide
  have htext : write before (.code spaces (code.dropWhile (· == ' ') ++ '\"' :: inside) :: rows) =
      (braces before (spaces / indentWidth) ++ code.dropWhile (· == ' ')) ++
        ('\"' :: inside ++ ';' :: more) := by
    rw [hwrite, writeRow]
    simp
  rw [htext] at hscan
  obtain ⟨after, others, hothers, hliterals⟩ := hspelt.of_scan hquote hscan
  rw [Token.literals_append, literals_braceTokens, List.nil_append] at hliterals
  exact ⟨after, more, others, hothers, hliterals⟩

/-- The first literal of what is written for a line at whose end a literal is open: it goes on with
a terminator. -/
theorem Lexer.scan_terminated {inside rest : List Char} {pending : Pending}
    (spells : Pending.Spells ('\"' :: inside) pending) (hopen : pending.inside? = some inside)
    {position : Nat} {lexemes : List Lexeme}
    (hscan : Lexer.scan ⟨position, none⟩ ('\"' :: inside ++ ';' :: rest) = .ok lexemes) :
    ∃ body more, Token.literals (lexemes.map (·.token)) =
      String.ofList (Text.unescape (inside ++ ';' :: body)) :: more := by
  obtain ⟨next, hnext, hinside⟩ := Pending.exists_extend hopen (by decide : ';' ≠ '\"') (by decide)
  have hall := (Pending.Spells.extend spells hnext).scan position rest
  rw [List.append_assoc, List.singleton_append, hscan] at hall
  obtain ⟨body, span, others, rfl⟩ := Pending.scan_of_inside? hinside hall.symm
  rw [List.append_assoc]
  exact ⟨body, _, rfl⟩

namespace Lined

theorem ne_nil {lines : List (List Char)} {tokens : List Token} {broken : Bool}
    (h : Lined lines tokens broken) : lines ≠ [] := by
  cases h <;> exact List.cons_ne_nil _ _

/-- **The literals of marked lines.** They are those of the lines if and only if none of these goes
over the end of a line. -/
theorem literals_iff {lines : List (List Char)} {tokens : List Token} {broken : Bool}
    (h : Lined lines tokens broken) {number before position : Nat} {rows : List Layout.Row}
    {lexemes : List Lexeme} (hrows : Layout.readRows number lines = .ok rows)
    (hscan : Lexer.scan ⟨position, none⟩ (Layout.write before rows) = .ok lexemes) :
    Token.literals (lexemes.map (·.token)) = Token.literals tokens ↔ broken = false := by
  induction h generalizing number before position rows lexemes with
  | @last line tokens h =>
      obtain ⟨row, more, hrow, hmore, rfl⟩ := Layout.readRows_cons_eq_ok hrows
      cases hmore
      obtain ⟨marked, hspelt, hliterals⟩ := Layout.spelt_row h hrow before
      have hbraces := Layout.spelt_braces .nil (row.level before) 0
      rw [List.append_nil, List.append_nil] at hbraces
      obtain ⟨all, hall, htokens⟩ := (hspelt.append Layout.joins_braces hbraces).scan position
      have hsame : all = lexemes := Except.ok.inj (hall.symm.trans hscan)
      rw [← hsame, htokens, Token.literals_append, hliterals, Layout.literals_braceTokens,
        List.append_nil]
      exact ⟨fun _ => rfl, fun _ => rfl⟩
  | @line line lines tokens more broken h rest ih =>
      obtain ⟨row, others, hrow, hothers, rfl⟩ := Layout.readRows_cons_eq_ok hrows
      obtain ⟨marked, hspelt, hliterals⟩ := Layout.spelt_row h hrow before
      obtain ⟨next, later, rfl⟩ := List.exists_cons_of_ne_nil rest.ne_nil
      obtain ⟨nextRow, laterRows, _, _, rfl⟩ := Layout.readRows_cons_eq_ok hothers
      have hbreak : ∀ c ∈ ('\n' :: Layout.write (row.level before) (nextRow :: laterRows)).head?,
          Token.joins c = false := by
        intro c hc
        cases hc
        decide
      obtain ⟨after, found, hfound, hall⟩ := hspelt.of_scan hbreak hscan
      rw [Lexer.scan_gap (by decide)] at hfound
      rw [hall, hliterals, Token.literals_append, List.append_right_inj]
      exact ih hothers hfound
  | @broken code inside body lines pending tokens more h spells hopen =>
      obtain ⟨row, others, hrow, _, rfl⟩ := Layout.readRows_cons_eq_ok hrows
      obtain ⟨spaces, rfl⟩ := Layout.readRow_of_inside? h spells hopen hrow
      obtain ⟨after, rest, found, hfound, hall⟩ := Layout.scan_of_inside? h hscan
      obtain ⟨blank, later, hvalue, hblank⟩ := Text.exists_blank inside body
      have htrim : Text.trimEnd inside ++ inside.rtakeWhile Text.isBlank = inside :=
        List.rdropWhile_append_rtakeWhile
      rw [← htrim] at hopen
      obtain ⟨earlier, hearlier, htrimmed⟩ := spells.of_inside?_append hopen
      obtain ⟨body', more', hliterals⟩ := Lexer.scan_terminated hearlier htrimmed hfound
      refine ⟨fun hsame => ?_, nofun⟩
      rw [hall, hliterals, Token.literals_append, List.append_right_inj] at hsame
      have hequal := String.ofList_injective (List.cons.inj hsame).1
      rw [hvalue] at hequal
      have hother : ';' ≠ blank := by
        rintro rfl
        exact absurd hblank (by decide)
      have hplain := Text.isPlain_of_isBlank hblank
      exact absurd hequal (Text.unescape_ne (by decide) hplain hother _ _ _)

end Lined

theorem Layout.readRows_withoutReturn (number : Nat) (lines : List (List Char)) :
    readRows number (lines.map withoutReturn) = readRows number lines := by
  induction lines generalizing number with
  | nil => rfl
  | cons line lines ih => rw [List.map_cons, readRows, readRows, readRow_withoutReturn, ih]

/-- **Marking keeps the string literals of a text if and only if none of them goes over the end of a
line.** -/
theorem literals_mark_iff {source marked : String} {lexemes found : List Lexeme}
    (hread : Token.read source = .ok lexemes) (hmark : Layout.mark source = .ok marked)
    (hfound : Token.read marked = .ok found) :
    Token.literals (found.map (·.token)) = Token.literals (lexemes.map (·.token)) ↔
      ∀ lexeme ∈ lexemes, lexeme.breaks source.toList = false := by
  have hlined : Lined (Text.pieces '\n' source.toList) (lexemes.map (·.token))
      (lexemes.any (Lexeme.breaks ([] ++ source.toList))) :=
    (Token.read_eq_ok_iff.1 hread).lined rfl
  obtain ⟨rows, hrows, rfl⟩ := Layout.mark_eq_ok hmark
  rw [Layout.lines, Layout.readRows_withoutReturn] at hrows
  rw [Token.read_ofList] at hfound
  rw [hlined.literals_iff hrows hfound, List.nil_append, List.any_eq_false]
  simp only [Bool.not_eq_true]

/-- Whether a text and its marked text are read, as lexemes with the property. -/
def marks (source : String) (p : List Lexeme → List Lexeme → Bool) : Bool :=
  match Token.read source, Layout.mark source with
  | .ok lexemes, .ok marked =>
    match Token.read marked with
    | .ok found => p lexemes found
    | .error _ => false
  | _, _ => false

theorem exists_of_marks {source : String} {p : List Lexeme → List Lexeme → Bool}
    (h : marks source p = true) :
    ∃ lexemes marked found, Token.read source = .ok lexemes ∧ Layout.mark source = .ok marked ∧
      Token.read marked = .ok found ∧ p lexemes found = true := by
  unfold marks at h
  split at h
  · rename_i lexemes marked hread hmark
    split at h
    · rename_i found hfound
      exact ⟨lexemes, marked, found, hread, hmark, hfound, h⟩
    · cases h
  · cases h

/-- Literals with an escaped line break, with a `#` and with an escaped quote. -/
def keptSource : String :=
  "a:String = b \"x\\ny\" # \"\n    b:String s:String = \"# \\\"\"  "

theorem literals_mark_keptSource :
    ∃ lexemes marked found, Token.read keptSource = .ok lexemes ∧
      Layout.mark keptSource = .ok marked ∧ Token.read marked = .ok found ∧
      (∀ lexeme ∈ lexemes, lexeme.breaks keptSource.toList = false) ∧
      Token.literals (found.map (·.token)) = Token.literals (lexemes.map (·.token)) ∧
      Token.literals (lexemes.map (·.token)) = ["x\ny", "# \""] := by
  have hmarks : marks keptSource (fun lexemes _ =>
      (∀ lexeme ∈ lexemes, lexeme.breaks keptSource.toList = false) ∧
      Token.literals (lexemes.map (·.token)) = ["x\ny", "# \""]) := by
    decide +kernel
  obtain ⟨lexemes, marked, found, hread, hmark, hfound, hp⟩ := exists_of_marks hmarks
  obtain ⟨hunbroken, hvalues⟩ := of_decide_eq_true hp
  exact ⟨lexemes, marked, found, hread, hmark, hfound, hunbroken,
    (literals_mark_iff hread hmark hfound).2 hunbroken, hvalues⟩

/-- A literal that goes over the end of a line. -/
def brokenSource : String :=
  "a:String = \"x\ny\""

/-- Marking puts a terminator into a literal that goes over the end of a line. -/
theorem mark_changes_broken_literal :
    ∃ lexemes marked found, Token.read brokenSource = .ok lexemes ∧
      Layout.mark brokenSource = .ok marked ∧ Token.read marked = .ok found ∧
      Token.literals (lexemes.map (·.token)) = ["x\ny"] ∧
      Token.literals (found.map (·.token)) = ["x;\ny"] := by
  have hmarks : marks brokenSource (fun lexemes found =>
      Token.literals (lexemes.map (·.token)) = ["x\ny"] ∧
      Token.literals (found.map (·.token)) = ["x;\ny"]) := by
    decide +kernel
  obtain ⟨lexemes, marked, found, hread, hmark, hfound, hp⟩ := exists_of_marks hmarks
  obtain ⟨hvalues, hchanged⟩ := of_decide_eq_true hp
  exact ⟨lexemes, marked, found, hread, hmark, hfound, hvalues, hchanged⟩

end Offside
