import Offside.Proofs.Characters
import Offside.Proofs.Reread
import Offside.Proofs.Rows

/-!
# Reading what was written

The items of a program are written one to a line, with what is nested in a definition on the lines
after it and one level deeper:

* `Header.text`, `Declaration.text` -- a definition or declaration as a line writes it;
* `Item.lines` -- the lines of an item.

**A text of such lines is read as the program with these items** (`compile_lines`), wherever blank
lines and lines with only a comment are put between them. For a single line a comment may also stand
after the item (`Layout.Clause.compile`).
-/

namespace Offside

/-! ## 1. Clauses -/

/-- The head of the definition of `owner` as a line writes it. -/
def Header.text (owner : String) (header : Header) : String :=
  owner ++ ":" ++ header.ty.text ++ Ty.fieldsText header.params ++ " = " ++ header.body.text

theorem Header.fragment {owner : String} {header : Header} (hname : Token.isName owner = true)
    (h : header.isWritten = true) :
    Fragment (header.text owner) (.name owner :: header.tokens) := by
  simp only [Header.isWritten, Bool.and_eq_true] at h
  obtain ⟨⟨⟨hty, hparams⟩, hbody⟩, _⟩ := h
  have hascribed := (Fragment.name hname).ascribe (header.ty.fragment hty)
  have hall := (Ty.fragment_fieldsText header.params hparams hascribed).join Separator.assign
    (header.body.fragment hbody)
  rw [Header.text, Header.tokens]
  simpa only [List.append_assoc, List.cons_append, List.nil_append] using hall

namespace Declaration

/-- The declaration of `name` as a line writes it. -/
def text (name : String) (declaration : Declaration) : String :=
  name ++ " := " ++ declaration.ty.text

theorem fragment_ty (declaration : Declaration) (h : declaration.isWritten = true) :
    Fragment declaration.ty.text declaration.ty.tokens := by
  cases declaration with
  | struct fields =>
      simp only [isWritten, Bool.and_eq_true] at h
      have hword : Fragment "struct" [.structWord] :=
        Fragment.word (rfl : "struct".toList = 's' :: _) (by decide) (by decide)
      exact Ty.fragment_fieldsText fields h.1.2 hword
  | union options =>
      simp only [isWritten, Bool.and_eq_true] at h
      obtain ⟨⟨hne, hnames⟩, _⟩ := h
      have hword : Fragment "union" [.unionWord] :=
        Fragment.word (rfl : "union".toList = 'u' :: _) (by decide) (by decide)
      cases options with
      | nil => cases hne
      | cons option options =>
          have hoptions : ∀ ty ∈ (option :: options).map Ty.named, Fragment ty.text ty.tokens := by
            intro ty hty
            obtain ⟨name, hname, rfl⟩ := List.mem_map.1 hty
            exact .name (List.all_eq_true.1 hnames name hname)
          exact hword.join Separator.blank (Ty.fragment_joined Separator.bar _ _ hoptions)

theorem fragment {name : String} {declaration : Declaration} (hname : Token.isName name = true)
    (h : declaration.isWritten = true) :
    Fragment (declaration.text name) (.name name :: declaration.tokens) :=
  (Fragment.name hname).join Separator.colonEqual (declaration.fragment_ty h)

end Declaration

/-! ## 2. The lines of items -/

namespace Outline

mutual

/-- The lines of a definition at a level, with what is nested in it one level deeper. -/
def lines (level : Nat) : Outline → List String
  | mk name header nested => Layout.line level (header.text name) :: listLines (level + 1) nested

/-- The lines of definitions one after the other. -/
def listLines (level : Nat) : List Outline → List String
  | [] => []
  | outline :: rest => lines level outline ++ listLines level rest

end

mutual

/-- The clauses of a definition at a level. -/
def clauses (level : Nat) : Outline → List (Nat × List Token)
  | mk name header nested =>
    (level, .name name :: header.tokens) :: listClauses (level + 1) nested

/-- The clauses of definitions one after the other. -/
def listClauses (level : Nat) : List Outline → List (Nat × List Token)
  | [] => []
  | outline :: rest => clauses level outline ++ listClauses level rest

end

mutual

/-- The lines of a definition show its clauses. -/
theorem shows_lines : ∀ (outline : Outline) (level : Nat), outline.isWritten = true →
    Layout.Shows (outline.lines level) (outline.clauses level)
  | mk name header nested, level, h => by
      simp only [isWritten, Bool.and_eq_true] at h
      obtain ⟨⟨⟨⟨hname, hheader⟩, hnested⟩, _⟩, _⟩ := h
      rw [lines, clauses]
      exact .clause level (Header.fragment hname hheader)
        (shows_listLines nested (level + 1) hnested)

theorem shows_listLines : ∀ (outlines : List Outline) (level : Nat), areWritten outlines = true →
    Layout.Shows (listLines level outlines) (listClauses level outlines)
  | [], _, _ => by
      rw [listLines, listClauses]
      exact .nil
  | outline :: rest, level, h => by
      rw [areWritten, Bool.and_eq_true] at h
      rw [listLines, listClauses]
      exact (shows_lines outline level h.1).append (shows_listLines rest level h.2)

end

/-- Clauses after those of definitions at a level may go on at that level. -/
theorem within_listClauses (outlines : List Outline) {level : Nat}
    {rest : List (Nat × List Token)} (h : Layout.Within level rest) :
    Layout.Within level (listClauses level outlines ++ rest) := by
  cases outlines with
  | nil =>
      rw [listClauses]
      exact h
  | cons outline outlines =>
      obtain ⟨name, header, nested⟩ := outline
      rw [listClauses, clauses]
      exact Layout.within_cons level _ _

mutual

/-- **Braces come back to where they opened**: the clauses of a definition, and of what follows it
at its level or further out, are the tokens of the definition and those of what follows. -/
theorem tokens_clauses : ∀ (outline : Outline) {level : Nat} {rest : List (Nat × List Token)},
    Layout.Within level rest →
      Layout.tokens level (outline.clauses level ++ rest) =
        outline.tokens ++ Layout.tokens level rest
  | mk name header [], level, rest, _ => by
      rw [clauses, listClauses, tokens, scopeTokens, List.cons_append, List.nil_append,
        Layout.tokens, Layout.braceTokens_self]
      simp only [List.nil_append, List.cons_append, List.append_assoc]
  | mk name header (mk inner innerHeader innerNested :: others), level, rest, h => by
      have hnested := tokens_listClauses (mk inner innerHeader innerNested :: others)
        (h.mono (Nat.le_succ level))
      have hopen : ∃ clause code,
          listClauses (level + 1) (mk inner innerHeader innerNested :: others) =
            (level + 1, clause) :: code := by
        rw [listClauses, clauses]
        exact ⟨_, _, rfl⟩
      obtain ⟨clause, code, hclauses⟩ := hopen
      rw [hclauses, List.cons_append, Layout.tokens_close h] at hnested
      rw [clauses, hclauses, List.cons_append, List.cons_append, Layout.tokens,
        Layout.braceTokens_self, Layout.tokens_open, hnested, tokens, scopeTokens, listTokens]
      simp only [List.nil_append, List.cons_append, List.append_assoc]

theorem tokens_listClauses : ∀ (outlines : List Outline) {level : Nat}
    {rest : List (Nat × List Token)}, Layout.Within level rest →
      Layout.tokens level (listClauses level outlines ++ rest) =
        listTokens outlines ++ Layout.tokens level rest
  | [], level, rest, _ => by rw [listClauses, listTokens, List.nil_append, List.nil_append]
  | outline :: outlines, level, rest, h => by
      rw [listClauses, listTokens, List.append_assoc, List.append_assoc,
        tokens_clauses outline (within_listClauses outlines h), tokens_listClauses outlines h]

end

end Outline

namespace Item

/-- The lines of an item. -/
def lines : Item → List String
  | define outline => outline.lines 0
  | declare name declaration => [Layout.line 0 (declaration.text name)]

/-- The clauses of an item. -/
def clauses : Item → List (Nat × List Token)
  | define outline => outline.clauses 0
  | declare name declaration => [(0, .name name :: declaration.tokens)]

theorem shows_lines {item : Item} (h : item.isWritten = true) :
    Layout.Shows item.lines item.clauses := by
  cases item with
  | define outline => exact outline.shows_lines 0 h
  | declare name declaration =>
      rw [isWritten, Bool.and_eq_true] at h
      exact .clause 0 (Declaration.fragment h.1 h.2) .nil

theorem tokens_clauses (item : Item) {rest : List (Nat × List Token)} (h : Layout.Within 0 rest) :
    Layout.tokens 0 (item.clauses ++ rest) = item.tokens ++ Layout.tokens 0 rest := by
  cases item with
  | define outline => exact outline.tokens_clauses h
  | declare name declaration =>
      rw [clauses, tokens, List.cons_append, List.nil_append, Layout.tokens,
        Layout.braceTokens_self]
      simp only [List.nil_append, List.cons_append, List.append_assoc]

/-- Items start at the outermost level. -/
theorem within_clauses (items : List Item) : Layout.Within 0 (items.flatMap clauses) := by
  cases items with
  | nil => exact nofun
  | cons item items =>
      rw [List.flatMap_cons]
      cases item with
      | define outline =>
          obtain ⟨name, header, nested⟩ := outline
          rw [clauses, Outline.clauses]
          exact Layout.within_cons 0 _ _
      | declare name declaration => exact Layout.within_cons 0 _ _

/-- The lines of items show their clauses. -/
theorem shows_flatMap : ∀ items : List Item, (∀ item ∈ items, item.isWritten = true) →
    Layout.Shows (items.flatMap lines) (items.flatMap clauses)
  | [], _ => .nil
  | item :: items, h => by
      obtain ⟨hitem, hitems⟩ := List.forall_mem_cons.1 h
      rw [List.flatMap_cons, List.flatMap_cons]
      exact (shows_lines hitem).append (shows_flatMap items hitems)

/-- The clauses of items, with terminators and braces, are the tokens of the items. -/
theorem tokens_flatMap : ∀ items : List Item,
    Layout.tokens 0 (items.flatMap clauses) = items.flatMap tokens
  | [] => rfl
  | item :: items => by
      rw [List.flatMap_cons, List.flatMap_cons, item.tokens_clauses (within_clauses items),
        tokens_flatMap items]

end Item

/-! ## 3. Texts -/

theorem Text.pieces_intercalate {lines : List String} (hne : lines ≠ [])
    (h : ∀ line ∈ lines, Inline line.toList) :
    pieces '\n' ("\n".intercalate lines).toList = lines.map String.toList := by
  have hend : ∀ line ∈ lines.map String.toList, '\n' ∉ line := by
    intro line hline hmem
    obtain ⟨text, htext, rfl⟩ := List.mem_map.1 hline
    exact (h text htext '\n' hmem).1 rfl
  rw [pieces_eq_splitOn, String.toList_intercalate]
  exact List.splitOn_intercalate '\n' hend (mt List.map_eq_nil_iff.1 hne)

/-- The empty text has one line, which is blank. -/
theorem Layout.Shows.exists_ne_nil {lines : List String} {code : List (Nat × List Token)}
    (h : Shows lines code) :
    ∃ shown, shown ≠ [] ∧ Shows shown code ∧ "\n".intercalate shown = "\n".intercalate lines := by
  cases lines with
  | nil =>
      refine ⟨[""], List.cons_ne_nil _ _, .filler (by decide) h, ?_⟩
      rw [String.intercalate_singleton, String.intercalate_nil]
  | cons line lines => exact ⟨_, List.cons_ne_nil line lines, h, rfl⟩

/-- A text whose rows hold clauses is read as what the grammar makes of their tokens. -/
theorem Layout.Holds.compile (origin : Nat) {rows : List Row} {code : List (Nat × List Token)}
    (h : Holds rows code) {lines : List String} (hne : lines ≠ [])
    (hinline : ∀ line ∈ lines, Text.Inline line.toList)
    (hrows : readRows 1 (lines.map fun line => withoutReturn line.toList) = .ok rows) :
    ∃ lexemes, Carries lexemes (Layout.tokens 0 code) ∧
      Offside.compile origin ("\n".intercalate lines) =
        (Program.ofTokens origin lexemes).mapError .parse := by
  obtain ⟨lexemes, hscan, htokens⟩ := (h.spelt 0).scan 0
  refine ⟨lexemes, htokens, ?_⟩
  rw [← String.ofList_toList (s := "\n".intercalate lines), compile_ofList, compileChars,
    Text.pieces_intercalate hne hinline, List.map_map]
  change ((readRows 1 (lines.map fun line => withoutReturn line.toList)).mapError
    Error.layout >>= _) = _
  rw [hrows]
  change ((Lexer.scan ⟨0, none⟩ (Layout.write 0 rows)).mapError Error.lex >>= _) = _
  rw [hscan]
  rfl

/-- A text whose lines show clauses is read as what the grammar makes of their tokens. -/
theorem Layout.Shows.compile (origin : Nat) {lines : List String} {code : List (Nat × List Token)}
    (h : Shows lines code) :
    ∃ lexemes, Carries lexemes (Layout.tokens 0 code) ∧
      Offside.compile origin ("\n".intercalate lines) =
        (Program.ofTokens origin lexemes).mapError .parse := by
  obtain ⟨shown, hne, hshown, htext⟩ := h.exists_ne_nil
  obtain ⟨rows, hrows, hholds⟩ := hshown.readRows 1
  rw [← htext]
  exact hholds.compile origin hne hshown.inline hrows

/-- **A line with one item is read as the program with this item**, whatever comment stands after
it. -/
theorem Layout.Clause.compile (origin : Nat) {text trailing : String} {tokens : List Token}
    (h : Clause text tokens) (htrailing : isFiller trailing = true) {item : Item}
    (hitem : Item.Derives true (tokens ++ [.semicolon]) [item]) (hdistinct : Item.Distinct [item]) :
    Offside.compile origin (text ++ trailing) = .ok (Program.ofItems origin [item]) := by
  have hinline : Text.Inline (text ++ trailing).toList := by
    rw [isFiller, Bool.and_eq_true] at htrailing
    rw [String.toList_append]
    exact h.inline.append (of_decide_eq_true htrailing.1)
  have hrow : readRow 1 (withoutReturn (text ++ trailing).toList) = .ok (.code 0 text.toList) := by
    have hline := readRow_clause h htrailing 1 0
    rwa [toList_line] at hline
  have hholds : Holds [.code 0 text.toList] [(0, tokens)] := .code h.spelt .nil
  have hrows : readRows 1 ([text ++ trailing].map fun line => withoutReturn line.toList) =
      .ok [.code 0 text.toList] := by
    rw [List.map_singleton, readRows, hrow]
    rfl
  obtain ⟨lexemes, hcarries, hcompile⟩ := hholds.compile origin (List.cons_ne_nil _ _)
    (List.forall_mem_singleton.2 hinline) hrows
  have htokens : Layout.tokens 0 [(0, tokens)] = tokens ++ [.semicolon] := by
    rw [Layout.tokens, Layout.tokens, braceTokens_self, List.nil_append]
  have hprogram : Program.ofTokens origin lexemes = .ok (Program.ofItems origin [item]) := by
    refine Program.Derives.ofTokens_eq_ok ⟨[item], ?_, hdistinct, rfl⟩
    rw [← htokens, ← hcarries] at hitem
    exact hitem
  rw [String.intercalate_singleton] at hcompile
  rw [hcompile, hprogram]
  rfl

/-- **Reading inverts writing.** A text that has the lines of items, and between them blank lines
and lines with only a comment, is read as the program with these items. -/
theorem compile_lines (origin : Nat) {items : List Item} {lines : List String}
    (hwritten : ∀ item ∈ items, item.isWritten = true) (hdistinct : Item.Distinct items)
    (hlines : (lines.filter fun line => !Layout.isFiller line) = items.flatMap Item.lines) :
    compile origin ("\n".intercalate lines) = .ok (Program.ofItems origin items) := by
  have hshown : Layout.Shows lines (items.flatMap Item.clauses) :=
    .ofFilter (hlines ▸ Item.shows_flatMap items hwritten)
  obtain ⟨lexemes, hcarries, hcompile⟩ := hshown.compile origin
  rw [Item.tokens_flatMap] at hcarries
  rw [hcompile, Program.ofTokens_items origin hwritten hdistinct hcarries]
  rfl

/-- A struct, a union, a function with two levels of nested functions, and a constant. -/
def sketchItems : List Item :=
  [.declare "Cell" (.struct [("size", .integer), ("label", .func [.integer, .truth] .string)]),
   .declare "Slot" (.union ["Cell", "None"]),
   .define (.mk "grow" ⟨.integer, [("cell", .named "Cell"), ("step", .integer)],
       .call (.var "twice") [.call (.var "Cell.size") [.var "cell"]]⟩
     [.mk "twice" ⟨.integer, [("n", .integer)],
         .call (.var "once") [.call (.var "once") [.var "n"]]⟩
       [.mk "once" ⟨.integer, [("m", .integer)], .call (.var "plus") [.var "m", .var "step"]⟩ []]]),
   .define (.mk "title" ⟨.string, [], .lit (.str "a # \"b\"\n\\")⟩ []),
   .define (.mk "main" ⟨.integer, [], .call (.var "grow") [.var "unit", .lit (.int 40)]⟩
     [.mk "unit" ⟨.named "Cell", [], .call (.var "Cell") [.lit (.int 2), .var "name"]⟩ []])]

/-- The lines of these items among others. -/
def sketchLines : List String :=
  ["# cells",
   "Cell := struct size:Integer label:(Integer, Boolean -> String)",
   "Slot := union Cell | None",
   "",
   "grow:Integer cell:Cell step:Integer = (twice (Cell.size cell))",
   "    twice:Integer n:Integer = (once (once n))",
   "      # not a multiple of four, and not \"code\"",
   "        once:Integer m:Integer = (plus m step)",
   "   ",
   "title:String = \"a # \\\"b\\\"\\n\\\\\"",
   "main:Integer = (grow unit 40)",
   "    unit:Cell = (Cell 2 name)",
   ""]

theorem compile_sketchLines :
    (∀ item ∈ sketchItems, item.isWritten = true) ∧ Item.Distinct sketchItems ∧
      (sketchLines.filter fun line => !Layout.isFiller line) = sketchItems.flatMap Item.lines ∧
        compile programOrigin ("\n".intercalate sketchLines) =
          .ok (Program.ofItems programOrigin sketchItems) := by
  have hwritten : ∀ item ∈ sketchItems, item.isWritten = true := by decide +kernel
  have hdistinct : Item.Distinct sketchItems := by decide +kernel
  have hlines : (sketchLines.filter fun line => !Layout.isFiller line) =
      sketchItems.flatMap Item.lines := by decide +kernel
  exact ⟨hwritten, hdistinct, hlines, compile_lines programOrigin hwritten hdistinct hlines⟩

end Offside
