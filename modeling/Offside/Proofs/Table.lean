import Mathlib.Data.List.Forall2
import Mathlib.Data.List.Nodup
import Mathlib.Data.String.Basic
import Offside.Table

/-!
# Lookup in tables

What `Table.find?` answers after the operations that build a table:

* `Table.find?_merge` -- in a table laid over another, the last entry of a name counts;
* `Table.find?_mapEntries` -- changing the entries changes the answer and no more;
* `Table.find?_forall₂` -- two lists with the same names and related entries give related answers;
* `Table.admits_append_iff` -- entries are new to a table one after the other exactly if they are
  new to it together;
* `Table.Ordered.insert` -- insertion keeps the order, so that a table has each name once
  (`Table.Ordered.nodup`) and `find?` finds every entry (`Table.find?_of_mem`);
* `Table.Rel` -- two tables have the same names in the same order, with related entries;
* `Table.Ordered.ext` -- two tables with the same answers are equal, hence the order of entries with
  distinct names does not matter (`Table.ofList_perm`), and tables may be made of parts
  (`Table.ofList_flatMap_ofList`);
* `NameSet.mem_ofList`, `NameSet.pairwise_ofList` -- the names of a list, each once and in order.
-/

namespace Offside

namespace Table

variable {α β : Type}

/-! ## 1. Entries and names -/

theorem find?_cons (key name : String) (value : α) (rest : Table α) :
    find? ((key, value) :: rest) name = if key = name then some value else find? rest name := rfl

theorem find?_insert (table : Table α) (name other : String) (value : α) :
    find? (insert table name value) other =
      if name = other then some value else find? table other := by
  split
  · rename_i h
    subst h
    exact find?_insert_self table name value
  · rename_i h
    exact find?_insert_of_ne table value (Ne.symm h)

theorem find?_append (front back : Table α) (name : String) :
    find? (front ++ back) name = (find? front name).or (find? back name) := by
  induction front with
  | nil => rfl
  | cons entry rest ih =>
      obtain ⟨key, value⟩ := entry
      rw [List.cons_append, find?_cons, find?_cons]
      split
      · rfl
      · exact ih

theorem mem_of_find? {table : Table α} {name : String} {value : α}
    (h : find? table name = some value) : (name, value) ∈ table := by
  induction table with
  | nil => cases h
  | cons entry rest ih =>
      obtain ⟨key, old⟩ := entry
      rw [find?_cons] at h
      split at h
      · rename_i hkey
        subst hkey
        cases h
        exact List.mem_cons_self
      · exact List.mem_cons_of_mem _ (ih h)

theorem find?_eq_none {table : Table α} {name : String} :
    find? table name = none ↔ name ∉ names table := by
  induction table with
  | nil => simp [names]
  | cons entry rest ih =>
      obtain ⟨key, value⟩ := entry
      rw [find?_cons]
      by_cases h : key = name
      · simp [h, names]
      · simpa [h, Ne.symm h, names] using ih

theorem contains_eq_false {table : Table α} {name : String} :
    contains table name = false ↔ find? table name = none := by
  simp [contains]

/-- Where each name stands once, `find?` finds every entry. -/
theorem find?_of_mem {table : Table α} (hn : (names table).Nodup) {name : String} {value : α}
    (h : (name, value) ∈ table) : find? table name = some value := by
  induction table with
  | nil => cases h
  | cons entry rest ih =>
      obtain ⟨key, old⟩ := entry
      obtain ⟨hkey, hrest⟩ := List.nodup_cons.1 hn
      rw [find?_cons]
      rcases List.mem_cons.1 h with e | h
      · cases e
        simp
      · have hne : key ≠ name := by
          rintro rfl
          exact hkey (List.mem_map.2 ⟨_, h, rfl⟩)
        rw [if_neg hne]
        exact ih hrest h

/-- Where each name stands once, the order of the entries does not matter to `find?`. -/
theorem find?_reverse {table : Table α} (hn : (names table).Nodup) (name : String) :
    find? table.reverse name = find? table name := by
  cases h : find? table name with
  | none =>
      rw [find?_eq_none] at h ⊢
      simpa [names] using h
  | some value =>
      refine find?_of_mem ?_ (List.mem_reverse.2 (mem_of_find? h))
      rw [names, List.map_reverse]
      exact List.pairwise_reverse.2 (hn.imp Ne.symm)

/-! ## 2. Tables made from tables -/

/-- **The last entry of a name counts**: the later one of the table above, and the entry below
only where there is none above. -/
theorem find?_merge (below above : Table α) (name : String) :
    find? (merge below above) name = (find? above.reverse name).or (find? below name) := by
  induction above generalizing below with
  | nil => rfl
  | cons entry rest ih =>
      obtain ⟨key, value⟩ := entry
      have hstep : merge below ((key, value) :: rest) = merge (insert below key value) rest := rfl
      rw [hstep, ih, List.reverse_cons, find?_append, find?_insert, Option.or_assoc, find?_cons]
      split <;> rfl

/-- In the table of a list of pairs, the last pair of a name counts. -/
theorem find?_ofList (entries : List (String × α)) (name : String) :
    find? (ofList entries) name = find? entries.reverse name := by
  rw [ofList, find?_merge, find?_nil, Option.or_none]

theorem find?_ofList_append (first second : List (String × α)) (name : String) :
    find? (ofList (first ++ second)) name =
      (find? (ofList second) name).or (find? (ofList first) name) := by
  rw [find?_ofList, find?_ofList, find?_ofList, List.reverse_append, find?_append]

theorem mem_of_find?_ofList {entries : List (String × α)} {name : String} {value : α}
    (h : find? (ofList entries) name = some value) : (name, value) ∈ entries := by
  rw [find?_ofList] at h
  exact List.mem_reverse.1 (mem_of_find? h)

theorem find?_mapEntries (f : String → α → β) (table : Table α) (name : String) :
    find? (mapEntries f table) name = (find? table name).map (f name) := by
  induction table with
  | nil => rfl
  | cons entry rest ih =>
      obtain ⟨key, value⟩ := entry
      have hstep : mapEntries f ((key, value) :: rest) = (key, f key value) :: mapEntries f rest :=
        rfl
      rw [hstep, find?_cons, find?_cons]
      split
      · rename_i h
        subst h
        rfl
      · exact ih

/-- Lists with the same names and related entries give related answers. -/
theorem find?_forall₂ {R : α → β → Prop} {left : Table α} {right : Table β}
    (h : List.Forall₂ (fun a b => a.1 = b.1 ∧ R a.2 b.2) left right) (name : String) :
    Option.Rel R (find? left name) (find? right name) := by
  induction h with
  | nil => exact .none
  | @cons a b _ _ hab _ ih =>
      obtain ⟨key, value⟩ := a
      obtain ⟨other, value'⟩ := b
      obtain ⟨rfl, hR⟩ : key = other ∧ R value value' := hab
      rw [find?_cons, find?_cons]
      split
      · exact .some hR
      · exact ih

/-- Lists with the same names in the same order, and related entries. -/
theorem forall₂_of_names {R : α → β → Prop} {left : Table α} {right : Table β}
    (hnames : names left = names right)
    (heach : List.Forall₂ R (left.map (·.2)) (right.map (·.2))) :
    List.Forall₂ (fun a b => a.1 = b.1 ∧ R a.2 b.2) left right := by
  induction left generalizing right with
  | nil =>
      cases right with
      | nil => exact .nil
      | cons _ _ => cases hnames
  | cons a left ih =>
      cases right with
      | nil => cases hnames
      | cons b right =>
          obtain ⟨hname, hrest⟩ := List.cons.inj hnames
          cases heach with
          | cons hab heach => exact .cons ⟨hname, hab⟩ (ih hrest heach)

/-! ## 3. New names -/

theorem find?_merge_eq_none {below above : Table α} {name : String} :
    find? (merge below above) name = none ↔ name ∉ names above ∧ find? below name = none := by
  rw [find?_merge, Option.or_eq_none_iff, find?_eq_none, names, List.map_reverse, List.mem_reverse,
    names]

/-- The names are new to the table, and each stands once. -/
structure Admits (table : Table α) (new : List String) : Prop where
  nodup : new.Nodup
  free : ∀ name ∈ new, find? table name = none

theorem admits_nil (table : Table α) : Admits table [] :=
  ⟨List.nodup_nil, fun _ h => absurd h List.not_mem_nil⟩

theorem admits_singleton_iff {table : Table α} {name : String} :
    Admits table [name] ↔ find? table name = none := by
  constructor
  · exact fun h => h.free name (List.mem_singleton_self name)
  · intro h
    refine ⟨List.pairwise_singleton _ name, fun other hother => ?_⟩
    rw [List.mem_singleton.1 hother]
    exact h

/-- **Entries are new one after the other exactly if they are new together.** -/
theorem admits_append_iff {table : Table α} {new : List String} (entries : Table α) :
    Admits table (names entries ++ new) ↔
      Admits table (names entries) ∧ Admits (merge table entries) new := by
  constructor
  · intro h
    obtain ⟨hentries, hnew, hdisjoint⟩ := List.nodup_append.1 h.nodup
    refine ⟨⟨hentries, fun name hname => h.free name (List.mem_append_left _ hname)⟩, hnew,
      fun name hname => find?_merge_eq_none.2 ⟨fun hold => ?_, ?_⟩⟩
    · exact hdisjoint name hold name hname rfl
    · exact h.free name (List.mem_append_right _ hname)
  · rintro ⟨hentries, hnew⟩
    have hfree : ∀ name ∈ new, name ∉ names entries ∧ find? table name = none :=
      fun name hname => find?_merge_eq_none.1 (hnew.free name hname)
    refine ⟨List.nodup_append.2 ⟨hentries.nodup, hnew.nodup, ?_⟩, fun name hname => ?_⟩
    · rintro name hold _ hname rfl
      exact (hfree name hname).1 hold
    · rcases List.mem_append.1 hname with hold | hname
      · exact hentries.free name hold
      · exact (hfree name hname).2

/-! ## 4. Order -/

theorem mem_insert {table : Table α} {name : String} {value : α} {entry : String × α}
    (h : entry ∈ insert table name value) : entry = (name, value) ∨ entry ∈ table := by
  induction table with
  | nil => exact Or.inl (List.mem_singleton.1 h)
  | cons first rest ih =>
      obtain ⟨key, old⟩ := first
      rw [insert] at h
      split at h
      · exact List.mem_cons.1 h
      · split at h
        · rcases List.mem_cons.1 h with h | h
          · exact Or.inl h
          · exact Or.inr (List.mem_cons_of_mem _ h)
        · rcases List.mem_cons.1 h with h | h
          · exact Or.inr (h ▸ List.mem_cons_self)
          · exact (ih h).imp id (List.mem_cons_of_mem _)

/-- Insertion of a new name keeps every entry. -/
theorem mem_insert_of_mem {table : Table α} {name : String} {value : α} {entry : String × α}
    (hnew : find? table name = none) (h : entry ∈ table) : entry ∈ insert table name value := by
  induction table with
  | nil => cases h
  | cons first rest ih =>
      obtain ⟨key, old⟩ := first
      rw [find?_cons] at hnew
      split at hnew
      · cases hnew
      · rename_i hne
        rw [insert]
        split
        · exact List.mem_cons_of_mem _ h
        · rw [if_neg (Ne.symm hne)]
          rcases List.mem_cons.1 h with h | h
          · exact h ▸ List.mem_cons_self
          · exact List.mem_cons_of_mem _ (ih hnew h)

theorem Ordered.insert {table : Table α} (h : Ordered table) (name : String) (value : α) :
    Ordered (insert table name value) := by
  induction table with
  | nil => simp [Table.insert, Ordered, names]
  | cons first rest ih =>
      obtain ⟨key, old⟩ := first
      obtain ⟨hkey, hrest⟩ := List.pairwise_cons.1 h
      rw [Table.insert]
      split
      · rename_i hlt
        refine List.pairwise_cons.2 ⟨fun other hother => ?_, h⟩
        rcases List.mem_cons.1 hother with rfl | hother
        · exact hlt
        · exact lt_trans hlt (hkey other hother)
      · rename_i hlt
        split
        · rename_i heq
          subst heq
          exact h
        · rename_i hne
          have hgt : key < name := lt_of_le_of_ne (not_lt.1 hlt) (Ne.symm hne)
          refine List.pairwise_cons.2 ⟨fun other hother => ?_, ih hrest⟩
          obtain ⟨entry, hentry, rfl⟩ := List.mem_map.1 hother
          rcases mem_insert hentry with rfl | hentry
          · exact hgt
          · exact hkey _ (List.mem_map_of_mem hentry)

theorem Ordered.nodup {table : Table α} (h : Ordered table) : (names table).Nodup :=
  List.Pairwise.imp (fun hlt => ne_of_lt hlt) h

theorem Ordered.merge {below : Table α} (h : Ordered below) (above : Table α) :
    Ordered (merge below above) := by
  induction above generalizing below with
  | nil => exact h
  | cons entry rest ih => exact ih (h.insert entry.1 entry.2)

theorem mem_merge {below above : Table α} {entry : String × α} (h : entry ∈ merge below above) :
    entry ∈ above ∨ entry ∈ below := by
  induction above generalizing below with
  | nil => exact .inr h
  | cons first rest ih =>
      rcases ih h with hrest | hbelow
      · exact .inl (List.mem_cons_of_mem _ hrest)
      · rcases mem_insert hbelow with rfl | hbelow
        · exact .inl List.mem_cons_self
        · exact .inr hbelow

/-! ## 5. Related tables -/

/-- Two tables have the same names in the same order, and related entries. -/
inductive Rel (R : α → β → Prop) : Table α → Table β → Prop
  | nil : Rel R [] []
  | cons {a : α} {b : β} {left : Table α} {right : Table β} (name : String) (head : R a b)
      (tail : Rel R left right) : Rel R ((name, a) :: left) ((name, b) :: right)

namespace Rel

variable {R : α → β → Prop} {left : Table α} {right : Table β}

theorem find? (h : Rel R left right) (name : String) :
    Option.Rel R (Table.find? left name) (Table.find? right name) := by
  induction h with
  | nil => exact .none
  | cons key head _ ih =>
      rw [find?_cons, find?_cons]
      split
      · exact .some head
      · exact ih

theorem isEmpty_eq (h : Rel R left right) : left.isEmpty = right.isEmpty := by
  cases h <;> rfl

theorem insert (h : Rel R left right) (name : String) {a : α} {b : β} (hab : R a b) :
    Rel R (Table.insert left name a) (Table.insert right name b) := by
  induction h with
  | nil => exact .cons name hab .nil
  | cons key head tail ih =>
      unfold Table.insert
      split
      · exact .cons name hab (.cons key head tail)
      · split
        · exact .cons name hab tail
        · exact .cons key head ih

/-- Related entries make related tables. -/
theorem ofList (h : Rel R left right) : Rel R (Table.ofList left) (Table.ofList right) := by
  have hmerge : ∀ {below : Table α} {below' : Table β}, Rel R below below' →
      Rel R (merge below left) (merge below' right) := by
    induction h with
    | nil => exact fun hbelow => hbelow
    | cons name head _ ih => exact fun hbelow => ih (hbelow.insert name head)
  exact hmerge .nil

/-- Names with related lists. -/
theorem zip {as : List α} {bs : List β} (h : List.Forall₂ R as bs) (names : List String) :
    Rel R (names.zip as) (names.zip bs) := by
  induction h generalizing names with
  | nil =>
      rw [List.zip_nil_right, List.zip_nil_right]
      exact .nil
  | cons hab _ ih =>
      cases names with
      | nil => exact .nil
      | cons name names => exact .cons name hab (ih names)

end Rel

/-! ## 6. Equal tables -/

/-- **A table is what `find?` answers.** -/
theorem Ordered.ext {left right : Table α} (hleft : Ordered left) (hright : Ordered right)
    (h : ∀ name, Table.find? left name = Table.find? right name) : left = right := by
  have hmem : ∀ entry, entry ∈ left ↔ entry ∈ right := by
    intro entry
    constructor
    · intro hentry
      exact mem_of_find? ((h entry.1).symm.trans (find?_of_mem hleft.nodup hentry))
    · intro hentry
      exact mem_of_find? ((h entry.1).trans (find?_of_mem hright.nodup hentry))
  have hperm : left.Perm right :=
    (List.perm_ext_iff_of_nodup (List.Nodup.of_map _ hleft.nodup)
      (List.Nodup.of_map _ hright.nodup)).2 hmem
  refine hperm.eq_of_pairwise ?_ (List.pairwise_map.1 hleft) (List.pairwise_map.1 hright)
  intro a b _ _ hab hba
  exact absurd hab (lt_asymm hba)

theorem ordered_ofList (entries : List (String × α)) : Ordered (ofList entries) := by
  have hnil : Ordered ([] : Table α) := List.Pairwise.nil
  exact hnil.merge entries

theorem mem_names_ofList {entries : List (String × α)} {name : String} :
    name ∈ names (ofList entries) ↔ name ∈ names entries := by
  rw [← not_iff_not, ← find?_eq_none, ← find?_eq_none, find?_ofList, find?_eq_none, find?_eq_none,
    names, List.map_reverse, List.mem_reverse, names]

/-- The order of entries with distinct names does not matter. -/
theorem ofList_perm {entries entries' : List (String × α)} (hperm : entries.Perm entries')
    (hnodup : (names entries).Nodup) : ofList entries = ofList entries' := by
  have hnodup' : (names entries').Nodup := (hperm.map _).nodup_iff.1 hnodup
  refine (ordered_ofList entries).ext (ordered_ofList entries') fun name => ?_
  rw [find?_ofList, find?_ofList, find?_reverse hnodup, find?_reverse hnodup']
  cases hfind : find? entries name with
  | none =>
      rw [find?_eq_none] at hfind
      exact (find?_eq_none.2 fun hmem => hfind ((hperm.map _).mem_iff.2 hmem)).symm
  | some value => exact (find?_of_mem hnodup' (hperm.mem_iff.1 (mem_of_find? hfind))).symm

/-- Tables may be made of parts first. -/
theorem ofList_flatMap_ofList (parts : List (List (String × α))) :
    ofList (parts.flatMap ofList) = ofList parts.flatten := by
  refine (ordered_ofList _).ext (ordered_ofList _) fun name => ?_
  induction parts with
  | nil => rfl
  | cons part parts ih =>
      have hpart : find? (ofList (ofList part)) name = find? (ofList part) name := by
        rw [find?_ofList, find?_reverse (ordered_ofList part).nodup]
      rw [List.flatMap_cons, List.flatten_cons, find?_ofList_append, find?_ofList_append, ih, hpart]

theorem mapEntries_insert (f : String → α → β) (table : Table α) (name : String) (value : α) :
    mapEntries f (insert table name value) = insert (mapEntries f table) name (f name value) := by
  induction table with
  | nil => rfl
  | cons entry rest ih =>
      obtain ⟨key, old⟩ := entry
      unfold mapEntries at ih ⊢
      simp only [insert, List.map_cons]
      split
      · rfl
      · split
        · rfl
        · rw [List.map_cons, ih]

/-- The entries of a table may be changed before it is made. -/
theorem mapEntries_ofList (f : String → α → β) (entries : List (String × α)) :
    mapEntries f (ofList entries) = ofList (mapEntries f entries) := by
  have hmerge : ∀ below : Table α, mapEntries f (merge below entries) =
      merge (mapEntries f below) (mapEntries f entries) := by
    induction entries with
    | nil => exact fun _ => rfl
    | cons entry rest ih =>
        intro below
        exact (ih _).trans (by rw [mapEntries_insert]; rfl)
  exact hmerge []

end Table

/-! ## 7. Sets of names -/

namespace NameSet

theorem mem_insert {set : NameSet} {name other : String} :
    other ∈ insert set name ↔ other = name ∨ other ∈ set := by
  induction set with
  | nil => exact List.mem_cons
  | cons key rest ih =>
      rw [insert]
      split
      · exact List.mem_cons
      · split
        · rename_i heq
          simp [heq]
        · rw [List.mem_cons, ih, List.mem_cons, or_left_comm]

/-- The set of a list has the names of the list. -/
theorem mem_ofList {names : List String} {name : String} : name ∈ ofList names ↔ name ∈ names := by
  have hfold : ∀ set : NameSet, name ∈ names.foldl insert set ↔ name ∈ names ∨ name ∈ set := by
    induction names with
    | nil => simp
    | cons first rest ih =>
        intro set
        rw [List.foldl_cons, ih, mem_insert, List.mem_cons, or_left_comm, or_assoc]
  simpa [ofList] using hfold []

theorem pairwise_insert {set : NameSet} (h : set.Pairwise (· < ·)) (name : String) :
    (insert set name).Pairwise (· < ·) := by
  induction set with
  | nil => exact List.pairwise_singleton _ name
  | cons key rest ih =>
      obtain ⟨hkey, hrest⟩ := List.pairwise_cons.1 h
      rw [insert]
      split
      · rename_i hlt
        refine List.pairwise_cons.2 ⟨fun other hother => ?_, h⟩
        rcases List.mem_cons.1 hother with rfl | hother
        · exact hlt
        · exact lt_trans hlt (hkey other hother)
      · rename_i hlt
        split
        · exact h
        · rename_i hne
          refine List.pairwise_cons.2 ⟨fun other hother => ?_, ih hrest⟩
          rcases mem_insert.1 hother with rfl | hother
          · exact lt_of_le_of_ne (not_lt.1 hlt) (Ne.symm hne)
          · exact hkey other hother

/-- The set of a list is in increasing order, whatever the order of the list. -/
theorem pairwise_ofList (names : List String) : (ofList names).Pairwise (· < ·) := by
  have hfold : ∀ set : NameSet, set.Pairwise (· < ·) →
      (names.foldl insert set).Pairwise (· < ·) := by
    induction names with
    | nil => exact fun _ h => h
    | cons first rest ih => exact fun set h => ih _ (pairwise_insert h first)
  exact hfold [] List.Pairwise.nil

end NameSet

end Offside
