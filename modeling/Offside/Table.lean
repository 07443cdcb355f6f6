/-!
# Tables of named entries

Definitions of a scope, bindings of a frame, declared types and unions are all tables: lists of
pairs in increasing order of name, each name once. A table is a plain list, so that syntax trees
may hold tables of themselves; the operations below keep the order.

* `Table.find?` -- the entry of a name;
* `Table.insert` -- puts an entry in its place, over an old one of the same name;
* `Table.merge` -- lays one table over another;
* `NameSet` -- tables without entries: names in increasing order.
-/

namespace Offside

/-- Named entries, in increasing order of name and each name once. -/
abbrev Table (α : Type) := List (String × α)

namespace Table

variable {α β : Type}

/-- The entry of `name`. -/
def find? (table : Table α) (name : String) : Option α :=
  match table with
  | [] => none
  | (key, value) :: rest => if key = name then some value else find? rest name

/-- Whether `name` has an entry. -/
def contains (table : Table α) (name : String) : Bool :=
  (find? table name).isSome

/-- The names, in order. -/
def names (table : Table α) : List String :=
  table.map (·.1)

/-- Puts an entry in its place; an old entry of the name is replaced. -/
def insert (table : Table α) (name : String) (value : α) : Table α :=
  match table with
  | [] => [(name, value)]
  | (key, old) :: rest =>
    if name < key then (name, value) :: (key, old) :: rest
    else if name = key then (name, value) :: rest
    else (key, old) :: insert rest name value

/-- Lays the entries of `above`, in their order, over `below`. -/
def merge (below above : Table α) : Table α :=
  above.foldl (fun table entry => insert table entry.1 entry.2) below

/-- The table of a list of pairs; of two pairs with one name the later counts. -/
def ofList (entries : List (String × α)) : Table α :=
  merge [] entries

/-- Changes every entry, and no name. -/
def mapEntries (f : String → α → β) (table : Table α) : Table β :=
  table.map fun entry => (entry.1, f entry.1 entry.2)

/-- Increasing order of name, hence each name once. -/
def Ordered (table : Table α) : Prop :=
  (names table).Pairwise (· < ·)

/-! ## Lookup after insertion -/

@[simp] theorem find?_nil (name : String) : find? ([] : Table α) name = none := rfl

@[simp] theorem find?_insert_self (table : Table α) (name : String) (value : α) :
    find? (insert table name value) name = some value := by
  induction table with
  | nil => simp [insert, find?]
  | cons entry rest ih =>
    obtain ⟨key, old⟩ := entry
    rw [insert]
    split
    · simp [find?]
    · split
      · simp [find?]
      · rename_i h
        simp [find?, Ne.symm h, ih]

theorem find?_insert_of_ne (table : Table α) {name other : String} (value : α)
    (h : other ≠ name) : find? (insert table name value) other = find? table other := by
  induction table with
  | nil => simp [insert, find?, Ne.symm h]
  | cons entry rest ih =>
    obtain ⟨key, old⟩ := entry
    rw [insert]
    split
    · simp [find?, Ne.symm h]
    · split
      · rename_i hk
        subst hk
        simp [find?, Ne.symm h]
      · simp [find?, ih]

end Table

/-- Names in increasing order, each once. -/
abbrev NameSet := List String

namespace NameSet

/-- Adds a name in its place. -/
def insert (set : NameSet) (name : String) : NameSet :=
  match set with
  | [] => [name]
  | key :: rest =>
    if name < key then name :: key :: rest
    else if name = key then key :: rest
    else key :: insert rest name

/-- The set of a list of names. -/
def ofList (names : List String) : NameSet :=
  names.foldl insert []

/-- Whether every name of `small` is in `large`. -/
def subset (small large : NameSet) : Bool :=
  small.all fun name => large.contains name

end NameSet

end Offside
