import SqlSelect.Schema.Column

/-!
# Tables

A table is a named list of columns in the order of their registration, each under the field that it
is found by.  Merging tables gives the shape of a query over them.

## Main definitions

- `Table.fields`, `Table.columns` — the fields and the columns, in the order of registration
- `Table.column?` — the column of a field
- `Table.register` — add a column, unless its field is taken
- `Table.merged` — the union of tables: an earlier column wins, and reserved fields stay behind
-/

namespace SqlSelect

structure Table where
  /-- The identifier of the definition, which is also its alias when none is given. -/
  ident : String
  name : String
  /-- The columns, each under its field, in the order of registration. -/
  entries : List (String × Column)
  deriving DecidableEq

/-- A second registration of a field on one table. -/
structure RegisteredTwice where
  field : String
  table : String
  deriving DecidableEq

def RegisteredTwice.message (e : RegisteredTwice) : String :=
  "column `" ++ e.field ++ "` registered twice on table `" ++ e.table ++ "`"

/-- Whether a field is internal to its table: it starts with an underscore. -/
def isReserved (field : String) : Bool := field.toList.head? == some '_'

namespace Table

/-- A table without columns.  Without a name of its own it goes by its identifier. -/
def empty (ident : String) (name : Option String) : Table := ⟨ident, name.getD ident, []⟩

def fields (t : Table) : List String := t.entries.map Prod.fst

def columns (t : Table) : List Column := t.entries.map Prod.snd

/-- The column of a field, if there is one. -/
def column? (t : Table) (field : String) : Option Column := t.entries.lookup field

/-- A column is found only if it is there, and under a field of the table. -/
theorem mem_entries_of_column? {t : Table} {f : String} {c : Column} (h : t.column? f = some c) :
    (f, c) ∈ t.entries := by
  obtain ⟨before, after, hsplit, -⟩ := List.lookup_eq_some_iff.mp h
  rw [hsplit]
  exact List.mem_append_right _ (List.mem_cons_self ..)

theorem mem_columns_of_column? {t : Table} {f : String} {c : Column} (h : t.column? f = some c) :
    c ∈ t.columns := List.mem_map_of_mem (mem_entries_of_column? h)

/-- The table with a column added at the end, under a field. -/
def add (t : Table) (field : String) (c : Column) : Table :=
  { t with entries := t.entries ++ [(field, c)] }

@[simp]
theorem entries_add (t : Table) (field : String) (c : Column) :
    (t.add field c).entries = t.entries ++ [(field, c)] := rfl

@[simp]
theorem fields_add (t : Table) (field : String) (c : Column) :
    (t.add field c).fields = t.fields ++ [field] := List.map_append

@[simp]
theorem columns_add (t : Table) (field : String) (c : Column) :
    (t.add field c).columns = t.columns ++ [c] := List.map_append

/-- Register a column under a field that is not taken yet, and return it with the new table. -/
def register (t : Table) (field : String) (options : List ColumnOption) (counter : Nat) :
    Except RegisteredTwice (Column × Table) :=
  if t.fields.contains field then .error ⟨field, t.name⟩
  else
    let c := Column.define field t.name options counter
    .ok (c, t.add field c)

/-- Carry a column over into a merge under the field that it has, unless the field is reserved or
already taken there. -/
def mergeEntry (merged : List (String × Column)) (e : String × Column) : List (String × Column) :=
  if isReserved e.1 || (merged.map Prod.fst).contains e.1 then merged else merged ++ [e]

/-- The columns of several tables, keyed by field: the first column of a field is kept and reserved
fields are dropped. -/
def mergeEntries (tables : List Table) : List (String × Column) :=
  (tables.flatMap (·.entries)).foldl mergeEntry []

/-- The merged table of several. -/
def merged (name : String) (tables : List Table) : Table := ⟨name, name, mergeEntries tables⟩

end Table

end SqlSelect
