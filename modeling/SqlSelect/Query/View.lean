import SqlSelect.Schema.Table
import SqlSelect.Statement.Expr

/-!
# Column Views

A view is what a query hands to whoever writes its projection and filters: the columns of one table,
each under its field and already qualified by the alias that the table goes by.

## Main definitions

- `QueryError` — what can go wrong while a query is built
- `View` — the columns of one table under one alias
- `View.column` — the column of a field, or the error that names the table

## Main statements

- `Table.column_view` — what the view of a table finds under a field
-/

namespace SqlSelect

/-- What can go wrong while a query is built. -/
inductive QueryError where
  /-- A query was asked for over this number of tables. -/
  | arity (n : Nat)
  /-- The table, by its SQL name, has no such field. -/
  | unknownColumn (table field : String)
  deriving DecidableEq

def QueryError.message : QueryError → String
  | arity n => "a query takes 1, 2 or 3 tables, got " ++ toString n
  | unknownColumn table field => "unknown column: " ++ table ++ "." ++ field

/-- The columns of one table, seen through one alias. -/
structure View where
  /-- The SQL name of the table. -/
  table : String
  aliasName : String
  /-- The qualified columns, each under its field. -/
  entries : List (String × ColumnRef)
  deriving DecidableEq

namespace View

/-- The view of given columns of a table, which keep their fields. -/
def ofEntries (table aliasName : String) (entries : List (String × Column)) : View :=
  ⟨table, aliasName, entries.map fun e => (e.1, { aliasName := aliasName, column := e.2 })⟩

def fields (v : View) : List String := v.entries.map Prod.fst

def columns (v : View) : List ColumnRef := v.entries.map Prod.snd

/-- The column of a field, if there is one. -/
def column? (v : View) (field : String) : Option ColumnRef := v.entries.lookup field

def column (v : View) (field : String) : Except QueryError ColumnRef :=
  match v.column? field with
  | some c => .ok c
  | none => .error (.unknownColumn v.table field)

end View

/-- The view of all columns of a table. -/
def Table.view (t : Table) (aliasName : String) : View := View.ofEntries t.name aliasName t.entries

/-! ## The view of a table -/

theorem Table.fields_view (t : Table) (a : String) : (t.view a).fields = t.fields := by
  rw [view, View.ofEntries, View.fields, List.map_map]
  rfl

/-- Qualifying columns does not change under which field they are found. -/
theorem View.column?_ofEntries (table a f : String) (entries : List (String × Column)) :
    (ofEntries table a entries).column? f = (entries.lookup f).map fun c => ⟨a, c, none⟩ := by
  induction entries with
  | nil => rfl
  | cons e es ih =>
    -- The lookup of a view goes by its entries in order, just as that of a table does.
    have hcons : (ofEntries table a (e :: es)).column? f =
        match f == e.1 with
        | true => some ⟨a, e.2, none⟩
        | false => (ofEntries table a es).column? f := rfl
    rw [hcons, ih, List.lookup_cons]
    cases f == e.1 <;> rfl

/-- A view finds the column of a field qualified by its alias, or says which field of which table is
missing. -/
theorem Table.column_view (t : Table) (a f : String) :
    (t.view a).column f =
      match t.column? f with
      | some c => .ok ⟨a, c, none⟩
      | none => .error (.unknownColumn t.name f) := by
  have hfind : (t.view a).column? f = (t.column? f).map fun c => ⟨a, c, none⟩ :=
    View.column?_ofEntries t.name a f t.entries
  rw [View.column, hfind]
  cases t.column? f <;> rfl

end SqlSelect
