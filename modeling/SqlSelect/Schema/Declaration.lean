import SqlSelect.Schema.Table

/-!
# Declared Tables

A declaration lists the fields of a table ahead of time.  Carrying it out registers them one by one
and keeps the handle that each registration returns.

## Main definitions

- `Declaration` — an identifier with its fields and their options
- `DeclaredTable` — a table together with the handles of its fields
- `Declaration.declare` — register every field of a declaration
-/

namespace SqlSelect

/-- A table written down ahead of time. -/
structure Declaration where
  ident : String
  /-- The fields in order, with the options of each. -/
  fields : List (String × List ColumnOption)

/-- A table with the handle of each of its fields, in order of registration. -/
structure DeclaredTable where
  table : Table
  handles : List (String × Column)
  deriving DecidableEq

namespace DeclaredTable

def handle? (d : DeclaredTable) (field : String) : Option Column := d.handles.lookup field

/-- Register one more field, with a counter of its own. -/
def addField (d : DeclaredTable × Counters) (field : String × List ColumnOption) :
    Except RegisteredTwice (DeclaredTable × Counters) := do
  let (handle, table) ← d.1.table.register field.1 field.2 d.2.next
  return (⟨table, d.1.handles ++ [(field.1, handle)]⟩, d.2.allot)

end DeclaredTable

/-- Carry out a declaration, under a SQL name of its own or under its identifier. -/
def Declaration.declare (d : Declaration) (name : Option String) (counters : Counters) :
    Except RegisteredTwice (DeclaredTable × Counters) :=
  d.fields.foldlM DeclaredTable.addField (⟨Table.empty d.ident name, []⟩, counters)

end SqlSelect
